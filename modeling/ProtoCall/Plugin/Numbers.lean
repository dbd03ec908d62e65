import ProtoCall.Library.Rounding
import ProtoCall.Plugin.Utilities

namespace ProtoCall

section Checksum

variable {crc : ℕ} {byte : UInt8} {bytes : List UInt8}

theorem crcBit_lt (h : crc < 2 ^ 32) : crcBit crc < 2 ^ 32 := by
  rw [crcBit]
  split
  case isTrue  => exact Nat.xor_lt_two_pow (by omega) (by decide)
  case isFalse => omega

theorem crcByte_lt (h : crc < 2 ^ 32) : crcByte crc byte < 2 ^ 32 := by
  have hb : byte.toNat < 2 ^ 32 := byte.toNat_lt.trans (by decide)
  exact Function.Iterate.rec (· < 2 ^ 32) (Nat.xor_lt_two_pow h hb) (fun _ => crcBit_lt) 8

theorem crc32_lt : crc32 bytes < 2 ^ 32 := by
  have h : bytes.foldl crcByte 0xFFFFFFFF < 2 ^ 32 :=
    List.foldlRecOn bytes crcByte (motive := (· < 2 ^ 32)) (by decide) fun _ h _ _ => crcByte_lt h
  exact Nat.xor_lt_two_pow h (by decide)

example : crc32 "123456789".toUTF8.toList = 0xCBF43926 := by decide +kernel

def checksum (methodName : String) : ℕ := crc32 methodName.toUTF8.toList

theorem checksum_lt {methodName : String} : checksum methodName < 2 ^ 32 := crc32_lt

end Checksum

section Exact

variable {methodName methodName' : String}

theorem generateExtensionNumber_eq :
    generateExtensionNumber methodName =
      ↑(9 + 536869903 * checksum methodName / 4294967295) := by
  push_cast
  rfl

-- The number is the excluded minimum for checksums up to 8, and it is one of the reserved numbers
-- for 8000 others, as the range is shortened by the reserved numbers rather than freed from them.
theorem isValidExtensionNumber_iff :
    isValidExtensionNumber (generateExtensionNumber methodName) ↔
      8 < checksum methodName ∧ (checksum methodName < 151929 ∨ 159929 ≤ checksum methodName) := by
  have hlt : checksum methodName < 2 ^ 32 := checksum_lt
  rw [generateExtensionNumber_eq]
  generalize checksum methodName = hash at *
  rw [isValidExtensionNumber, minExtensionNumber, maxExtensionNumber, firstReservedNumber,
    lastReservedNumber]
  simp only [Bool.and_eq_true, decide_eq_true_eq, Bool.not_eq_true', Bool.and_eq_false_iff,
    decide_eq_false_iff_not]
  omega

theorem not_isValidExtensionNumber :
    ¬isValidExtensionNumber (generateExtensionNumber "MeshService.writeNodeFrame") := by
  decide +kernel

-- Two checksums that are scaled to the same number.
def Crowded (hash hash' : ℕ) : Prop :=
  536869903 * min hash hash' % 4294967295 + 536869903 * (max hash hash' - min hash hash') <
    4294967295

instance {hash hash' : ℕ} : Decidable (Crowded hash hash') := inferInstanceAs (Decidable (_ < _))

theorem Crowded.max_le {hash hash' : ℕ} (h : Crowded hash hash') :
    max hash hash' ≤ min hash hash' + 8 := by
  rw [Crowded] at h
  omega

theorem generateExtensionNumber_eq_iff :
    generateExtensionNumber methodName = generateExtensionNumber methodName' ↔
      Crowded (checksum methodName) (checksum methodName') := by
  rw [generateExtensionNumber_eq, generateExtensionNumber_eq, Crowded]
  generalize checksum methodName = hash
  generalize checksum methodName' = hash'
  rcases Nat.le_total hash hash' with hle | hle
  case inl => rw [min_eq_left hle, max_eq_right hle]; omega
  case inr => rw [min_eq_right hle, max_eq_left hle]; omega

-- A number is shared only by checksums that are at most eight apart.
theorem checksum_le_of_generateExtensionNumber_eq
    (h : generateExtensionNumber methodName = generateExtensionNumber methodName') :
    checksum methodName ≤ checksum methodName' + 8 := by
  have hc := (generateExtensionNumber_eq_iff.mp h).max_le
  omega

end Exact

section Doubles

-- A double has 53 significant bits. None of the results below is out of the range of its exponents.
def double (x : ℚ) : ℚ := Rounding.round 53 x

-- The number as the source computes it, where `generateExtensionNumber` has the exact arithmetic:
-- every operation rounds to the nearest double, or to the even one of two.
def roundedExtensionNumber (methodName : String) : ℤ :=
  let hash := crc32 methodName.toUTF8.toList
  minExtensionNumber +
    ⌊double (double availableExtensionNumbers * double (double hash / double 4294967295))⌋

variable {methodName methodName' : String}

-- The two values before the cast.
def scaledChecksum (methodName : String) : ℚ := 536869903 * (checksum methodName / 4294967295)

def roundedScaledChecksum (methodName : String) : ℚ :=
  double (536869903 * double (checksum methodName / 4294967295))

theorem generateExtensionNumber_eq_floor :
    generateExtensionNumber methodName = 9 + ⌊scaledChecksum methodName⌋ := by
  have hs : scaledChecksum methodName =
      ((536869903 * checksum methodName : ℕ) : ℚ) / (4294967295 : ℕ) := by
    rw [scaledChecksum, ← mul_div_assoc]
    push_cast
    rfl
  rw [generateExtensionNumber_eq, hs, Rat.floor_natCast_div_natCast]
  push_cast
  rfl

theorem roundedExtensionNumber_eq_floor :
    roundedExtensionNumber methodName = 9 + ⌊roundedScaledChecksum methodName⌋ := by
  have hlt : checksum methodName < 2 ^ 32 := checksum_lt
  have hd (n : ℤ) (h : |n| < 2 ^ 53) : double n = n := Rounding.round_intCast h
  have ha := hd availableExtensionNumbers (by decide)
  have hh := hd (checksum methodName) (by rw [Nat.abs_cast]; omega)
  have hm := hd 4294967295 (by decide)
  push_cast at hh hm
  rw [roundedExtensionNumber, ← checksum, ha, hh, hm]
  rfl

theorem abs_roundedScaledChecksum_sub_le (methodName : String) :
    |roundedScaledChecksum methodName - scaledChecksum methodName| ≤ 1 / 2 ^ 20 := by
  have hlt : (checksum methodName : ℚ) ≤ 4294967295 := mod_cast Nat.le_of_lt_succ checksum_lt
  have hs : |scaledChecksum methodName| ≤ 536869903 := by
    rw [scaledChecksum, abs_of_nonneg (by positivity)]
    linarith
  calc |roundedScaledChecksum methodName - scaledChecksum methodName|
      ≤ 3 * (|scaledChecksum methodName| / 2 ^ 53) := Rounding.abs_round_mul_round_sub_le
    _ ≤ 1 / 2 ^ 20                                 := by linarith

-- The roundings change the number by one at most.
theorem abs_roundedExtensionNumber_sub_le :
    |roundedExtensionNumber methodName - generateExtensionNumber methodName| ≤ 1 := by
  have hd := abs_le.mp (abs_roundedScaledChecksum_sub_le methodName)
  have hl := Int.floor_le (scaledChecksum methodName)
  have hg := Int.lt_floor_add_one (scaledChecksum methodName)
  have hl' := Int.floor_le (roundedScaledChecksum methodName)
  have hg' := Int.lt_floor_add_one (roundedScaledChecksum methodName)
  rw [roundedExtensionNumber_eq_floor, generateExtensionNumber_eq_floor, add_sub_add_left_eq_sub]
  apply Int.le_of_lt_add_one
  rw [← Int.cast_lt (R := ℚ), Int.cast_abs, abs_lt]
  push_cast
  constructor <;> linarith

-- They do not merge the numbers of checksums that are further apart either.
theorem checksum_le_of_roundedExtensionNumber_eq
    (h : roundedExtensionNumber methodName = roundedExtensionNumber methodName') :
    checksum methodName ≤ checksum methodName' + 8 := by
  rw [roundedExtensionNumber_eq_floor, roundedExtensionNumber_eq_floor, add_right_inj] at h
  have hl := (abs_lt.mp <| Int.abs_sub_lt_one_of_floor_eq_floor h).right
  have hd := abs_le.mp (abs_roundedScaledChecksum_sub_le methodName)
  have hd' := abs_le.mp (abs_roundedScaledChecksum_sub_le methodName')
  have hs : scaledChecksum methodName - scaledChecksum methodName' < 1 + 2 / 2 ^ 20 := by linarith
  rw [scaledChecksum, scaledChecksum] at hs
  have hc : (checksum methodName : ℚ) < checksum methodName' + 9 := by linarith
  exact Nat.le_of_lt_succ <| mod_cast hc

-- But they do merge two numbers that the exact arithmetic keeps apart.
example :
    roundedExtensionNumber "Svc.mdaorcfi" = roundedExtensionNumber "Svc.mefuzjel" ∧
      generateExtensionNumber "Svc.mdaorcfi" ≠ generateExtensionNumber "Svc.mefuzjel" := by
  decide +kernel

end Doubles

end ProtoCall
