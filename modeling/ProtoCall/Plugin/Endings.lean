import ProtoCall.Plugin.Descriptor
import ProtoCall.Plugin.Numbers

namespace ProtoCall

section Difference

variable {crc crc' k : ℕ} {byte byte' : UInt8} {bytes bytes' before : List UInt8}

theorem crcBit_xor : crcBit (crc ^^^ crc') = crcBit crc ^^^ crcBit crc' := by
  rw [crcBit, crcBit, crcBit, Nat.xor_div_two]
  simp only [Nat.xor_mod_two_eq_one]
  split <;> split <;> split <;>
    simp_all [Nat.xor_assoc, Nat.xor_left_comm, Nat.xor_comm (crc' / 2)]

theorem crcBit_iterate_xor : crcBit^[k] (crc ^^^ crc') = crcBit^[k] crc ^^^ crcBit^[k] crc' := by
  induction k generalizing crc crc'
  case zero      => rfl
  case succ k hi => rw [Function.iterate_succ_apply, crcBit_xor, hi]; rfl

theorem crcByte_xor :
    crcByte (crc ^^^ crc') (byte ^^^ byte') = crcByte crc byte ^^^ crcByte crc' byte' := by
  rw [crcByte, crcByte, crcByte, ← crcBit_iterate_xor, UInt8.toNat_xor]
  congr 1
  ac_rfl

theorem foldl_crcByte_xor (h : bytes.length = bytes'.length) :
    (List.zipWith (· ^^^ ·) bytes bytes').foldl crcByte (crc ^^^ crc') =
      bytes.foldl crcByte crc ^^^ bytes'.foldl crcByte crc' := by
  induction bytes generalizing bytes' crc crc'
  case nil =>
    obtain rfl := List.length_eq_zero_iff.mp h.symm
    rfl
  case cons byte bytes hi =>
    cases bytes'
    case nil => contradiction
    case cons byte' bytes' =>
      rw [List.zipWith_cons_cons, List.foldl_cons, crcByte_xor, hi (Nat.succ.inj h)]
      rfl

-- What comes before makes no difference to the difference of two checksums.
theorem crc32_xor_crc32 (h : bytes.length = bytes'.length) :
    crc32 (before ++ bytes) ^^^ crc32 (before ++ bytes') =
      (List.zipWith (· ^^^ ·) bytes bytes').foldl crcByte 0 := by
  have hx (a b c : ℕ) : (a ^^^ c) ^^^ (b ^^^ c) = a ^^^ b := by
    rw [Nat.xor_comm b, Nat.xor_assoc, ← Nat.xor_assoc c, Nat.xor_self, Nat.zero_xor]
  rw [crc32, crc32, hx, List.foldl_append, List.foldl_append, ← foldl_crcByte_xor h, Nat.xor_self]

end Difference

section Inverse

variable {crc k p : ℕ} {byte : UInt8} {bytes bytes' : List UInt8}

def uncrcBit (crc : ℕ) : ℕ := if 2 ^ 31 ≤ crc then 2 * (crc ^^^ 0xEDB88320) + 1 else 2 * crc

theorem uncrcBit_crcBit (h : crc < 2 ^ 32) : uncrcBit (crcBit crc) = crc := by
  rw [crcBit]
  split
  case isTrue ho =>
    have hb : (crc / 2 ^^^ 0xEDB88320).testBit 31 := by
      rw [Nat.testBit_xor, Nat.testBit_lt_two_pow (by omega)]
      decide
    rw [uncrcBit, if_pos (Nat.ge_two_pow_of_testBit hb), Nat.xor_assoc, Nat.xor_self, Nat.xor_zero]
    omega
  case isFalse he =>
    rw [uncrcBit, if_neg (by omega)]
    omega

theorem uncrcBit_crcBit_iterate (h : crc < 2 ^ 32) : uncrcBit^[k] (crcBit^[k] crc) = crc := by
  induction k generalizing crc
  case zero => rfl
  case succ k hi =>
    rw [Function.iterate_succ_apply crcBit, Function.iterate_succ_apply', hi (crcBit_lt h),
      uncrcBit_crcBit h]

-- The bytes as the bits that go through the register, the first of them at the lower end.
def pack : List UInt8 → ℕ
  | []            => 0
  | byte :: bytes => 2 ^ 8 * pack bytes + byte.toNat

theorem pack_cons : pack (byte :: bytes) = pack bytes * 2 ^ 8 ^^^ byte.toNat := by
  apply Nat.eq_of_testBit_eq
  intro i
  have hb := byte.toNat_lt
  rw [pack, Nat.testBit_two_pow_mul_add _ hb, Nat.testBit_xor, Nat.testBit_mul_two_pow]
  split
  case isTrue hl =>
    simp [Nat.not_le_of_lt hl]
  case isFalse hg =>
    have hz : byte.toNat.testBit i = false :=
      Nat.testBit_lt_two_pow <| hb.trans_le <| Nat.pow_le_pow_right (by decide) (not_lt.mp hg)
    simp [Nat.le_of_not_lt hg, hz]

theorem pack_lt : pack bytes < 2 ^ (8 * bytes.length) := by
  induction bytes
  case nil => decide
  case cons byte bytes hi =>
    have hb := byte.toNat_lt
    rw [pack, List.length_cons, Nat.mul_succ, Nat.pow_add]
    omega

theorem crcBit_iterate_shift : crcBit^[k] (p * 2 ^ k) = p := by
  induction k
  case zero => exact Nat.mul_one p
  case succ k hi =>
    have hb : crcBit (p * 2 ^ (k + 1)) = p * 2 ^ k := by
      rw [Nat.pow_succ, ← Nat.mul_assoc, crcBit, if_neg (by omega)]
      omega
    rw [Function.iterate_succ_apply, hb, hi]

theorem foldl_crcByte_eq :
    bytes.foldl crcByte crc = crcBit^[8 * bytes.length] (crc ^^^ pack bytes) := by
  induction bytes generalizing crc
  case nil => exact (Nat.xor_zero crc).symm
  case cons byte bytes hi =>
    have hb : crcBit^[8] (crc ^^^ pack (byte :: bytes)) = crcByte crc byte ^^^ pack bytes := by
      rw [pack_cons, Nat.xor_comm _ byte.toNat, ← Nat.xor_assoc, crcBit_iterate_xor,
        crcBit_iterate_shift]
      rfl
    rw [List.foldl_cons, hi, List.length_cons, Nat.mul_succ, Function.iterate_add_apply, hb]

theorem eq_of_pack_zipWith (hl : bytes.length = bytes'.length)
    (h : pack (List.zipWith (· ^^^ ·) bytes bytes') = 0) : bytes = bytes' := by
  induction bytes generalizing bytes'
  case nil => exact (List.length_eq_zero_iff.mp hl.symm).symm
  case cons byte bytes hi =>
    cases bytes'
    case nil => contradiction
    case cons byte' bytes' =>
      rw [List.zipWith_cons_cons, pack] at h
      have hb : byte ^^^ byte' = 0 := UInt8.toNat_inj.mp <| by
        rw [UInt8.toNat_zero]
        omega
      rw [UInt8.xor_eq_zero_iff.mp hb, hi (Nat.succ.inj hl) (by omega)]

theorem testBit_pack {i : ℕ} (h : ∀ byte ∈ bytes, byte.toNat < 2 ^ 7) :
    (pack bytes).testBit (8 * i + 7) = false := by
  induction bytes generalizing i
  case nil => exact Nat.zero_testBit _
  case cons byte bytes hi =>
    rw [pack, Nat.testBit_two_pow_mul_add _ byte.toNat_lt]
    cases i
    case zero => exact Nat.testBit_lt_two_pow <| h byte List.mem_cons_self
    case succ i =>
      have he : 8 * (i + 1) + 7 - 8 = 8 * i + 7 := by omega
      rw [if_neg (by omega), he]
      exact hi fun byte hb => h byte <| List.mem_cons_of_mem _ hb

end Inverse

section Near

variable {n hash hash' : ℕ}

theorem xor_succ : ∃ j, n ^^^ (n + 1) = 2 ^ j - 1 := by
  induction n using Nat.strongRec
  case ind n hi =>
    have hd : (n ^^^ (n + 1)) / 2 = n / 2 ^^^ (n + 1) / 2 := Nat.xor_div_two
    have hm : (n ^^^ (n + 1)) % 2 = 1 := by
      rw [Nat.xor_mod_two_eq_one]
      omega
    rcases Nat.mod_two_eq_zero_or_one n with he | ho
    case inl =>
      have hn : (n + 1) / 2 = n / 2 := by omega
      rw [hn, Nat.xor_self] at hd
      exact ⟨1, by omega⟩
    case inr =>
      have hn : (n + 1) / 2 = n / 2 + 1 := by omega
      obtain ⟨j, hj⟩ := hi (n / 2) (by omega)
      rw [hn, hj] at hd
      have hp : 0 < 2 ^ j := Nat.two_pow_pos j
      exact ⟨j + 1, by omega⟩

-- Checksums that get the same number are apart by less than nine. Those that are apart by up to
-- sixteen have the bits above the lowest four in common, but for a carry.
theorem exists_of_near (hl : hash < 2 ^ 32) (hl' : hash' < 2 ^ 32)
    (h : hash ≤ hash' + 16) (h' : hash' ≤ hash + 16) :
    ∃ j ≤ 28, (hash ^^^ hash') / 2 ^ 4 = 2 ^ j - 1 := by
  have hd : (hash ^^^ hash') / 2 ^ 4 = hash / 2 ^ 4 ^^^ hash' / 2 ^ 4 := Nat.xor_div_two_pow
  have hx : ∃ j, hash / 2 ^ 4 ^^^ hash' / 2 ^ 4 = 2 ^ j - 1 := by
    have hc : hash / 2 ^ 4 = hash' / 2 ^ 4 ∨ hash' / 2 ^ 4 = hash / 2 ^ 4 + 1 ∨
        hash / 2 ^ 4 = hash' / 2 ^ 4 + 1 := by omega
    rcases hc with he | he | he <;> rw [he]
    case inl => exact ⟨0, Nat.xor_self _⟩
    case inr.inl => exact xor_succ
    case inr.inr =>
      rw [Nat.xor_comm]
      exact xor_succ
  obtain ⟨j, hj⟩ := hx
  refine ⟨j, ?_, hd.trans hj⟩
  have hb : hash / 2 ^ 4 ^^^ hash' / 2 ^ 4 < 2 ^ 28 :=
    Nat.xor_lt_two_pow (by omega) (by omega)
  rw [hj] at hb
  rw [← Nat.pow_le_pow_iff_right (a := 2) (by decide)]
  omega

-- A difference between up to three characters of ASCII, where the highest bits have to be clear.
def OfAscii (k difference : ℕ) : Prop :=
  difference < 2 ^ (8 * k) ∧ ∀ i < 3, difference.testBit (8 * i + 7) = false

instance {k difference : ℕ} : Decidable (OfAscii k difference) := inferInstanceAs (Decidable (_ ∧ _))

-- There are 464 differences that come from such checksums. What has been put in is found by going
-- back from them: it is longer than three bytes, or one of its bytes is not a difference of ASCII.
theorem eq_zero_of_near : ∀ k ≤ 3, ∀ j ≤ 28, ∀ l < 2 ^ 4,
    OfAscii k (uncrcBit^[8 * k] ((2 ^ j - 1) * 2 ^ 4 + l)) →
      uncrcBit^[8 * k] ((2 ^ j - 1) * 2 ^ 4 + l) = 0 := by
  decide +kernel

end Near

section Bytes

variable {bytes bytes' before : List UInt8}

theorem eq_of_near (hl : bytes.length = bytes'.length) (hk : bytes.length ≤ 3)
    (ha : ∀ byte ∈ bytes, byte.toNat < 2 ^ 7) (ha' : ∀ byte ∈ bytes', byte.toNat < 2 ^ 7)
    (h : crc32 (before ++ bytes) ≤ crc32 (before ++ bytes') + 16)
    (h' : crc32 (before ++ bytes') ≤ crc32 (before ++ bytes) + 16) : bytes = bytes' := by
  apply eq_of_pack_zipWith hl
  let difference := List.zipWith (· ^^^ ·) bytes bytes'
  have hd : ∀ byte ∈ difference, byte.toNat < 2 ^ 7 := by
    intro byte hb
    obtain ⟨i, hi, rfl⟩ := List.mem_iff_getElem.mp hb
    rw [List.getElem_zipWith, UInt8.toNat_xor]
    exact Nat.xor_lt_two_pow (ha _ <| List.getElem_mem _) (ha' _ <| List.getElem_mem _)
  have hn : difference.length = bytes.length := by rw [List.length_zipWith, ← hl, Nat.min_self]
  have hp : OfAscii bytes.length (pack difference) := ⟨hn ▸ pack_lt, fun i _ => testBit_pack hd⟩
  have hp' : pack difference < 2 ^ 32 :=
    hp.left.trans_le <| Nat.pow_le_pow_right (by decide) (by omega)
  obtain ⟨j, hj, he⟩ := exists_of_near crc32_lt crc32_lt h h'
  rw [crc32_xor_crc32 hl, foldl_crcByte_eq, Nat.zero_xor, hn] at he
  have hc : uncrcBit^[8 * bytes.length] (crcBit^[8 * bytes.length] (pack difference)) = _ :=
    uncrcBit_crcBit_iterate hp'
  rw [← Nat.div_add_mod' (crcBit^[8 * bytes.length] (pack difference)) (2 ^ 4), he] at hc
  have hz := eq_zero_of_near bytes.length hk j hj
    (crcBit^[8 * bytes.length] (pack difference) % 2 ^ 4) (Nat.mod_lt _ (by decide))
  rw [hc] at hz
  exact hz hp

end Bytes

section Names

variable {stem ending ending' : String}

def Ascii (name : String) : Prop := ∀ c ∈ name.toList, c.toNat < 2 ^ 7

theorem loop_toList {bytes : ByteArray} {i : ℕ} {r : List UInt8} :
    ByteArray.toList.loop bytes i r = r.reverse ++ bytes.data.toList.drop i := by
  fun_induction ByteArray.toList.loop bytes i r
  case case1 i r hl hi =>
    have hs : i < bytes.data.toList.length := hl
    have hg : bytes.get! i = bytes.data.toList[i] := getElem!_pos bytes.data i hl
    rw [hi, List.reverse_cons, List.append_assoc, List.drop_eq_getElem_cons hs, hg]
    rfl
  case case2 i r hl =>
    have hs : bytes.data.toList.length ≤ i := not_lt.mp hl
    rw [List.drop_of_length_le hs, List.append_nil]

theorem toUTF8_eq : stem.toUTF8.toList = stem.toList.flatMap String.utf8EncodeChar := by
  have hl (bytes : ByteArray) : bytes.toList = bytes.data.toList := loop_toList
  rw [hl, String.toUTF8_eq_toByteArray, ← String.utf8Encode_toList, List.utf8Encode,
    List.data_toByteArray]

theorem toUTF8_append :
    (stem ++ ending).toUTF8.toList = stem.toUTF8.toList ++ ending.toUTF8.toList := by
  rw [toUTF8_eq, toUTF8_eq, toUTF8_eq, String.toList_append, List.flatMap_append]

theorem toUTF8_injective (h : ending.toUTF8.toList = ending'.toUTF8.toList) : ending = ending' := by
  have hl (bytes : ByteArray) : bytes.toList = bytes.data.toList := loop_toList
  rw [hl, hl] at h
  exact String.toByteArray_inj.mp <| ByteArray.ext <| Array.toList_inj.mp h

theorem toUTF8_of_ascii (h : Ascii ending) :
    ending.toUTF8.toList = ending.toList.map (·.val.toUInt8) := by
  rw [toUTF8_eq, List.map_eq_flatMap, List.flatMap_def, List.flatMap_def]
  congr 1
  apply List.map_congr_left
  intro c hc
  exact String.utf8EncodeChar_eq_singleton <| Char.utf8Size_eq_one_iff.mpr <|
    Nat.le_of_lt_succ (h c hc)

theorem forall_toUTF8_of_ascii (h : Ascii ending) :
    ∀ byte ∈ ending.toUTF8.toList, byte.toNat < 2 ^ 7 := by
  rw [toUTF8_of_ascii h]
  intro byte hb
  obtain ⟨c, hc, rfl⟩ := List.mem_map.mp hb
  exact (Nat.mod_le ..).trans_lt (h c hc)

-- Names that are the same but for three characters at the end do not get checksums that are near.
theorem eq_of_checksum_le (hl : ending.length = ending'.length) (hk : ending.length ≤ 3)
    (ha : Ascii ending) (ha' : Ascii ending')
    (h : checksum (stem ++ ending) ≤ checksum (stem ++ ending') + 16)
    (h' : checksum (stem ++ ending') ≤ checksum (stem ++ ending) + 16) : ending = ending' := by
  have hb {name : String} (h : Ascii name) : name.toUTF8.toList.length = name.length := by
    rw [toUTF8_of_ascii h, List.length_map, String.length_toList]
  rw [checksum, checksum, toUTF8_append, toUTF8_append] at h h'
  exact toUTF8_injective <| eq_of_near (by rwa [hb ha, hb ha']) (by rwa [hb ha])
    (forall_toUTF8_of_ascii ha) (forall_toUTF8_of_ascii ha') h h'

end Names

-- The methods of a service have names of the same length, with up to three different characters at
-- the end of them.
structure ServiceDescriptor.Enumerates (service : ServiceDescriptor) (stem : String) (k : ℕ) :
    Prop where
  short    : k ≤ 3
  ending   : ∀ method ∈ service.methods, ∃ ending,
    method.fullName = stem ++ ending ∧ ending.length = k ∧ Ascii ending
  distinct : (service.methods.map (·.fullName)).Nodup

def ServiceDescriptor.roundedIds (service : ServiceDescriptor) : List ℤ :=
  service.methods.map (roundedExtensionNumber ·.fullName)

-- Numbers that only checksums near to each other share are not shared by such methods.
theorem ServiceDescriptor.Enumerates.eq_of_checksum_le {service : ServiceDescriptor}
    {stem : String} {k : ℕ} (h : service.Enumerates stem k) {method method' : MethodDescriptor}
    (hm : method ∈ service.methods) (hm' : method' ∈ service.methods)
    (hc : checksum method.fullName ≤ checksum method'.fullName + 8)
    (hc' : checksum method'.fullName ≤ checksum method.fullName + 8) : method = method' := by
  obtain ⟨ending, hn, hl, ha⟩ := h.ending method hm
  obtain ⟨ending', hn', hl', ha'⟩ := h.ending method' hm'
  rw [hn, hn'] at hc hc'
  have hc : checksum (stem ++ ending) ≤ checksum (stem ++ ending') + 16 := by omega
  have hc' : checksum (stem ++ ending') ≤ checksum (stem ++ ending) + 16 := by omega
  have he : ending = ending' :=
    ProtoCall.eq_of_checksum_le (hl.trans hl'.symm) (hl ▸ h.short) ha ha' hc hc'
  exact List.inj_on_of_nodup_map h.distinct hm hm' <| hn.trans <| he ▸ hn'.symm

-- With the exact arithmetic as with the doubles of the source.
theorem ids_nodup_of_enumerates {service : ServiceDescriptor} {stem : String} {k : ℕ}
    (h : service.Enumerates stem k) : service.ids.Nodup ∧ service.roundedIds.Nodup := by
  constructor
  case left =>
    refine List.Nodup.map_on ?_ h.distinct.of_map
    intro method hm method' hm' he
    exact h.eq_of_checksum_le hm hm' (checksum_le_of_generateExtensionNumber_eq he)
      (checksum_le_of_generateExtensionNumber_eq he.symm)
  case right =>
    refine List.Nodup.map_on ?_ h.distinct.of_map
    intro method hm method' hm' he
    exact h.eq_of_checksum_le hm hm' (checksum_le_of_roundedExtensionNumber_eq he)
      (checksum_le_of_roundedExtensionNumber_eq he.symm)

-- The methods of this service are numbered.
def numbered : ServiceDescriptor where
  fullName := "MeshService"
  methods  := ["01", "02", "10"].map fun ending => {
    fullName   := "MeshService.get" ++ ending
    inputType  := ⟨"Request", []⟩
    outputType := ⟨"Response", []⟩
  }

theorem ids_nodup_numbered : numbered.ids.Nodup ∧ numbered.roundedIds.Nodup := by
  have ha : ∀ ending ∈ ["01", "02", "10"], ending.length = 2 ∧
      ending.toList.all (·.toNat < 2 ^ 7) := by decide +kernel
  have h : numbered.Enumerates "MeshService.get" 2 := {
    short    := by decide
    ending   := fun method hm => by
      obtain ⟨ending, he, rfl⟩ := List.mem_map.mp hm
      obtain ⟨hl, hc⟩ := ha ending he
      exact ⟨ending, rfl, hl, fun c hm => of_decide_eq_true <| List.all_eq_true.mp hc c hm⟩
    distinct := by decide +kernel
  }
  exact ids_nodup_of_enumerates h

end ProtoCall
