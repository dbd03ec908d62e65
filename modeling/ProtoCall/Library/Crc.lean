import Mathlib.Data.List.Basic
import Mathlib.Logic.Function.Basic

-- The division of a stream of bits by a polynomial over the field of two elements, one bit at a time.
-- The remainder is a register of n bits, and the polynomial comes without its leading term.
namespace Crc

variable {n : ℕ} (poly : BitVec n)

def step (rem : BitVec n) (bit : Bool) : BitVec n :=
  if rem.msb ^^ bit then (rem <<< 1) ^^^ poly else rem <<< 1

def divide (rem : BitVec n) (bits : List Bool) : BitVec n := bits.foldl (step poly) rem

-- The k highest bits, the highest one first. Behind the last one there are zeros.
def top : ℕ → BitVec n → List Bool
  | 0, _       => []
  | k + 1, rem => rem.msb :: top k (rem <<< 1)

-- The register that has these bits at its upper end.
def align : List Bool → BitVec n
  | []          => 0#n
  | bit :: bits => if bit then align bits >>> 1 ^^^ .twoPow n (n - 1) else align bits >>> 1

variable {poly} {rem rem' : BitVec n} {bit bit' : Bool} {bits bits' : List Bool} {k i : ℕ}

theorem divide_nil : divide poly rem [] = rem := rfl

theorem divide_cons : divide poly rem (bit :: bits) = divide poly (step poly rem bit) bits := rfl

section Linear

theorem step_xor :
    step poly (rem ^^^ rem') (bit ^^ bit') = step poly rem bit ^^^ step poly rem' bit' := by
  have hs : (rem ^^^ rem') <<< 1 = rem <<< 1 ^^^ rem' <<< 1 := BitVec.shiftLeft_xor_distrib ..
  simp only [step, BitVec.msb_xor, hs]
  cases rem.msb <;> cases rem'.msb <;> cases bit <;> cases bit' <;>
    simp [BitVec.xor_assoc, BitVec.xor_comm poly]

-- The division of a sum is the sum of the divisions.
theorem divide_xor (h : bits.length = bits'.length) :
    divide poly (rem ^^^ rem') (List.zipWith xor bits bits') =
      divide poly rem bits ^^^ divide poly rem' bits' := by
  induction bits generalizing bits' rem rem'
  case nil =>
    obtain rfl := List.length_eq_zero_iff.mp h.symm
    rfl
  case cons bit bits hi =>
    cases bits'
    case nil => contradiction
    case cons bit' bits' =>
      rw [List.zipWith_cons_cons, divide_cons, step_xor, hi (Nat.succ.inj h)]
      rfl

end Linear

section Windows

theorem msb_twoPow (h : 0 < n) : (BitVec.twoPow n (n - 1)).msb := by
  rw [BitVec.msb_eq_getLsbD_last, BitVec.getLsbD_twoPow]
  simpa using Nat.sub_lt h Nat.one_pos

theorem twoPow_shiftLeft : BitVec.twoPow n (n - 1) <<< 1 = 0#n := by
  apply BitVec.eq_of_getLsbD_eq
  intro i hi
  rw [BitVec.getLsbD_shiftLeft, BitVec.getLsbD_twoPow]
  simp
  omega

theorem zipWith_xor_self : List.zipWith xor bits bits = List.replicate bits.length false := by
  simp [List.zipWith_self]

theorem zipWith_xor_cancel (h : bits'.length = bits.length) :
    List.zipWith xor bits' (List.zipWith xor bits bits') = bits := by
  induction bits generalizing bits'
  case nil => simp
  case cons bit bits hi =>
    cases bits'
    case nil => contradiction
    case cons bit' bits' => simp [hi (Nat.succ.inj h), Bool.xor_comm bit]

theorem length_top : (top k rem).length = k := by
  induction k generalizing rem
  case zero       => rfl
  case succ k hi => rw [top, List.length_cons, hi]

-- Where the bits are those that are shifted out, there is nothing to be divided.
theorem divide_top : divide poly rem (top k rem) = rem <<< k := by
  induction k generalizing rem
  case zero => simp [top, divide_nil]
  case succ k hi =>
    have hs : step poly rem rem.msb = rem <<< 1 := by simp [step]
    rw [top, divide_cons, hs, hi, ← BitVec.shiftLeft_add, Nat.add_comm]

-- What has been in the register can be added to the bits that come in.
theorem divide_eq : divide poly rem bits =
    rem <<< bits.length ^^^ divide poly 0#n (List.zipWith xor bits (top bits.length rem)) := by
  have hl : (top bits.length rem).length =
      (List.zipWith xor bits (top bits.length rem)).length := by
    rw [List.length_zipWith, length_top, Nat.min_self]
  have hd : divide poly (rem ^^^ 0#n) _ = divide poly rem _ ^^^ divide poly 0#n _ := divide_xor hl
  rwa [zipWith_xor_cancel length_top, divide_top, BitVec.xor_zero] at hd

theorem getLsbD_align_of_lt (h : i + bits.length < n) :
    (align bits : BitVec n).getLsbD i = false := by
  induction bits generalizing i
  case nil => simp [align]
  case cons bit bits hi =>
    rw [List.length_cons] at h
    have hs : (align bits >>> 1 : BitVec n).getLsbD i = false := by
      rw [BitVec.getLsbD_ushiftRight, Nat.add_comm]
      exact hi (by omega)
    have ht : (BitVec.twoPow n (n - 1)).getLsbD i = false := by
      rw [BitVec.getLsbD_twoPow]
      simp
      omega
    rw [align]
    split <;> simp [hs, ht]

theorem align_shiftLeft : (align bits : BitVec n) <<< bits.length = 0#n := by
  apply BitVec.eq_of_getLsbD_eq
  intro i hi
  rw [BitVec.getLsbD_shiftLeft]
  by_cases hl : i < bits.length
  case pos => simp [hl]
  case neg =>
    have ha : (align bits : BitVec n).getLsbD (i - bits.length) = false :=
      getLsbD_align_of_lt (by omega)
    simp [ha]

theorem msb_align (h : 0 < n) : (align (bit :: bits) : BitVec n).msb = bit := by
  have hs : (align bits >>> 1 : BitVec n).msb = false := by
    rw [BitVec.msb_ushiftRight]
    rfl
  rw [align]
  cases bit <;> simp [hs, msb_twoPow h]

theorem align_cons_shiftLeft (h : bits.length < n) :
    (align (bit :: bits) : BitVec n) <<< 1 = align bits := by
  have hs : (align bits >>> 1 : BitVec n) <<< 1 = align bits := by
    apply BitVec.eq_of_getLsbD_eq
    intro i hi
    rw [BitVec.getLsbD_shiftLeft, BitVec.getLsbD_ushiftRight]
    have hz : (align bits : BitVec n).getLsbD 0 = false := getLsbD_align_of_lt (by omega)
    cases i
    case zero   => simp [hz]
    case succ i => simp [hi, Nat.add_comm 1 i]
  rw [align]
  split
  case isTrue  => rw [BitVec.shiftLeft_xor_distrib, hs, twoPow_shiftLeft, BitVec.xor_zero]
  case isFalse => exact hs

theorem top_align (h : bits.length ≤ n) : top bits.length (align bits : BitVec n) = bits := by
  induction bits
  case nil => rfl
  case cons bit bits hi =>
    rw [List.length_cons] at h
    rw [List.length_cons, top, msb_align (by omega), align_cons_shiftLeft h, hi (by omega)]

theorem top_eq_map : top k rem = (List.range k).map rem.getMsbD := by
  induction k generalizing rem
  case zero => rfl
  case succ k hi =>
    rw [top, hi, List.range_succ_eq_map, List.map_cons, List.map_map, BitVec.msb]
    congr 1
    apply List.map_congr_left
    intro i _
    rw [BitVec.getMsbD_shiftLeft, Function.comp, Nat.succ_eq_add_one, Nat.add_comm]

theorem getElem?_top (h : i < k) : (top k rem)[i]? = some (rem.getMsbD i) := by
  rw [top_eq_map, List.getElem?_map, List.getElem?_range h, Option.map_some]

theorem zipWith_top : List.zipWith xor (top k rem) (top k rem') = top k (rem ^^^ rem') := by
  simp only [top_eq_map, List.zipWith_map, List.zipWith_self]
  exact List.map_congr_left fun _ _ => BitVec.getMsbD_xor.symm

theorem reverse_xor : (rem ^^^ rem').reverse = rem.reverse ^^^ rem'.reverse := by
  apply BitVec.eq_of_getLsbD_eq
  intro i _
  simp only [BitVec.getLsbD_reverse, BitVec.getLsbD_xor, BitVec.getMsbD_xor]

theorem reverse_shiftLeft : (rem <<< k).reverse = rem.reverse >>> k := by
  apply BitVec.eq_of_getLsbD_eq
  intro i hi
  simp only [BitVec.getLsbD_reverse, BitVec.getLsbD_ushiftRight, BitVec.getMsbD_shiftLeft]
  rw [Nat.add_comm]

-- The k highest bits, as a number.
def head (k : ℕ) (rem : BitVec n) : BitVec k := (rem.reverse.setWidth k).reverse

theorem top_head : top k (head k rem) = top k rem := by
  rw [top_eq_map, top_eq_map]
  apply List.map_congr_left
  intro i hi
  rw [head, BitVec.getMsbD_reverse, BitVec.getLsbD_setWidth, BitVec.getLsbD_reverse,
    decide_eq_true (List.mem_range.mp hi), Bool.true_and]

-- Put into the register the other way around, a number is at the lower end of it.
theorem reverse_align_top {x : BitVec k} (h : k ≤ n) :
    (align (top k x.reverse) : BitVec n).reverse = x.setWidth n := by
  have hl : (top k x.reverse).length = k := length_top
  apply BitVec.eq_of_getLsbD_eq
  intro i hi
  rw [BitVec.getLsbD_reverse, BitVec.getLsbD_setWidth, decide_eq_true hi, Bool.true_and]
  by_cases hk : i < k
  case pos =>
    have ht : top k (align (top k x.reverse) : BitVec n) = top k x.reverse := by
      have ht : top _ (align (top k x.reverse) : BitVec n) = _ := top_align <| by rwa [hl]
      rwa [hl] at ht
    have hg := congrArg (·[i]?) ht
    rw [getElem?_top hk, getElem?_top hk, BitVec.getMsbD_reverse] at hg
    exact Option.some.inj hg
  case neg =>
    have ha : (align (top k x.reverse) : BitVec n).getLsbD (n - 1 - i) = false :=
      getLsbD_align_of_lt <| by omega
    rw [BitVec.getMsbD_eq_getLsbD, ha, Bool.and_false, BitVec.getLsbD_of_ge _ _ <| Nat.le_of_not_lt hk]

-- Not more bits than the register has can be put into it beforehand.
theorem divide_eq_align (h : bits.length ≤ n) : divide poly rem bits =
    divide poly (rem ^^^ align bits) (List.replicate bits.length false) := by
  have ha : divide poly (align bits) bits = 0#n := by
    have hd : divide poly (align bits) (top bits.length (align bits : BitVec n)) = _ := divide_top
    rwa [top_align h, align_shiftLeft] at hd
  rw [← zipWith_xor_self, divide_xor rfl, ha, BitVec.xor_zero]

end Windows

end Crc
