import ProtoCall.Library.Crc
import ProtoCall.Plugin.Numbers

-- The checksums of `boost/crc.hpp`. A `value_type` of w bits holds the register, and can be wider than
-- it.
namespace ProtoCall.BoostCrc

open Crc

variable {w : ℕ}

-- The loop of `reflector<Bits>::reflect`, with the number of rounds that are left.
def reflectLoop : ℕ → BitVec w → BitVec w → BitVec w
  | 0, _, reflection     => reflection
  | k + 1, x, reflection =>
    let reflection := if x.getLsbD 0 then reflection ||| 1#w <<< k else reflection
    reflectLoop k (x >>> 1) reflection

def reflect (bits : ℕ) (x : BitVec w) : BitVec w := reflectLoop bits x 0

-- The parameters of `crc_optimal`, which are also what a `crc_basic` is constructed with.
structure Parameters (w : ℕ) where
  bits       : ℕ
  truncPoly  : BitVec w
  initRem    : BitVec w
  finalXor   : BitVec w
  reflectIn  : Bool
  reflectRem : Bool
  bits_pos   : 0 < bits
  bits_le    : bits ≤ w
  byte_le    : 8 ≤ w

namespace Parameters

variable (p : Parameters w)

def highBit : BitVec w := 1#w <<< (p.bits - 1)

def sigBits : BitVec w := ~~~(~~~0#w <<< p.bits)

end Parameters

namespace Basic

variable (p : Parameters w)

def processBit (rem : BitVec w) (bit : Bool) : BitVec w :=
  let rem := rem ^^^ (if bit then p.highBit else 0)
  let doPolyDiv := rem &&& p.highBit ≠ 0
  let rem := rem <<< 1
  if doPolyDiv then rem ^^^ p.truncPoly else rem

-- The loop of `process_bits`, with the number of bits that are left.
def processBitsLoop : ℕ → BitVec w → BitVec 8 → BitVec w
  | 0, rem, _        => rem
  | i + 1, rem, bits => processBitsLoop i (processBit p rem (bits.getLsbD 7)) (bits <<< 1)

def processBits (rem : BitVec w) (bits : BitVec 8) (bitCount : ℕ) : BitVec w :=
  processBitsLoop p bitCount rem (bits <<< (8 - bitCount))

def processByte (rem : BitVec w) (byte : UInt8) : BitVec w :=
  processBits p rem (if p.reflectIn then reflect 8 byte.toBitVec else byte.toBitVec) 8

def processBlock (rem : BitVec w) (bytes : List UInt8) : BitVec w := bytes.foldl (processByte p) rem

def interimRemainder (rem : BitVec w) : BitVec w := rem &&& p.sigBits

def checksum (rem : BitVec w) : BitVec w :=
  ((if p.reflectRem then reflect p.bits rem else rem) ^^^ p.finalXor) &&& p.sigBits

end Basic

-- `crc_table_t::table_`, with `did_init`.
structure Table (w : ℕ) where
  didInit : Bool := false
  table   : BitVec 8 → BitVec w := fun _ => 0

namespace Helper

-- `crc_helper<bits, doReflect>`
variable (bits : ℕ) (doReflect : Bool)

def reflect (x : BitVec w) : BitVec w := if doReflect then BoostCrc.reflect bits x else x

def alignMsb (rem : BitVec w) : BitVec 8 :=
  if bits > 8 then (rem >>> (bits - 8)).setWidth 8 else (rem <<< (8 - bits)).setWidth 8

def index (rem : BitVec w) (x : BitVec 8) : BitVec 8 :=
  if doReflect then x ^^^ rem.setWidth 8 else x ^^^ alignMsb bits rem

def shift (rem : BitVec w) : BitVec w := if doReflect then rem >>> 8 else rem <<< 8

end Helper

namespace Optimal

variable (p : Parameters w)

-- The inner loop of `init_table`, with the number of mask bits that are left.
def divideLoop (dividend : BitVec 8) : ℕ → BitVec w → BitVec w
  | 0, remainder     => remainder
  | k + 1, remainder =>
    let remainder := if dividend.getLsbD k then remainder ^^^ p.highBit else remainder
    let remainder :=
      if remainder &&& p.highBit ≠ 0 then (remainder <<< 1) ^^^ p.truncPoly else remainder <<< 1
    divideLoop dividend k remainder

def setEntry (table : BitVec 8 → BitVec w) (dividend : BitVec 8) : BitVec 8 → BitVec w :=
  Function.update table (Helper.reflect 8 p.reflectIn dividend) <|
    Helper.reflect p.bits p.reflectIn (divideLoop p dividend 8 0)

def initTable (t : Table w) : Table w :=
  if t.didInit then
    t
  else {
    didInit := true
    table   := ((List.range 256).map (.ofNat 8)).foldl (setEntry p) t.table
  }

def processBlock (t : Table w) (rem : BitVec w) (bytes : List UInt8) : BitVec w :=
  bytes.foldl (fun rem byte =>
    let byteIndex := Helper.index p.bits p.reflectIn rem byte.toBitVec
    let rem := Helper.shift p.reflectIn rem
    rem ^^^ t.table byteIndex) rem

def interimRemainder (rem : BitVec w) : BitVec w :=
  Helper.reflect p.bits p.reflectIn rem &&& p.sigBits

def checksum (rem : BitVec w) : BitVec w :=
  (Helper.reflect p.bits (p.reflectRem != p.reflectIn) rem ^^^ p.finalXor) &&& p.sigBits

end Optimal

-- The members of both classes that change the remainder. A byte is processed as a block of one.
inductive Call (w : ℕ)
  | reset (newRem : BitVec w)
  | processBytes (bytes : List UInt8)

def Basic.call (p : Parameters w) (rem : BitVec w) : Call w → BitVec w
  | .reset newRem        => newRem
  | .processBytes bytes => processBlock p rem bytes

def Optimal.call (p : Parameters w) (t : Table w) (rem : BitVec w) : Call w → BitVec w
  | .reset newRem        => Helper.reflect p.bits p.reflectIn newRem
  | .processBytes bytes => processBlock p t rem bytes

def Basic.run (p : Parameters w) (initRem : BitVec w) (calls : List (Call w)) : BitVec w :=
  calls.foldl (call p) initRem

-- The constructor sees to the table, which all the objects share.
def Optimal.run (p : Parameters w) (t : Table w) (initRem : BitVec w) (calls : List (Call w)) :
    BitVec w :=
  calls.foldl (call p <| initTable p t) (Helper.reflect p.bits p.reflectIn initRem)

-- `crc_32_type`, where an `unsigned int` has 32 bits.
def crc32Type : Parameters 32 where
  bits       := 32
  truncPoly  := 0x04C11DB7
  initRem    := 0xFFFFFFFF
  finalXor   := 0xFFFFFFFF
  reflectIn  := true
  reflectRem := true
  bits_pos   := by decide
  bits_le    := by decide
  byte_le    := by decide

section Reflect

variable {x reflection : BitVec w} {bits k i : ℕ}

theorem getLsbD_reflectLoop (h : k ≤ w) : (reflectLoop k x reflection).getLsbD i =
    (reflection.getLsbD i || decide (i < k) && x.getLsbD (k - 1 - i)) := by
  induction k generalizing x reflection
  case zero => simp [reflectLoop]
  case succ k hi =>
    have ht : (1#w <<< k).getLsbD i = decide (i = k) := by
      rw [← BitVec.twoPow_eq, BitVec.getLsbD_twoPow]
      by_cases he : k = i
      case pos => simp [he]; omega
      case neg => simp [he, Ne.symm he]
    rw [reflectLoop, hi (by omega), BitVec.getLsbD_ushiftRight]
    rcases Nat.lt_trichotomy i k with hl | rfl | hl
    case inl =>
      have he : 1 + (k - 1 - i) = k - i := by omega
      have hn : i ≠ k := by omega
      split <;> simp [ht, he, hl, hn, Nat.lt_succ_of_lt hl]
    case inr.inl => split <;> simp_all
    case inr.inr =>
      have hn : i ≠ k := by omega
      have hg : ¬i < k + 1 := by omega
      split <;> simp [ht, hn, hg, Nat.not_lt_of_lt hl]

theorem reflect_eq (h : bits ≤ w) : reflect bits x = (x.setWidth bits).reverse.setWidth w := by
  apply BitVec.eq_of_getLsbD_eq
  intro i hi
  rw [reflect, getLsbD_reflectLoop h, BitVec.getLsbD_setWidth, BitVec.getLsbD_reverse,
    BitVec.getMsbD_eq_getLsbD, BitVec.getLsbD_setWidth]
  by_cases hl : i < bits
  case pos => simp [hl, hi]; omega
  case neg => simp [hl]

theorem setWidth_reflect (h : bits ≤ w) :
    (reflect bits x).setWidth bits = (x.setWidth bits).reverse := by
  rw [reflect_eq h, BitVec.setWidth_setWidth_of_le _ h, BitVec.setWidth_eq]

end Reflect

namespace Parameters

variable (p : Parameters w) {x : BitVec w}

def divisor : BitVec p.bits := p.truncPoly.setWidth p.bits

-- What is above the register makes no difference to what is in it.
theorem and_highBit : x &&& p.highBit ≠ 0 ↔ (x.setWidth p.bits).msb := by
  have hb := p.bits_pos
  have hl := p.bits_le
  have hn : BitVec.twoPow w (p.bits - 1) ≠ 0#w := by
    intro he
    have hb := congrArg (BitVec.getLsbD · (p.bits - 1)) he
    simp only [BitVec.getLsbD_twoPow, BitVec.getLsbD_zero] at hb
    simp at hb
    omega
  rw [highBit, ← BitVec.twoPow_eq, BitVec.and_twoPow, BitVec.msb_setWidth, decide_eq_true hb,
    Bool.true_and]
  split <;> simp_all

theorem setWidth_highBit : p.highBit.setWidth p.bits = .twoPow p.bits (p.bits - 1) := by
  rw [highBit, BitVec.setWidth_shiftLeft_of_le p.bits_le, BitVec.twoPow_eq,
    BitVec.setWidth_ofNat_one_eq_ofNat_one_of_lt <| p.bits_pos.trans_le p.bits_le]

theorem and_sigBits : x &&& p.sigBits = (x.setWidth p.bits).setWidth w := by
  apply BitVec.eq_of_getLsbD_eq
  intro i hi
  simp only [sigBits, BitVec.getLsbD_and, BitVec.getLsbD_not, BitVec.getLsbD_shiftLeft,
    BitVec.getLsbD_setWidth, BitVec.getLsbD_zero, hi]
  by_cases hl : i < p.bits
  case pos => simp [hl]
  case neg =>
    have hg : i - p.bits < w := by omega
    simp [hl, hg]

end Parameters

section Basic

variable {p : Parameters w} {rem : BitVec w} {bit : Bool} {bits : BitVec 8} {byte : UInt8} {k : ℕ}

theorem setWidth_processBit : (Basic.processBit p rem bit).setWidth p.bits =
    step p.divisor (rem.setWidth p.bits) bit := by
  have hm := msb_twoPow p.bits_pos
  rw [Basic.processBit, step]
  simp only [p.and_highBit, BitVec.setWidth_xor, apply_ite (BitVec.setWidth p.bits),
    BitVec.setWidth_shiftLeft_of_le p.bits_le]
  cases bit
  case false => simp [Parameters.divisor]
  case true  =>
    simp only [p.setWidth_highBit, BitVec.msb_xor, hm, BitVec.shiftLeft_xor_distrib,
      twoPow_shiftLeft, if_true]
    simp [Parameters.divisor]

theorem setWidth_processBitsLoop : (Basic.processBitsLoop p k rem bits).setWidth p.bits =
    divide p.divisor (rem.setWidth p.bits) (top k bits) := by
  induction k generalizing rem bits
  case zero => rfl
  case succ k hi =>
    rw [Basic.processBitsLoop, hi, setWidth_processBit, top, divide_cons]
    rfl

theorem setWidth_processBits : (Basic.processBits p rem bits 8).setWidth p.bits =
    divide p.divisor (rem.setWidth p.bits) (top 8 bits) := by
  rw [Basic.processBits, setWidth_processBitsLoop, Nat.sub_self, BitVec.shiftLeft_zero]

theorem setWidth_divideLoop (h : k ≤ 8) : (Optimal.divideLoop p bits k rem).setWidth p.bits =
    divide p.divisor (rem.setWidth p.bits) (top k (bits <<< (8 - k))) := by
  induction k generalizing rem
  case zero => rfl
  case succ k hi =>
    have hx (bit : Bool) (rem : BitVec w) :
        (if bit then rem ^^^ p.highBit else rem) = rem ^^^ (if bit then p.highBit else 0) := by
      cases bit <;> simp
    have hb : (bits <<< (8 - (k + 1))).msb = bits.getLsbD k := by
      have hr : 8 - 1 - (8 - (k + 1)) = k := by omega
      have hl : ¬8 - 1 < 8 - (k + 1) := by omega
      rw [BitVec.msb_eq_getLsbD_last, BitVec.getLsbD_shiftLeft, hr, decide_eq_false hl]
      rfl
    have hs : bits <<< (8 - (k + 1)) <<< 1 = bits <<< (8 - k) := by
      rw [← BitVec.shiftLeft_add]
      congr 1
      omega
    rw [Optimal.divideLoop, hi (by omega), top, hb, hs, divide_cons, ← setWidth_processBit, hx]
    rfl

theorem setWidth_processByte : (Basic.processByte p rem byte).setWidth p.bits =
    divide p.divisor (rem.setWidth p.bits) (top 8 (Helper.reflect 8 p.reflectIn byte.toBitVec)) := by
  rw [Basic.processByte, setWidth_processBits, Helper.reflect]

end Basic

namespace Parameters

variable (p : Parameters w)

-- What there is in the register of either class after it has been given some bytes.
def divideBytes (r : BitVec p.bits) (bytes : List UInt8) : BitVec p.bits :=
  bytes.foldl (fun r byte =>
    divide p.divisor r (top 8 (Helper.reflect 8 p.reflectIn byte.toBitVec))) r

def call (r : BitVec p.bits) : Call w → BitVec p.bits
  | .reset newRem       => newRem.setWidth p.bits
  | .processBytes bytes => p.divideBytes r bytes

def run (initRem : BitVec w) (calls : List (Call w)) : BitVec p.bits :=
  calls.foldl p.call (initRem.setWidth p.bits)

end Parameters

section Basic

variable {p : Parameters w} {rem initRem : BitVec w} {bytes : List UInt8} {calls : List (Call w)}

theorem setWidth_processBlock : (Basic.processBlock p rem bytes).setWidth p.bits =
    p.divideBytes (rem.setWidth p.bits) bytes := by
  induction bytes generalizing rem
  case nil => rfl
  case cons byte bytes hi =>
    have hb : Basic.processBlock p rem (byte :: bytes) =
        Basic.processBlock p (Basic.processByte p rem byte) bytes := rfl
    rw [hb, hi, setWidth_processByte]
    rfl

theorem setWidth_run : (Basic.run p initRem calls).setWidth p.bits = p.run initRem calls := by
  rw [Basic.run, Parameters.run]
  refine (List.foldl_hom (BitVec.setWidth p.bits) ?_).symm
  rintro rem (newRem | bytes)
  case reset        => rfl
  case processBytes => exact setWidth_processBlock.symm

end Basic

section Tables

variable {p : Parameters w} {t : Table w} {table : BitVec 8 → BitVec w} {index : BitVec 8}
variable {dividends : List (BitVec 8)} {doReflect : Bool} {k : ℕ}

theorem reflect_byte : Helper.reflect 8 doReflect index =
    if doReflect then index.reverse else index := by
  rw [Helper.reflect, reflect_eq le_rfl, BitVec.setWidth_eq, BitVec.setWidth_eq]

theorem reflect_reflect_byte :
    Helper.reflect 8 doReflect (Helper.reflect 8 doReflect index) = index := by
  cases doReflect <;> simp [reflect_byte, BitVec.reverse_reverse_eq]

def Parameters.entry (p : Parameters w) (index : BitVec 8) : BitVec w :=
  Helper.reflect p.bits p.reflectIn <|
    Optimal.divideLoop p (Helper.reflect 8 p.reflectIn index) 8 0

theorem foldl_setEntry : dividends.foldl (Optimal.setEntry p) table index =
    if Helper.reflect 8 p.reflectIn index ∈ dividends then p.entry index else table index := by
  induction dividends generalizing table
  case nil => rfl
  case cons dividend dividends hi =>
    have hd : index = Helper.reflect 8 p.reflectIn dividend ↔
        Helper.reflect 8 p.reflectIn index = dividend := by
      constructor <;> rintro rfl <;> rw [reflect_reflect_byte]
    rw [List.foldl_cons, hi, Optimal.setEntry, Function.update_apply]
    by_cases hm : Helper.reflect 8 p.reflectIn index ∈ dividends
    case pos => simp [hm]
    case neg =>
      by_cases he : Helper.reflect 8 p.reflectIn index = dividend
      case pos => simp [hd, he, Parameters.entry]
      case neg => simp [hm, hd, he]

theorem mem_dividends : index ∈ (List.range 256).map (BitVec.ofNat 8) :=
  List.mem_map.mpr ⟨index.toNat, List.mem_range.mpr index.isLt, by simp⟩

theorem initTable_didInit : (Optimal.initTable p t).didInit := by
  rw [Optimal.initTable]
  split <;> simp_all

theorem initTable_of_didInit (h : t.didInit) : Optimal.initTable p t = t := if_pos h

-- However often the table has been initialized, there are the same entries in it.
theorem initTable_iterate : (Optimal.initTable p ((Optimal.initTable p)^[k] {})).table = p.entry := by
  have hi : Optimal.initTable p ((Optimal.initTable p)^[k] {}) = Optimal.initTable p {} := by
    cases k
    case zero => rfl
    case succ k =>
      rw [Function.iterate_succ_apply, ← Function.iterate_succ_apply' (Optimal.initTable p)]
      exact Function.iterate_fixed (initTable_of_didInit initTable_didInit) _
  have ht : (Optimal.initTable p {}).table =
      ((List.range 256).map (.ofNat 8)).foldl (Optimal.setEntry p) fun _ => 0 := by
    rw [Optimal.initTable, if_neg Bool.false_ne_true]
  funext index
  rw [hi, ht, foldl_setEntry, if_pos mem_dividends]

end Tables

namespace Optimal

variable {p : Parameters w} {t : Table w} {rem initRem : BitVec w} {r : BitVec p.bits}
variable {byte : BitVec 8} {calls : List (Call w)} {k : ℕ}

-- The remainder of a `crc_optimal` is kept the other way around when the input is reflected.
def Holds (p : Parameters w) (rem : BitVec w) (r : BitVec p.bits) : Prop :=
  if p.reflectIn then rem = r.reverse.setWidth w else rem.setWidth p.bits = r

theorem holds_reflect : Holds p (Helper.reflect p.bits p.reflectIn rem) (rem.setWidth p.bits) := by
  rw [Holds, Helper.reflect]
  split
  case isTrue  => exact reflect_eq p.bits_le
  case isFalse => rfl

theorem alignMsb_eq : Helper.alignMsb p.bits rem = head 8 (rem.setWidth p.bits) := by
  have hw := p.byte_le
  apply BitVec.eq_of_getLsbD_eq
  intro i hi
  rw [head, BitVec.getLsbD_reverse, BitVec.getMsbD_eq_getLsbD, BitVec.getLsbD_setWidth,
    BitVec.getLsbD_reverse, BitVec.getMsbD_eq_getLsbD, BitVec.getLsbD_setWidth, Helper.alignMsb]
  split
  case isTrue hb =>
    have he : p.bits - 1 - (8 - 1 - i) = p.bits - 8 + i := by omega
    have hl : p.bits - 1 - (8 - 1 - i) < p.bits := by omega
    have hr : 8 - 1 - i < p.bits := by omega
    have hs : 8 - 1 - i < 8 := by omega
    rw [BitVec.getLsbD_setWidth, BitVec.getLsbD_ushiftRight, ← he]
    simp only [hi, hl, hr, hs, decide_true, Bool.true_and]
  case isFalse hb =>
    rw [BitVec.getLsbD_setWidth, BitVec.getLsbD_shiftLeft, decide_eq_true hi,
      decide_eq_true (hi.trans_le hw)]
    by_cases hl : i < 8 - p.bits
    case pos =>
      have hr : ¬8 - 1 - i < p.bits := by omega
      simp [hl, hr]
    case neg =>
      have he : p.bits - 1 - (8 - 1 - i) = i - (8 - p.bits) := by omega
      have hr : 8 - 1 - i < p.bits := by omega
      have hg : i - (8 - p.bits) < p.bits := by omega
      have hs : 8 - 1 - i < 8 := by omega
      rw [he]
      simp only [hl, hr, hg, hs, decide_true, decide_false, Bool.true_and, Bool.not_false]

theorem holds_entry (h : Holds p rem r) : Holds p
    (Helper.shift p.reflectIn rem ^^^ p.entry (Helper.index p.bits p.reflectIn rem byte))
    (divide p.divisor r (top 8 (Helper.reflect 8 p.reflectIn byte))) := by
  have hd (d : BitVec 8) : (divideLoop p d 8 0).setWidth p.bits = divide p.divisor 0 (top 8 d) := by
    have hl : (divideLoop p d 8 0).setWidth p.bits =
        divide p.divisor (BitVec.setWidth p.bits 0) (top 8 (d <<< (8 - 8))) :=
      setWidth_divideLoop le_rfl
    simpa using hl
  have hr : divide p.divisor r (top 8 (Helper.reflect 8 p.reflectIn byte)) = r <<< 8 ^^^
      divide p.divisor 0 (top 8 (Helper.reflect 8 p.reflectIn byte ^^^ head 8 r)) := by
    rw [divide_eq, length_top, ← zipWith_top, top_head]
    rfl
  rw [hr, ← hd]
  rw [Holds] at h ⊢
  split at h
  case isTrue hi =>
    have hx : Helper.reflect 8 p.reflectIn (byte ^^^ rem.setWidth 8) =
        Helper.reflect 8 p.reflectIn byte ^^^ head 8 r := by
      have hs : (r.reverse.setWidth w).setWidth 8 = r.reverse.setWidth 8 :=
        BitVec.setWidth_setWidth_of_le _ p.byte_le
      simp only [reflect_byte, hi, if_true, reverse_xor, head, h, hs]
    have hi' : Helper.index p.bits p.reflectIn rem byte = byte ^^^ rem.setWidth 8 := if_pos hi
    have hs : Helper.shift p.reflectIn rem = rem >>> 8 := if_pos hi
    rw [if_pos hi, hi', hs, Parameters.entry, hx, Helper.reflect, if_pos hi, reflect_eq p.bits_le,
      reverse_xor, reverse_shiftLeft, BitVec.setWidth_xor, BitVec.setWidth_ushiftRight p.bits_le, h]
  case isFalse hi =>
    have hx : Helper.reflect 8 p.reflectIn byte = byte := if_neg hi
    have hi' : Helper.index p.bits p.reflectIn rem byte = byte ^^^ head 8 r := by
      rw [Helper.index, if_neg hi, alignMsb_eq, h]
    have hs : Helper.shift p.reflectIn rem = rem <<< 8 := if_neg hi
    rw [if_neg hi, hi', hs, Parameters.entry, Helper.reflect, Helper.reflect, if_neg hi, if_neg hi,
      BitVec.setWidth_xor, BitVec.setWidth_shiftLeft_of_le p.bits_le, h, hx]

theorem holds_processBlock {bytes : List UInt8} (ht : t.table = p.entry) (h : Holds p rem r) :
    Holds p (processBlock p t rem bytes) (p.divideBytes r bytes) := by
  induction bytes generalizing rem r
  case nil => exact h
  case cons byte bytes hi =>
    refine hi ?_
    rw [ht]
    exact holds_entry h

theorem holds_run : Holds p (run p ((initTable p)^[k] {}) initRem calls) (p.run initRem calls) := by
  refine List.foldl_rel holds_reflect fun call _ rem r h => ?_
  cases call
  case reset        => exact holds_reflect
  case processBytes => exact holds_processBlock initTable_iterate h

end Optimal

section Agreement

variable {p : Parameters w} {rem rem' : BitVec w} {doReflect : Bool}

theorem setWidth_helper_reflect : (Helper.reflect p.bits doReflect rem).setWidth p.bits =
    if doReflect then (rem.setWidth p.bits).reverse else rem.setWidth p.bits := by
  rw [Helper.reflect, apply_ite (BitVec.setWidth p.bits), setWidth_reflect p.bits_le]

theorem Optimal.Holds.setWidth (h : Holds p rem (rem'.setWidth p.bits)) : rem.setWidth p.bits =
    (Helper.reflect p.bits p.reflectIn rem').setWidth p.bits := by
  rw [setWidth_helper_reflect]
  rw [Holds] at h
  split at h
  case isTrue hi  => rw [if_pos hi, h, BitVec.setWidth_setWidth_of_le _ p.bits_le, BitVec.setWidth_eq]
  case isFalse hi => rw [if_neg hi, h]

theorem Optimal.Holds.interimRemainder (h : Holds p rem (rem'.setWidth p.bits)) :
    interimRemainder p rem = Basic.interimRemainder p rem' := by
  rw [Optimal.interimRemainder, Basic.interimRemainder, p.and_sigBits, p.and_sigBits,
    setWidth_helper_reflect, h.setWidth, setWidth_helper_reflect]
  cases p.reflectIn <;> simp [BitVec.reverse_reverse_eq]

theorem checksum_eq : Basic.checksum p rem =
    ((if p.reflectRem then (rem.setWidth p.bits).reverse else rem.setWidth p.bits) ^^^
      p.finalXor.setWidth p.bits).setWidth w := by
  rw [Basic.checksum, p.and_sigBits, BitVec.setWidth_xor, apply_ite (BitVec.setWidth p.bits),
    setWidth_reflect p.bits_le]

-- Where both the input and the remainder are reflected, the remainder is already as it is to be.
theorem Optimal.Holds.checksum (h : Holds p rem (rem'.setWidth p.bits)) :
    checksum p rem = Basic.checksum p rem' := by
  rw [Optimal.checksum, checksum_eq, p.and_sigBits, BitVec.setWidth_xor, setWidth_helper_reflect,
    h.setWidth, setWidth_helper_reflect]
  cases p.reflectIn <;> cases p.reflectRem <;> simp [BitVec.reverse_reverse_eq]

-- The class with the table computes what the one without it computes, whatever is asked of them.
theorem optimal_eq_basic {initRem : BitVec w} {calls : List (Call w)} {k : ℕ} :
    let rem  := Optimal.run p ((Optimal.initTable p)^[k] {}) initRem calls
    let rem' := Basic.run p initRem calls
    Optimal.interimRemainder p rem = Basic.interimRemainder p rem' ∧
      Optimal.checksum p rem = Basic.checksum p rem' := by
  have h : Optimal.Holds p (Optimal.run p ((Optimal.initTable p)^[k] {}) initRem calls)
      ((Basic.run p initRem calls).setWidth p.bits) := by
    rw [setWidth_run]
    exact Optimal.holds_run
  exact ⟨h.interimRemainder, h.checksum⟩

end Agreement

section Crc32

variable {r : BitVec 32} {byte : UInt8} {bytes : List UInt8} {blocks : List (List UInt8)} {k : ℕ}

def crc32Divisor : BitVec 32 := crc32Type.divisor

def divideBytes32 (r : BitVec 32) (bytes : List UInt8) : BitVec 32 := crc32Type.divideBytes r bytes

theorem crcBit_eq : crcBit r.reverse.toNat = (step crc32Divisor r false).reverse.toNat := by
  have hp : crc32Divisor.reverse.toNat = 0xEDB88320 := by decide +kernel
  have hm : r.reverse.toNat % 2 = 1 ↔ r.msb := by
    rw [BitVec.msb, ← BitVec.getLsbD_reverse, BitVec.getLsbD, Nat.testBit_zero, decide_eq_true_iff]
  have hs : r.reverse.toNat / 2 = (r <<< 1).reverse.toNat := by
    rw [reverse_shiftLeft, BitVec.toNat_ushiftRight, Nat.shiftRight_one]
  rw [crcBit, step, Bool.xor_false, hs, ← hp]
  simp only [hm]
  split
  case isTrue  => rw [reverse_xor, BitVec.toNat_xor]
  case isFalse => rfl

theorem crcByte_eq : crcByte r.reverse.toNat byte =
    (divide crc32Divisor r (top 8 byte.toBitVec.reverse)).reverse.toNat := by
  have hb : (align (top 8 byte.toBitVec.reverse) : BitVec 32).reverse.toNat = byte.toNat := by
    rw [reverse_align_top (by decide), BitVec.toNat_setWidth_of_le (by decide)]
    rfl
  rw [divide_eq_align (by rw [length_top]; decide), length_top, crcByte, ← hb, ← BitVec.toNat_xor,
    ← reverse_xor]
  simp only [Function.iterate_succ_apply', Function.iterate_zero, id_eq, crcBit_eq]
  rfl

theorem foldl_crcByte :
    bytes.foldl crcByte r.reverse.toNat = (divideBytes32 r bytes).reverse.toNat := by
  induction bytes generalizing r
  case nil => rfl
  case cons byte bytes hi =>
    have hx : Helper.reflect 8 crc32Type.reflectIn byte.toBitVec = byte.toBitVec.reverse :=
      reflect_byte
    have hd : divideBytes32 r (byte :: bytes) =
        divideBytes32 (divide crc32Divisor r (top 8 byte.toBitVec.reverse)) bytes := by
      rw [← hx]
      rfl
    rw [List.foldl_cons, crcByte_eq, hi, hd]

theorem Parameters.run_processBytes {p : Parameters w} {initRem : BitVec w} :
    p.run initRem (blocks.map .processBytes) =
      p.divideBytes (initRem.setWidth p.bits) blocks.flatten := by
  rw [run, divideBytes, List.foldl_flatten, List.foldl_map]
  rfl

-- The number of a method is made of the checksum that `generateExtensionNumber` has computed, and
-- this is the CRC-32 of the name.
theorem checksum_eq_crc32 :
    (Optimal.checksum crc32Type <| Optimal.run crc32Type ((Optimal.initTable crc32Type)^[k] {})
      crc32Type.initRem (blocks.map .processBytes)).toNat = crc32 blocks.flatten := by
  have hi : (0xFFFFFFFF : ℕ) = (0xFFFFFFFF#32).reverse.toNat := by decide +kernel
  have hc : crc32 blocks.flatten =
      ((divideBytes32 0xFFFFFFFF#32 blocks.flatten).reverse ^^^ 0xFFFFFFFF#32).toNat := by
    rw [BitVec.toNat_xor, ← foldl_crcByte, ← hi]
    rfl
  rw [optimal_eq_basic.right, checksum_eq, setWidth_run, Parameters.run_processBytes, hc]
  change (((divideBytes32 ((0xFFFFFFFF#32).setWidth 32) blocks.flatten).reverse ^^^
    (0xFFFFFFFF#32).setWidth 32).setWidth 32).toNat = _
  rw [BitVec.setWidth_eq, BitVec.setWidth_eq]

end Crc32
end ProtoCall.BoostCrc
