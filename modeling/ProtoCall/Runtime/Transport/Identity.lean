import Mathlib.Data.List.Lex
import Mathlib.Data.Nat.Find
import Mathlib.Data.Prod.Lex
import Mathlib.Order.Fin.Basic

namespace ProtoCall.Zmq

-- A `socketIdentity` in memory. There is memory behind the 256 elements of its `Data`, too, and
-- whether a `char` has a sign is up to the platform, so `χ` comes with some order.
structure Identity (χ : Type) where
  size    : ℕ
  memory  : ℕ → χ
  size_le : size ≤ 256

namespace Identity

variable {χ : Type} [LinearOrder χ]

-- `Data[i]`
def data? (a : Identity χ) (i : ℕ) : Option χ := if i < 256 then some (a.memory i) else none

def contents (a : Identity χ) : List χ := (List.range a.size).map a.memory

-- `operator==`, where `memcmp` is about equality only.
def eq (a b : Identity χ) : Bool :=
  if a.size ≠ b.size then
    false
  else
    a.contents = (List.range a.size).map b.memory

-- The loop of `operator<`, with the offset of the pointers and with the index, which grows whenever
-- it is looked at. It ends without either if one of the pointers cannot be followed.
def ltLoop (size : ℕ) (a_data b_data : ℕ → Option χ) (offset index : ℕ) : Option (ℕ × ℕ) := do
  let x ← a_data offset
  let y ← b_data offset
  if x = y then
    if index < size then
      ltLoop size a_data b_data (offset + 1) (index + 1)
    else
      return (offset, index + 1)
  else
    return (offset, index)
termination_by size - index

-- `operator<` of two identities whose memory is read by `a_data` and `b_data`.
def ltBy (a b : Identity χ) (a_data b_data : ℕ → Option χ) : Option Bool :=
  if a.size ≠ b.size then
    return a.size < b.size
  else do
    let (offset, index) ← ltLoop a.size a_data b_data 0 0
    if index < a.size then
      let x ← a_data offset
      let y ← b_data offset
      return x < y
    else
      return false

-- What it returns if it reads whatever is in the memory.
def lt (a b : Identity χ) : Bool := (ltBy a b (some ∘ a.memory) (some ∘ b.memory)).getD false

-- What it returns if it may access `Data` only.
def lt? (a b : Identity χ) : Option Bool := ltBy a b a.data? b.data?

end Identity

section Loop

variable {χ : Type} [LinearOrder χ] {size n i : ℕ} {a b : ℕ → Option χ} {x y : χ}

-- The pointers can be followed, and there is the same behind them.
def Agree (a b : ℕ → Option χ) (i : ℕ) : Prop := ∃ x, a i = some x ∧ b i = some x

open Identity

theorem ltLoop_step (h : Agree a b i) (hi : i < size) :
    ltLoop size a b i i = ltLoop size a b (i + 1) (i + 1) := by
  obtain ⟨x, ha, hb⟩ := h
  rw [ltLoop, ha, hb]
  simp [hi]

theorem ltLoop_run (h : ∀ i < n, Agree a b i) (hn : n ≤ size) :
    ltLoop size a b 0 0 = ltLoop size a b n n := by
  induction n
  case zero => rfl
  case succ n hi =>
    rw [hi (fun i hl => h i (hl.trans n.lt_succ_self)) (Nat.le_of_succ_le hn),
      ltLoop_step (h n n.lt_succ_self) hn]

theorem ltLoop_differ (h : ∀ i < n, Agree a b i) (hn : n ≤ size) (ha : a n = some x)
    (hb : b n = some y) (hne : x ≠ y) : ltLoop size a b 0 0 = some (n, n) := by
  rw [ltLoop_run h hn, ltLoop, ha, hb]
  simp [hne]

theorem ltLoop_agree (h : ∀ i ≤ size, Agree a b i) :
    ltLoop size a b 0 0 = some (size, size + 1) := by
  obtain ⟨x, ha, hb⟩ := h size le_rfl
  rw [ltLoop_run (fun i hi => h i hi.le) le_rfl, ltLoop, ha, hb]
  simp

theorem ltLoop_outside (h : ∀ i < size, Agree a b i) (ha : a size = none) :
    ltLoop size a b 0 0 = none := by
  rw [ltLoop_run h le_rfl, ltLoop, ha]
  rfl

end Loop

namespace Identity

variable {χ : Type} [LinearOrder χ]

-- There is a first difference in the part of the memory that the loop looks at, or there is none.
theorem differ_or_agree (a b : ℕ → χ) (size : ℕ) :
    (∃ n ≤ size, (∀ i < n, a i = b i) ∧ a n ≠ b n) ∨ ∀ i ≤ size, a i = b i := by
  by_cases h : ∃ n, n ≤ size ∧ a n ≠ b n
  case neg =>
    push Not at h
    exact .inr h
  case pos =>
    obtain ⟨hn, hne⟩ := Nat.find_spec h
    refine .inl ⟨Nat.find h, hn, ?_, hne⟩
    intro i hi
    by_contra he
    exact Nat.find_min h hi ⟨hi.le.trans hn, he⟩

section Order

variable {a b c : Identity χ}

theorem lt_of_size_ne (h : a.size ≠ b.size) : a.lt b = decide (a.size < b.size) := by
  rw [lt, ltBy, if_pos h]
  rfl

-- It is the first difference within the size that matters, and not what the loop comes across
-- behind it.
theorem lt_iff_differ (h : a.size = b.size) : a.lt b ↔
    ∃ n < a.size, (∀ i < n, a.memory i = b.memory i) ∧ a.memory n < b.memory n := by
  have hg {i : ℕ} (he : a.memory i = b.memory i) :
      Agree (some ∘ a.memory) (some ∘ b.memory) i := ⟨a.memory i, rfl, by simp [he]⟩
  rw [lt, ltBy, if_neg (not_not.mpr h)]
  rcases differ_or_agree a.memory b.memory a.size with ⟨n, hn, he, hne⟩ | he
  case inr =>
    rw [ltLoop_agree fun i hi => hg (he i hi)]
    have hf : ¬a.size + 1 < a.size := by omega
    simp only [Option.bind_eq_bind, Option.bind_some, if_neg hf]
    apply iff_of_false Bool.false_ne_true
    rintro ⟨n, hn, -, hl⟩
    exact hl.ne (he n hn.le)
  case inl =>
    rw [ltLoop_differ (fun i hi => hg (he i hi)) hn rfl rfl hne]
    by_cases hs : n < a.size
    case neg =>
      simp only [Option.bind_eq_bind, Option.bind_some, if_neg hs]
      apply iff_of_false Bool.false_ne_true
      rintro ⟨m, hm, -, hl⟩
      exact hl.ne (he m (by omega))
    case pos =>
      simp only [Option.bind_eq_bind, Option.bind_some, if_pos hs]
      constructor
      case mp  => exact fun hl => ⟨n, hs, he, of_decide_eq_true hl⟩
      case mpr =>
        rintro ⟨m, -, hm, hl⟩
        rcases lt_trichotomy m n with hmn | rfl | hnm
        · exact absurd (he m hmn) hl.ne
        · exact decide_eq_true hl
        · exact absurd (hm n hnm) hne

-- Identities are ordered by their sizes, and those of one size by their contents.
def key (a : Identity χ) : ℕ ×ₗ List χ := toLex (a.size, a.contents)

theorem contents_lt_iff (h : a.size = b.size) : a.contents < b.contents ↔
    ∃ n < a.size, (∀ i < n, a.memory i = b.memory i) ∧ a.memory n < b.memory n := by
  rw [List.lt_iff_exists]
  simp [contents, ← h, and_left_comm]

theorem lt_iff : a.lt b ↔ a.key < b.key := by
  rw [key, key, Prod.Lex.toLex_lt_toLex]
  by_cases h : a.size = b.size
  case neg => simp [lt_of_size_ne h, h]
  case pos => simp [lt_iff_differ h, contents_lt_iff h, h]

theorem eq_iff : a.eq b ↔ a.key = b.key := by
  rw [key, key, eq]
  by_cases h : a.size = b.size <;> simp [h, contents]

end Order

-- `operator<` and `operator==` are those of a total order.
structure Ordered (χ : Type) [LinearOrder χ] : Prop where
  irrefl : ∀ a : Identity χ, ¬a.lt a
  asymm  : ∀ a b : Identity χ, a.lt b → ¬b.lt a
  trans  : ∀ a b c : Identity χ, a.lt b → b.lt c → a.lt c
  total  : ∀ a b : Identity χ,
    a.lt b ∧ ¬b.lt a ∧ ¬a.eq b ∨ ¬a.lt b ∧ b.lt a ∧ ¬a.eq b ∨ ¬a.lt b ∧ ¬b.lt a ∧ a.eq b

theorem ordered : Ordered χ := by
  refine ⟨?_, ?_, ?_, ?_⟩
  all_goals simp only [lt_iff, eq_iff]
  · exact fun a => lt_irrefl a.key
  · exact fun a b => lt_asymm
  · exact fun a b c => lt_trans
  · intro a b
    rcases lt_trichotomy a.key b.key with hl | he | hl
    · exact .inl ⟨hl, hl.asymm, hl.ne⟩
    · exact .inr <| .inr ⟨he.not_lt, he.symm.not_lt, he⟩
    · exact .inr <| .inl ⟨hl.asymm, hl, hl.ne'⟩

section Access

variable {a b : Identity χ}

-- The pointers leave `Data` if there is nothing in all of it to stop at.
theorem lt?_eq_none (ha : a.size = 256) (hb : b.size = 256)
    (h : ∀ i < 256, a.memory i = b.memory i) : a.lt? b = none := by
  have hl : ltLoop a.size a.data? b.data? 0 0 = none := by
    rw [ha]
    apply ltLoop_outside
    · exact fun i hi => ⟨a.memory i, by simp [data?, hi], by simp [data?, hi, h i hi]⟩
    · rfl
  rw [lt?, ltBy, if_neg (by simp [ha, hb]), hl]
  rfl

theorem lt?_isSome_iff : (a.lt? b).isSome ↔
    ¬(a.size = 256 ∧ b.size = 256 ∧ ∀ i < 256, a.memory i = b.memory i) := by
  by_cases hs : a.size = b.size
  case neg =>
    have hn : ¬(a.size = 256 ∧ b.size = 256 ∧ ∀ i < 256, a.memory i = b.memory i) :=
      fun h => hs (h.left.trans h.right.left.symm)
    rw [lt?, ltBy, if_pos hs]
    exact iff_of_true rfl hn
  case pos =>
    have hg {i : ℕ} (hi : i < 256) (he : a.memory i = b.memory i) : Agree a.data? b.data? i :=
      ⟨a.memory i, by simp [data?, hi], by simp [data?, hi, he]⟩
    rcases differ_or_agree a.memory b.memory (min a.size 255) with ⟨n, hn, he, hne⟩ | he
    case inl =>
      have hn' : n < 256 := by omega
      have ha : a.data? n = some (a.memory n) := if_pos hn'
      have hb : b.data? n = some (b.memory n) := if_pos hn'
      have hl := ltLoop_differ (fun i hi => hg (hi.trans hn') (he i hi)) (hn.trans (min_le_left ..))
        ha hb hne
      have hr : ¬(a.size = 256 ∧ b.size = 256 ∧ ∀ i < 256, a.memory i = b.memory i) :=
        fun h => hne (h.right.right n hn')
      rw [lt?, ltBy, if_neg (not_not.mpr hs), hl]
      refine iff_of_true ?_ hr
      by_cases hi : n < a.size <;> simp [hi, ha, hb]
    case inr =>
      by_cases hf : a.size = 256
      case pos =>
        have ha (i : ℕ) (hi : i < 256) : a.memory i = b.memory i := he i (by omega)
        rw [lt?_eq_none hf (hs.symm.trans hf) ha]
        exact iff_of_false Bool.false_ne_true fun h => h ⟨hf, hs.symm.trans hf, ha⟩
      case neg =>
        have hle := a.size_le
        have hl : ltLoop a.size a.data? b.data? 0 0 = some (a.size, a.size + 1) :=
          ltLoop_agree fun i hi => hg (by omega) (he i (by omega))
        rw [lt?, ltBy, if_neg (not_not.mpr hs), hl]
        refine iff_of_true ?_ fun h => hf h.left
        have hi : ¬a.size + 1 < a.size := by omega
        simp [hi]

-- All of an identity of the greatest size is the same byte.
def full : Identity (Fin 256) := ⟨256, fun _ => 0, le_rfl⟩

theorem not_lt?_isSome : ¬(full.lt? full).isSome := by
  rw [lt?_eq_none rfl rfl fun _ _ => rfl]
  exact Bool.false_ne_true

end Access
end Identity
end ProtoCall.Zmq
