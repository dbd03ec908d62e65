import Mathlib.Data.List.Forall2

-- Regular expressions that are a row of items, matched from the start of a text to its end.
namespace Pattern

inductive Item (α : Type*)
  | text (piece : List α)
  | many (p : α → Bool)

variable {α β : Type*}

-- As many elements as there are, and fewer of them where the rest of the text does not match.
def many (p : α → Bool) (rest : List α → Option β) : List α → Option (List α × β)
  | []      => (rest []).map ([], ·)
  | a :: as =>
    let longer :=
      if p a then (many p rest as).map fun found => (a :: found.fst, found.snd) else none
    longer.or <| (rest <| a :: as).map ([], ·)

-- What each of the items stands for in the text, if it matches.
def pieces [DecidableEq α] : List (Item α) → List α → Option (List (List α))
  | [], as                   => if as = [] then some [] else none
  | .text piece :: items, as =>
    if piece <+: as then (pieces items <| as.drop piece.length).map (piece :: ·) else none
  | .many p :: items, as     => (many p (pieces items) as).map fun found => found.fst :: found.snd

def Item.Accepts : Item α → List α → Prop
  | .text piece, found => found = piece
  | .many p, found     => ∀ a ∈ found, p a

-- The text falls into pieces that the items accept.
structure Matches (items : List (Item α)) (found : List (List α)) (as : List α) : Prop where
  accepts : List.Forall₂ Item.Accepts items found
  flatten : found.flatten = as

section Many

variable {p : α → Bool} {rest : List α → Option β} {as piece : List α} {b : β}

theorem many_eq_some (h : many p rest as = some (piece, b)) :
    ∃ as', as = piece ++ as' ∧ (∀ a ∈ piece, p a) ∧ rest as' = some b := by
  induction as generalizing piece
  case nil =>
    obtain ⟨b', hr, he⟩ := Option.map_eq_some_iff.mp h
    cases he
    exact ⟨[], rfl, by simp, hr⟩
  case cons a as hi =>
    rcases Option.or_eq_some_iff.mp h with h | ⟨-, h⟩
    case inl =>
      split at h
      case isFalse => contradiction
      case isTrue hp =>
        obtain ⟨⟨piece, b'⟩, hm, he⟩ := Option.map_eq_some_iff.mp h
        cases he
        obtain ⟨as', rfl, ha, hr⟩ := hi hm
        exact ⟨as', rfl, List.forall_mem_cons.mpr ⟨hp, ha⟩, hr⟩
    case inr =>
      obtain ⟨b', hr, he⟩ := Option.map_eq_some_iff.mp h
      cases he
      exact ⟨a :: as, rfl, by simp, hr⟩

-- The rest is tried behind every run of elements.
theorem isSome_many (ha : ∀ a ∈ piece, p a) (hr : (rest as).isSome) :
    (many p rest (piece ++ as)).isSome := by
  induction piece
  case nil =>
    cases as
    case nil  => simpa [many] using hr
    case cons => simp [many, hr]
  case cons a piece hi =>
    have hp := List.forall_mem_cons.mp ha
    simp [many, hp.left, hi hp.right]

end Many

section Pieces

variable [DecidableEq α] {items : List (Item α)} {found : List (List α)} {as : List α}

theorem matches_of_pieces (h : pieces items as = some found) : Matches items found as := by
  induction items generalizing as found
  case nil =>
    rw [pieces] at h
    split at h
    case isFalse => contradiction
    case isTrue he =>
      cases h
      exact { accepts := .nil, flatten := he.symm }
  case cons item items hi =>
    cases item
    case text piece =>
      rw [pieces] at h
      split at h
      case isFalse => contradiction
      case isTrue hp =>
        obtain ⟨found, hf, rfl⟩ := Option.map_eq_some_iff.mp h
        obtain ⟨as, rfl⟩ := hp
        rw [List.drop_left] at hf
        have hm := hi hf
        exact { accepts := .cons rfl hm.accepts, flatten := congrArg (piece ++ ·) hm.flatten }
    case many p =>
      obtain ⟨⟨piece, found⟩, hf, rfl⟩ := Option.map_eq_some_iff.mp h
      obtain ⟨as, rfl, ha, hf⟩ := many_eq_some hf
      have hm := hi hf
      exact { accepts := .cons ha hm.accepts, flatten := congrArg (piece ++ ·) hm.flatten }

theorem isSome_pieces (h : Matches items found as) : (pieces items as).isSome := by
  obtain ⟨ha, rfl⟩ := h
  induction ha
  case nil => rfl
  case cons item piece items found hp _ hi =>
    cases item
    case text =>
      cases hp
      simpa [pieces] using hi
    case many =>
      rw [pieces, Option.isSome_map, List.flatten_cons]
      exact isSome_many hp hi

theorem pieces_eq_none : pieces items as = none ↔ ∀ found, ¬Matches items found as where
  mp h found hm := by
    have hs := isSome_pieces hm
    rw [h] at hs
    contradiction
  mpr h := by
    cases hp : pieces items as
    case none       => rfl
    case some found => exact absurd (matches_of_pieces hp) (h found)

end Pieces
end Pattern
