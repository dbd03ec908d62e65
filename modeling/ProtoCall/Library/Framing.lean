import Mathlib.Data.List.Basic

-- Items on a stream, some of which have a kind, and a reader that asks for one kind after the
-- other. It stops at the first item that is not of the kind that it asks for.
namespace Framing

variable {α κ : Type*} [DecidableEq κ] {kind : α → Option κ} {ks ks' : List κ} {k : κ}
  {items rest : List α} {a : α}

-- The kinds that are asked for, and what is left on the stream.
def read (kind : α → Option κ) : List κ → List α → List κ × List α
  | [], as           => ([], as)
  | k :: _, []       => ([k], [])
  | k :: ks, a :: as =>
    if kind a = some k then (k :: (read kind ks as).fst, (read kind ks as).snd) else ([k], a :: as)

theorem read_cons_of_kind (h : kind a = some k) :
    read kind (k :: ks) (a :: items) = (k :: (read kind ks items).fst, (read kind ks items).snd) :=
  if_pos h

theorem read_cons_of_ne (h : kind a ≠ some k) :
    read kind (k :: ks) (a :: items) = ([k], a :: items) :=
  if_neg h

theorem read_append (h : items.map kind = ks.map some) :
    read kind ks (items ++ rest) = (ks, rest) := by
  induction ks generalizing items
  case nil => simp [List.map_eq_nil_iff.mp h, read]
  case cons k ks hi =>
    obtain ⟨a, as, rfl, ha, h⟩ := List.map_eq_cons_iff.mp h
    rw [List.cons_append, read_cons_of_kind ha, hi h]

theorem read_cons_ne_nil : (read kind (k :: ks) items).fst ≠ [] := by
  cases items
  case nil => simp [read]
  case cons a as => rw [read]; split <;> simp

-- If the reader asks for just what is there, and takes it, then it is done.
theorem eq_of_read (h : items.map kind = ks'.map some)
    (hr : read kind ks (items ++ rest) = (ks', rest)) : ks = ks' := by
  induction ks' generalizing items ks
  case nil =>
    cases ks
    case nil => rfl
    case cons => exact absurd (congrArg Prod.fst hr) read_cons_ne_nil
  case cons k' ks' hi =>
    obtain ⟨a, as, rfl, ha, h⟩ := List.map_eq_cons_iff.mp h
    cases ks
    case nil => simp [read] at hr
    case cons k ks =>
      by_cases hk : kind a = some k
      case pos =>
        rw [List.cons_append, read_cons_of_kind hk, Prod.mk.injEq, List.cons.injEq] at hr
        exact congrArg₂ List.cons hr.left.left <| hi h <| Prod.ext hr.left.right hr.right
      case neg =>
        have hl := congrArg (·.snd.length) hr
        simp only [List.cons_append, read_cons_of_ne hk, List.length_cons, List.length_append] at hl
        omega

end Framing
