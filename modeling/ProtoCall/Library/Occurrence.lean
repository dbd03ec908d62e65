import Mathlib.Data.List.Infix
import Mathlib.Data.Nat.Find

-- Where a list occurs in another one, and what is left and right of the places.
namespace Occurrence

variable {α : Type*} {search str pre post : List α} {a : α} {n m : ℕ}

def At (search str : List α) (n : ℕ) : Prop := search <+: str.drop n

structure First (search str : List α) (n : ℕ) : Prop where
  found  : At search str n
  before : ∀ m < n, ¬At search str m

-- A list falls into pieces at the first occurrence of `search`, at the first one behind it, and so
-- on to the last one.
inductive Split (search : List α) : List α → List (List α) → Prop
  | last {str : List α} : ¬search <:+: str → Split search str [str]
  | cut {pre post : List α} {pieces : List (List α)} :
    First search (pre ++ (search ++ post)) pre.length → Split search post pieces →
      Split search (pre ++ (search ++ post)) (pre :: pieces)

theorem length_lt (hs : search ≠ []) : post.length < (pre ++ (search ++ post)).length := by
  have hl := List.length_pos_of_ne_nil hs
  rw [List.length_append, List.length_append]
  omega

theorem at_zero : At search str 0 ↔ search <+: str := by rw [At, List.drop_zero]

theorem at_succ : At search (a :: str) (n + 1) ↔ At search str n := by
  rw [At, At, List.drop_succ_cons]

theorem at_length_append : At search (pre ++ (search ++ post)) pre.length := by
  rw [At, List.drop_left]
  exact List.prefix_append _ _

theorem At.infix_of (h : At search str n) : search <:+: str :=
  h.isInfix.trans (List.drop_suffix _ _).isInfix

theorem exists_at (h : search <:+: str) : ∃ n, At search str n := by
  obtain ⟨pre, post, rfl⟩ := h
  rw [List.append_assoc]
  exact ⟨pre.length, at_length_append⟩

theorem At.eq_append (hs : search ≠ []) (h : At search str n) :
    ∃ pre post, pre.length = n ∧ pre ++ (search ++ post) = str := by
  have hl := h.length_le
  have hp := List.length_pos_of_ne_nil hs
  obtain ⟨post, hp⟩ := h
  rw [List.length_drop] at hl
  exact ⟨str.take n, post, List.length_take_of_le (by omega), by rw [hp, List.take_append_drop]⟩

namespace First

theorem unique (h : First search str n) (h' : First search str m) : n = m := by
  rcases lt_trichotomy n m with hl | he | hl
  · exact absurd h.found (h'.before n hl)
  · exact he
  · exact absurd h'.found (h.before m hl)

theorem «exists» (h : search <:+: str) : ∃ n, First search str n := by
  classical
  have he := exists_at h
  exact ⟨Nat.find he, Nat.find_spec he, fun _ hl => Nat.find_min he hl⟩

theorem zero_iff : First search str 0 ↔ search <+: str where
  mp h  := at_zero.mp h.found
  mpr h := { found := at_zero.mpr h, before := by simp }

theorem succ_iff :
    First search (a :: str) (n + 1) ↔ ¬search <+: a :: str ∧ First search str n where
  mp h := by
    refine ⟨?_, at_succ.mp h.found, ?_⟩
    · exact fun hz => h.before 0 n.succ_pos (at_zero.mpr hz)
    · exact fun m hm ha => h.before (m + 1) (Nat.succ_lt_succ hm) (at_succ.mpr ha)
  mpr h := by
    obtain ⟨hz, hf⟩ := h
    refine ⟨at_succ.mpr hf.found, ?_⟩
    intro m hm
    cases m
    case zero   => exact fun ha => hz (at_zero.mp ha)
    case succ m => exact fun ha => hf.before m (Nat.lt_of_succ_lt_succ hm) (at_succ.mp ha)

-- There is an occurrence where its first element is for the first time.
theorem of_notMem {tail : List α} (h : a ∉ pre) :
    First (a :: tail) (pre ++ (a :: tail ++ post)) pre.length where
  found := at_length_append
  before m hm ha := by
    rw [At, List.drop_append_of_le_length hm.le, List.drop_eq_getElem_cons hm] at ha
    have he : a = pre[m] := (List.cons_prefix_cons.mp ha).left
    exact h (he ▸ List.getElem_mem hm)

theorem notMem (h : First [a] (pre ++ post) pre.length) : a ∉ pre := by
  intro ha
  obtain ⟨m, hm, rfl⟩ := List.mem_iff_getElem.mp ha
  apply h.before m hm
  rw [At, List.drop_append_of_le_length hm.le, List.drop_eq_getElem_cons hm]
  exact List.cons_prefix_cons.mpr ⟨rfl, List.nil_prefix⟩

-- What does not repeat its first element cannot reach over the end of `str`.
theorem append_self_iff {tail : List α} (hn : a ∉ tail) :
    First (a :: tail) (str ++ a :: tail) str.length ↔ ¬a :: tail <:+: str := by
  constructor
  case mp =>
    intro h hi
    obtain ⟨m, ha⟩ := exists_at hi
    have hm : m < str.length := by
      have hl := ha.length_le
      rw [List.length_cons, List.length_drop] at hl
      omega
    apply h.before m hm
    rw [At, List.drop_append_of_le_length hm.le]
    exact ha.trans (List.prefix_append _ _)
  case mpr =>
    intro h
    refine ⟨by rw [At, List.drop_left], ?_⟩
    intro m hm ha
    rw [At, List.drop_append_of_le_length hm.le] at ha
    have hd : ¬a :: tail <+: str.drop m :=
      fun hp => h (hp.isInfix.trans (List.drop_suffix _ _).isInfix)
    rw [List.drop_eq_getElem_cons hm, List.cons_append, List.cons_prefix_cons] at ha
    rw [List.drop_eq_getElem_cons hm, List.cons_prefix_cons] at hd
    obtain ⟨rfl, ht⟩ := ha
    rcases List.prefix_or_prefix_of_prefix ht (List.prefix_append _ _) with hp | ⟨rest, he⟩
    case inl => exact hd ⟨rfl, hp⟩
    case inr =>
      rw [← he, List.prefix_append_right_inj] at ht
      cases rest
      case nil => exact hd ⟨rfl, by simp [← he]⟩
      case cons b rest =>
        obtain ⟨rfl, -⟩ := List.cons_prefix_cons.mp ht
        exact hn (by simp [← he])

end First

namespace Split

variable {pieces pieces' : List (List α)}

theorem ne_nil (h : Split search str pieces) : pieces ≠ [] := by
  cases h <;> exact List.cons_ne_nil _ _

theorem «exists» (str : List α) (hs : search ≠ []) : ∃ pieces, Split search str pieces := by
  induction hl : str.length using Nat.strong_induction_on generalizing str
  case h length hi =>
    by_cases hc : search <:+: str
    case neg => exact ⟨_, .last hc⟩
    case pos =>
      obtain ⟨n, hf⟩ := First.exists hc
      obtain ⟨pre, post, rfl, rfl⟩ := hf.found.eq_append hs
      obtain ⟨pieces, ht⟩ := hi post.length (hl ▸ length_lt hs) post rfl
      exact ⟨pre :: pieces, .cut hf ht⟩

theorem unique (h : Split search str pieces) (h' : Split search str pieces') :
    pieces = pieces' := by
  induction h generalizing pieces'
  case last str hn =>
    cases h'
    case last    => rfl
    case cut h _ => exact absurd h.found.infix_of hn
  case cut pre post pieces hf _ hi =>
    generalize he : pre ++ (search ++ post) = str at h' hf
    cases h'
    case last hn => exact absurd hf.found.infix_of hn
    case cut pre' post' pieces' hf' ht' =>
      obtain ⟨rfl, hp⟩ := List.append_inj he (hf.unique hf')
      rw [List.append_cancel_left hp] at hi
      rw [hi ht']

-- The pieces are what is between the occurrences.
theorem intercalate (h : Split search str pieces) : search.intercalate pieces = str := by
  induction h
  case last => simp
  case cut ht hi => rw [List.intercalate_cons_of_ne_nil ht.ne_nil, hi, List.append_assoc]

variable {tail replacement : List α}

-- Pieces without the first element of `search` are told apart again.
theorem of_intercalate (hn : ∀ piece ∈ pieces, a ∉ piece) (hp : pieces ≠ []) :
    Split (a :: tail) ((a :: tail).intercalate pieces) pieces := by
  induction pieces
  case nil => contradiction
  case cons piece pieces hi =>
    rw [List.forall_mem_cons] at hn
    cases pieces
    case nil =>
      rw [List.intercalate_singleton]
      exact .last fun h => hn.left (h.subset List.mem_cons_self)
    case cons next pieces =>
      rw [List.intercalate_cons_cons, List.append_assoc]
      exact .cut (.of_notMem hn.left) (hi hn.right (List.cons_ne_nil _ _))

-- With just one element to search for, each one like it is replaced.
theorem intercalate_eq_flatMap [DecidableEq α] (h : Split [a] str pieces) :
    replacement.intercalate pieces = str.flatMap fun b => if b = a then replacement else [b] := by
  have hs {pre : List α} (hn : a ∉ pre) :
      (pre.flatMap fun b => if b = a then replacement else [b]) = pre := by
    refine (List.flatMap_congr fun b hb => ?_).trans <| List.flatMap_singleton' pre
    have hne : b ≠ a := by rintro rfl; exact hn hb
    exact if_neg hne
  induction h
  case last str hn =>
    rw [List.singleton_infix_iff] at hn
    rw [List.intercalate_singleton, hs hn]
  case cut pre post pieces hf ht hi =>
    rw [List.intercalate_cons_of_ne_nil ht.ne_nil, hi, List.flatMap_append, hs hf.notMem]
    simp

end Split
end Occurrence
