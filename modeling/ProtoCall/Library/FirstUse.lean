import Mathlib.Data.List.Nodup

-- A pass over a list that takes an item only if none of the items before it has the same key.
namespace FirstUse

variable {α κ σ : Type*} [DecidableEq κ] {key : α → κ} {seen : List κ} {as : List α} {a : α} {k : κ}

def take (key : α → κ) : List κ → List α → List α
  | _, []         => []
  | seen, a :: as => if key a ∈ seen then take key seen as else a :: take key (key a :: seen) as

theorem take_cons_of_mem (h : key a ∈ seen) : take key seen (a :: as) = take key seen as := if_pos h

theorem take_cons_of_notMem (h : key a ∉ seen) :
    take key seen (a :: as) = a :: take key (key a :: seen) as :=
  if_neg h

theorem mem_take {b : α} :
    b ∈ take key seen as ↔ key b ∉ seen ∧ as.find? (key · = key b) = some b := by
  induction as generalizing seen
  case nil => simp [take]
  case cons a as hi =>
    by_cases hs : key a ∈ seen
    case pos =>
      rw [take_cons_of_mem hs, hi]
      apply and_congr_right
      intro hb
      have hne : key a ≠ key b := fun he => hb (he ▸ hs)
      simp [hne]
    case neg =>
      rw [take_cons_of_notMem hs, List.mem_cons, hi]
      by_cases he : key a = key b
      case pos =>
        have hb : key b ∉ seen := he ▸ hs
        have hm : key b ∈ key a :: seen := he ▸ List.mem_cons_self
        rw [List.find?_cons_of_pos (by simpa using he)]
        simp [hb, hm, eq_comm]
      case neg =>
        have hne : b ≠ a := fun h => he (h ▸ rfl)
        rw [List.find?_cons_of_neg (by simpa using he)]
        simp [hne, Ne.symm he]

theorem nodup_take : ((take key seen as).map key).Nodup := by
  induction as generalizing seen
  case nil => exact .nil
  case cons a as hi =>
    by_cases hs : key a ∈ seen
    case pos => rw [take_cons_of_mem hs]; exact hi
    case neg =>
      rw [take_cons_of_notMem hs, List.map_cons, List.nodup_cons]
      refine ⟨?_, hi⟩
      rw [List.mem_map]
      rintro ⟨b, hb, he⟩
      exact (mem_take.mp hb).left (he ▸ List.mem_cons_self)

theorem mem_map_take : k ∈ (take key seen as).map key ↔ k ∉ seen ∧ k ∈ as.map key where
  mp h := by
    obtain ⟨b, hb, rfl⟩ := List.mem_map.mp h
    obtain ⟨hs, hf⟩ := mem_take.mp hb
    exact ⟨hs, List.mem_map_of_mem (List.mem_of_find?_eq_some hf)⟩
  mpr h := by
    obtain ⟨hs, hm⟩ := h
    obtain ⟨b, hb, rfl⟩ := List.mem_map.mp hm
    obtain ⟨c, hc⟩ := Option.isSome_iff_exists.mp <|
      List.find?_isSome (p := (key · = key b)) |>.mpr ⟨b, hb, by simp⟩
    have he : key c = key b := by simpa using List.find?_some hc
    rw [← he] at hs hc ⊢
    exact List.mem_map_of_mem (mem_take.mpr ⟨hs, hc⟩)

theorem count_take (h : k ∈ as.map key) : ((take key [] as).map key).count k = 1 :=
  List.count_eq_one_of_mem nodup_take (mem_map_take.mpr ⟨List.not_mem_nil, h⟩)

-- The pass as a loop that remembers the keys.
def step (key : α → κ) (add : σ → α → σ) (s : σ × List κ) (a : α) : σ × List κ :=
  if key a ∈ s.snd then s else (add s.fst a, key a :: s.snd)

theorem foldl_step {add : σ → α → σ} {s : σ} :
    (as.foldl (step key add) (s, seen)).fst = (take key seen as).foldl add s := by
  induction as generalizing s seen
  case nil => rfl
  case cons a as hi =>
    rw [List.foldl_cons, step]
    by_cases hs : key a ∈ seen
    case pos => rw [if_pos hs, hi, take_cons_of_mem hs]
    case neg => rw [if_neg hs, hi, take_cons_of_notMem hs, List.foldl_cons]

end FirstUse
