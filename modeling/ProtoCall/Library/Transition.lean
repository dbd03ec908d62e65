import Mathlib.Data.Option.Basic

-- Machines that take a step for an action, if they can, where only some of the actions are allowed.
namespace Transition

variable {σ α : Type*} {init : σ → Prop} {allowed allowed' : σ → α → Prop}
  {next : σ → α → Option σ} {s t : σ} {as : List α}

inductive Reachable (init : σ → Prop) (allowed : σ → α → Prop) (next : σ → α → Option σ) : σ → Prop
  | start {s : σ} : init s → Reachable init allowed next s
  | step {s t : σ} {a : α} : Reachable init allowed next s → allowed s a → next s a = some t →
    Reachable init allowed next t

-- The machine's run over a list of actions.
def run (next : σ → α → Option σ) : σ → List α → Option σ
  | s, []      => some s
  | s, a :: as => (next s a).bind (run next · as)

def AllAllowed (allowed : σ → α → Prop) (next : σ → α → Option σ) : σ → List α → Prop
  | _, []      => True
  | s, a :: as => allowed s a ∧ ∀ t ∈ next s a, AllAllowed allowed next t as

theorem AllAllowed.mono (h : ∀ s a, allowed s a → allowed' s a)
    (ha : AllAllowed allowed next s as) : AllAllowed allowed' next s as := by
  induction as generalizing s
  case nil          => trivial
  case cons a as hi => exact ⟨h s a ha.left, fun t ht => hi <| ha.right t ht⟩

theorem AllAllowed.and (h : AllAllowed allowed next s as) (h' : AllAllowed allowed' next s as) :
    AllAllowed (fun s a => allowed s a ∧ allowed' s a) next s as := by
  induction as generalizing s
  case nil          => trivial
  case cons a as hi =>
    exact ⟨⟨h.left, h'.left⟩, fun t ht => hi (h.right t ht) (h'.right t ht)⟩

theorem AllAllowed.comap {τ : Type*} {f : τ → σ} {next' : τ → α → Option τ} {x : τ}
    (h : AllAllowed allowed next (f x) as)
    (hnext : ∀ x a y, next' x a = some y → next (f x) a = some (f y)) :
    AllAllowed (fun x => allowed (f x)) next' x as := by
  induction as generalizing x
  case nil          => trivial
  case cons a as hi => exact ⟨h.left, fun y hy => hi <| h.right _ <| hnext x a y hy⟩

instance AllAllowed.decidable [∀ s a, Decidable (allowed s a)] :
    (s : σ) → (as : List α) → Decidable (AllAllowed allowed next s as)
  | _, []      => inferInstanceAs <| Decidable True
  | s, a :: as =>
    have (t : σ) : Decidable (AllAllowed allowed next t as) := AllAllowed.decidable t as
    inferInstanceAs <| Decidable (allowed s a ∧ ∀ t ∈ next s a, AllAllowed allowed next t as)

namespace Reachable

-- What holds at the start and is kept by every step that is allowed holds everywhere.
theorem invariant {I : σ → Prop} (h : Reachable init allowed next s) (start : ∀ s, init s → I s)
    (step : ∀ s a t, I s → allowed s a → next s a = some t → I t) : I s := by
  induction h
  case start hi         => exact start _ hi
  case step ha hn hi    => exact step _ _ _ hi ha hn

theorem run (h : Reachable init allowed next s) (ha : AllAllowed allowed next s as)
    (hr : Transition.run next s as = some t) : Reachable init allowed next t := by
  induction as generalizing s
  case nil => exact Option.some.inj hr ▸ h
  case cons a as hi =>
    obtain ⟨s', hn, hr⟩ := Option.bind_eq_some_iff.mp hr
    exact hi (h.step ha.left hn) (ha.right s' hn) hr

-- A machine that keeps something besides what `f` sees.
theorem map {τ : Type*} {f : σ → τ} {init' : τ → Prop} {allowed' : τ → α → Prop}
    {next' : τ → α → Option τ} (h : Reachable init allowed next s)
    (hinit : ∀ s, init s → init' (f s)) (hallowed : ∀ s a, allowed s a → allowed' (f s) a)
    (hnext : ∀ s a t, next s a = some t → next' (f s) a = some (f t)) :
    Reachable init' allowed' next' (f s) := by
  induction h
  case start hi      => exact .start <| hinit _ hi
  case step ha hn hi => exact .step hi (hallowed _ _ ha) (hnext _ _ _ hn)

end Reachable
end Transition
