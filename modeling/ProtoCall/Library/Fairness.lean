import Mathlib.Order.Basic
import ProtoCall.Library.Transition

-- Runs that go on for ever, and what has to happen in them sooner or later.
namespace Transition

variable {σ α : Type*} {init : σ → Prop} {allowed : σ → α → Prop} {next : σ → α → Option σ}
  {states : ℕ → σ} {actions : ℕ → α} {s : σ}

structure Behavior (init : σ → Prop) (allowed : σ → α → Prop) (next : σ → α → Option σ)
    (states : ℕ → σ) (actions : ℕ → α) : Prop where
  start   : init (states 0)
  allowed : ∀ t, allowed (states t) (actions t)
  step    : ∀ t, next (states t) (actions t) = some (states (t + 1))

theorem Behavior.reachable (h : Behavior init allowed next states actions) (t : ℕ) :
    Reachable init allowed next (states t) := by
  induction t
  case zero      => exact .start h.start
  case succ t hi => exact .step hi (h.allowed t) (h.step t)

def Eventually (p : ℕ → Prop) (t : ℕ) : Prop := ∃ t' ≥ t, p t'

variable {p q : ℕ → Prop} {f : ℕ → ℕ} {t t' : ℕ}

theorem Eventually.mono (h : Eventually p t) (hpq : ∀ t' ≥ t, p t' → q t') : Eventually q t := by
  obtain ⟨t', ht, hp⟩ := h
  exact ⟨t', ht, hpq t' ht hp⟩

theorem Eventually.trans (h : Eventually p t) (hpq : ∀ t' ≥ t, p t' → Eventually q t') :
    Eventually q t := by
  obtain ⟨t', ht, hp⟩ := h
  obtain ⟨t'', ht', hq⟩ := hpq t' ht hp
  exact ⟨t'', Nat.le_trans ht ht', hq⟩

-- What is kept by every step is kept for good.
theorem stable (hs : ∀ t, p t → p (t + 1)) (ht : t ≤ t') (hp : p t) : p t' := by
  induction ht
  case refl        => exact hp
  case step t _ hi => exact hs t hi

-- A variant that does not grow as long as `p` does not hold, and that gets smaller again and again.
theorem eventually_of_variant (hm : ∀ t' ≥ t, ¬p t' → f (t' + 1) ≤ f t')
    (hd : ∀ t' ≥ t, ∃ t'' ≥ t', p t'' ∨ f (t'' + 1) < f t'') : Eventually p t := by
  generalize hv : f t = v
  induction v using Nat.strongRecOn generalizing t
  case ind v hi =>
    subst hv
    obtain ⟨t', ht, hp | hl⟩ := hd t (Nat.le_refl t)
    case inl => exact ⟨t', ht, hp⟩
    case inr =>
      by_cases hp : ∃ t'' ≥ t, t'' ≤ t' ∧ p t''
      case pos =>
        obtain ⟨t'', ht', -, hp⟩ := hp
        exact ⟨t'', ht', hp⟩
      case neg =>
        have ha : f t' ≤ f t := by
          clear hl
          induction ht
          case refl => exact Nat.le_refl _
          case step t' hl hi' =>
            have hn : ¬p t' := fun hpt => hp ⟨t', hl, Nat.le_succ t', hpt⟩
            refine Nat.le_trans (hm t' hl hn) <| hi' ?_
            rintro ⟨t'', ht', hl', hpt⟩
            exact hp ⟨t'', ht', Nat.le_succ_of_le hl', hpt⟩
        have ht' : t ≤ t' + 1 := Nat.le_succ_of_le ht
        obtain ⟨t'', hl', hp⟩ := hi _ (Nat.lt_of_lt_of_le hl ha)
          (fun t'' hl' => hm t'' <| Nat.le_trans ht' hl')
          (fun t'' hl' => hd t'' <| Nat.le_trans ht' hl') rfl
        exact ⟨t'', Nat.le_trans ht' hl', hp⟩

end Transition
