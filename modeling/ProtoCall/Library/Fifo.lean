import Mathlib.Data.List.Forall2
import ProtoCall.Library.Transition

-- Channels that give out what has been put into them, the oldest item first.
namespace Fifo

open Transition

variable {ι σ τ α β : Type*}

inductive Event (ι : Type*)
  -- It can be that the item is not taken.
  | put (item : ι) (taken : Bool)
  -- There can be nothing that is got.
  | get (item : Option ι)
  deriving DecidableEq

def Event.succeeds : Event ι → Bool
  | put _ taken => taken
  | get item    => item.isSome

-- The items that are in a channel after an event.
def after : List ι → Event ι → List ι
  | q, .put x true   => q ++ [x]
  | q, .get (some _) => q.tail
  | q, _             => q

def Legal : List ι → Event ι → Prop
  | q, .get (some x) => q.head? = some x
  | _, _             => True

-- What can be seen of a channel that has the items `q` at first, and `q'` at last.
inductive Trace : List ι → List (Event ι) → List ι → Prop
  | nil {q : List ι} : Trace q [] q
  | cons {q q' : List ι} {e : Event ι} {es : List (Event ι)} :
    Legal q e → Trace (after q e) es q' → Trace q (e :: es) q'

def puts (es : List (Event ι)) : List ι :=
  es.filterMap fun
    | .put x true => some x
    | _           => none

def gets (es : List (Event ι)) : List ι :=
  es.filterMap fun
    | .get x => x
    | _      => none

-- How the attempts of either kind have ended.
def taken (es : List (Event ι)) : List Bool :=
  es.filterMap fun
    | .put _ taken => some taken
    | _            => none

def got (es : List (Event ι)) : List Bool :=
  es.filterMap fun
    | .get item => some item.isSome
    | _         => none

section Events

variable {q q' : List ι} {x : ι} {ok : Bool} {item : Option ι} {es : List (Event ι)}

@[simp] theorem after_taken : after q (.put x true) = q ++ [x] := rfl

@[simp] theorem after_refused : after q (.put x false) = q := rfl

@[simp] theorem after_some : after q (.get <| some x) = q.tail := rfl

@[simp] theorem after_none : after q (.get none) = q := rfl

@[simp] theorem taken_nil : taken ([] : List (Event ι)) = [] := rfl

@[simp] theorem taken_put : taken (.put x ok :: es) = ok :: taken es := rfl

@[simp] theorem taken_get : taken (.get item :: es) = taken es := rfl

@[simp] theorem got_nil : got ([] : List (Event ι)) = [] := rfl

@[simp] theorem got_put : got (.put x ok :: es) = got es := rfl

@[simp] theorem got_get : got (.get item :: es) = item.isSome :: got es := rfl

theorem taken_cons {e : Event ι} : taken (e :: es) = taken [e] ++ taken es :=
  List.filterMap_append (l := [e])

theorem got_cons {e : Event ι} : got (e :: es) = got [e] ++ got es :=
  List.filterMap_append (l := [e])

-- Nothing is lost, and nothing is given out twice or too early.
theorem Trace.conserves (h : Trace q es q') : q ++ puts es = gets es ++ q' := by
  induction h
  case nil => simp [puts, gets]
  case cons e _ hl _ hi =>
    rcases e with ⟨x, _ | _⟩ | _ | x
    case put.false => exact hi
    case put.true  => simpa [after, puts, gets] using hi
    case get.none  => exact hi
    case get.some =>
      obtain ⟨_, rfl⟩ := List.head?_eq_some_iff.mp hl
      simpa [after, puts, gets] using hi

end Events

section Machine

variable (step : σ → α → Event ι × σ)

-- A machine that tells of its events.
def events : List α → σ → List (Event ι)
  | [], _      => []
  | a :: as, s => (step s a).fst :: events as (step s a).snd

def final : List α → σ → σ
  | [], s      => s
  | a :: as, s => final as (step s a).snd

-- The machine, with the items that should be in it.
def beside (s : σ × List ι) (a : α) : Option (σ × List ι) :=
  some ((step s.fst a).snd, after s.snd (step s.fst a).fst)

variable {step} {R : σ → List ι → Prop} {allowed : σ × List ι → α → Prop} {s : σ} {q : List ι}
  {as : List α}

theorem forall₂_events {tells : α → Event ι → Prop} (h : ∀ s a, tells a (step s a).fst) :
    as.Forall₂ tells (events step as s) := by
  induction as generalizing s
  case nil          => exact .nil
  case cons a as hi => exact .cons (h s a) hi

-- A machine is a channel if each of its steps is one of a channel with the items it stands for.
theorem trace_of_step (h : ∀ s q a, R s q → allowed (s, q) a →
      Legal q (step s a).fst ∧ R (step s a).snd (after q (step s a).fst))
    (hr : R s q) (ha : AllAllowed allowed (beside step) (s, q) as) :
    ∃ q', Trace q (events step as s) q' ∧ R (final step as s) q' := by
  induction as generalizing s q
  case nil => exact ⟨q, .nil, hr⟩
  case cons a as hi =>
    obtain ⟨hl, hr⟩ := h s q a hr ha.left
    obtain ⟨q', ht, hr⟩ := hi hr <| ha.right _ rfl
    exact ⟨q', .cons hl ht, hr⟩

end Machine
end Fifo
