import Mathlib.Data.List.Nodup
import Mathlib.Data.List.Sublists

-- Objects that are used by several parties at a time, and when it is as if each operation was done
-- at one moment between its call and its answer.
namespace Linearizability

variable {ι Op Ret σ : Type*}

structure Object (σ Op Ret : Type*) where
  init : σ
  step : σ → Op → σ × Ret

-- What can be seen of the operations, each of which has an id. Somewhere in between, the object
-- takes the operation.
inductive Event (ι Op Ret : Type*)
  | call (id : ι) (op : Op)
  | take (id : ι) (op : Op)
  | answer (id : ι) (ret : Ret)
  deriving DecidableEq

namespace Object

def answers (o : Object σ Op Ret) : σ → List Op → List Ret
  | _, []        => []
  | s, op :: ops => (o.step s op).snd :: o.answers (o.step s op).fst ops

-- The operations with the answers that they get one after the other.
def play (o : Object σ Op Ret) : σ → List (ι × Op) → List (ι × Op × Ret)
  | _, []              => []
  | s, (id, op) :: ops => (id, op, (o.step s op).snd) :: o.play (o.step s op).fst ops

variable {o : Object σ Op Ret} {s : σ} {xs ys : List (ι × Op)}

theorem play_append : ∃ s', o.play s (xs ++ ys) = o.play s xs ++ o.play s' ys := by
  induction xs generalizing s
  case nil => exact ⟨s, rfl⟩
  case cons x xs hi =>
    obtain ⟨s', he⟩ := @hi (o.step s x.snd).fst
    exact ⟨s', congrArg (List.cons _) he⟩

theorem map_play : (o.play s xs).map (fun x => (x.fst, x.snd.fst)) = xs := by
  induction xs generalizing s
  case nil          => rfl
  case cons x xs hi => exact congrArg (List.cons x) hi

theorem ids_play : (o.play s xs).map Prod.fst = xs.map Prod.fst := by
  induction xs generalizing s
  case nil          => rfl
  case cons x xs hi => exact congrArg (List.cons x.fst) hi

theorem play_legal :
    (o.play s xs).map (·.snd.snd) = o.answers s ((o.play s xs).map (·.snd.fst)) := by
  induction xs generalizing s
  case nil          => rfl
  case cons x xs hi => exact congrArg (List.cons (o.step s x.snd).snd) hi

end Object

-- The operations that have been taken, the first one first.
def taken (history : List (Event ι Op Ret)) : List (ι × Op) :=
  history.filterMap fun
    | .take id op => some (id, op)
    | _           => none

-- One order of the operations, in which each of them is answered as by the object alone, that does
-- not contradict the order in which things have happened.
structure Linearizes (o : Object σ Op Ret) (history : List (Event ι Op Ret))
    (order : List (ι × Op × Ret)) : Prop where
  legal    : order.map (·.snd.snd) = o.answers o.init (order.map (·.snd.fst))
  called   : ∀ id op ret, (id, op, ret) ∈ order → .call id op ∈ history
  answered : ∀ id ret, .answer id ret ∈ history → ∃ op, (id, op, ret) ∈ order
  once     : (order.map Prod.fst).Nodup
  realTime : ∀ id ret id' op, [.answer id ret, .call id' op].Sublist history →
    id' ∈ order.map Prod.fst → [id, id'].Sublist (order.map Prod.fst)

-- What has to have happened before. An operation is answered with what the object has computed when
-- it has taken it.
def Event.Justified (o : Object σ Op Ret) (pre : List (Event ι Op Ret)) : Event ι Op Ret → Prop
  | call id _     => ∀ op, call id op ∉ pre
  | take id op    => call id op ∈ pre ∧ ∀ op', take id op' ∉ pre
  | answer id ret => ∃ op, (id, op, ret) ∈ o.play o.init (taken pre)

def Atomic (o : Object σ Op Ret) (history : List (Event ι Op Ret)) : Prop :=
  ∀ pre e post, history = pre ++ e :: post → e.Justified o pre

variable {o : Object σ Op Ret} {history pre post : List (Event ι Op Ret)} {e : Event ι Op Ret}
  {id : ι} {op : Op} {ret : Ret}

@[simp] theorem taken_append : taken (pre ++ post) = taken pre ++ taken post :=
  List.filterMap_append

theorem mem_taken : (id, op) ∈ taken history ↔ .take id op ∈ history := by
  simp only [taken, List.mem_filterMap]
  constructor
  case mp =>
    rintro ⟨_ | ⟨id', op'⟩ | _, hm, he⟩
    case call   => contradiction
    case take   => cases he; exact hm
    case answer => contradiction
  case mpr => exact fun hm => ⟨_, hm, rfl⟩

-- An answer stays what the object has computed, whatever is taken later.
theorem mem_play_append (h : (id, op, ret) ∈ o.play o.init (taken pre)) :
    (id, op, ret) ∈ o.play o.init (taken (pre ++ post)) := by
  obtain ⟨s', he⟩ := @Object.play_append ι _ _ _ o o.init (taken pre) (taken post)
  rw [taken_append, he]
  exact List.mem_append_left _ h

theorem mem_taken_of_mem_play (h : (id, op, ret) ∈ o.play o.init (taken history)) :
    (id, op) ∈ taken history :=
  @Object.map_play ι _ _ _ o o.init (taken history) ▸ List.mem_map_of_mem h

namespace Atomic

theorem nil : Atomic o ([] : List (Event ι Op Ret)) :=
  fun _ _ _ h => by simp at h

theorem concat (h : Atomic o history) (he : e.Justified o history) :
    Atomic o (history ++ [e]) := by
  intro pre e' post hh
  obtain rfl | ⟨post, last, rfl⟩ := List.eq_nil_or_concat post
  case inl =>
    obtain ⟨rfl, hl⟩ := List.append_inj' hh rfl
    exact List.singleton_injective hl ▸ he
  case inr =>
    rw [List.concat_eq_append, ← List.cons_append, ← List.append_assoc] at hh
    exact h pre e' post (List.append_inj' hh rfl).left

theorem called (h : Atomic o history) (ht : .take id op ∈ history) : .call id op ∈ history := by
  obtain ⟨pre, post, rfl⟩ := List.append_of_mem ht
  exact List.mem_append_left _ (h pre _ post rfl).left

theorem answered (h : Atomic o history) (ha : .answer id ret ∈ history) :
    ∃ op, (id, op, ret) ∈ o.play o.init (taken history) := by
  obtain ⟨pre, post, rfl⟩ := List.append_of_mem ha
  obtain ⟨op, hm⟩ := h pre _ post rfl
  exact ⟨op, mem_play_append hm⟩

theorem left (h : Atomic o (pre ++ post)) : Atomic o pre :=
  fun pre' e' post' he => h pre' e' (post' ++ post) (by simp [he])

theorem nodup_taken (h : Atomic o history) : ((taken history).map Prod.fst).Nodup := by
  induction history using List.reverseRecOn
  case nil => exact List.nodup_nil
  case append_singleton history e hi =>
    rw [taken_append, List.map_append]
    refine List.Nodup.append (hi h.left) ?_ ?_
    · cases e <;> simp [taken]
    · intro id hm hm'
      have hj := h history e [] rfl
      cases e
      case call   => simp [taken] at hm'
      case answer => simp [taken] at hm'
      case take id' op =>
        obtain rfl : id = id' := by simpa [taken] using hm'
        obtain ⟨⟨_, op'⟩, ht, rfl⟩ := List.mem_map.mp hm
        exact hj.right op' <| mem_taken.mp ht

-- The order in which the operations are taken is as good as any that the callers can think of.
theorem linearizes (h : Atomic o history) :
    Linearizes o history (o.play o.init (taken history)) where
  legal                          := Object.play_legal
  called _ _ _ hm                := h.called <| mem_taken.mp <| mem_taken_of_mem_play hm
  answered _ _ ha                := h.answered ha
  once                           := Object.ids_play (o := o) ▸ h.nodup_taken
  realTime id ret id' op hs hid' := by
    rw [Object.ids_play] at hid' ⊢
    obtain ⟨pre, post, rfl, ha, hc⟩ := List.cons_sublist_iff.mp hs
    rw [taken_append, List.map_append] at hid' ⊢
    obtain ⟨op', ht⟩ := h.left.answered ha
    have hid : id ∈ (taken pre).map Prod.fst :=
      List.mem_map_of_mem (f := Prod.fst) <| mem_taken_of_mem_play ht
    refine List.cons_sublist_iff.mpr ⟨_, _, rfl, hid, List.singleton_sublist.mpr ?_⟩
    rcases List.mem_append.mp hid' with hm | hm
    case inr => exact hm
    case inl =>
      -- It would have been taken before it has been called.
      obtain ⟨⟨_, op''⟩, ht', rfl⟩ := List.mem_map.mp hm
      have hcalled := h.left.called <| mem_taken.mp ht'
      obtain ⟨mid, post, rfl⟩ := List.append_of_mem <| List.singleton_sublist.mp hc
      have hj := h (pre ++ mid) _ post (List.append_assoc ..).symm
      exact absurd (List.mem_append_left _ hcalled) (hj op'')

end Atomic
end Linearizability
