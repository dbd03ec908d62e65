import ProtoCall.Runtime.Network.Progress

namespace ProtoCall

open Transition

-- What a service promises: which outputs and errors a method may answer an input with.
abbrev Contract := MethodDescriptor → Option Value → Value → ErrorHolder → Prop

namespace System

variable {contract : Contract} {P : Platform} {service : ServiceDescriptor} {s s' : System}
  {a : Action}

-- The service runs a closure when the response is one that its method may answer with.
def Meets (contract : Contract) (s : System) : Action → Prop
  | .reply n => ∀ call info, s.held[n]? = some (call, .reply info) →
    ∀ method input, .invoked call method input ∈ s.log →
      contract method input ((s.server.responses info.response).value s.server.heap)
        (s.server.responses info.response).error
  | _        => True

-- It can be tested whether the service answers all of its invocations with this response.
def promised (contract : Contract) [∀ method input output error,
    Decidable (contract method input output error)] (s : System) : Action → Bool
  | .reply n => s.held[n]?.all fun
    | (_, .reply info) =>
      let response := s.server.responses info.response
      s.log.all fun
        | .invoked _ method input =>
          decide <| contract method input (response.value s.server.heap) response.error
        | _                       => true
    | (_, .doNothing)  => true
  | _        => true

theorem meets_of_promised [∀ method input output error,
    Decidable (contract method input output error)] (h : s.promised contract a) :
    s.Meets contract a := by
  cases a
  case reply n =>
    intro call info hh method input hm
    simp only [promised, hh, Option.all_some, List.all_eq_true] at h
    exact of_decide_eq_true <| h _ hm
  all_goals trivial

-- All that the service has replied it has replied to an invocation, and as promised.
structure Honest (contract : Contract) (held : List (ℕ × DoneClosure)) (log : List Note) :
    Prop where
  held    : ∀ call info, (call, .reply info) ∈ held → ∃ method input, .invoked call method input ∈ log
  replied : ∀ call output error, .replied call output error ∈ log →
    ∃ method input, .invoked call method input ∈ log ∧ contract method input output error

namespace Honest

variable {held held' : List (ℕ × DoneClosure)} {log : List Note} {note : Note} {n k : ℕ}
  {method : MethodDescriptor} {input : Option Value} {output : Value} {error : ErrorHolder}
  {done : DoneClosure} {info : ReplyInfo}

theorem empty : Honest contract [] [] where
  held    := nofun
  replied := nofun

theorem subset (h : Honest contract held log) (hs : held' ⊆ held) : Honest contract held' log where
  held call info hm := h.held call info <| hs hm
  replied           := h.replied

theorem append (h : Honest contract held log)
    (hn : ∀ call output error, note = .replied call output error →
      ∃ method input, .invoked call method input ∈ log ∧ contract method input output error) :
    Honest contract held (log ++ [note]) where
  held call info hm              := by
    obtain ⟨method, input, hm⟩ := h.held call info hm
    exact ⟨method, input, List.mem_append_left _ hm⟩
  replied call output error hm := by
    obtain ⟨method, input, hm, hc⟩ : ∃ method input, .invoked call method input ∈ log ∧
        contract method input output error := by
      rcases List.mem_append.mp hm with hm | hm
      case inl => exact h.replied call output error hm
      case inr => exact hn call output error (List.mem_singleton.mp hm).symm
    exact ⟨method, input, List.mem_append_left _ hm, hc⟩

theorem invoke (h : Honest contract held log) :
    Honest contract (held ++ [(k, done)]) (log ++ [.invoked k method input]) where
  replied           := (h.append fun _ _ _ he => by cases he).replied
  held call info hm := by
    rcases List.mem_append.mp hm with hm | hm
    case inl => exact (h.append fun _ _ _ he => by cases he).held call info hm
    case inr =>
      obtain ⟨rfl, -⟩ := Prod.mk.inj <| List.mem_singleton.mp hm
      exact ⟨method, input, List.mem_append_right _ <| List.mem_singleton_self _⟩

theorem reply (h : Honest contract held log) (hh : held[n]? = some (k, .reply info))
    (hc : ∀ method input, .invoked k method input ∈ log → contract method input output error) :
    Honest contract (held.eraseIdx n) (log ++ [.replied k output error]) := by
  refine Honest.append (h.subset List.eraseIdx_subset) fun call output error he => ?_
  obtain ⟨rfl, rfl, rfl⟩ := Note.replied.inj he
  obtain ⟨method, input, hm⟩ := h.held _ info <| List.mem_of_getElem? hh
  exact ⟨method, input, hm, hc method input hm⟩

theorem next (h : Honest contract s.held s.log) (ha : s.Meets contract a)
    (hs : s.next P service a = some s') : Honest contract s'.held s'.log := by
  cases a <;> simp only [System.next] at hs
  case call => exact Option.some.inj hs ▸ h.append fun _ _ _ he => by cases he
  case work => exact Option.some.inj hs ▸ h
  case serve =>
    rw [serve] at hs
    split at hs
    case h_1 => contradiction
    case h_2 => exact Option.some.inj hs ▸ h.invoke
    case h_3 => exact Option.some.inj hs ▸ h
  case reply n =>
    rw [System.reply] at hs
    split at hs
    case h_1 => contradiction
    case h_2 => exact Option.some.inj hs ▸ h.subset List.eraseIdx_subset
    case h_3 hh => exact Option.some.inj hs ▸ h.reply hh (ha _ _ hh)
  case receive =>
    rw [receive] at hs
    split at hs
    case h_1 => contradiction
    case h_2 => exact Option.some.inj hs ▸ h.append fun _ _ _ he => by cases he
    case h_3 => exact Option.some.inj hs ▸ h
  case resume =>
    obtain ⟨_, _, _, _, rfl⟩ := resume_eq_some_iff.mp hs
    exact h

end Honest

-- Each call that is completed has been answered as the service promises for what it was called with.
def Fulfills (contract : Contract) (log : List Note) : Prop :=
  ∀ call output error, .completed call output error ∈ log →
    ∃ method input, .called call method input ∈ log ∧ contract method input output error ∧
      ∀ method' input', .called call method' input' ∈ log → method' = method ∧ input' = input

theorem Honest.log_fulfills {held : List (ℕ × DoneClosure)} {log : List Note}
    (h : Honest contract held log) (hc : Correlates log) : Fulfills contract log := by
  intro call output error hm
  obtain ⟨pre, post, rfl⟩ := List.append_of_mem hm
  have hr := (hc pre _ post rfl).left
  obtain ⟨method, input, hi, hk⟩ := h.replied call output error <| List.mem_append_left _ hr
  obtain ⟨pre', post', he⟩ := List.append_of_mem hi
  have hcalled := he ▸ List.mem_append_left _ (hc pre' _ post' he).left
  exact ⟨method, input, hcalled, hk, fun _ _ hm' => hc.called_inj hm' hcalled⟩

end System

namespace Network

variable {ι : Type*} [DecidableEq ι] {P : Platform} {services : ι → ServiceDescriptor}
  {n : Network ι}

-- Calling a method over the network is as good as calling it where the service is.
theorem fulfills (contract : ι → Contract) (hP : P.Inverse) (hn : ∀ i, (services i).ids.Nodup)
    (h : Reachable (Initial services)
      (Each fun i s a => s.Proper P (services i) a ∧ s.Meets (contract i) a) (next P services) n)
    (i : ι) : System.Fulfills (contract i) (n.view i).log := by
  obtain ⟨⟨queries, answers, hc⟩, hh⟩ :
      (∃ queries answers, (n.view i).Consistent True P (services i) queries answers) ∧
        System.Honest (contract i) (n.view i).held (n.view i).log := by
    refine forall_view
      (I := fun i s => (∃ queries answers, s.Consistent True P (services i) queries answers) ∧
        System.Honest (contract i) s.held s.log)
      (fun n hi i => ?_) (fun i s a s' hi ha hs => ?_) (fun i s server hi hk => ?_) h i
    case refine_1 =>
      obtain ⟨client, -, hl⟩ := hi.line i
      refine ⟨⟨_, _, hi.consistent i⟩, ?_⟩
      simp only [view, hl]
      exact .empty
    case refine_2 =>
      obtain ⟨⟨queries, answers, hc⟩, hh⟩ := hi
      have hd := hc.drains_of_proper ha.left
      exact ⟨⟨hc.next hP.toReliable (fun _ => hP) (hn i) hd (fun _ => ha.left.sized) hs,
        hh.next ha.right hs⟩, hc.keeps hP.toReliable (hn i) hd.left hs⟩
    case refine_3 =>
      obtain ⟨⟨queries, answers, hc⟩, hh⟩ := hi
      exact ⟨⟨_, _, hc.besides hk⟩, hh⟩
  exact hh.log_fulfills <| hc.log.correlates trivial

-- `test` is answered with a message that has nothing in it.
def answering : Contract := fun method input output error =>
  method = External.test ∧ input.isSome ∧ output = (Message.new method.outputType).value .empty ∧
    error.hasError = false

instance {method : MethodDescriptor} {input : Option Value} {output : Value} {error : ErrorHolder} :
    Decidable (answering method input output error) :=
  inferInstanceAs <| Decidable (_ ∧ _)

theorem fulfills_tests : ∃ n, run (next Salutation.platform fun _ => External.service)
    (testing [5]) tests = some n ∧
      ∀ i, (n.view i).log.length = 4 ∧ System.Fulfills answering (n.view i).log := by
  have hr : (run (next Salutation.platform fun _ => External.service) (testing [5]) tests).map
      (fun n => ((n.view false).log.length, (n.view true).log.length)) = some (4, 4) := by
    decide +kernel
  obtain ⟨n, hs, hl⟩ := Option.map_eq_some_iff.mp hr
  obtain ⟨hl, hl'⟩ := Prod.mk.inj hl
  have hm : AllAllowed (Each fun _ s a => s.Meets answering a)
      (next Salutation.platform fun _ => External.service) (testing [5]) tests := by
    refine AllAllowed.mono (fun n a => System.meets_of_promised (s := n.view a.fst)
      (a := a.snd)) ?_
    decide +kernel
  refine ⟨n, hs, fun i => ⟨by cases i; exacts [hl, hl'], ?_⟩⟩
  refine fulfills (fun _ => answering) System.inverse_platform (fun _ => ?_)
    (.run (.start initial_testing) (allowed_tests.and hm) hs) i
  decide +kernel

end Network
end ProtoCall
