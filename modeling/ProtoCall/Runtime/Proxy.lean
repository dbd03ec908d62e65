import ProtoCall.Examples.Salutation
import ProtoCall.Runtime.Payload.Send
import ProtoCall.Runtime.Stubs

namespace ProtoCall.Process

open StdMap

variable {P : Platform} {p : Process} {service : ServiceDescriptor} {method : MethodDescriptor}
  {msg : Message} {d : Descriptor} {e : Envelope} {input : Option Message} {output : Option Ref}
  {done : Closure}

-- The envelope is sent, and after it every object of the message.
def Submits (P : Platform) (msg : Message) (d : Descriptor) (p : Process) : Prop :=
  P.sendOk p.channel.link.sends ∧
    Payload.Delivers P (p.channel.link.sends + 1) (Payload.attempts P p.heap msg d)

theorem submit_transfers : p.Transfers (submit P msg d e p).fst := by
  have ht : p.Transfers (p.send P (.envelope e)).snd := .send
  simp only [submit]
  rcases hs : p.send P (.envelope e) with ⟨_ | _, p'⟩ <;> rw [hs] at ht
  case false => exact ht
  case true => exact ht.trans Payload.send_transfers

theorem submit_of_submits (h : Submits P msg d p) :
    submit P msg d e p = (p.withLink { p.channel.link with
      outgoing := p.channel.link.outgoing ++
        .envelope e :: (Payload.attempts P p.heap msg d).reduceOption.map .payload
      sends    := p.channel.link.sends + 1 + (Payload.attempts P p.heap msg d).length
    }, none) := by
  obtain ⟨ho, h⟩ := h
  simp only [submit, send, Link.send, ho, ↓reduceIte]
  rw [Payload.send_eq, Payload.attempts_of_delivers h]
  simp [withLink]

theorem submit_of_not_submits (h : ¬Submits P msg d p) :
    (submit P msg d e p).snd = some .ret := by
  simp only [submit, send, Link.send]
  by_cases ho : P.sendOk p.channel.link.sends <;> simp only [ho, Bool.false_eq_true, ↓reduceIte]
  case pos =>
    rw [Payload.send_eq]
    exact Payload.attempts_of_not_delivers fun hd => h ⟨ho, hd⟩

theorem submit_snd_eq_none_iff : (submit P msg d e p).snd = none ↔ Submits P msg d p where
  mp h := by
    by_contra hn
    simp [submit_of_not_submits hn] at h
  mpr h := by rw [submit_of_submits h]

theorem prepare_link : (p.prepare service method output done).snd.channel.link = p.channel.link := by
  rw [prepare]
  split <;> rfl

theorem prepare_heap : (p.prepare service method output done).snd.heap = p.heap := by
  rw [prepare]
  split <;> rfl

theorem prepare_currentRequestId :
    (p.prepare service method output done).snd.channel.currentRequestId =
      if method.registers then p.channel.currentRequestId + 1 else p.channel.currentRequestId := by
  rw [prepare]
  split <;> rfl

theorem prepare_responses :
    (p.prepare service method output done).snd.responses = p.responses := by
  rw [prepare]
  split <;> rfl

theorem prepare_next : p.next ≤ (p.prepare service method output done).snd.next := by
  rw [prepare]
  split
  · exact Nat.le_succ _
  · exact le_rfl

theorem submits_prepare :
    Submits P msg d (p.prepare service method output done).snd ↔ Submits P msg d p := by
  simp only [Submits, prepare_link, prepare_heap]

theorem prepare_responseCallbacks :
    (p.prepare service method output done).snd.channel.responseCallbacks =
      if method.registers then
        insertNew p.channel.responseCallbacks p.channel.currentRequestId
          { done, response := output, handler := ⟨p.next, service⟩ }
      else
        p.channel.responseCallbacks := by
  rw [prepare]
  split <;> rfl

theorem proxyCall_responseCallbacks :
    (p.proxyCall P service method input output done).fst.channel.responseCallbacks =
      (p.prepare service method output done).snd.channel.responseCallbacks := by
  rw [proxyCall_eq]
  exact submit_transfers.callbacks

theorem proxyCall_currentRequestId :
    (p.proxyCall P service method input output done).fst.channel.currentRequestId =
      if method.registers then p.channel.currentRequestId + 1 else p.channel.currentRequestId := by
  rw [proxyCall_eq]
  exact submit_transfers.requestId.trans prepare_currentRequestId

theorem proxyCall_responses :
    (p.proxyCall P service method input output done).fst.responses = p.responses := by
  rw [proxyCall_eq]
  exact submit_transfers.responses.trans prepare_responses

theorem proxyCall_next : p.next ≤ (p.proxyCall P service method input output done).fst.next := by
  rw [proxyCall_eq]
  exact prepare_next.trans_eq submit_transfers.next.symm

theorem proxyCall_snd :
    (p.proxyCall P service method input output done).snd = none ↔
      Submits P (input.getD <| .new method.inputType) method.inputType p := by
  rw [proxyCall_eq]
  exact submit_snd_eq_none_iff.trans submits_prepare

-- A call that takes an error return leaves the pending calls as they were.
def FailedCallLeavesTable (P : Platform) (p : Process) (service : ServiceDescriptor)
    (method : MethodDescriptor) (input : Option Message) (output : Option Ref) (done : Closure) :
    Prop :=
  (p.proxyCall P service method input output done).snd = some .ret →
    (p.proxyCall P service method input output done).fst.channel.responseCallbacks =
      p.channel.responseCallbacks

theorem failedCallLeavesTable_iff :
    FailedCallLeavesTable P p service method input output done ↔
      Submits P (input.getD <| .new method.inputType) method.inputType p ∨
        method.registers = false ∨
        (p.channel.responseCallbacks.lookup p.channel.currentRequestId).isSome := by
  rw [FailedCallLeavesTable, proxyCall_responseCallbacks, prepare_responseCallbacks]
  by_cases hs : Submits P (input.getD <| .new method.inputType) method.inputType p
  case pos => simp [proxyCall_snd.mpr hs, hs]
  case neg =>
    have hr : (p.proxyCall P service method input output done).snd = some .ret := by
      rw [proxyCall_eq]
      exact submit_of_not_submits <| mt submits_prepare.mp hs
    cases method.registers <;> simp [hr, hs, insertNew_eq_self_iff]

-- The very first call, over a link that takes nothing.
theorem not_failedCallLeavesTable :
    ¬FailedCallLeavesTable { Salutation.platform with sendOk := fun _ => false } {} Salutation.service
      Salutation.sayHello (some <| .new Salutation.request) (some 0) 0 := by
  intro h
  have he := by
    apply h
    rw [proxyCall_eq]
    exact submit_of_not_submits fun hs => nomatch hs.left
  exact absurd (congrArg (·.lookup 0 |>.isSome) he) (by decide +kernel)

end ProtoCall.Process
