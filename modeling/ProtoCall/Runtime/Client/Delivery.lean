import ProtoCall.Examples.Salutation
import ProtoCall.Runtime.Client.Basic
import ProtoCall.Runtime.Completion

namespace ProtoCall

-- The content of a response has been copied into the response object at `r`.
structure Process.Copies (envelope : EnvelopePtr) (p : Process) (r : Ref) (p' : Process)
    (entry : ResponseCallbackEntry) (number : ℤ) (content : Content) : Prop where
  pending  : p.channel.responseCallbacks.lookup envelope.responseId = some entry
  data     : envelope.response.data = some (number, content)
  listed   : (entry.handler.service.replying? number).isSome
  response : entry.response = some r
  type     : (p.responses r).type = content.type
  copied   : (p'.responses r).toContent = content

theorem Process.handleResponse_copies {P : Platform} {envelope : EnvelopePtr} {p : Process} {r : Ref}
    (hn : (p.handleResponse P envelope).fst.responses r ≠ p.responses r) :
    ∃ entry number content,
      Copies envelope p r (p.handleResponse P envelope).fst entry number content := by
  have hh := handleResponse_handles P envelope p
  generalize p.handleResponse P envelope = result at hh hn
  cases hh
  case lost entry number content _ r' hl hd hm hr ht _
      | completed entry number content _ r' hl hd hm hr ht _ =>
    by_cases he : r = r'
    case pos =>
      subst he
      exact ⟨entry, number, content, hl, hd, by rw [hm]; rfl, hr, ht, deliver_responses_self⟩
    case neg => exact absurd (deliver_responses_of_ne he) hn
  all_goals exact absurd rfl hn

-- A client, and for every handler the method that was called when it was created.
structure Recorded where
  client : Client := {}
  origin : ℕ → Option MethodDescriptor := fun _ => none

namespace Recorded

-- The handler of a call is created at the next free address.
def record (c : Recorded) : Client.Action → ℕ → Option MethodDescriptor
  | .call _ method _ _ _ => Function.update c.origin c.client.process.next (some method)
  | _                    => c.origin

def next (P : Platform) (c : Recorded) (action : Client.Action) : Option Recorded :=
  (c.client.next P action).map fun client => { client, origin := c.record action }

def Initial (c : Recorded) : Prop := c.client.Initial

def Allowed (c : Recorded) (action : Client.Action) : Prop := c.client.Allowed action

variable {P : Platform} {c c' : Recorded} {envelope : EnvelopePtr} {action : Client.Action}
  {p p' : Process} {origin : ℕ → Option MethodDescriptor}

-- The entry under the id of `envelope` stems from a call of `method`.
structure Registered (c : Recorded) (envelope : EnvelopePtr) (entry : ResponseCallbackEntry)
    (method : MethodDescriptor) : Prop where
  pending : c.client.process.channel.responseCallbacks.lookup envelope.responseId = some entry
  origin  : c.origin entry.handler.addr = some method

-- Under a pending id, nothing but a message of the type of the response object is copied, and only
-- into that object.
def CopiesItsType (P : Platform) (c : Recorded) (envelope : EnvelopePtr) : Prop :=
  let p := c.client.process
  let p' := (p.handleResponse P envelope).fst
  ∀ entry, p.channel.responseCallbacks.lookup envelope.responseId = some entry →
    ∃ method, c.Registered envelope entry method ∧ ∀ r, p'.responses r ≠ p.responses r →
      entry.response = some r ∧ ∃ number content, envelope.response.data = some (number, content) ∧
        (entry.handler.service.replying? number).isSome ∧ content.type = method.outputType ∧
        (p'.responses r).toContent = content

-- A response that carries the message of another method is turned away.
def RejectsOthers (P : Platform) (c : Recorded) (envelope : EnvelopePtr) : Prop :=
  let p := c.client.process
  let p' := (p.handleResponse P envelope).fst
  ∀ entry method, c.Registered envelope entry method →
    ∀ number content, envelope.response.data = some (number, content) → number ≠ method.id →
      (p.handleResponse P envelope).snd = .returned false ∧ p'.responses = p.responses ∧
        p'.channel.responseCallbacks.lookup envelope.responseId = some entry

-- What is known of a pending call: it was a call of a method whose response the object is for.
def Known (p : Process) (origin : ℕ → Option MethodDescriptor) (entry : ResponseCallbackEntry) :
    Prop :=
  entry.handler.addr < p.next ∧ ∃ method, origin entry.handler.addr = some method ∧
    ∀ r, entry.response = some r → r < p.next ∧ (p.responses r).type = method.outputType

def Typed (p : Process) (origin : ℕ → Option MethodDescriptor) : Prop :=
  ∀ id entry, p.channel.responseCallbacks.lookup id = some entry → Known p origin entry

namespace Typed

theorem initial (h : c.Initial) : Typed c.client.process c.origin := by
  intro id entry hl
  simp [h.callbacks] at hl

theorem steady (h : Typed p origin) (hs : p.Steady p') : Typed p' origin := by
  intro id entry hl
  obtain ⟨ha, method, ho, hr⟩ := h id entry (hs.callbacks ▸ hl)
  refine ⟨ha.trans_le hs.next, method, ho, fun r he => ?_⟩
  obtain ⟨hn, ht⟩ := hr r he
  exact ⟨hn.trans_le hs.next, (hs.types r hn).trans ht⟩

theorem finish {a : Activation} (h : Typed p origin) : Typed (p.finish a) origin := by
  intro id entry hl
  have hl : (p.channel.responseCallbacks.erase a.id).lookup id = some entry := hl
  exact h id entry (StdMap.lookup_erase_eq_some.mp hl).right

theorem settles {result : Process × Outcome} (h : Typed p origin)
    (hs : p.Settles envelope result) : Typed result.fst origin := by
  cases hs
  case steady hs _ => exact h.steady hs
  case dropped hs   => exact (h.steady hs).finish
  case completed hs =>
    have ht := h.steady hs
    exact ht

theorem receive (h : Typed p origin) : Typed (p.receive P).fst origin := by
  rcases hm : (p.channel.link.receiveMessage P).fst with _ | message
  case none =>
    rw [Process.receive_of_none hm]
    exact h.steady <| .trans .opened <| .log rfl
  case some =>
    have ho := h.steady (Process.Steady.opened (P := P))
    rw [Process.receive_of_some hm, Process.handleMessage]
    split
    case isTrue => exact ho.steady .handleRequest
    case isFalse =>
      split
      case isTrue  => exact ho.settles <| Process.handleResponse_settles ..
      case isFalse => exact ho.steady <| .of_transfers .setErrorString

theorem proxyCall {service : ServiceDescriptor} {method : MethodDescriptor}
    {input : Option Message} {output : Option Ref} {done : Closure} (h : Typed p origin)
    (hr : ∀ r, output = some r → r < p.next ∧ (p.responses r).type = method.outputType) :
    Typed (p.proxyCall P service method input output done).fst
      (Function.update origin p.next (some method)) := by
  have ho : Typed p (Function.update origin p.next (some method)) := by
    intro id entry hl
    obtain ⟨ha, hk⟩ := h id entry hl
    exact ⟨ha, by rwa [Function.update_of_ne ha.ne]⟩
  have hp : Typed (p.prepare service method output done).snd
      (Function.update origin p.next (some method)) := by
    rw [Process.prepare]
    split
    case isFalse => exact ho
    case isTrue =>
      intro id entry hl
      have hl := StdMap.lookup_insertNew.symm.trans hl
      cases hi : p.channel.responseCallbacks.lookup id <;>
        simp only [hi, Option.none_or, Option.some_or, Option.ite_none_right_eq_some,
          Option.some.injEq] at hl
      case some =>
        obtain ⟨ha, method', hm, hk⟩ := ho id entry (hi.trans <| congrArg some hl)
        exact ⟨Nat.lt_succ_of_lt ha, method', hm, fun r he => (hk r he).imp_left Nat.lt_succ_of_lt⟩
      case none =>
        obtain rfl := hl.right
        refine ⟨Nat.lt_succ_self _, method, Function.update_self .., fun r he => ?_⟩
        exact (hr r he).imp_left Nat.lt_succ_of_lt
  rw [Process.proxyCall_eq]
  exact hp.steady <| .of_transfers Process.submit_transfers

theorem next (h : Typed c.client.process c.origin) (ha : c.Allowed action)
    (hn : c.next P action = some c') : Typed c'.client.process c'.origin := by
  obtain ⟨client, hc, rfl⟩ := Option.map_eq_some_iff.mp hn
  cases action
  case call =>
    obtain rfl := Option.some.inj hc
    exact h.proxyCall fun r hr => ⟨(ha r hr).left, (ha r hr).right.right⟩
  case receive =>
    have hr := h.receive (P := P)
    simp only [Client.next] at hc
    rcases hp : c.client.process.receive P with ⟨q, outcome⟩
    rw [hp] at hc hr
    cases outcome
    case aborted => contradiction
    all_goals exact Option.some.inj hc ▸ hr
  case resume =>
    obtain ⟨⟨p, _ | ⟨a, running⟩⟩, origin⟩ := c
    case nil => contradiction
    case cons =>
      obtain ⟨q, hq, rfl⟩ := Option.map_eq_some_iff.mp hc
      obtain rfl := (Process.resume_eq_some_iff.mp hq).right
      exact h.finish
  case environment => exact Option.some.inj hc ▸ h.steady ha

end Typed

theorem copiesItsType (h : Transition.Reachable Initial Allowed (next P) c) :
    c.CopiesItsType P envelope := by
  intro entry hl
  have ht := h.invariant (fun _ => Typed.initial) fun _ _ _ => Typed.next
  obtain ⟨ha, method, hm, hr⟩ := ht _ entry hl
  refine ⟨method, ⟨hl, hm⟩, fun r hn => ?_⟩
  obtain ⟨entry', number, content, hc⟩ := Process.handleResponse_copies hn
  obtain rfl : entry = entry' := Option.some.inj <| hl.symm.trans hc.pending
  refine ⟨hc.response, number, content, hc.data, hc.listed, ?_, hc.copied⟩
  exact hc.type.symm.trans (hr r hc.response).right

-- `sayHello` has been called, and is going to be answered with a response of `sayBye`.
def sayHello : Recorded where
  client.process.next := 1
  client.process.responses _ := .new Salutation.response

def byeResponse : EnvelopePtr where
  message.response := some {
    id         := some 0
    extensions := [(Salutation.sayBye.id, ⟨Salutation.response, [⟨true, []⟩]⟩)]
  }

def callSayHello : Client.Action :=
  .call Salutation.service Salutation.sayHello (some <| .new Salutation.request) (some 0) 7

theorem reachable_callSayHello {c : Recorded}
    (h : sayHello.next Salutation.platform callSayHello = some c) :
    Transition.Reachable Initial Allowed (next Salutation.platform) c := by
  have ha : sayHello.Allowed callSayHello := by
    intro r hr
    obtain rfl := Option.some.inj hr
    exact ⟨Nat.zero_lt_one, by decide +kernel, rfl⟩
  exact .step (.start ⟨rfl, rfl, rfl⟩) ha h

theorem copiesItsType_callSayHello :
    ∃ c, sayHello.next Salutation.platform callSayHello = some c ∧
      c.CopiesItsType Salutation.platform byeResponse :=
  ⟨_, rfl, copiesItsType <| reachable_callSayHello rfl⟩

theorem not_rejectsOthers :
    ¬∀ c envelope, Transition.Reachable Initial Allowed (next Salutation.platform) c →
      c.RejectsOthers Salutation.platform envelope := by
  intro h
  let c := (sayHello.next Salutation.platform callSayHello).getD {}
  have ha : (c.client.process.channel.responseCallbacks.lookup byeResponse.responseId).map
      (·.handler.addr) = some 1 := by decide +kernel
  obtain ⟨entry, hl, ha⟩ := Option.map_eq_some_iff.mp ha
  have ho : c.origin entry.handler.addr = some Salutation.sayHello := by
    rw [ha]
    rfl
  have hr := h c byeResponse (reachable_callSayHello rfl) entry _ ⟨hl, ho⟩ _ _ rfl
    (by decide +kernel)
  exact absurd (congrArg Outcome.succeeds hr.left) (by decide +kernel)

end Recorded
end ProtoCall
