import ProtoCall.Runtime.Alignment
import ProtoCall.Runtime.Completion
import ProtoCall.Runtime.Payload.RoundTrip
import ProtoCall.Runtime.Proxy

namespace ProtoCall

-- What an application finds in a message.
structure Value where
  content : Content
  objects : List (Option Bytes)
  deriving DecidableEq

def Message.value (msg : Message) (heap : Heap) : Value where
  content := msg.toContent
  objects := Payload.objects heap msg msg.type

-- A message on its way: its content, the objects that it was sent with, and the items these travel
-- in.
structure Parcel where
  method  : MethodDescriptor
  content : Content
  payload : List PayloadItem
  objects : List Bytes

-- The request of the call with this number. Only a call that waits for something has an id.
structure Query extends Parcel where
  call : ℕ
  id   : Option UInt64

structure Answer extends Parcel where
  call  : ℕ
  id    : UInt64
  error : ErrorHolder

namespace Query

def envelope (q : Query) : Envelope where
  request := some { id := q.id.map (·.toInt64), extensions := [(q.method.id, q.content)] }

def items (q : Query) : List Item :=
  .envelope q.envelope :: q.payload.map .payload

structure WellFormed (P : Platform) (q : Query) : Prop where
  type    : q.content.type = q.method.inputType
  void    : q.method.voidInput → q.content.fields = []
  payload : Payload.Encodes P (Payload.present q.method.inputType q.content) q.payload q.objects

def Intact (P : Platform) (q : Query) : Prop :=
  Payload.Intact P (Payload.present q.method.inputType q.content) q.payload q.objects

end Query

namespace Answer

def envelope (a : Answer) : Envelope where
  response := some {
    id          := some a.id.toInt64
    errorCode   := if a.error.hasError then some a.error.errorCode else none
    errorString := if a.error.hasError then some a.error.errorString else none
    extensions  := [(a.method.id, a.content)]
  }

def items (a : Answer) : List Item :=
  .envelope a.envelope :: a.payload.map .payload

structure WellFormed (P : Platform) (a : Answer) : Prop where
  type    : a.content.type = a.method.outputType
  replies : a.method.voidOutput = false
  payload : Payload.Encodes P (Payload.present a.method.outputType a.content) a.payload a.objects

def Intact (P : Platform) (a : Answer) : Prop :=
  Payload.Intact P (Payload.present a.method.outputType a.content) a.payload a.objects

end Answer

theorem error_envelope {a : Answer} {addr : ℕ} :
    (EnvelopePtr.mk addr a.envelope).response.error = a.error :=
  Response.error_eq rfl rfl

theorem responseId_envelope {a : Answer} {addr : ℕ} :
    (EnvelopePtr.mk addr a.envelope).responseId = a.id := by
  simp [EnvelopePtr.responseId, EnvelopePtr.response, Answer.envelope, Response.idValue]

namespace Process

variable {P : Platform} {p : Process} {rest : List Item}

theorem submit_eq {msg : Message} {d : Descriptor} {e : Envelope} (hP : P.Reliable) :
    submit P msg d e p = (p.withLink { p.channel.link with
      outgoing := p.channel.link.outgoing ++
        .envelope e :: (Payload.items P p.heap msg d).map .payload
      sends    := p.channel.link.sends + 1 + (Payload.attempts P p.heap msg d).length
    }, none) := by
  refine submit_of_submits ⟨hP.sendOk _, ?_⟩
  exact Payload.delivers_of_isSome hP.sendOk fun _ => Payload.isSome_of_mem_attempts hP

theorem receiveMessage_envelope {l : Link} {e : Envelope} (hr : ∀ n, P.receiveOk n)
    (h : l.incoming = .envelope e :: rest) : l.receiveMessage P =
      (some e, { l with receives := l.receives + 1, incoming := rest }) := by
  simp [Link.receiveMessage, hr, h]

theorem receiveMessage_nil {l : Link} (h : l.incoming = []) :
    l.receiveMessage P = (none, { l with receives := l.receives + 1 }) := by
  simp [Link.receiveMessage, h]

section Query

variable {q : Query} {d : Dispatcher} {p' : Process} {invocation : Invocation}

-- The service is called with what has been sent, and is given a closure that can answer.
structure Invokes (P : Platform) (q : Query) (p : Process) (rest : List Item) (p' : Process)
    (invocation : Invocation) : Prop where
  incoming  : p'.channel.link.incoming = rest
  outgoing  : p'.channel.link.outgoing = p.channel.link.outgoing
  callbacks : p'.channel.responseCallbacks = p.channel.responseCallbacks
  manager   : p'.manager = (p.manager.lookupServiceDispatcher q.method.id).snd
  next      : p.next < p'.next
  responses : ∀ r < p.next, p'.responses r = p.responses r
  method    : invocation.method = q.method
  input     : q.Intact P → invocation.input.map (·.value p'.heap) =
    if q.method.voidInput then none else some ⟨q.content, q.objects.map some⟩
  nothing   : q.method.voidOutput → invocation.done = .doNothing
  reply     : q.method.voidOutput = false → ∃ r, r < p'.next ∧
    p'.responses r = .new q.method.outputType ∧
    invocation.done = .reply ⟨q.method.id, ⟨p.next, q.envelope⟩, r⟩

theorem arrived_query (hP : P.Reliable) (hq : q.WellFormed P)
    (hi : p.channel.link.incoming = q.payload.map .payload ++ rest) :
    ∃ p₁ request, p.arrived P q.method (.parsed q.content) = ((p₁, request), none) ∧
      p.Transfers p₁ ∧ request.toContent = q.content ∧
      p₁.channel.link.incoming = rest ∧
      p₁.channel.link.outgoing = p.channel.link.outgoing ∧
      (q.Intact P → Payload.objects p₁.heap request q.method.inputType = q.objects.map some) := by
  set xs := Payload.present q.method.inputType q.content
  have hx : (if q.method.voidInput then [] else xs) = xs := by
    split
    case isTrue h  => exact (Payload.present_of_nil <| hq.void h).symm
    case isFalse h => rfl
  have ha : p.arrived P q.method (.parsed q.content) =
      Payload.receiveObjects P xs (p, .parsed q.content) := by
    rw [arrived_eq, hx]
  have ht := hq.payload.takes (s := (p, .parsed q.content)) hP hi
  have hr : Payload.Receives (p, .parsed q.content)
      (Payload.receiveObjects P xs (p, .parsed q.content)).fst := Payload.receiveObjects_receives
  have hl : Payload.Leaves (p, .parsed q.content)
      (Payload.receiveObjects P xs (p, .parsed q.content)).fst := Payload.receiveObjects_leaves
  refine ⟨_, _, ha.trans <| Prod.ext rfl ht.exit, hr.left, hr.right, ht.incoming, hl.left, ?_⟩
  intro hI
  have hf := hq.payload.fills (s := (p, .parsed q.content)) hP hI hi Payload.nodup_present
    fun _ _ => rfl
  rw [Payload.objects, hr.right]
  exact hf.objects

theorem invocation_invokes {p₁ : Process} {request : Message} (hq : q.WellFormed P)
    (ht : ((p.opened P).dispatching d q.method.id).Transfers p₁)
    (hc : request.toContent = q.content) (hin : p₁.channel.link.incoming = rest)
    (hout : p₁.channel.link.outgoing = p.channel.link.outgoing)
    (hv : q.Intact P →
      Payload.objects p₁.heap request q.method.inputType = q.objects.map some) :
    Invokes P q p rest (p₁.invocation q.method ⟨p.next, q.envelope⟩ request).fst
      (p₁.invocation q.method ⟨p.next, q.envelope⟩ request).snd := by
  have hval : q.Intact P → request.value p₁.heap = ⟨q.content, q.objects.map some⟩ := by
    intro hI
    have htype : request.type = q.method.inputType := hc ▸ hq.type
    rw [Message.value, htype, hv hI, hc]
  have hnext : p₁.next = p.next + 1 := ht.next
  have hresp : p₁.responses = p.responses := ht.responses
  rw [invocation]
  by_cases ho : q.method.voidOutput
  case pos =>
    rw [if_pos ho]
    exact {
      incoming      := hin
      outgoing      := hout
      callbacks     := ht.callbacks
      manager       := ht.manager
      next          := hnext ▸ Nat.lt_succ_self _
      responses _ _ := congrFun hresp _
      method        := rfl
      input hI      := by
        by_cases hvi : q.method.voidInput <;> simp [hvi, hval hI]
      nothing _     := rfl
      reply h       := by simp [ho] at h
    }
  case neg =>
    rw [if_neg ho]
    exact {
      incoming      := hin
      outgoing      := hout
      callbacks     := ht.callbacks
      manager       := ht.manager
      next          := by
        change p.next < p₁.next + 1
        omega
      responses r h := by
        have hne : r ≠ p₁.next := by omega
        exact (Function.update_of_ne hne ..).trans (congrFun hresp r)
      method        := rfl
      input hI      := by
        by_cases hvi : q.method.voidInput <;> simp [hvi, hval hI]
      nothing h     := absurd h ho
      reply _       := ⟨p₁.next, Nat.lt_succ_self _, Function.update_self .., rfl⟩
    }

theorem receive_query (hP : P.Reliable) (hn : d.service.ids.Nodup)
    (hm : q.method ∈ d.service.methods) (hq : q.WellFormed P)
    (hr : p.manager.resolve q.method.id = some d)
    (hi : p.channel.link.incoming = q.items ++ rest) :
    ∃ p' invocation, p.receive P = (p', .invoked invocation) ∧
      Invokes P q p rest p' invocation := by
  have hl := receiveMessage_envelope hP.receiveOk hi
  have hd : (EnvelopePtr.mk p.next q.envelope).request.data = some (q.method.id, q.content) := rfl
  have ho : (p.opened P).channel.link.incoming = q.payload.map .payload ++ rest :=
    congrArg (·.snd.incoming) hl
  obtain ⟨p₁, request, ha, ht, hc, hin, hout, hv⟩ :=
    arrived_query (p := (p.opened P).dispatching d q.method.id) hP hq ho
  have hh := handleRequest_handles P ⟨p.next, q.envelope⟩ (p.opened P)
  have hs : (EnvelopePtr.mk p.next q.envelope).message.request.isSome := rfl
  rw [receive_of_some (congrArg Prod.fst hl), handleMessage, if_pos hs]
  generalize (p.opened P).handleRequest P ⟨p.next, q.envelope⟩ = result at hh
  -- All that could go wrong has been ruled out.
  cases hh
  case empty hd' _ => cases hd'.symm.trans hd
  case noMessage hd' _ _ => cases hd'.symm.trans hd
  case noDispatcher hm' hr' =>
    rw [hd] at hm'
    rw [← hm'] at hr'
    cases hr'.symm.trans hr
  case unlisted hd' hr' hm' _ _ _ =>
    obtain ⟨rfl, -⟩ := Prod.mk.inj <| Option.some.inj <| hd'.symm.trans hd
    obtain rfl := Option.some.inj <| hr'.symm.trans hr
    cases hm'.symm.trans <| ServiceDescriptor.method?_id hn hm
  case lost hd' hr' hm' he =>
    obtain ⟨rfl, rfl⟩ := Prod.mk.inj <| Option.some.inj <| hd'.symm.trans hd
    obtain rfl := Option.some.inj <| hr'.symm.trans hr
    obtain rfl := Option.some.inj <| hm'.symm.trans <| ServiceDescriptor.method?_id hn hm
    rw [ha] at he
    contradiction
  case invoked hd' hr' hm' ha' =>
    obtain ⟨rfl, rfl⟩ := Prod.mk.inj <| Option.some.inj <| hd'.symm.trans hd
    obtain rfl := Option.some.inj <| hr'.symm.trans hr
    obtain rfl := Option.some.inj <| hm'.symm.trans <| ServiceDescriptor.method?_id hn hm
    obtain ⟨rfl, rfl⟩ := Prod.mk.inj <| congrArg Prod.fst <| ha'.symm.trans ha
    have ho : (p.opened P).channel.link.outgoing = p.channel.link.outgoing :=
      congrArg (·.snd.outgoing) hl
    exact ⟨_, _, rfl, invocation_invokes hq ht hc hin (hout.trans ho) hv⟩

end Query

section Send

variable {service : ServiceDescriptor} {method : MethodDescriptor} {input : Option Message}
  {output : Option Ref} {done : Closure} {info : ReplyInfo}

-- A message that can be sent as a parameter: all of its objects are there.
structure Fits (d : Descriptor) (msg : Message) : Prop where
  type : msg.type = d
  full : Payload.Full d msg

-- The request that a call sends.
structure Asks (P : Platform) (method : MethodDescriptor) (msg : Message) (p p' : Process)
    (q : Query) : Prop where
  callee   : q.method = method
  formed   : q.WellFormed P
  intact   : P.Inverse → Payload.Sized P p.heap msg method.inputType → q.Intact P
  content  : q.content = msg.toContent
  objects  : q.objects.map some = Payload.objects p.heap msg method.inputType
  id       : q.id = if method.registers then some p.channel.currentRequestId else none
  incoming : p'.channel.link.incoming = p.channel.link.incoming
  outgoing : p'.channel.link.outgoing = p.channel.link.outgoing ++ q.items

theorem proxyCall_asks (call : ℕ) (hP : P.Reliable)
    (hf : Fits method.inputType (input.getD <| .new method.inputType))
    (hv : method.voidInput → input = none) :
    ∃ q, q.call = call ∧ Asks P method (input.getD <| .new method.inputType) p
      (p.proxyCall P service method input output done).fst q := by
  set msg := input.getD <| .new method.inputType
  obtain ⟨objects, he, hz, ho⟩ := @Payload.items_encodes P _ msg p.heap hP hf.full
  have hn : method.voidInput → msg.fields = [] := by
    intro h
    simp only [msg, hv h]
    rfl
  have hc : method.requestContent msg = msg.toContent := by
    rw [MethodDescriptor.requestContent]
    split
    case isFalse => rfl
    case isTrue h =>
      simp only [msg, hv h]
      rfl
  let q : Query := {
    method, call, objects
    content := msg.toContent
    payload := Payload.items P p.heap msg method.inputType
    id      := (p.prepare service method output done).fst
  }
  have hs : p.proxyCall P service method input output done =
      submit P msg method.inputType (method.requestEnvelope q.id msg)
        (p.prepare service method output done).snd := proxyCall_eq
  refine ⟨q, rfl, rfl, ⟨hf.type, hn, he⟩, hz, rfl, ho.symm, ?_, ?_, ?_⟩
  case refine_1 =>
    simp only [q, prepare]
    split <;> rfl
  case refine_2 =>
    rw [hs, submit_eq hP]
    simp only [withLink, prepare_link]
  case refine_3 =>
    rw [hs, submit_eq hP]
    simp only [withLink, prepare_link, prepare_heap, MethodDescriptor.requestEnvelope, hc]
    rfl

-- The response that a closure sends when it is run.
structure Replies (P : Platform) (method : MethodDescriptor) (info : ReplyInfo) (p p' : Process)
    (a : Answer) : Prop where
  callee    : a.method = method
  formed    : a.WellFormed P
  intact    : P.Inverse →
    Payload.Sized P p.heap (p.responses info.response) method.outputType → a.Intact P
  content   : a.content = (p.responses info.response).toContent
  objects   : a.objects.map some =
    Payload.objects p.heap (p.responses info.response) method.outputType
  error     : a.error = (p.responses info.response).error
  id        : a.id = info.requestMessageEnvelope.request.idValue.toUInt64
  incoming  : p'.channel.link.incoming = p.channel.link.incoming
  outgoing  : p'.channel.link.outgoing = p.channel.link.outgoing ++ a.items
  callbacks : p'.channel.responseCallbacks = p.channel.responseCallbacks
  manager   : p'.manager = p.manager
  next      : p'.next = p.next
  responses : p'.responses = p.responses

theorem reply_replies (call : ℕ) (hP : P.Reliable)
    (hm : service.replying? info.methodId = some method)
    (hf : Fits method.outputType (p.responses info.response)) :
    ∃ a, a.call = call ∧ Replies P method info p (p.reply P service info).fst a := by
  set msg := p.responses info.response
  obtain ⟨objects, he, hz, ho⟩ := @Payload.items_encodes P _ msg p.heap hP hf.full
  let a : Answer := {
    method, call, objects
    content := msg.toContent
    payload := Payload.items P p.heap msg method.outputType
    id      := info.requestMessageEnvelope.request.idValue.toUInt64
    error   := msg.error
  }
  have hi : a.id.toInt64 = info.requestMessageEnvelope.request.idValue := by simp [a]
  have hs := reply_eq (P := P) (p := p) hm
  simp only [submit_eq hP] at hs
  have hw : a.WellFormed P := ⟨hf.type, ServiceDescriptor.voidOutput_of_replying? hm, he⟩
  refine ⟨a, rfl, rfl, hw, hz, rfl, ho.symm, rfl, rfl, ?_, ?_, ?_, ?_, ?_, ?_⟩
  case refine_2 =>
    rw [hs]
    simp only [log, withLink, Answer.items, Answer.envelope, hi, a]
    rfl
  all_goals
    rw [hs]
    rfl

end Send

section Answer

variable {a : Answer} {entry : ResponseCallbackEntry} {r : Ref} {p' : Process}

-- The response object holds what has been sent when the callback is run.
structure Answers (P : Platform) (a : Answer) (p : Process) (r : Ref) (rest : List Item)
    (p' : Process) : Prop where
  incoming  : p'.channel.link.incoming = rest
  outgoing  : p'.channel.link.outgoing = p.channel.link.outgoing
  callbacks : p'.channel.responseCallbacks = p.channel.responseCallbacks
  requestId : p'.channel.currentRequestId = p.channel.currentRequestId
  next      : p.next < p'.next
  responses : ∀ r', r' ≠ r → p'.responses r' = p.responses r'
  types     : ∀ r', (p'.responses r').type = (p.responses r').type
  error     : (p'.responses r).error = a.error
  value     : a.Intact P → p.responses r = .new a.method.outputType →
    (p'.responses r).value p'.heap = ⟨a.content, a.objects.map some⟩

theorem deliver_answers (hP : P.Reliable) (ha : a.WellFormed P)
    (hi : p.channel.link.incoming = a.payload.map .payload ++ rest) :
    (p.received P a.method a.content a.error r).snd = none ∧
      ∃ p', p.deliver P a.method a.content a.error r = p' ∧
        p'.channel.link.incoming = rest ∧
        p'.channel.link.outgoing = p.channel.link.outgoing ∧
        (p'.responses r).error = a.error ∧
        (a.Intact P → p.responses r = .new a.method.outputType →
          (p'.responses r).value p'.heap = ⟨a.content, a.objects.map some⟩) := by
  set xs := Payload.present a.method.outputType a.content
  set s : Payload.Target := (p, fill (p.responses r) a.content a.error)
  have hs : p.received P a.method a.content a.error r = Payload.receiveObjects P xs s := by
    rw [received, Payload.receive_eq]
    rfl
  have ht := ha.payload.takes (s := s) hP hi
  have hl : Payload.Leaves s (Payload.receiveObjects P xs s).fst := Payload.receiveObjects_leaves
  have hc : (Payload.receiveObjects P xs s).fst.snd.toContent = a.content :=
    Payload.receiveObjects_receives.right
  refine ⟨by rw [hs, ht.exit], _, rfl, ?_⟩
  simp only [deliver, hs, Function.update_self]
  refine ⟨ht.incoming, hl.left, hl.right, fun hI hr => ?_⟩
  have hn : ∀ x ∈ xs, (s.snd.holder x.fst).object = none := by
    intro x _
    change ((p.responses r).holder x.fst).object = none
    rw [hr]
    rfl
  have hf := ha.payload.fills (s := s) hP hI hi Payload.nodup_present hn
  have htype : (Payload.receiveObjects P xs s).fst.snd.type = a.method.outputType :=
    (congrArg Content.type hc).trans ha.type
  rw [Message.value, htype, Payload.objects, hc, hf.objects]

theorem receive_answer (hP : P.Reliable) (hn : entry.handler.service.ids.Nodup)
    (hm : a.method ∈ entry.handler.service.methods) (ha : a.WellFormed P)
    (hl : p.channel.responseCallbacks.lookup a.id = some entry) (he : entry.response = some r)
    (hr : (p.responses r).type = a.method.outputType)
    (hi : p.channel.link.incoming = a.items ++ rest) :
    ∃ p', p.receive P = (p', .callback ⟨a.id, entry, ⟨p.next, a.envelope⟩⟩) ∧
      Answers P a p r rest p' := by
  have hlink := receiveMessage_envelope hP.receiveOk hi
  have hd : (EnvelopePtr.mk p.next a.envelope).response.data = some (a.method.id, a.content) := rfl
  have hid : (EnvelopePtr.mk p.next a.envelope).responseId = a.id := responseId_envelope
  have hin : (p.opened P).channel.link.incoming = a.payload.map .payload ++ rest :=
    congrArg (·.snd.incoming) hlink
  have hout : (p.opened P).channel.link.outgoing = p.channel.link.outgoing :=
    congrArg (·.snd.outgoing) hlink
  have hq : ¬(EnvelopePtr.mk p.next a.envelope).message.request.isSome := Bool.false_ne_true
  have hs : (EnvelopePtr.mk p.next a.envelope).message.response.isSome := rfl
  have hrep := ServiceDescriptor.replying?_id hn hm ha.replies
  obtain ⟨hsnd, p', hp', hin', hout', herr, hv⟩ := deliver_answers (p := p.opened P) (r := r) hP ha hin
  have hc : (p.opened P).Completes P ⟨p.next, a.envelope⟩ entry a.method.id a.content a.method r := {
    pending  := hid ▸ hl
    data     := hd
    listed   := hrep
    response := he
    type     := hr.trans ha.type.symm
    payload  := by
      rw [error_envelope]
      exact received_snd_eq_none_iff.mp hsnd
  }
  rw [receive_of_some (congrArg Prod.fst hlink), handleMessage, if_neg hq, if_pos hs,
    hc.handleResponse_eq, error_envelope, hid, hp']
  have ht : (p.opened P).Transfers ((p.opened P).received P a.method a.content a.error r).fst.fst :=
    received_receives.left
  exact ⟨_, rfl, {
    incoming  := hin'
    outgoing  := hout'.trans hout
    callbacks := hp' ▸ deliver_callbacks
    requestId := hp' ▸ ht.requestId
    next      := hp' ▸ ht.next.ge
    responses := fun r' hne => hp' ▸ deliver_responses_of_ne hne
    types     := fun r' => by
      by_cases he : r' = r
      case pos =>
        have hc := congrArg Content.type <| hp' ▸ deliver_responses_self (p := p.opened P)
        exact he ▸ (hc.trans ha.type).trans hr.symm
      case neg => exact congrArg (fun m : Message => m.type) <| hp' ▸ deliver_responses_of_ne he
    error     := herr
    value     := hv
  }⟩

end Answer

end Process
end ProtoCall
