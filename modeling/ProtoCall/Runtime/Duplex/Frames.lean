import ProtoCall.Runtime.System.Draining

-- What a process does with what it receives does not depend on what comes after that.
namespace ProtoCall

-- The same process, with something else to be received.
def Process.facing (p : Process) (incoming : List Item) : Process :=
  p.withLink { p.channel.link with incoming }

namespace Payload

variable {P : Platform} {x : ℕ × Carrier} {xs : List (ℕ × Carrier)} {s : Target}
  {item : PayloadItem} {items : List PayloadItem} {contents : List Bytes} {rest t : List Item}

-- The same target, with something else to be received.
def Target.facing (s : Target) (incoming : List Item) : Target := (s.fst.facing incoming, s.snd)

theorem receiveObject_facing (hr : ∀ n, P.receiveOk n) (hk : item.kind = x.snd.kind)
    (hi : s.fst.channel.link.incoming = .payload item :: rest) :
    receiveObject P x (s.facing <| .payload item :: t) =
      ((receiveObject P x s).fst.facing t, (receiveObject P x s).snd) := by
  obtain ⟨i, type | cls⟩ := x
  case vtk =>
    have hk : item.kind = overload type := hk
    rcases ho : (s.snd.holder i).object with _ | a <;>
      simp [receiveObject, receiveVtk, Target.facing, Process.facing, obtain, ho,
        Process.receivePayload, Process.withLink, Link.receivePayload, hr, hi, hk]
  case external =>
    have hk : item.kind = .voidData := hk
    rcases ho : (s.snd.holder i).object with _ | a <;>
      simp only [receiveObject, receiveExternal, Target.facing, Process.facing, obtain, ho,
        Process.receivePayload, Process.withLink, Process.setErrorString, RpcChannel.setErrorString,
        Link.receivePayload, hr, hi, hk, ↓reduceIte]
    all_goals split <;> rfl

theorem Encodes.receiveObjects_facing (he : Encodes P xs items contents) (hP : P.Reliable)
    (hi : s.fst.channel.link.incoming = items.map .payload ++ rest) :
    receiveObjects P xs (s.facing <| items.map .payload ++ t) =
      ((receiveObjects P xs s).fst.facing t, (receiveObjects P xs s).snd) := by
  induction he generalizing s
  case nil => rfl
  case cons hx _ ih =>
    have hk := kind_of_encode hx
    have ha := receiveObject_accepts hP hk hi
    have ha' {rest : List Item} := receiveObject_accepts (s := s.facing (.payload _ :: rest)) hP hk rfl
    rw [List.map_cons, List.cons_append, receiveObjects_cons_of_accepts ha]
    rw [receiveObjects_cons_of_accepts ha', receiveObject_facing hP.receiveOk hk hi]
    exact ih <| receiveObject_incoming hP.receiveOk hk hi

end Payload

namespace Process

variable {P : Platform} {p q : Process} {envelope : EnvelopePtr} {e : Envelope} {d : Dispatcher}
  {method : MethodDescriptor} {content : Content} {number : ℤ} {request : Message}
  {rest t : List Item}

theorem handleRequest_of_arrived (hd : envelope.request.data = some (number, content))
    (hr : p.manager.resolve number = some d) (hm : d.service.method? number = some method)
    (ha : (p.dispatching d number).arrived P method (.parsed content) = ((q, request), none)) :
    p.handleRequest P envelope = ((q.invocation method envelope request).fst,
      .invoked (q.invocation method envelope request).snd) := by
  have hh := handleRequest_handles P envelope p
  generalize p.handleRequest P envelope = result at hh
  cases hh
  case noDispatcher hn hr' =>
    simp only [hd, Option.map_some, Option.getD_some] at hn
    exact nomatch (hn ▸ hr').symm.trans hr
  all_goals simp_all

theorem opened_facing (hr : ∀ n, P.receiveOk n)
    (hi : p.channel.link.incoming = .envelope e :: rest) :
    (p.facing <| .envelope e :: t).opened P = (p.opened P).facing t := by
  simp [opened, facing, withLink, log, Link.receiveMessage, hr, hi]

theorem invocation_facing :
    (p.facing rest).invocation method envelope request =
      ((p.invocation method envelope request).fst.facing rest,
        (p.invocation method envelope request).snd) := by
  rw [invocation, invocation]
  split <;> rfl

section Query

variable {q : Query} {p₁ : Process}

theorem receive_query_of_arrived (hr : ∀ n, P.receiveOk n) (hn : d.service.ids.Nodup)
    (hm : q.method ∈ d.service.methods) (hd : p.manager.resolve q.method.id = some d)
    (hi : p.channel.link.incoming = q.items ++ rest)
    (ha : ((p.opened P).dispatching d q.method.id).arrived P q.method (.parsed q.content) =
      ((p₁, request), none)) :
    p.receive P = ((p₁.invocation q.method ⟨p.next, q.envelope⟩ request).fst,
      .invoked (p₁.invocation q.method ⟨p.next, q.envelope⟩ request).snd) := by
  have hl := receiveMessage_envelope hr hi
  have hs : (EnvelopePtr.mk p.next q.envelope).message.request.isSome := rfl
  rw [receive_of_some (congrArg Prod.fst hl), handleMessage, if_pos hs]
  exact handleRequest_of_arrived rfl hd (ServiceDescriptor.method?_id hn hm) ha

theorem arrived_facing (hP : P.Reliable) (hq : q.WellFormed P)
    (hi : p.channel.link.incoming = q.payload.map .payload ++ rest) :
    (p.facing <| q.payload.map .payload ++ t).arrived P q.method (.parsed q.content) =
      ((p.arrived P q.method (.parsed q.content)).fst.facing t,
        (p.arrived P q.method (.parsed q.content)).snd) := by
  have hx : (if q.method.voidInput then [] else Payload.present q.method.inputType q.content) =
      Payload.present q.method.inputType q.content := by
    split
    case isTrue h  => exact (Payload.present_of_nil <| hq.void h).symm
    case isFalse h => rfl
  rw [arrived_eq, arrived_eq, hx]
  exact hq.payload.receiveObjects_facing (s := (p, .parsed q.content)) hP hi

theorem receive_query_facing (hP : P.Reliable) (hn : d.service.ids.Nodup)
    (hm : q.method ∈ d.service.methods) (hq : q.WellFormed P)
    (hr : p.manager.resolve q.method.id = some d)
    (hi : p.channel.link.incoming = q.items ++ rest) :
    (p.facing <| q.items ++ t).receive P =
      ((p.receive P).fst.facing t, (p.receive P).snd) := by
  have hl := receiveMessage_envelope hP.receiveOk hi
  have ho : (p.opened P).channel.link.incoming = q.payload.map .payload ++ rest :=
    congrArg (·.snd.incoming) hl
  obtain ⟨p₁, request, ha, -⟩ :=
    arrived_query (p := (p.opened P).dispatching d q.method.id) hP hq ho
  have ha' := arrived_facing (p := (p.opened P).dispatching d q.method.id) (t := t) hP hq ho
  rw [ha] at ha'
  rw [receive_query_of_arrived hP.receiveOk hn hm hr hi ha]
  have hf : (p.facing <| q.items ++ t).opened P = (p.opened P).facing _ :=
    opened_facing hP.receiveOk hi
  have he : (p.facing <| q.items ++ t).receive P =
      (((p₁.facing t).invocation q.method ⟨p.next, q.envelope⟩ request).fst,
        .invoked ((p₁.facing t).invocation q.method ⟨p.next, q.envelope⟩ request).snd) :=
    receive_query_of_arrived (p := p.facing <| q.items ++ t) hP.receiveOk hn hm hr rfl <| by
      rw [hf]
      exact ha'
  rw [he, invocation_facing]

end Query

section Answer

variable {a : Answer} {entry : ResponseCallbackEntry} {r : Ref}

theorem receive_answer_eq (hP : P.Reliable) (hn : entry.handler.service.ids.Nodup)
    (hm : a.method ∈ entry.handler.service.methods) (ha : a.WellFormed P)
    (hl : p.channel.responseCallbacks.lookup a.id = some entry) (he : entry.response = some r)
    (hr : (p.responses r).type = a.method.outputType)
    (hi : p.channel.link.incoming = a.items ++ rest) :
    p.receive P = (((p.opened P).deliver P a.method a.content a.error r).log (.run entry.done),
      .callback ⟨a.id, entry, ⟨p.next, a.envelope⟩⟩) := by
  have hlink := receiveMessage_envelope hP.receiveOk hi
  have hid : (EnvelopePtr.mk p.next a.envelope).responseId = a.id := responseId_envelope
  have hin : (p.opened P).channel.link.incoming = a.payload.map .payload ++ rest :=
    congrArg (·.snd.incoming) hlink
  have hq : ¬(EnvelopePtr.mk p.next a.envelope).message.request.isSome := Bool.false_ne_true
  have hs : (EnvelopePtr.mk p.next a.envelope).message.response.isSome := rfl
  obtain ⟨hsnd, -⟩ := deliver_answers (p := p.opened P) (r := r) hP ha hin
  have hc : (p.opened P).Completes P ⟨p.next, a.envelope⟩ entry a.method.id a.content a.method r := {
    pending  := hid ▸ hl
    data     := rfl
    listed   := ServiceDescriptor.replying?_id hn hm ha.replies
    response := he
    type     := hr.trans ha.type.symm
    payload  := by
      rw [error_envelope]
      exact received_snd_eq_none_iff.mp hsnd
  }
  rw [receive_of_some (congrArg Prod.fst hlink), handleMessage, if_neg hq, if_pos hs,
    hc.handleResponse_eq, error_envelope, hid]

theorem deliver_facing (hP : P.Reliable) (ha : a.WellFormed P)
    (hi : p.channel.link.incoming = a.payload.map .payload ++ rest) :
    (p.facing <| a.payload.map .payload ++ t).deliver P a.method a.content a.error r =
      (p.deliver P a.method a.content a.error r).facing t := by
  have hf := ha.payload.receiveObjects_facing (t := t)
    (s := (p, fill (p.responses r) a.content a.error)) hP hi
  have hs {p : Process} : p.received P a.method a.content a.error r = Payload.receiveObjects P
      (Payload.present a.method.outputType a.content)
      (p, fill (p.responses r) a.content a.error) := by
    rw [received, Payload.receive_eq]
    rfl
  rw [← hs] at hf
  have hf : (p.facing <| a.payload.map .payload ++ t).received P a.method a.content a.error r =
    _ := hs.trans hf
  rw [deliver, hf, deliver]
  rfl

theorem receive_answer_facing (hP : P.Reliable) (hn : entry.handler.service.ids.Nodup)
    (hm : a.method ∈ entry.handler.service.methods) (ha : a.WellFormed P)
    (hl : p.channel.responseCallbacks.lookup a.id = some entry) (he : entry.response = some r)
    (hr : (p.responses r).type = a.method.outputType)
    (hi : p.channel.link.incoming = a.items ++ rest) :
    (p.facing <| a.items ++ t).receive P =
      ((p.receive P).fst.facing t, (p.receive P).snd) := by
  have hlink := receiveMessage_envelope hP.receiveOk hi
  have hin : (p.opened P).channel.link.incoming = a.payload.map .payload ++ rest :=
    congrArg (·.snd.incoming) hlink
  have hf : (p.facing <| a.items ++ t).opened P = (p.opened P).facing _ :=
    opened_facing hP.receiveOk hi
  have he' := receive_answer_eq (p := p.facing <| a.items ++ t) hP hn hm ha hl he hr rfl
  rw [receive_answer_eq hP hn hm ha hl he hr hi, he', hf]
  exact congrArg (fun p : Process => (p.log _, _)) <| deliver_facing hP ha hin

end Answer

section Send

variable {service : ServiceDescriptor} {input : Option Message} {output : Option Ref}
  {done : Closure} {info : ReplyInfo}

theorem submit_facing {msg : Message} {descriptor : Descriptor} (hP : P.Reliable) :
    submit P msg descriptor e (p.facing rest) =
      ((submit P msg descriptor e p).fst.facing rest, (submit P msg descriptor e p).snd) := by
  rw [submit_eq hP, submit_eq hP]
  rfl

theorem prepare_facing : (p.facing rest).prepare service method output done =
    ((p.prepare service method output done).fst,
      (p.prepare service method output done).snd.facing rest) := by
  rw [prepare, prepare]
  split <;> rfl

theorem proxyCall_facing (hP : P.Reliable) :
    (p.facing rest).proxyCall P service method input output done =
      ((p.proxyCall P service method input output done).fst.facing rest,
        (p.proxyCall P service method input output done).snd) := by
  simp only [proxyCall_eq, prepare_facing, submit_facing hP]

theorem reply_facing (hP : P.Reliable) (hm : service.replying? info.methodId = some method) :
    (p.facing rest).reply P service info =
      ((p.reply P service info).fst.facing rest, (p.reply P service info).snd) := by
  have hs {p : Process} := reply_eq (P := P) (p := p) hm
  rw [hs, hs]
  have hf : submit P (p.responses info.response) method.outputType
      (method.responseEnvelope info (p.responses info.response)) (p.facing rest) = _ :=
    submit_facing hP
  exact congrArg (fun r : Process × Option Exit =>
    (r.fst.log (.deleteEnvelope info.requestMessageEnvelope.addr), r.snd)) hf

end Send

end Process
end ProtoCall
