import ProtoCall.Runtime.Completion
import ProtoCall.Runtime.Payload.RoundTrip

namespace ProtoCall

namespace Payload

variable {P : Platform} {s : Target} {d : Descriptor} {msg : Message} {p : Process}

-- It is only holders that objects are received into.
theorem receive_error : (receive P d s).fst.snd.error = s.snd.error :=
  receive_eq ▸ receiveObjects_leaves.right

theorem send_outgoing : p.channel.link.outgoing <+: (send P msg d p).fst.channel.link.outgoing := by
  let R (p p' : Process) : Prop := p.channel.link.outgoing <+: p'.channel.link.outgoing
  have : Std.Refl R := ⟨fun _ => List.prefix_rfl⟩
  have : IsTrans Process R := ⟨fun _ _ _ h h' => h.trans h'⟩
  rw [send_eq]
  apply Command.Keeps.block (R := R)
  rintro (_ | item) - p
  case none => exact List.prefix_rfl
  case some =>
    simp only [attempt, Process.send, Link.send]
    split
    case isTrue  => exact List.prefix_append _ _
    case isFalse => exact List.prefix_rfl

end Payload

namespace Process

variable {P : Platform} {p : Process} {service : ServiceDescriptor} {method : MethodDescriptor}
  {info : ReplyInfo} {e : Envelope} {items : List Item} {content : Content} {error : ErrorHolder}
  {r : Ref}

-- If an envelope gets through, it is in front of its payloads.
theorem submit_outgoing {msg : Message} {d : Descriptor} :
    (submit P msg d e p).fst.channel.link.outgoing = p.channel.link.outgoing ∨
      p.channel.link.outgoing ++ [.envelope e] <+:
        (submit P msg d e p).fst.channel.link.outgoing := by
  rw [submit]
  rcases hp : p.send P (.envelope e) with ⟨_ | _, p'⟩
  case false =>
    left
    simp only [send, Link.send] at hp
    split at hp <;> cases hp
    rfl
  case true =>
    have hl : p'.channel.link.outgoing = p.channel.link.outgoing ++ [.envelope e] := by
      simp only [send, Link.send] at hp
      split at hp <;> cases hp
      rfl
    exact .inr (hl ▸ Payload.send_outgoing)

theorem reply_outgoing (h : service.replying? info.methodId = some method)
    (hs : (p.reply P service info).fst.channel.link.outgoing =
      p.channel.link.outgoing ++ .envelope e :: items) :
    e = method.responseEnvelope info (p.responses info.response) := by
  rw [reply_eq h] at hs
  have hs : (submit P _ _ _ p).fst.channel.link.outgoing = _ := hs
  rcases submit_outgoing with he | hp
  case inl => simpa using (he.symm.trans hs)
  case inr =>
    rw [hs, List.prefix_append_right_inj, List.cons_prefix_cons] at hp
    exact (Item.envelope.inj hp.left).symm

theorem deliver_error : ((p.deliver P method content error r).responses r).error = error := by
  simp only [deliver, received, Function.update_self]
  exact Payload.receive_error

variable {envelope : EnvelopePtr} {entry : ResponseCallbackEntry} {number : ℤ}

-- The error is there whether or not all the payloads arrive.
theorem handleResponse_responses
    (hl : p.channel.responseCallbacks.lookup envelope.responseId = some entry)
    (hd : envelope.response.data = some (number, content))
    (hm : entry.handler.service.replying? number = some method) (hr : entry.response = some r)
    (ht : (p.responses r).type = content.type) :
    ((p.handleResponse P envelope).fst.responses r).error = envelope.response.error := by
  have h := handleResponse_handles P envelope p
  generalize p.handleResponse P envelope = result at h
  cases h
  case unexpected hn         => exact nomatch hn.symm.trans hl
  case empty he              => exact nomatch (data_of_listFields_nil he).symm.trans hd
  case noMessage hn          => exact nomatch hn.symm.trans hd
  case unlisted hl' hd' hn   => simp_all
  case mismatch hl' hd' _ hn => simp_all
  case lost hl' _ _ hr' _ _ =>
    obtain rfl := Option.some.inj <| hl.symm.trans hl'
    obtain rfl := Option.some.inj <| hr.symm.trans hr'
    exact deliver_error
  case completed hl' _ _ hr' _ _ =>
    obtain rfl := Option.some.inj <| hl.symm.trans hl'
    obtain rfl := Option.some.inj <| hr.symm.trans hr'
    exact deliver_error

-- The call that a reply belongs to is pending. It has been made for the same service, with an
-- object for the response, which is of the type of the service's.
structure Awaits (q : Process) (envelope : EnvelopePtr) (service : ServiceDescriptor) (r : Ref)
    (msg : Message) : Prop where
  pending : ∃ entry, q.channel.responseCallbacks.lookup envelope.responseId = some entry ∧
    entry.handler.service = service ∧ entry.response = some r
  type    : (q.responses r).type = msg.type

variable {Q : Platform} {q : Process} {a : ℕ}

-- Whatever is left in the response of an error from before is written over, also where the payloads
-- of the reply get lost.
theorem handleResponse_error (h : service.replying? info.methodId = some method)
    (hs : (p.reply P service info).fst.channel.link.outgoing =
      p.channel.link.outgoing ++ .envelope e :: items)
    (hq : q.Awaits ⟨a, e⟩ service r (p.responses info.response)) :
    let received := ((q.handleResponse Q ⟨a, e⟩).fst.responses r).error
    let set := (p.responses info.response).error
    received.errorCode = set.errorCode ∧ received.errorString = set.errorString ∧
      received.hasError = set.hasError := by
  obtain rfl := reply_outgoing h hs
  obtain ⟨⟨entry, hl, hh, hr⟩, ht⟩ := hq
  have hm : entry.handler.service.replying? method.id = some method := by
    rw [hh, ServiceDescriptor.id_of_replying? h, h]
  have he : ((q.handleResponse Q _).fst.responses r).error = (p.responses info.response).error :=
    (handleResponse_responses hl rfl hm hr ht).trans (Response.error_eq rfl rfl)
  exact ⟨congrArg _ he, congrArg _ he, congrArg _ he⟩

end Process

namespace Salutation

def helloInfo : ReplyInfo := { methodId := sayHello.id }

-- The service has set a code on its response, and no text.
def refusing : Process where
  responses _ := { Message.new response with error := { errorCode := -3 } }

-- There is still an error in the object that is to take the response.
def asking : Process :=
  let p : Process := {
    responses := fun _ => { Message.new response with error := ⟨7, "Who is there?"⟩ }
  }
  (p.proxyCall platform service sayHello (some <| .new request) (some 0) 0).fst

theorem handleResponse_error_asking :
    let envelope := sayHello.responseEnvelope helloInfo (refusing.responses 0)
    let received := ((asking.handleResponse platform ⟨1, envelope⟩).fst.responses 0).error
    received.errorCode = -3 ∧ received.errorString = "" ∧ received.hasError = true := by
  have hp : (asking.channel.responseCallbacks.lookup 0).map
      (fun entry => (entry.handler.service, entry.response)) = some (service, some 0) := by
    decide +kernel
  obtain ⟨entry, hl, he⟩ := Option.map_eq_some_iff.mp hp
  obtain ⟨hs, hr⟩ := Prod.mk.inj he
  have hm : service.replying? helloInfo.methodId = some sayHello := by decide +kernel
  have ho : (refusing.reply platform service helloInfo).fst.channel.link.outgoing =
      refusing.channel.link.outgoing ++
        [.envelope <| sayHello.responseEnvelope helloInfo (refusing.responses 0)] := by
    decide +kernel
  exact Process.handleResponse_error hm ho {
    pending := ⟨entry, hl, hs, hr⟩
    type    := by decide +kernel
  }

end Salutation
end ProtoCall
