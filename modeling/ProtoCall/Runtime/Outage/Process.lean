import ProtoCall.Runtime.Duplex.Passing
import ProtoCall.Runtime.Outage.Link

-- What a process does over a link that breaks, compared to one that does not.
namespace ProtoCall.Process

variable {P Q : Platform} {p p' : Process} {envelope : EnvelopePtr} {d : Dispatcher}
  {method : MethodDescriptor} {content : Content} {number : ℤ} {items rest : List Item}

section Send

variable {service : ServiceDescriptor} {input : Option Message} {output : Option Ref}
  {done : Closure} {info : ReplyInfo}

theorem submit_takes {msg : Message} {d : Descriptor} {e : Envelope} (hQ : Q.Breaks P)
    (hP : P.Reliable) :
    Link.Takes Q (.envelope e :: (Payload.items P p.heap msg d).map .payload) p.channel.link
      (submit Q msg d e p).fst.channel.link := by
  have ha : ∀ a ∈ Payload.attempts P p.heap msg d, a.isSome :=
    fun _ => Payload.isSome_of_mem_attempts hP
  simp only [submit, send, Link.send]
  by_cases ho : Q.sendOk p.channel.link.sends <;> simp only [ho, Bool.false_eq_true, ↓reduceIte]
  case neg => exact .of_not_sendOk hQ ho
  case pos =>
    rw [Payload.send_eq, Payload.attempts_eq hQ]
    exact .cons ho <| Payload.attempts_takes (p := p.withLink _) hQ ha

theorem proxyCall_takes (hQ : Q.Breaks P) (hP : P.Reliable)
    (h : (p.proxyCall P service method input output done).fst.channel.link.outgoing =
      p.channel.link.outgoing ++ items) :
    Link.Takes Q items p.channel.link
      (p.proxyCall Q service method input output done).fst.channel.link := by
  simp only [proxyCall_eq, submit_eq hP, withLink, prepare_link, prepare_heap,
    List.append_cancel_left_eq] at h
  rw [proxyCall_eq, ← h, ← @prepare_link p service method output done,
    ← @prepare_heap p service method output done]
  exact submit_takes hQ hP

theorem reply_takes (hQ : Q.Breaks P) (hP : P.Reliable)
    (hm : service.replying? info.methodId = some method)
    (h : (p.reply P service info).fst.channel.link.outgoing = p.channel.link.outgoing ++ items) :
    Link.Takes Q items p.channel.link (p.reply Q service info).fst.channel.link := by
  simp only [reply_eq hm, submit_eq hP, withLink, log, List.append_cancel_left_eq] at h
  rw [reply_eq hm, ← h]
  exact submit_takes hQ hP

end Send

section Listens

theorem listens_handleRequest :
    Link.Listens p.channel.link (p.handleRequest Q envelope).fst.channel.link := by
  have ha {method : MethodDescriptor} {content : Content} {p : Process} :
      Link.Listens p.channel.link (p.arrived Q method (.parsed content)).fst.fst.channel.link := by
    rw [arrived_eq]
    exact Payload.receiveObjects_listens (s := (p, _))
  have h := handleRequest_handles Q envelope p
  generalize p.handleRequest Q envelope = result at h
  cases h
  case unlisted hl _ => exact hl ▸ .refl
  case lost dispatcher number _ _ _ _ _ _ => exact ha (p := p.dispatching dispatcher number)
  case invoked dispatcher number _ _ _ _ _ _ _ he =>
    rw [invocation_link]
    exact (congrArg (·.fst.fst.channel.link) he) ▸ ha (p := p.dispatching dispatcher number)
  all_goals exact .refl

theorem received_eq {error : ErrorHolder} {r : Ref} :
    p.received Q method content error r = Payload.receiveObjects Q
      (Payload.present method.outputType content) (p, fill (p.responses r) content error) := by
  rw [received, Payload.receive_eq]
  rfl

theorem listens_deliver {error : ErrorHolder} {r : Ref} :
    Link.Listens p.channel.link (p.deliver Q method content error r).channel.link := by
  simp only [deliver, received_eq]
  exact Payload.receiveObjects_listens (s := (p, _))

theorem listens_handleResponse :
    Link.Listens p.channel.link (p.handleResponse Q envelope).fst.channel.link := by
  have h := handleResponse_handles Q envelope p
  generalize p.handleResponse Q envelope = result at h
  cases h
  case lost      => exact listens_deliver
  case completed => exact listens_deliver
  all_goals exact .refl

theorem receive_listens : Link.Listens p.channel.link (p.receive Q).fst.channel.link := by
  have ho : Link.Listens p.channel.link (p.opened Q).channel.link := Link.listens_receiveMessage
  rcases h : (p.channel.link.receiveMessage Q).fst with _ | message
  case none =>
    rw [receive_of_none h]
    exact ho
  case some =>
    rw [receive_of_some h, handleMessage]
    split
    case isTrue => exact ho.trans listens_handleRequest
    case isFalse =>
      split
      case isTrue  => exact ho.trans listens_handleResponse
      case isFalse => exact ho

end Listens

-- The message at the front gets lost, without the code of the application being reached.
structure Drops (Q : Platform) (items : List Item) (p : Process) : Prop where
  outcome : ∃ rc, (p.receive Q).snd = .returned rc
  link    : Link.Misses Q items p.channel.link (p.receive Q).fst.channel.link

theorem receive_of_unread
    (h : ¬Q.receiveOk p.channel.link.receives ∨ p.channel.link.incoming = []) :
    p.receive Q = ((p.opened Q).log (.deleteEnvelope p.next), .returned false) := by
  apply receive_of_none
  rcases h with h | h
  case inl => rw [Link.receiveMessage_of_not_receiveOk h]
  case inr => rw [receiveMessage_nil h]

theorem incoming_of_unread
    (h : ¬Q.receiveOk p.channel.link.receives ∨ p.channel.link.incoming = []) :
    (p.receive Q).fst.channel.link.incoming = p.channel.link.incoming := by
  rw [receive_of_unread h]
  change (p.channel.link.receiveMessage Q).snd.incoming = _
  rcases h with h | h
  case inl => rw [Link.receiveMessage_of_not_receiveOk h]
  case inr => rw [receiveMessage_nil h]

theorem retains_of_unread
    (h : ¬Q.receiveOk p.channel.link.receives ∨ p.channel.link.incoming = []) :
    p.Retains (p.receive Q).fst := by
  rw [receive_of_unread h]
  exact {
    callbacks     := rfl
    requestId     := rfl
    next          := Nat.le_succ _
    responses _ _ := rfl
  }

theorem drops_of_unread {item : Item} (hQ : Q.Breaks P)
    (h : ¬Q.receiveOk p.channel.link.receives ∨ p.channel.link.incoming = []) :
    p.Drops Q (item :: items) := by
  refine ⟨⟨false, by rw [receive_of_unread h]⟩, ?_⟩
  rw [receive_of_unread h]
  by_cases hr : Q.receiveOk p.channel.link.receives
  case neg =>
    have hl := congrArg (·.snd.receives) <| Link.receiveMessage_of_not_receiveOk hr
    exact .of_not_receiveOk hQ hr hl
  case pos =>
    have hi := h.resolve_left <| not_not.mpr hr
    have hl := congrArg (·.snd.incoming) <| receiveMessage_nil (P := Q) hi
    exact .inr ⟨hl.trans hi, by simp [hi]⟩

-- What of a message is there when its envelope is received.
theorem opened_of_receiveOk {e : Envelope} {l : List Item}
    (hP : P.Reliable) (hr : Q.receiveOk p.channel.link.receives)
    (hi : p.channel.link.incoming = .envelope e :: l) :
    (p.channel.link.receiveMessage Q).fst = some e ∧ p.opened Q = p.opened P ∧
      (p.opened P).channel.link.incoming = l := by
  have hl := receiveMessage_envelope hP.receiveOk hi
  have he : p.channel.link.receiveMessage Q = _ := Link.receiveMessage_eq hr hP.receiveOk
  exact ⟨congrArg Prod.fst <| he.trans hl, by rw [opened, he, opened], congrArg (·.snd.incoming) hl⟩

section Query

variable {q : Query}

theorem handleRequest_of_lost (hd : envelope.request.data = some (number, content))
    (hr : p.manager.resolve number = some d) (hm : d.service.method? number = some method)
    (ha : ((p.dispatching d number).arrived Q method (.parsed content)).snd = some .ret) :
    p.handleRequest Q envelope =
      (((p.dispatching d number).arrived Q method (.parsed content)).fst.fst, .returned true) := by
  have hh := handleRequest_handles Q envelope p
  generalize p.handleRequest Q envelope = result at hh
  cases hh
  case noDispatcher hn hr' =>
    simp only [hd, Option.map_some, Option.getD_some] at hn
    cases (hn ▸ hr').symm.trans hr
  all_goals simp_all

-- A request is received over a link that can break as over one that cannot, or it gets lost.
theorem receive_query_or (hQ : Q.Breaks P) (hP : P.Reliable) (hn : d.service.ids.Nodup)
    (hm : q.method ∈ d.service.methods) (hq : q.WellFormed P)
    (hr : p.manager.resolve q.method.id = some d)
    (hi : p.channel.link.incoming <+: q.items ++ rest) :
    (∃ t, p.channel.link.incoming = q.items ++ t ∧ t <+: rest ∧ p.receive Q = p.receive P) ∨
      p.Drops Q q.items := by
  by_cases ho : Q.receiveOk p.channel.link.receives
  case neg => exact .inr <| drops_of_unread hQ <| .inl ho
  rcases hin : p.channel.link.incoming with _ | ⟨item, l⟩
  case nil => exact .inr <| drops_of_unread hQ <| .inr hin
  rw [hin, Query.items, List.cons_append, List.cons_prefix_cons] at hi
  obtain ⟨rfl, hl⟩ := hi
  obtain ⟨he, hopen, hinc⟩ := opened_of_receiveOk hP ho hin
  have hx : (if q.method.voidInput then [] else Payload.present q.method.inputType q.content) =
      Payload.present q.method.inputType q.content := by
    split
    case isTrue h  => exact (Payload.present_of_nil <| hq.void h).symm
    case isFalse h => rfl
  have ha {R : Platform} : ((p.opened P).dispatching d q.method.id).arrived R q.method
      (.parsed q.content) = Payload.receiveObjects R
        (Payload.present q.method.inputType q.content)
        ((p.opened P).dispatching d q.method.id, .parsed q.content) := by
    rw [arrived_eq, hx]
  have hs : (EnvelopePtr.mk p.next q.envelope).message.request.isSome := rfl
  have hrec : p.receive Q = (p.opened P).handleRequest Q ⟨p.next, q.envelope⟩ := by
    rw [receive_of_some he, handleMessage, if_pos hs, hopen]
  have hmeth := ServiceDescriptor.method?_id hn hm
  obtain ⟨⟨t, ht, hp⟩, heq⟩ | ⟨hlost, hmiss⟩ := hq.payload.receiveObjects_or hQ hP
    (s := ((p.opened P).dispatching d q.method.id, .parsed q.content)) (hinc.symm ▸ hl)
  case inl =>
    have ht : (p.opened P).channel.link.incoming = q.payload.map .payload ++ t := ht
    rw [hinc] at ht
    have hfull : p.channel.link.incoming = q.items ++ t := by rw [hin, ht]; rfl
    obtain ⟨p₁, request, harr, -⟩ := arrived_query
      (p := (p.opened P).dispatching d q.method.id) hP hq (hinc.trans ht)
    refine .inl ⟨t, by rw [ht]; rfl, hp, ?_⟩
    rw [hrec, receive_query_of_arrived hP.receiveOk hn hm hr hfull harr]
    exact handleRequest_of_arrived rfl hr hmeth <| (ha.trans heq).trans <| ha.symm.trans harr
  case inr =>
    rw [← ha] at hlost hmiss
    rw [handleRequest_of_lost (p := p.opened P) rfl hr hmeth hlost] at hrec
    refine .inr ⟨⟨true, congrArg Prod.snd hrec⟩, ?_⟩
    rw [hrec]
    exact Link.Misses.cons hmiss <| hin.trans <| congrArg _ hinc.symm

end Query

-- A pending call is given up, with what has been received for it so far.
structure Forgets (id : UInt64) (r : Ref) (p p' : Process) : Prop where
  callbacks : p'.channel.responseCallbacks = p.channel.responseCallbacks.erase id
  requestId : p'.channel.currentRequestId = p.channel.currentRequestId
  next      : p.next ≤ p'.next
  types     : ∀ r', (p'.responses r').type = (p.responses r').type
  responses : ∀ r' ≠ r, p'.responses r' = p.responses r'

theorem Forgets.facing {id : UInt64} {r : Ref} {incoming incoming' : List Item}
    (h : p.Forgets id r p') : (p.facing incoming).Forgets id r (p'.facing incoming') where
  callbacks := h.callbacks
  requestId := h.requestId
  next      := h.next
  types     := h.types
  responses := h.responses

section Answer

variable {a : Answer} {entry : ResponseCallbackEntry} {r : Ref}

theorem handleResponse_of_lost
    (hl : p.channel.responseCallbacks.lookup envelope.responseId = some entry)
    (hd : envelope.response.data = some (number, content))
    (hm : entry.handler.service.replying? number = some method)
    (hr : entry.response = some r) (ht : (p.responses r).type = content.type)
    (hs : (p.received Q method content envelope.response.error r).snd = some .ret) :
    p.handleResponse Q envelope = ((p.deliver Q method content envelope.response.error r).finish
      ⟨envelope.responseId, entry, envelope⟩, .returned true) := by
  have hh := handleResponse_handles Q envelope p
  generalize p.handleResponse Q envelope = result at hh
  cases hh
  case empty he => cases (data_of_listFields_nil he).symm.trans hd
  all_goals simp_all

theorem forgets_deliver {error : ErrorHolder} {id : UInt64}
    (ht : (p.responses r).type = content.type) : p.Forgets id r
      (((p.opened P).deliver Q method content error r).finish ⟨id, entry, envelope⟩) where
  callbacks := congrArg (·.erase id) <| deliver_callbacks (p := p.opened P)
  requestId := received_receives (p := p.opened P) |>.left.requestId
  next      := (Nat.le_succ p.next).trans <| received_receives (p := p.opened P) |>.left.next.ge
  types     := by
    intro r'
    by_cases he : r' = r
    case pos =>
      have hc : (((p.opened P).deliver Q method content error r).responses r).toContent = content :=
        deliver_responses_self
      exact he ▸ (congrArg Content.type hc).trans ht.symm
    case neg =>
      exact congrArg (fun m : Message => m.type) <| deliver_responses_of_ne (p := p.opened P) he
  responses _ he := deliver_responses_of_ne (p := p.opened P) he

-- A response is received over a link that can break as over one that cannot, or it gets lost, and
-- perhaps the pending call with it.
theorem receive_answer_or (hQ : Q.Breaks P) (hP : P.Reliable)
    (hn : entry.handler.service.ids.Nodup) (hm : a.method ∈ entry.handler.service.methods)
    (ha : a.WellFormed P) (hl : p.channel.responseCallbacks.lookup a.id = some entry)
    (he : entry.response = some r) (ht : (p.responses r).type = a.method.outputType)
    (hi : p.channel.link.incoming <+: a.items ++ rest) :
    (∃ t, p.channel.link.incoming = a.items ++ t ∧ t <+: rest ∧ p.receive Q = p.receive P) ∨
      p.Drops Q a.items ∧
        (p.Retains (p.receive Q).fst ∨ p.Forgets a.id r (p.receive Q).fst) := by
  by_cases ho : Q.receiveOk p.channel.link.receives
  case neg => exact .inr ⟨drops_of_unread hQ <| .inl ho, .inl <| retains_of_unread <| .inl ho⟩
  rcases hin : p.channel.link.incoming with _ | ⟨item, l⟩
  case nil => exact .inr ⟨drops_of_unread hQ <| .inr hin, .inl <| retains_of_unread <| .inr hin⟩
  rw [hin, Answer.items, List.cons_append, List.cons_prefix_cons] at hi
  obtain ⟨rfl, hp⟩ := hi
  obtain ⟨hmsg, hopen, hinc⟩ := opened_of_receiveOk hP ho hin
  have hid : (EnvelopePtr.mk p.next a.envelope).responseId = a.id := responseId_envelope
  have hq : ¬(EnvelopePtr.mk p.next a.envelope).message.request.isSome := Bool.false_ne_true
  have hs : (EnvelopePtr.mk p.next a.envelope).message.response.isSome := rfl
  have hrec : p.receive Q = (p.opened P).handleResponse Q ⟨p.next, a.envelope⟩ := by
    rw [receive_of_some hmsg, handleMessage, if_neg hq, if_pos hs, hopen]
  have hrep := ServiceDescriptor.replying?_id hn hm ha.replies
  have htype : ((p.opened P).responses r).type = a.content.type := ht.trans ha.type.symm
  have hpend : (p.opened P).channel.responseCallbacks.lookup
      (EnvelopePtr.mk p.next a.envelope).responseId = some entry := hid ▸ hl
  obtain ⟨⟨t, hfull, hrest⟩, heq⟩ | ⟨hlost, hmiss⟩ := ha.payload.receiveObjects_or hQ hP
    (s := (p.opened P, fill ((p.opened P).responses r) a.content a.error)) (hinc.symm ▸ hp)
  case inl =>
    have hfull : (p.opened P).channel.link.incoming = a.payload.map .payload ++ t := hfull
    have hall : p.channel.link.incoming = a.items ++ t := by rw [hin, ← hinc, hfull]; rfl
    have heq : (p.opened P).received Q a.method a.content a.error r =
        (p.opened P).received P a.method a.content a.error r :=
      received_eq.trans <| heq.trans received_eq.symm
    have hc : (p.opened P).Completes Q ⟨p.next, a.envelope⟩ entry a.method.id a.content a.method
        r := {
      pending  := hpend
      data     := rfl
      listed   := hrep
      response := he
      type     := htype
      payload  := by
        rw [error_envelope]
        exact received_snd_eq_none_iff.mp <| heq ▸ (deliver_answers hP ha hfull).left
    }
    refine .inl ⟨t, hin ▸ hall, hrest, ?_⟩
    rw [hrec, hc.handleResponse_eq, receive_answer_eq hP hn hm ha hl he ht hall, error_envelope,
      hid, deliver, heq, deliver]
  case inr =>
    rw [← received_eq] at hlost hmiss
    have hlost : ((p.opened P).received Q a.method a.content
        (EnvelopePtr.mk p.next a.envelope).response.error r).snd = some .ret := by
      rwa [error_envelope]
    rw [handleResponse_of_lost hpend rfl hrep he htype hlost, error_envelope] at hrec
    refine .inr ⟨⟨⟨true, congrArg Prod.snd hrec⟩, ?_⟩, .inr ?_⟩
    case refine_1 =>
      rw [hrec]
      exact Link.Misses.cons hmiss <| hin.trans <| congrArg _ hinc.symm
    case refine_2 =>
      rw [hrec, hid]
      exact forgets_deliver (p := p) htype

end Answer
end ProtoCall.Process
