import ProtoCall.Runtime.Completion
import ProtoCall.Runtime.Peer.Basic

namespace ProtoCall.Process

variable {P : Platform} {p : Process} {envelope : EnvelopePtr}

-- The `done` of an invocation of `method` that has been called for by `envelope`.
def Closes (method : MethodDescriptor) (envelope : EnvelopePtr) (done : DoneClosure) : Prop :=
  if method.voidOutput then done = .doNothing
  else ∃ out, done = .reply ⟨method.id, envelope, out⟩

-- The request can be answered: its method is listed by its dispatcher, and its objects arrive.
structure Accepts (P : Platform) (p : Process) (request : Request) (d : Dispatcher)
    (method : MethodDescriptor) (content : Content) (number : ℤ) : Prop where
  data     : request.data = some (number, content)
  resolved : p.manager.resolve number = some d
  listed   : d.service.method? number = some method
  payload  : method.voidInput = false →
    Payload.AcceptsAll P (Payload.present method.inputType content)
      (p.dispatching d number, .parsed content)

-- What `handleRequest` does, as far as requests have to do with it.
inductive Routes (P : Platform) (envelope : EnvelopePtr) (p : Process) : Process × Outcome → Prop
  | aborted {q : Process} : Routes P envelope p (q, .aborted)
  | rejected {q : Process} :
    (∀ number content, envelope.request.data = some (number, content) →
      p.manager.resolve number = none) → p.Quiet q → Routes P envelope p (q, .returned false)
  -- `dispatch` returns without having invoked a method.
  | lost {d : Dispatcher} {number : ℤ} {q : Process} : p.manager.resolve number = some d →
    (∀ d method content number, ¬Accepts P p envelope.request d method content number) →
    (p.log (.dispatch d number)).Quiet q → Routes P envelope p (q, .returned true)
  | invoked {d : Dispatcher} {method : MethodDescriptor} {content : Content} {number : ℤ}
      {q : Process} {invocation : Invocation} :
    Accepts P p envelope.request d method content number →
    (p.log (.dispatch d number)).Quiet q → invocation.method = method →
    Closes method envelope invocation.done → Routes P envelope p (q, .invoked invocation)

theorem arrived_snd_eq_none_iff {method : MethodDescriptor} {content : Content} :
    (p.arrived P method (.parsed content)).snd = none ↔ (method.voidInput = false →
      Payload.AcceptsAll P (Payload.present method.inputType content) (p, .parsed content)) := by
  rw [arrived_eq, Payload.receiveObjects_snd_eq_none_iff]
  cases method.voidInput <;> simp [Payload.AcceptsAll]

theorem Accepts.unique {request : Request} {d d' : Dispatcher} {method : MethodDescriptor}
    {content content' : Content} {number number' : ℤ}
    (h : Accepts P p request d method content number) (hd : request.data = some (number', content'))
    (hr : p.manager.resolve number' = some d') :
    number = number' ∧ content = content' ∧ d = d' := by
  obtain ⟨rfl, rfl⟩ := Prod.mk.inj <| Option.some.inj <| h.data.symm.trans hd
  exact ⟨rfl, rfl, Option.some.inj <| h.resolved.symm.trans hr⟩

theorem Quiet.dispatching {d : Dispatcher} {number : ℤ} :
    Quiet (p.log (.dispatch d number)) (p.dispatching d number) :=
  Quiet.lookup (p := p.log (.dispatch d number))

theorem invocation_closes {method : MethodDescriptor} {request : Message} :
    Closes method envelope (p.invocation method envelope request).snd.done := by
  rw [Closes, invocation]
  split
  case isTrue  => rfl
  case isFalse => exact ⟨_, rfl⟩

theorem invocation_method {method : MethodDescriptor} {request : Message} :
    (p.invocation method envelope request).snd.method = method := by
  rw [invocation]
  split <;> rfl

theorem handleRequest_routes : Routes P envelope p (p.handleRequest P envelope) := by
  have h := handleRequest_handles P envelope p
  generalize p.handleRequest P envelope = result at h
  cases h
  case empty hd _ =>
    exact .rejected (fun _ _ he => nomatch hd.symm.trans he) <| .of_transfers .setErrorString
  case noMessage => exact .aborted
  case noDispatcher hn hr =>
    refine .rejected (fun number content hd => ?_) <| Quiet.lookup.trans <|
      .of_transfers .setErrorString
    obtain rfl : number = _ := by simpa [hd] using hn
    exact hr
  case unlisted d number content q outcome hd hr hm ht hl ho =>
    rcases ho with rfl | rfl
    case inl => exact .aborted
    case inr =>
      refine .lost hr (fun _ _ _ _ ha => ?_) <| Quiet.dispatching.trans <| .of_transfers ht
      obtain ⟨rfl, rfl, rfl⟩ := ha.unique hd hr
      exact nomatch hm.symm.trans ha.listed
  case lost d number content method hd hr hm hs =>
    refine .lost hr (fun _ _ _ _ ha => ?_) <| Quiet.dispatching.trans <|
      .of_transfers arrived_receives.left
    obtain ⟨rfl, rfl, rfl⟩ := ha.unique hd hr
    obtain rfl := Option.some.inj <| hm.symm.trans ha.listed
    exact nomatch hs.symm.trans <| arrived_snd_eq_none_iff.mpr ha.payload
  case invoked d number content method request q hd hr hm ha =>
    refine .invoked ⟨hd, hr, hm, arrived_snd_eq_none_iff.mp <| congrArg Prod.snd ha⟩ ?_
      invocation_method invocation_closes
    exact Quiet.dispatching.trans <| (Quiet.of_transfers (ha ▸ arrived_receives).left).trans
      .invocation

-- The pending call that a response settles.
structure Matches (p : Process) (response : Response) (entry : ResponseCallbackEntry) : Prop where
  pending : p.channel.responseCallbacks.lookup response.idValue.toUInt64 = some entry
  data    : response.data.isSome

-- What `receive` does, as far as envelopes have to do with it.
inductive Takes (P : Platform) (p : Process) : Process × Outcome → Prop
  | aborted {q : Process} : Takes P p (q, .aborted)
  | nothing : (p.channel.link.receiveMessage P).fst = none →
    Takes P p ((p.opened P).log (.deleteEnvelope p.next), .returned false)
  | request {message : Envelope} {result : Process × Outcome} :
    (p.channel.link.receiveMessage P).fst = some message → message.request.isSome →
    Routes P ⟨p.next, message⟩ (p.opened P) result → Takes P p result
  | rejected {message : Envelope} {q : Process} :
    (p.channel.link.receiveMessage P).fst = some message → message.request = none →
    (∀ response entry, message.response = some response → ¬p.Matches response entry) →
    (p.opened P).Quiet q → Takes P p (q, .returned false)
  | settled {message : Envelope} {response : Response} {a : Activation} {q : Process} :
    (p.channel.link.receiveMessage P).fst = some message → message.request = none →
    message.response = some response → p.Matches response a.entry →
    a.id = response.idValue.toUInt64 → a.envelope = ⟨p.next, message⟩ → (p.opened P).Quiet q →
    Takes P p (q.finish a, .returned true)
  | callback {message : Envelope} {response : Response} {a : Activation} {q : Process} :
    (p.channel.link.receiveMessage P).fst = some message → message.request = none →
    message.response = some response → p.Matches response a.entry →
    a.id = response.idValue.toUInt64 → a.envelope = ⟨p.next, message⟩ → (p.opened P).Quiet q →
    Takes P p (q, .callback a)

theorem receive_takes : Takes P p (p.receive P) := by
  rcases hm : (p.channel.link.receiveMessage P).fst with _ | message
  case none => exact receive_of_none hm ▸ .nothing hm
  rw [receive_of_some hm, handleMessage]
  split
  case isTrue hq => exact .request hm hq handleRequest_routes
  case isFalse hq =>
    have hq : message.request = none := by simpa using hq
    split
    case isFalse hs =>
      have hs : message.response = none := by simpa using hs
      refine .rejected hm hq (fun _ _ he => ?_) <| .of_transfers .setErrorString
      cases hs.symm.trans he
    case isTrue hs =>
      obtain ⟨response, hs⟩ : ∃ response, message.response = some response :=
        Option.isSome_iff_exists.mp hs
      have he : (EnvelopePtr.mk p.next message).response = response := by
        simp only [EnvelopePtr.response, hs, Option.getD_some]
      have hi : (EnvelopePtr.mk p.next message).responseId = response.idValue.toUInt64 := by
        rw [EnvelopePtr.responseId, he]
      have hs' {entry : ResponseCallbackEntry} {x : ℤ × Content}
          (hl : p.channel.responseCallbacks.lookup (EnvelopePtr.mk p.next message).responseId =
            some entry)
          (hd : (EnvelopePtr.mk p.next message).response.data = some x) :
          p.Matches response entry :=
        ⟨hi ▸ hl, by rw [← he, hd]; rfl⟩
      have h := handleResponse_handles P ⟨p.next, message⟩ (p.opened P)
      generalize (p.opened P).handleResponse P _ = result at h
      cases h
      case unexpected hl =>
        refine .rejected hm hq (fun r entry hr ha => ?_) <| .of_transfers .setErrorString
        obtain rfl : response = r := Option.some.inj <| hs.symm.trans hr
        rw [EnvelopePtr.responseId, he] at hl
        cases hl.symm.trans ha.pending
      case empty hl hf =>
        refine .rejected hm hq (fun r entry hr ha => ?_) <| .of_transfers .setErrorString
        obtain rfl : response = r := Option.some.inj <| hs.symm.trans hr
        have hd := ha.data
        rw [← he, data_of_listFields_nil hf] at hd
        contradiction
      case noMessage => exact .aborted
      case mismatch  => exact .aborted
      case unlisted hl hd _ =>
        exact .settled hm hq hs (hs' hl hd) hi rfl .refl
      case lost hl hd _ _ _ _ =>
        exact .settled hm hq hs (hs' hl hd) hi rfl .deliver
      case completed hl hd _ _ _ _ =>
        exact .callback hm hq hs (hs' hl hd) hi rfl <| .trans .deliver <| .log rfl

theorem Quiet.callee_eq {q : Process} {d : Dispatcher} {number : ℤ}
    (h : (p.log (.dispatch d number)).Quiet q) : q.callee = some d := by
  rw [callee, h.dispatches_eq]
  simp [Process.log, dispatches]

end ProtoCall.Process

namespace ProtoCall.Peer

variable {P : Platform} {s t : Peer}

theorem receive_process (h : s.receive P = some t) :
    t.process = (s.process.receive P).fst := by
  rw [receive] at h
  rcases hr : s.process.receive P with ⟨process, outcome⟩
  rw [hr] at h
  cases outcome
  case aborted  => contradiction
  case returned => exact Option.some.inj h ▸ rfl
  case callback => exact Option.some.inj h ▸ rfl
  case invoked  =>
    obtain ⟨_, _, rfl⟩ := Option.map_eq_some_iff.mp h
    rfl

theorem receive_resolve (h : s.receive P = some t) :
    t.process.manager.resolve = s.process.manager.resolve := by
  rw [receive_process h]
  obtain he | ⟨id, he⟩ := s.process.receive_manager (P := P)
  case inl => rw [he]
  case inr =>
    rw [he]
    exact funext fun _ => ServiceManager.resolve_lookupServiceDispatcher

-- What is left of a `receive` for the peer to see.
inductive Receives (P : Platform) (s : Peer) : Peer → Prop
  | returned {process : Process} {rc : Bool} : s.process.Takes P (process, .returned rc) →
    Receives P s { s with process }
  | callback {process : Process} {a : Activation} : s.process.Takes P (process, .callback a) →
    Receives P s { s with process, running := a :: s.running }
  | invoked {message : Envelope} {d : Dispatcher} {method : MethodDescriptor} {content : Content}
      {number : ℤ} {process : Process} {done : DoneClosure} :
    (s.process.channel.link.receiveMessage P).fst = some message → message.request.isSome →
    (s.process.opened P).Accepts P (EnvelopePtr.mk s.process.next message).request d method content
      number →
    ((s.process.opened P).log (.dispatch d number)).Quiet process →
    Process.Closes method ⟨s.process.next, message⟩ done →
    Receives P s { s with process, held := s.held ++ [⟨d, s.process.next, done⟩] }

theorem receive_receives (h : s.receive P = some t) : Receives P s t := by
  have ht := s.process.receive_takes (P := P)
  rw [receive] at h
  rcases hr : s.process.receive P with ⟨process, outcome⟩
  rw [hr] at h ht
  cases outcome
  case aborted     => contradiction
  case returned rc => exact Option.some.inj h ▸ .returned ht
  case callback a  => exact Option.some.inj h ▸ .callback ht
  case invoked invocation =>
    cases ht
    case request hm hq hr =>
      cases hr
      case invoked ha hq' _ hd =>
        simp only [hq'.callee_eq, Option.map_some] at h
        exact Option.some.inj h ▸ .invoked hm hq ha hq' hd

-- What becomes of a closure that is run.
inductive Replies (P : Platform) (s : Peer) : Peer → Prop
  | nothing {n : ℕ} {c : Pending} : s.held[n]? = some c → c.done = .doNothing →
    Replies P s { s with held := s.held.eraseIdx n }
  | replied {n : ℕ} {c : Pending} {info : ReplyInfo} {process : Process} :
    s.held[n]? = some c → c.done = .reply info →
    (c.dispatcher.service.replying? info.methodId).isSome → s.process.Quiet process →
    Replies P s { s with
      process := process.log (.deleteEnvelope info.requestMessageEnvelope.addr)
      held    := s.held.eraseIdx n
    }
  | unlisted {n : ℕ} {c : Pending} {info : ReplyInfo} {process : Process} :
    s.held[n]? = some c → c.done = .reply info →
    c.dispatcher.service.replying? info.methodId = none → s.process.Quiet process →
    Replies P s { s with process, held := s.held.eraseIdx n }

theorem reply_replies {n : ℕ} (h : s.reply P n = some t) : Replies P s t := by
  obtain ⟨c, hc, h⟩ := Option.bind_eq_some_iff.mp h
  rcases hd : c.done with info | _ <;> simp only [hd] at h
  case doNothing => exact Option.some.inj h ▸ .nothing hc hd
  case reply =>
    rcases hr : c.dispatcher.service.replying? info.methodId with _ | method
    case none =>
      have hq := Process.reply_of_none (P := P) (p := s.process) hr
      split at h
      case h_1 => contradiction
      case h_2 he =>
        rw [he] at hq
        exact Option.some.inj h ▸ .unlisted hc hd hr hq
    case some =>
      rw [Process.reply_eq hr] at h
      split at h
      case h_1 => contradiction
      case h_2 he =>
        obtain rfl := (congrArg Prod.fst he).symm
        refine Option.some.inj h ▸ .replied hc hd (hr ▸ rfl) ?_
        exact .of_transfers Process.submit_transfers

end ProtoCall.Peer
