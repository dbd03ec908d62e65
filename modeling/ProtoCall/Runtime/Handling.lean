import ProtoCall.Runtime.Payload.Receive
import ProtoCall.Runtime.Stubs

namespace ProtoCall

namespace RpcChannel

variable {fields : List DataField} {extensions : List (ℤ × Content)} {x : ℤ × Content}

theorem extractDataField_append {c : Option DataField} (h : ∀ f ∈ fields, f.isExtension = false) :
    extractDataFieldLoop c (fields ++ (x :: extensions).map (.extension ·.fst)) =
      some (.extension x.fst) := by
  induction fields generalizing c
  case nil => rfl
  case cons f fields hi =>
    have hf := h f (List.mem_cons_self ..)
    simp only [List.cons_append, extractDataFieldLoop, hf, Bool.false_eq_true, ↓reduceIte]
    exact hi fun f hm => h f <| List.mem_cons_of_mem _ hm

theorem extractDataField_of_no_extension {c : Option DataField}
    (h : ∀ f ∈ fields, f.isExtension = false) :
    extractDataFieldLoop c fields = (fields.getLast?).or c := by
  induction fields generalizing c
  case nil => rfl
  case cons f fields hi =>
    have hf := h f (List.mem_cons_self ..)
    simp only [extractDataFieldLoop, hf, Bool.false_eq_true, ↓reduceIte]
    rw [hi fun f hm => h f <| List.mem_cons_of_mem _ hm]
    cases fields <;> simp [List.getLast?_cons]

end RpcChannel

namespace Request

variable {r : Request} {x : ℤ × Content}

-- The extension that `extractDataField` finds.
def data (r : Request) : Option (ℤ × Content) := r.extensions.head?

theorem extract_of_data (h : r.data = some x) :
    RpcChannel.extractDataField r.listFields = some (.extension x.fst) ∧
      r.extensions.lookup x.fst = some x.snd := by
  obtain ⟨exts, he⟩ := List.head?_eq_some_iff.mp h
  obtain ⟨number, content⟩ := x
  refine ⟨?_, by simp [he]⟩
  rw [listFields, he]
  exact RpcChannel.extractDataField_append <| by grind [DataField.isExtension]

theorem extract_of_no_data (h : r.data = none) :
    RpcChannel.extractDataField r.listFields = if r.id.isSome then some (.field 1) else none := by
  simp only [RpcChannel.extractDataField, listFields, List.head?_eq_none_iff.mp h]
  split <;> rfl

end Request

namespace Response

variable {r : Response} {x : ℤ × Content}

-- The extension that `extractDataField` finds.
def data (r : Response) : Option (ℤ × Content) := r.extensions.head?

theorem extract_of_data (h : r.data = some x) :
    RpcChannel.extractDataField r.listFields = some (.extension x.fst) ∧
      r.extensions.lookup x.fst = some x.snd := by
  obtain ⟨exts, he⟩ := List.head?_eq_some_iff.mp h
  obtain ⟨number, content⟩ := x
  refine ⟨?_, by simp [he]⟩
  rw [listFields, he]
  exact RpcChannel.extractDataField_append <| by grind [DataField.isExtension]

theorem isExtension_of_no_data {f : DataField} (h : r.data = none) (hf : f ∈ r.listFields) :
    f.isExtension = false := by
  simp only [listFields, List.head?_eq_none_iff.mp h, List.map_nil, List.append_nil,
    List.mem_append] at hf
  grind [DataField.isExtension]

theorem extract_of_no_data (h : r.data = none) :
    RpcChannel.extractDataField r.listFields = r.listFields.getLast? := by
  rw [RpcChannel.extractDataField,
    RpcChannel.extractDataField_of_no_extension fun f hf => isExtension_of_no_data h hf,
    Option.or_none]

end Response

namespace EnvelopePtr

def request (envelope : EnvelopePtr) : Request := envelope.message.request.getD {}

def response (envelope : EnvelopePtr) : Response := envelope.message.response.getD {}

def responseId (envelope : EnvelopePtr) : UInt64 := envelope.response.idValue.toUInt64

end EnvelopePtr

-- The error that `handleResponse` passes on.
def Response.error (r : Response) : ErrorHolder where
  errorCode   := r.errorCode.getD 0
  errorString := r.errorString.getD ""

-- An error is sent along unless there is none, in which case it is what the defaults are.
theorem Response.error_eq {r : Response} {error : ErrorHolder}
    (hc : r.errorCode = if error.hasError then some error.errorCode else none)
    (hs : r.errorString = if error.hasError then some error.errorString else none) :
    r.error = error := by
  cases he : error.hasError
  case true  => simp [Response.error, hc, hs, he]
  case false =>
    rw [he] at hc hs
    rw [Response.error, hc, hs, ErrorHolder.eq_default_of_hasError he]
    rfl

-- The calls of `dispatch`, in order.
def dispatches (trace : List Event) : List (Dispatcher × ℤ) :=
  trace.filterMap fun
    | .dispatch dispatcher methodId => some (dispatcher, methodId)
    | _                             => none

namespace Process

variable {P : Platform} {p : Process} {envelope : EnvelopePtr}

def received (P : Platform) (method : MethodDescriptor) (incoming : Content) (error : ErrorHolder)
    (r : Ref) (p : Process) : Payload.Target × Option Exit :=
  Payload.receive P method.outputType (p, fill (p.responses r) incoming error)

-- The process after the response object has been filled.
def deliver (P : Platform) (method : MethodDescriptor) (incoming : Content) (error : ErrorHolder)
    (r : Ref) (p : Process) : Process :=
  let ((p, target), _) := p.received P method incoming error r
  { p with responses := Function.update p.responses r target }

theorem complete_of_type {method : MethodDescriptor} {content : Content} {error : ErrorHolder}
    {r : Ref} {callback : Closure} (h : (p.responses r).type = content.type) :
    p.complete P method content error r callback =
      (p.deliver P method content error r,
        some <| (p.received P method content error r).snd.getD <| .run callback) :=
  if_pos h

theorem received_snd {method : MethodDescriptor} {content : Content} {error : ErrorHolder}
    {r : Ref} {e : Exit} (h : (p.received P method content error r).snd = some e) : e = .ret :=
  Payload.receiveObjects_exit <| (congrArg Prod.snd Payload.receive_eq).symm.trans h

-- Everything that `handleResponse` can do.
inductive HandlesResponse (P : Platform) (envelope : EnvelopePtr) (p : Process) :
    Process × Outcome → Prop
  | unexpected {text : String} :
    p.channel.responseCallbacks.lookup envelope.responseId = none →
    HandlesResponse P envelope p (p.setErrorString text, .returned false)
  | empty {entry : ResponseCallbackEntry} {text : String} :
    p.channel.responseCallbacks.lookup envelope.responseId = some entry →
    envelope.response.listFields = [] →
    HandlesResponse P envelope p (p.setErrorString text, .returned false)
  -- The last of the fields that are no extensions is not a message.
  | noMessage {entry : ResponseCallbackEntry} :
    p.channel.responseCallbacks.lookup envelope.responseId = some entry →
    envelope.response.listFields ≠ [] → envelope.response.data = none →
    HandlesResponse P envelope p (p, .aborted)
  -- The `switch` of `handle` lists no such method: nothing is done, and that is taken for success.
  | unlisted {entry : ResponseCallbackEntry} {number : ℤ} {content : Content} :
    p.channel.responseCallbacks.lookup envelope.responseId = some entry →
    envelope.response.data = some (number, content) →
    entry.handler.service.replying? number = none →
    HandlesResponse P envelope p
      (p.finish ⟨envelope.responseId, entry, envelope⟩, .returned true)
  -- `CopyFrom` fails its check.
  | mismatch {entry : ResponseCallbackEntry} {number : ℤ} {content : Content}
      {method : MethodDescriptor} :
    p.channel.responseCallbacks.lookup envelope.responseId = some entry →
    envelope.response.data = some (number, content) →
    entry.handler.service.replying? number = some method →
    (∀ r, entry.response = some r → (p.responses r).type ≠ content.type) →
    HandlesResponse P envelope p (p, .aborted)
  -- A payload cannot be received or deserialized: `handle` returns early, which is taken for
  -- success, too.
  | lost {entry : ResponseCallbackEntry} {number : ℤ} {content : Content}
      {method : MethodDescriptor} {r : Ref} :
    p.channel.responseCallbacks.lookup envelope.responseId = some entry →
    envelope.response.data = some (number, content) →
    entry.handler.service.replying? number = some method →
    entry.response = some r → (p.responses r).type = content.type →
    (p.received P method content envelope.response.error r).snd = some .ret →
    HandlesResponse P envelope p
      ((p.deliver P method content envelope.response.error r).finish
        ⟨envelope.responseId, entry, envelope⟩, .returned true)
  | completed {entry : ResponseCallbackEntry} {number : ℤ} {content : Content}
      {method : MethodDescriptor} {r : Ref} :
    p.channel.responseCallbacks.lookup envelope.responseId = some entry →
    envelope.response.data = some (number, content) →
    entry.handler.service.replying? number = some method →
    entry.response = some r → (p.responses r).type = content.type →
    (p.received P method content envelope.response.error r).snd = none →
    HandlesResponse P envelope p
      ((p.deliver P method content envelope.response.error r).log (.run entry.done),
        .callback ⟨envelope.responseId, entry, envelope⟩)

theorem handleResponse_handles (P : Platform) (envelope : EnvelopePtr) (p : Process) :
    HandlesResponse P envelope p (p.handleResponse P envelope) := by
  have he : envelope.message.response.getD {} = envelope.response := rfl
  rw [handleResponse]
  dsimp only
  rcases hl : p.channel.responseCallbacks.lookup
    (envelope.message.response.getD {}).idValue.toUInt64 with _ | entry
  case none => exact .unexpected hl
  simp only [he]
  rcases hd : envelope.response.data with _ | ⟨number, content⟩
  case none =>
    rcases hf : envelope.response.listFields.getLast? with _ | f <;>
      rw [Response.extract_of_no_data hd, hf]
    case none => exact .empty hl (List.getLast?_eq_none_iff.mp hf)
    case some =>
      have hm := List.mem_of_getLast? hf
      simp only [Response.isExtension_of_no_data hd hm, Bool.false_eq_true, ↓reduceIte]
      exact .noMessage hl (List.ne_nil_of_mem hm) hd
  case some =>
    obtain ⟨he, hc⟩ := Response.extract_of_data hd
    simp only [he, DataField.isExtension, DataField.number, ↓reduceIte, hc]
    rcases hm : entry.handler.service.replying? number with _ | method
    case none =>
      simp only [handle_of_none hm]
      exact .unlisted hl hd hm
    case some =>
      rcases hr : entry.response with _ | r
      case none =>
        simp only [handle_of_none_target hm]
        exact .mismatch hl hd hm (by simp [hr])
      case some =>
        by_cases ht : (p.responses r).type = content.type
        case neg =>
          simp only [handle_eq hm, complete, Message.parsed_toContent, ht, ↓reduceIte]
          exact .mismatch hl hd hm fun _ he => Option.some.inj (hr ▸ he) ▸ ht
        case pos =>
          set error := envelope.response.error
          have hh : p.handle P entry.handler number (.parsed content) (some r)
              (envelope.response.errorCode.getD 0) (envelope.response.errorString.getD "")
              entry.done = (p.deliver P method content error r,
                some <| (p.received P method content error r).snd.getD <| .run entry.done) :=
            (handle_eq hm).trans (complete_of_type ht)
          rw [hh]
          rcases hs : (p.received P method content error r).snd with _ | e
          case none => exact .completed hl hd hm hr ht hs
          case some =>
            obtain rfl : e = .ret := received_snd hs
            exact .lost hl hd hm hr ht hs

-- The process that `dispatch` is called on.
def dispatching (dispatcher : Dispatcher) (number : ℤ) (p : Process) : Process :=
  { p with manager := (p.manager.lookupServiceDispatcher number).snd }.log
    (.dispatch dispatcher number)

-- Everything that `handleRequest` can do.
inductive HandlesRequest (P : Platform) (envelope : EnvelopePtr) (p : Process) :
    Process × Outcome → Prop
  | empty {text : String} :
    envelope.request.data = none → envelope.request.id = none →
    HandlesRequest P envelope p (p.setErrorString text, .returned false)
  -- Without an extension, `id` is taken for the data field.
  | noMessage {dispatcher : Dispatcher} :
    envelope.request.data = none → envelope.request.id.isSome →
    p.manager.resolve 1 = some dispatcher →
    HandlesRequest P envelope p
      ({ p with manager := (p.manager.lookupServiceDispatcher 1).snd }, .aborted)
  | noDispatcher {number : ℤ} {text : String} :
    (envelope.request.data.map Prod.fst).getD 1 = number →
    p.manager.resolve number = none →
    HandlesRequest P envelope p
      ({ p with manager := (p.manager.lookupServiceDispatcher number).snd }.setErrorString text,
        .returned false)
  | unlisted {dispatcher : Dispatcher} {number : ℤ} {content : Content} {q : Process}
      {outcome : Outcome} :
    envelope.request.data = some (number, content) →
    p.manager.resolve number = some dispatcher → dispatcher.service.method? number = none →
    (p.dispatching dispatcher number).Transfers q → q.channel.link = p.channel.link →
    outcome = .aborted ∨ outcome = .returned true →
    HandlesRequest P envelope p (q, outcome)
  -- A payload cannot be received or deserialized: `dispatch` returns early.
  | lost {dispatcher : Dispatcher} {number : ℤ} {content : Content} {method : MethodDescriptor} :
    envelope.request.data = some (number, content) →
    p.manager.resolve number = some dispatcher →
    dispatcher.service.method? number = some method →
    ((p.dispatching dispatcher number).arrived P method (.parsed content)).snd = some .ret →
    HandlesRequest P envelope p
      (((p.dispatching dispatcher number).arrived P method (.parsed content)).fst.fst, .returned true)
  | invoked {dispatcher : Dispatcher} {number : ℤ} {content : Content}
      {method : MethodDescriptor} {request : Message} {q : Process} :
    envelope.request.data = some (number, content) →
    p.manager.resolve number = some dispatcher →
    dispatcher.service.method? number = some method →
    (p.dispatching dispatcher number).arrived P method (.parsed content) = ((q, request), none) →
    HandlesRequest P envelope p ((q.invocation method envelope request).fst,
      .invoked (q.invocation method envelope request).snd)

theorem arrived_eq {method : MethodDescriptor} {content : Content} :
    p.arrived P method (.parsed content) = Payload.receiveObjects P
      (if method.voidInput then [] else Payload.present method.inputType content)
      (p, .parsed content) := by
  rw [arrived]
  by_cases hv : method.voidInput <;> simp only [hv, Bool.false_eq_true, ↓reduceIte]
  case pos => rfl
  case neg => exact Payload.receive_eq

theorem arrived_snd {method : MethodDescriptor} {content : Content} {e : Exit}
    (h : (p.arrived P method (.parsed content)).snd = some e) : e = .ret :=
  Payload.receiveObjects_exit (arrived_eq ▸ h)

theorem dispatch_of_none {dispatcher : Dispatcher} {number : ℤ} {request : Message}
    (h : dispatcher.service.method? number = none) :
    ∃ q e, p.dispatch P dispatcher number envelope request = (q, e) ∧
      (p.log (.dispatch dispatcher number)).Transfers q ∧ q.channel.link = p.channel.link ∧
      (e = some .abort ∨ e = none) := by
  simp only [dispatch, RpcGenerator.select_dispatch_of_none h]
  simp only [RpcGenerator.generateDispatchMethodBody, Stmt.exec, reduceCtorEq, ↓reduceIte]
  split
  case isTrue => exact ⟨_, _, rfl, .setErrorString, rfl, .inr rfl⟩
  case isFalse => exact ⟨_, _, rfl, .refl, rfl, .inl rfl⟩

theorem handleRequest_handles (P : Platform) (envelope : EnvelopePtr) (p : Process) :
    HandlesRequest P envelope p (p.handleRequest P envelope) := by
  have he : envelope.message.request.getD {} = envelope.request := rfl
  simp only [handleRequest, he]
  rcases hd : envelope.request.data with _ | ⟨number, content⟩
  case none =>
    rw [Request.extract_of_no_data hd]
    rcases hi : envelope.request.id with _ | id
    case none => exact .empty hd hi
    case some =>
      simp only [Option.isSome_some, ↓reduceIte, DataField.number, DataField.isExtension,
        Bool.false_eq_true, ServiceManager.lookupServiceDispatcher_fst]
      rcases hr : p.manager.resolve 1 with _ | dispatcher
      case none => exact .noDispatcher (by rw [hd]; rfl) hr
      case some => exact .noMessage hd (by rw [hi]; rfl) hr
  case some =>
    obtain ⟨he, hc⟩ := Request.extract_of_data hd
    rw [he]
    simp only [DataField.number, DataField.isExtension, ↓reduceIte,
      ServiceManager.lookupServiceDispatcher_fst]
    rcases hr : p.manager.resolve number with _ | dispatcher
    case none => exact .noDispatcher (by rw [hd]; rfl) hr
    case some =>
      simp only [hc]
      rcases hm : dispatcher.service.method? number with _ | method
      case none =>
        obtain ⟨q, e, hq, ht, hl, rfl | rfl⟩ := dispatch_of_none hm
        all_goals rw [hq]
        case inl => exact .unlisted hd hr hm ht hl (.inl rfl)
        case inr => exact .unlisted hd hr hm ht hl (.inr rfl)
      case some =>
        have ha : Process.dispatch P dispatcher number envelope (.parsed content)
            { p with manager := (p.manager.lookupServiceDispatcher number).snd } =
            (p.dispatching dispatcher number).accept P method envelope (.parsed content) :=
          dispatch_eq hm
        rw [ha, accept]
        rcases h : (p.dispatching dispatcher number).arrived P method (.parsed content) with
          ⟨⟨q, request⟩, _ | e⟩
        case none => exact .invoked hd hr hm h
        case some =>
          obtain rfl : e = .ret := arrived_snd (congrArg Prod.snd h)
          have hl := HandlesRequest.lost hd hr hm (congrArg Prod.snd h)
          rwa [h] at hl

section Effects

variable {method : MethodDescriptor} {content : Content} {error : ErrorHolder} {r : Ref}
  {request : Message}

theorem received_receives :
    Payload.Receives (p, fill (p.responses r) content error)
      (p.received P method content error r).fst :=
  Payload.receive_receives

theorem arrived_receives :
    Payload.Receives (p, request) (p.arrived P method request).fst := by
  simp only [arrived]
  split
  case isTrue => exact ⟨.refl, rfl⟩
  case isFalse => exact Payload.receive_receives

theorem deliver_callbacks :
    (p.deliver P method content error r).channel.responseCallbacks = p.channel.responseCallbacks :=
  received_receives.left.callbacks

theorem deliver_trace : ∃ es, (p.deliver P method content error r).trace = p.trace ++ es ∧
    ∀ e ∈ es, ∃ a, e = .deleteObject a :=
  received_receives.left.trace

theorem deliver_responses_of_ne {r' : Ref} (h : r' ≠ r) :
    (p.deliver P method content error r).responses r' = p.responses r' := by
  simp only [deliver, Function.update_of_ne h]
  exact congrFun received_receives.left.responses r'

theorem deliver_responses_self :
    ((p.deliver P method content error r).responses r).toContent = content := by
  simp only [deliver, Function.update_self]
  exact received_receives.right

end Effects

section Receive

-- The process after an envelope has been allocated, and received into.
def opened (P : Platform) (p : Process) : Process :=
  ({ p with next := p.next + 1 }.log (.newEnvelope p.next)).withLink
    (p.channel.link.receiveMessage P).snd

theorem receive_of_none (h : (p.channel.link.receiveMessage P).fst = none) :
    p.receive P = ((p.opened P).log (.deleteEnvelope p.next), .returned false) := by
  rw [receive]
  simp only [receiveMessage, log, h, opened]

theorem receive_of_some {message : Envelope}
    (h : (p.channel.link.receiveMessage P).fst = some message) :
    p.receive P = (p.opened P).handleMessage P ⟨p.next, message⟩ := by
  rw [receive]
  simp only [receiveMessage, log, h, opened]

end Receive

-- From here on, what is known of them is what the lemmas say.
attribute [irreducible] received

section Manager

theorem invocation_manager {method : MethodDescriptor} {request : Message} :
    (p.invocation method envelope request).fst.manager = p.manager := by
  rw [invocation]
  split <;> rfl

theorem handleRequest_manager :
    (p.handleRequest P envelope).fst.manager = p.manager ∨ ∃ id,
      (p.handleRequest P envelope).fst.manager = (p.manager.lookupServiceDispatcher id).snd := by
  have h := handleRequest_handles P envelope p
  generalize p.handleRequest P envelope = result at h
  cases h
  case empty            => exact .inl rfl
  case noMessage        => exact .inr ⟨_, rfl⟩
  case noDispatcher     => exact .inr ⟨_, rfl⟩
  case unlisted ht _ _  => exact .inr ⟨_, ht.manager⟩
  case lost             => exact .inr ⟨_, arrived_receives.left.manager⟩
  case invoked ha       =>
    have hm := (ha ▸ arrived_receives).left.manager
    exact .inr ⟨_, invocation_manager.trans hm⟩

theorem handleResponse_manager : (p.handleResponse P envelope).fst.manager = p.manager := by
  have h := handleResponse_handles P envelope p
  generalize p.handleResponse P envelope = result at h
  cases h
  case lost      => exact received_receives.left.manager
  case completed => exact received_receives.left.manager
  all_goals rfl

-- What a request looks up is all that ever happens to the service manager.
theorem receive_manager :
    (p.receive P).fst.manager = p.manager ∨
      ∃ id, (p.receive P).fst.manager = (p.manager.lookupServiceDispatcher id).snd := by
  rcases h : (p.channel.link.receiveMessage P).fst with _ | message
  case none => exact .inl <| by rw [receive_of_none h]; rfl
  case some =>
    rw [receive_of_some h, handleMessage]
    split
    case isTrue => exact handleRequest_manager
    case isFalse =>
      split
      case isTrue  => exact .inl handleResponse_manager
      case isFalse => exact .inl rfl

end Manager

section Dispatches

variable {d : Dispatcher} {id : ℤ}

theorem Transfers.dispatches_eq {p' : Process} (h : p.Transfers p') :
    dispatches p'.trace = dispatches p.trace := by
  obtain ⟨es, he, hd⟩ := h.trace
  have hn : dispatches es = [] := by
    apply List.filterMap_eq_nil_iff.mpr
    intro e hm
    obtain ⟨_, rfl⟩ := hd e hm
    rfl
  rw [dispatches, he, List.filterMap_append]
  exact (congrArg _ hn).trans <| List.append_nil _

theorem dispatches_dispatching :
    dispatches (p.dispatching d id).trace = dispatches p.trace ++ [(d, id)] := by
  simp [dispatching, log, dispatches]

theorem dispatches_invocation {method : MethodDescriptor} {request : Message} :
    dispatches (p.invocation method envelope request).fst.trace = dispatches p.trace := by
  rw [invocation]
  split <;> rfl

theorem handleRequest_dispatches {content : Content}
    (hd : envelope.request.data = some (id, content)) (hr : p.manager.resolve id = some d) :
    dispatches (p.handleRequest P envelope).fst.trace = dispatches p.trace ++ [(d, id)] := by
  have h := handleRequest_handles P envelope p
  have hs : dispatches (p.dispatching d id).trace = dispatches p.trace ++ [(d, id)] :=
    dispatches_dispatching
  generalize p.handleRequest P envelope = result at h
  cases h
  case empty => simp_all
  case noMessage => simp_all
  case noDispatcher hn he =>
    simp only [hd, Option.map_some, Option.getD_some] at hn
    rw [← hn, hr] at he
    contradiction
  case unlisted hd' hr' _ ht _ _ =>
    obtain ⟨rfl, -⟩ := Prod.mk.inj <| Option.some.inj <| hd.symm.trans hd'
    obtain rfl := Option.some.inj <| hr.symm.trans hr'
    exact ht.dispatches_eq.trans hs
  case lost hd' hr' _ _ =>
    obtain ⟨rfl, -⟩ := Prod.mk.inj <| Option.some.inj <| hd.symm.trans hd'
    obtain rfl := Option.some.inj <| hr.symm.trans hr'
    exact arrived_receives.left.dispatches_eq.trans hs
  case invoked hd' hr' _ ha =>
    obtain ⟨rfl, -⟩ := Prod.mk.inj <| Option.some.inj <| hd.symm.trans hd'
    obtain rfl := Option.some.inj <| hr.symm.trans hr'
    have ht := (ha ▸ arrived_receives).left
    exact dispatches_invocation.trans <| ht.dispatches_eq.trans hs

end Dispatches

end Process

-- `d` has been registered before anybody else claimed a method of its service.
def ServiceManager.Claimed (mgr : ServiceManager Dispatcher) (d : Dispatcher) : Prop :=
  ∀ id ∈ d.service.ids, mgr.dispatcherMap.lookup id = some (some d)

namespace ServiceManager.Claimed

variable {mgr : ServiceManager Dispatcher} {d d' : Dispatcher}

theorem registered : (registerService {} d).Claimed d := by
  intro id hm
  have hm : id ∈ ServiceDispatcher.implements d := hm
  rw [lookup_registerService, if_pos hm]
  rfl

theorem registerService (h : mgr.Claimed d) : (mgr.registerService d').Claimed d := by
  intro id hm
  rw [lookup_registerService, h id hm]
  rfl

theorem lookup {id : ℤ} (h : mgr.Claimed d) : (mgr.lookupServiceDispatcher id).snd.Claimed d := by
  intro id' hm
  rw [lookup_lookupServiceDispatcher, h id' hm]
  rfl

theorem resolve {id : ℤ} (h : mgr.Claimed d) (hm : id ∈ d.service.ids) :
    mgr.resolve id = some d := by
  rw [ServiceManager.resolve, h id hm]
  rfl

theorem receive {P : Platform} {p : Process} (h : p.manager.Claimed d) :
    (p.receive P).fst.manager.Claimed d := by
  obtain he | ⟨id, he⟩ := Process.receive_manager (P := P) (p := p)
  case inl => exact he ▸ h
  case inr => exact he ▸ h.lookup

end ServiceManager.Claimed

end ProtoCall
