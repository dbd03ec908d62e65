import ProtoCall.Examples.Salutation
import ProtoCall.Runtime.Handling
import ProtoCall.Runtime.Payload.RoundTrip

namespace ProtoCall

-- The types that the .proto files declare the extensions of `rpc.Request` and `rpc.Response` with.
structure Schema where
  request  : ℤ → Descriptor
  response : ℤ → Descriptor
  void     : ∀ number, isVoidType (request number).name → (request number).payloadFields = []

namespace Schema

structure Declares (S : Schema) (service : ServiceDescriptor) : Prop where
  request  : ∀ method ∈ service.methods, S.request method.id = method.inputType
  response : ∀ method ∈ service.methods, S.response method.id = method.outputType

structure Parses (S : Schema) (e : EnvelopePtr) : Prop where
  request  : ∀ number content, e.request.data = some (number, content) →
    content.type = S.request number
  response : ∀ number content, e.response.data = some (number, content) →
    content.type = S.response number

-- All generated code in a process has been generated from these files.
structure Knows (S : Schema) (p : Process) : Prop where
  dispatchers : ∀ number d, p.manager.resolve number = some d → S.Declares d.service
  handlers    : ∀ id entry, p.channel.responseCallbacks.lookup id = some entry →
    S.Declares entry.handler.service

end Schema

namespace EnvelopePtr

-- The message of the part that an envelope is handled for.
def data (e : EnvelopePtr) : Option (ℤ × Content) :=
  if e.message.request.isSome then e.request.data else e.response.data

-- The kinds of the payload items that its type calls for.
def calledFor (e : EnvelopePtr) : List PayloadKind :=
  e.data.elim [] fun (_, content) => (Payload.present content.type content).map (·.snd.kind)

end EnvelopePtr

section

variable {e : EnvelopePtr} {number : ℤ} {content : Content}

theorem EnvelopePtr.calledFor_of_no_data (h : e.data = none) : e.calledFor = [] := by
  rw [calledFor, h]
  rfl

theorem EnvelopePtr.calledFor_of_data (h : e.data = some (number, content)) :
    e.calledFor = (Payload.present content.type content).map (·.snd.kind) := by
  rw [calledFor, h]
  rfl

end

-- Whether the process goes on after a `receive`, with its return or in the application's code.
def Outcome.returns : Outcome → Bool
  | aborted => false
  | _       => true

-- An envelope, and the payload items that go with it.
structure Frame where
  envelope : Envelope
  payload  : List PayloadItem
  complete : payload.map (·.kind) = (EnvelopePtr.mk 0 envelope).calledFor

def Frame.items (f : Frame) : List Item :=
  .envelope f.envelope :: f.payload.map .payload

namespace Payload

variable {P : Platform} {xs : List (ℕ × Carrier)} {s : Target} {items : List PayloadItem}
  {rest : List Item}

-- No object is refused by its deserializer while others are still to come.
def Drains (P : Platform) : List (ℕ × Carrier) → Target → Prop
  | [], _      => True
  | x :: xs, s => (xs = [] ∨ Accepts P x s) ∧ Drains P xs (receiveObject P x s).fst

theorem receiveObjects_incoming (hr : ∀ n, P.receiveOk n)
    (hk : items.map (·.kind) = xs.map (·.snd.kind))
    (hi : s.fst.channel.link.incoming = items.map .payload ++ rest) :
    (receiveObjects P xs s).fst.fst.channel.link.incoming = rest ↔ Drains P xs s := by
  induction xs generalizing items s
  case nil =>
    rw [List.map_nil, List.map_eq_nil_iff] at hk
    rw [hk] at hi
    exact iff_of_true hi trivial
  case cons x xs ih =>
    obtain ⟨item, items, rfl, hx, hk⟩ := List.map_eq_cons_iff.mp hk
    have hl : (receiveObject P x s).fst.fst.channel.link.incoming = items.map .payload ++ rest :=
      receiveObject_incoming hr hx hi
    by_cases ha : Accepts P x s
    case pos =>
      rw [receiveObjects_cons_of_accepts ha, ih hk hl]
      simp [Drains, ha]
    case neg =>
      rw [receiveObjects_cons_of_not_accepts ha, hl]
      cases xs
      case nil => simp_all [Drains]
      case cons y xs =>
        have hn : items ≠ [] := by
          rintro rfl
          contradiction
        simp [Drains, ha, hn]

end Payload

namespace Process

variable {P : Platform} {S : Schema} {p : Process} {envelope : EnvelopePtr}
  {items : List PayloadItem} {rest : List Item}

-- The generated dispatcher that reads the payload of a request is there, and reads all of it.
def DrainsRequest (P : Platform) (envelope : EnvelopePtr) (p : Process) : Prop :=
  ∃ number content dispatcher, envelope.request.data = some (number, content) ∧
    p.manager.resolve number = some dispatcher ∧ (dispatcher.service.method? number).isSome ∧
    Payload.Drains P (Payload.present content.type content)
      (p.dispatching dispatcher number, .parsed content)

-- A response is read by the handler of its entry, if it lists the method.
def DrainsResponse (P : Platform) (envelope : EnvelopePtr) (p : Process) : Prop :=
  ∃ number content entry r, envelope.response.data = some (number, content) ∧
    p.channel.responseCallbacks.lookup envelope.responseId = some entry ∧
    (entry.handler.service.replying? number).isSome ∧ entry.response = some r ∧
    Payload.Drains P (Payload.present content.type content)
      (p, fill (p.responses r) content envelope.response.error)

-- There is no payload, or it is read to its end.
def Drains (P : Platform) (envelope : EnvelopePtr) (p : Process) : Prop :=
  envelope.calledFor = [] ∨
    if envelope.message.request.isSome then p.DrainsRequest P envelope
    else p.DrainsResponse P envelope

theorem incoming_unread {q : Process}
    (hi : q.channel.link.incoming = items.map .payload ++ rest) :
    q.channel.link.incoming = rest ↔ items.map (·.kind) = [] := by
  simp [hi]

theorem invocation_link {method : MethodDescriptor} {request : Message} :
    (p.invocation method envelope request).fst.channel.link = p.channel.link := by
  rw [invocation]
  split <;> rfl

-- What the dispatcher takes for the type of the message is the type that it has.
theorem dispatched_incoming {number : ℤ} {content : Content} {dispatcher : Dispatcher}
    {method : MethodDescriptor} (hr : ∀ n, P.receiveOk n) (hS : S.Knows p) (he : S.Parses envelope)
    (hd : envelope.request.data = some (number, content))
    (hl : p.manager.resolve number = some dispatcher)
    (hm : dispatcher.service.method? number = some method)
    (hk : items.map (·.kind) = (Payload.present content.type content).map (·.snd.kind))
    (hi : p.channel.link.incoming = items.map .payload ++ rest) :
    ((p.dispatching dispatcher number).arrived P method
      (.parsed content)).fst.fst.channel.link.incoming = rest ↔
      Payload.Drains P (Payload.present content.type content)
        (p.dispatching dispatcher number, .parsed content) := by
  have ht : content.type = method.inputType := by
    have h := (hS.dispatchers _ _ hl).request method <| ServiceDescriptor.mem_of_method? hm
    rw [he.request number content hd, ← h, ServiceDescriptor.id_of_method? hm]
  have hv (h : method.voidInput) : content.type.payloadFields = [] := by
    have hs := S.void number
    rw [← he.request number content hd, ht] at hs
    exact ht ▸ hs h
  have hp : (if method.voidInput then [] else Payload.present method.inputType content) =
      Payload.present content.type content := by
    split
    case isTrue h  => rw [Payload.present, hv h, List.filter_nil]
    case isFalse h => rw [ht]
  rw [arrived_eq, hp]
  exact Payload.receiveObjects_incoming hr hk hi

-- The reader stops early only where there is something to be read.
theorem drainsRequest_iff {number : ℤ} {content : Content} {dispatcher : Dispatcher}
    (hd : envelope.request.data = some (number, content))
    (hr : p.manager.resolve number = some dispatcher)
    (hm : (dispatcher.service.method? number).isSome) :
    (Payload.present content.type content).map (·.snd.kind) = [] ∨ p.DrainsRequest P envelope ↔
      Payload.Drains P (Payload.present content.type content)
        (p.dispatching dispatcher number, .parsed content) where
  mp := by
    rintro (hn | ⟨number', content', dispatcher', hd', hr', _, h⟩)
    case inl =>
      rw [List.map_eq_nil_iff.mp hn]
      trivial
    case inr =>
      obtain ⟨rfl, rfl⟩ := Prod.mk.inj <| Option.some.inj <| hd.symm.trans hd'
      obtain rfl := Option.some.inj <| hr.symm.trans hr'
      exact h
  mpr h := .inr ⟨number, content, dispatcher, hd, hr, hm, h⟩

theorem drainsResponse_iff {number : ℤ} {content : Content} {entry : ResponseCallbackEntry} {r : Ref}
    (hd : envelope.response.data = some (number, content))
    (hl : p.channel.responseCallbacks.lookup envelope.responseId = some entry)
    (hm : (entry.handler.service.replying? number).isSome) (hr : entry.response = some r) :
    (Payload.present content.type content).map (·.snd.kind) = [] ∨ p.DrainsResponse P envelope ↔
      Payload.Drains P (Payload.present content.type content)
        (p, fill (p.responses r) content envelope.response.error) where
  mp := by
    rintro (hn | ⟨number', content', entry', r', hd', hl', _, hr', h⟩)
    case inl =>
      rw [List.map_eq_nil_iff.mp hn]
      trivial
    case inr =>
      obtain ⟨rfl, rfl⟩ := Prod.mk.inj <| Option.some.inj <| hd.symm.trans hd'
      obtain rfl := Option.some.inj <| hl.symm.trans hl'
      obtain rfl := Option.some.inj <| hr.symm.trans hr'
      exact h
  mpr h := .inr ⟨number, content, entry, r, hd, hl, hm, hr, h⟩

theorem handleRequest_incoming (hr : ∀ n, P.receiveOk n) (hS : S.Knows p) (he : S.Parses envelope)
    (hq : envelope.message.request.isSome) (hk : items.map (·.kind) = envelope.calledFor)
    (hi : p.channel.link.incoming = items.map .payload ++ rest)
    (hn : (p.handleRequest P envelope).snd.returns) :
    (p.handleRequest P envelope).fst.channel.link.incoming = rest ↔ p.Drains P envelope := by
  have hh := handleRequest_handles P envelope p
  have hd : envelope.data = envelope.request.data := if_pos hq
  rw [Drains, if_pos hq, ← hk]
  generalize p.handleRequest P envelope = result at hh hn
  cases hh
  case empty hd' _ =>
    rw [EnvelopePtr.calledFor_of_no_data <| hd.trans hd'] at hk
    exact (incoming_unread hi).trans <| iff_of_true hk (.inl hk)
  case noMessage => exact nomatch hn
  case noDispatcher hm hr' =>
    refine (incoming_unread hi).trans (or_iff_left ?_).symm
    rintro ⟨number, _, dispatcher, hd', hr'', _⟩
    simp only [hd', Option.map_some, Option.getD_some] at hm
    rw [hm] at hr''
    exact nomatch hr'.symm.trans hr''
  case unlisted hd' hr' hm ht hl _ =>
    refine (incoming_unread <| (congrArg _ hl).trans hi).trans (or_iff_left ?_).symm
    rintro ⟨number, _, dispatcher, hd'', hr'', hm', _⟩
    obtain ⟨rfl, -⟩ := Prod.mk.inj <| Option.some.inj <| hd'.symm.trans hd''
    obtain rfl := Option.some.inj <| hr'.symm.trans hr''
    simp [hm] at hm'
  case lost hd' hr' hm _ =>
    have hf := EnvelopePtr.calledFor_of_data <| hd.trans hd'
    have ht := dispatched_incoming hr hS he hd' hr' hm (hk.trans hf) hi
    rw [hk, hf, drainsRequest_iff hd' hr' (by rw [hm]; rfl)]
    exact ht
  case invoked q hd' hr' hm ha =>
    have hf := EnvelopePtr.calledFor_of_data <| hd.trans hd'
    have ht := dispatched_incoming hr hS he hd' hr' hm (hk.trans hf) hi
    rw [hk, hf, drainsRequest_iff hd' hr' (by rw [hm]; rfl), ← ht, ha]
    simp only [invocation_link]

theorem delivered_incoming {number : ℤ} {content : Content} {entry : ResponseCallbackEntry}
    {method : MethodDescriptor} {r : Ref} (hr : ∀ n, P.receiveOk n) (hS : S.Knows p)
    (he : S.Parses envelope) (hd : envelope.response.data = some (number, content))
    (hl : p.channel.responseCallbacks.lookup envelope.responseId = some entry)
    (hm : entry.handler.service.replying? number = some method)
    (hk : items.map (·.kind) = (Payload.present content.type content).map (·.snd.kind))
    (hi : p.channel.link.incoming = items.map .payload ++ rest) :
    (p.deliver P method content envelope.response.error r).channel.link.incoming = rest ↔
      Payload.Drains P (Payload.present content.type content)
        (p, fill (p.responses r) content envelope.response.error) := by
  have ht : content.type = method.outputType := by
    have h := (hS.handlers _ _ hl).response method <| ServiceDescriptor.mem_of_replying? hm
    rw [he.response number content hd, ← h, ServiceDescriptor.id_of_replying? hm]
  have hp : (p.received P method content envelope.response.error r).fst =
      (Payload.receiveObjects P (Payload.present content.type content)
        (p, fill (p.responses r) content envelope.response.error)).fst := by
    rw [received, Payload.receive_eq, ht]
    rfl
  rw [deliver, ← Payload.receiveObjects_incoming hr hk hi, ← hp]

theorem handleResponse_incoming (hr : ∀ n, P.receiveOk n) (hS : S.Knows p) (he : S.Parses envelope)
    (hq : ¬envelope.message.request.isSome) (hk : items.map (·.kind) = envelope.calledFor)
    (hi : p.channel.link.incoming = items.map .payload ++ rest)
    (hn : (p.handleResponse P envelope).snd.returns) :
    (p.handleResponse P envelope).fst.channel.link.incoming = rest ↔ p.Drains P envelope := by
  have hh := handleResponse_handles P envelope p
  have hd : envelope.data = envelope.response.data := if_neg hq
  rw [Drains, if_neg hq, ← hk]
  generalize p.handleResponse P envelope = result at hh hn
  cases hh
  case unexpected hl =>
    refine (incoming_unread hi).trans (or_iff_left ?_).symm
    rintro ⟨_, _, entry, _, _, hl', _⟩
    cases hl.symm.trans hl'
  case empty hl hf =>
    have hd' : envelope.response.data = none := by
      simp only [Response.listFields, List.append_eq_nil_iff, List.map_eq_nil_iff] at hf
      simp [Response.data, hf.right]
    rw [EnvelopePtr.calledFor_of_no_data <| hd.trans hd'] at hk
    exact (incoming_unread hi).trans <| iff_of_true hk (.inl hk)
  case noMessage | mismatch => cases hn
  case unlisted hl hd' hm =>
    refine (incoming_unread hi).trans (or_iff_left ?_).symm
    rintro ⟨number, _, entry, _, hd'', hl', hm', _⟩
    obtain ⟨rfl, -⟩ := Prod.mk.inj <| Option.some.inj <| hd'.symm.trans hd''
    obtain rfl := Option.some.inj <| hl.symm.trans hl'
    simp [hm] at hm'
  case lost hl hd' hm hr' _ _ | completed hl hd' hm hr' _ _ =>
    have hf := EnvelopePtr.calledFor_of_data <| hd.trans hd'
    rw [hk, hf, drainsResponse_iff hd' hl (by rw [hm]; rfl) hr']
    exact delivered_incoming hr hS he hd' hl hm (hk.trans hf) hi

theorem handleMessage_incoming (hr : ∀ n, P.receiveOk n) (hS : S.Knows p) (he : S.Parses envelope)
    (hk : items.map (·.kind) = envelope.calledFor)
    (hi : p.channel.link.incoming = items.map .payload ++ rest)
    (hn : (p.handleMessage P envelope).snd.returns) :
    (p.handleMessage P envelope).fst.channel.link.incoming = rest ↔ p.Drains P envelope := by
  rw [handleMessage] at hn ⊢
  split at hn
  case isTrue hq =>
    rw [if_pos hq]
    exact handleRequest_incoming hr hS he hq hk hi hn
  case isFalse hq =>
    rw [if_neg hq]
    split at hn
    case isTrue hp =>
      rw [if_pos hp]
      exact handleResponse_incoming hr hS he hq hk hi hn
    case isFalse hp =>
      -- There is no message, and nothing that it could call for.
      rw [if_neg hp]
      have hd : envelope.data = none := by
        rw [EnvelopePtr.data, if_neg hq, EnvelopePtr.response, Option.not_isSome_iff_eq_none.mp hp]
        rfl
      have hc := EnvelopePtr.calledFor_of_no_data hd
      exact (incoming_unread hi).trans <| iff_of_true (hk.trans hc) (.inl hc)

end Process

section Session

variable {P : Platform} {S : Schema} {f : Frame} {steps : List (Process × Frame)} {rest : List Item}
  {p : Process}

-- The envelope that `receive` is going to allocate for a frame.
def Frame.ptr (f : Frame) (p : Process) : EnvelopePtr where
  addr    := p.next
  message := f.envelope

theorem Process.receive_incoming (hr : ∀ n, P.receiveOk n) (hS : S.Knows p)
    (he : S.Parses (f.ptr p)) (hi : p.channel.link.incoming = f.items ++ rest)
    (hn : (p.receive P).snd.returns) :
    (p.receive P).fst.channel.link.incoming = rest ↔ (p.opened P).Drains P (f.ptr p) := by
  have hm : p.channel.link.receiveMessage P = (some f.envelope,
      { p.channel.link with
        receives := p.channel.link.receives + 1
        incoming := f.payload.map .payload ++ rest }) := by
    simp [Link.receiveMessage, hr, hi, Frame.items]
  have ho : (p.opened P).channel.link.incoming = f.payload.map .payload ++ rest :=
    congrArg (·.snd.incoming) hm
  rw [receive_of_some (congrArg Prod.fst hm)] at hn ⊢
  exact handleMessage_incoming hr ⟨hS.dispatchers, hS.handlers⟩ he f.complete ho hn

-- What arrives for a list of calls of `receive`.
def stream (steps : List (Process × Frame)) : List Item :=
  steps.flatMap (·.snd.items)

-- Calls of `receive`, each on what the one before has left on the link. The rest of the process may
-- be changed by the application in between.
inductive Session (P : Platform) (S : Schema) : List Item → List (Process × Frame) → Prop
  | stop {incoming : List Item} : Session P S incoming []
  | receive {p : Process} {f : Frame} {steps : List (Process × Frame)} :
    S.Knows p → S.Parses (f.ptr p) → (p.receive P).snd.returns →
    Session P S (p.receive P).fst.channel.link.incoming steps →
    Session P S p.channel.link.incoming ((p, f) :: steps)

-- Every call takes its frame from the link, and no more.
def StaysAligned (P : Platform) (rest : List Item) : List (Process × Frame) → Prop
  | []              => True
  | (p, _) :: steps =>
    (p.receive P).fst.channel.link.incoming = stream steps ++ rest ∧ StaysAligned P rest steps

theorem staysAligned_iff (hr : ∀ n, P.receiveOk n) (h : Session P S (stream steps ++ rest) steps) :
    StaysAligned P rest steps ↔ ∀ x ∈ steps, (x.fst.opened P).Drains P (x.snd.ptr x.fst) := by
  induction steps
  case nil => simp [StaysAligned]
  case cons x steps hi =>
    obtain ⟨p, f⟩ := x
    generalize hs : stream ((p, f) :: steps) ++ rest = incoming at h
    cases h
    case receive hS hn he h =>
      have hl : p.channel.link.incoming = f.items ++ (stream steps ++ rest) := by
        rw [← hs, stream, List.flatMap_cons, List.append_assoc]
        rfl
      rw [StaysAligned, List.forall_mem_cons, Process.receive_incoming hr hS he hl hn]
      refine and_congr_right fun hd => hi ?_
      rwa [(Process.receive_incoming hr hS he hl hn).mpr hd] at h

end Session

-- What hello.proto declares.
def Salutation.schema : Schema where
  request number  := ((service.method? number).map (·.inputType)).getD void
  response number := ((service.method? number).map (·.outputType)).getD void
  void number h   := by
    have hv : ∀ m ∈ service.methods, m.voidInput → m.inputType.payloadFields = [] := by
      decide +kernel
    cases hm : service.method? number
    case none => rfl
    case some m =>
      rw [hm] at h
      exact hv m (ServiceDescriptor.mem_of_method? hm) h

theorem Salutation.declares_service : schema.Declares service where
  request  := by decide +kernel
  response := by decide +kernel

-- A request for `sayHelloVTK` that comes with a table.
def tableFrame : Frame where
  envelope.request := some {
    extensions := [(Salutation.sayHelloVTK.id, ⟨Salutation.requestVTK, [⟨true, []⟩]⟩)]
  }
  payload  := [⟨.vtkDataObject, []⟩]
  complete := by decide +kernel

def tableServer (manager : ServiceManager Dispatcher) : Process where
  manager
  channel.link.incoming := tableFrame.items

theorem parses_tableFrame {p : Process} : Salutation.schema.Parses (tableFrame.ptr p) where
  request _ _ h := by
    obtain ⟨rfl, rfl⟩ := Prod.mk.inj <| Option.some.inj h
    decide +kernel
  response := nofun

theorem session_tableFrame {manager : ServiceManager Dispatcher}
    (h : ∀ number d, manager.resolve number = some d → d.service = Salutation.service)
    (hs : ((tableServer manager).receive Salutation.platform).snd.returns) :
    Session Salutation.platform Salutation.schema
      (stream [(tableServer manager, tableFrame)] ++ []) [(tableServer manager, tableFrame)] := by
  have hk : Salutation.schema.Knows (tableServer manager) := {
    dispatchers := fun number d hd => h number d hd ▸ Salutation.declares_service
    handlers    := fun _ _ hl => nomatch hl
  }
  exact .receive hk parses_tableFrame hs .stop

def registered : ServiceManager Dispatcher :=
  .registerService {} (Salutation.dispatcher 0)

theorem staysAligned_registered : StaysAligned Salutation.platform []
    [(tableServer registered, tableFrame)] := by
  have hd : ∀ number d, registered.resolve number = some d → d.service = Salutation.service := by
    intro number d hd
    simp only [registered, ServiceManager.resolve, ServiceManager.lookup_registerService] at hd
    split at hd
    case isTrue =>
      obtain rfl := Option.some.inj hd
      rfl
    case isFalse => contradiction
  refine (staysAligned_iff (fun _ => rfl) <| session_tableFrame hd (by decide +kernel)).mpr ?_
  refine List.forall_mem_singleton.mpr <| .inr ⟨_, _, Salutation.dispatcher 0, rfl, ?_, ?_, ?_⟩
  case refine_1 =>
    have hm : Salutation.sayHelloVTK.id ∈ ServiceDispatcher.implements (Salutation.dispatcher 0) := by
      decide +kernel
    change registered.resolve Salutation.sayHelloVTK.id = _
    rw [registered, ServiceManager.resolve, ServiceManager.lookup_registerService, if_pos hm]
    rfl
  case refine_2 => decide +kernel
  case refine_3 =>
    have hp : Payload.present Salutation.requestVTK ⟨Salutation.requestVTK, [⟨true, []⟩]⟩ =
      [(0, .vtk "vtkTable")] := by decide +kernel
    rw [hp]
    exact ⟨.inl rfl, trivial⟩

theorem not_staysAligned_unregistered : ¬∀ steps, Session Salutation.platform Salutation.schema
    (stream steps ++ []) steps → StaysAligned Salutation.platform [] steps := by
  intro h
  have hs : ((tableServer {}).receive Salutation.platform).snd.returns := by
    decide +kernel
  have ha := h _ <| @session_tableFrame {} (fun _ _ hd => nomatch hd) hs
  exact absurd ha.left (by decide +kernel)

end ProtoCall
