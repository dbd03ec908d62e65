import ProtoCall.Examples.External
import ProtoCall.Runtime.Peer.Requests

namespace ProtoCall

namespace ServiceManager

open ServiceDispatcher

variable {δ : Type*} [ServiceDispatcher δ] {mgr : ServiceManager δ} {d : δ} {ds ds' : List δ}
  {id : ℤ}

def registerServices (mgr : ServiceManager δ) (ds : List δ) : ServiceManager δ :=
  ds.foldl registerService mgr

theorem lookup_registerServices : (mgr.registerServices ds).dispatcherMap.lookup id =
    (mgr.dispatcherMap.lookup id).or ((ds.find? (id ∈ implements ·)).map some) := by
  induction ds generalizing mgr
  case nil => simp [registerServices]
  case cons d ds hi =>
    rw [registerServices, List.foldl_cons, ← registerServices, hi, lookup_registerService,
      Option.or_assoc]
    by_cases hd : id ∈ implements d <;> simp [hd]

-- An id that several dispatchers claim belongs to the first one.
theorem resolve_registerServices :
    (registerServices {} ds).resolve id = ds.find? (id ∈ implements ·) := by
  simp only [resolve, lookup_registerServices]
  cases ds.find? (id ∈ implements ·) <;> rfl

theorem eq_of_implements {d' : δ} (hn : (ds.flatMap implements).Nodup) (hd : d ∈ ds)
    (hd' : d' ∈ ds) (hi : id ∈ implements d) (hi' : id ∈ implements d') : d = d' := by
  have hp := (List.nodup_flatMap.mp hn).right
  have : Std.Symm (Function.onFun List.Disjoint (implements (δ := δ))) :=
    ⟨fun _ _ h => List.Disjoint.symm h⟩
  by_contra hne
  exact hp.forall hd hd' hne hi hi'

theorem resolve_of_mem (hn : (ds.flatMap implements).Nodup) (hd : d ∈ ds) (hi : id ∈ implements d) :
    (registerServices {} ds).resolve id = some d := by
  rw [resolve_registerServices]
  cases hf : ds.find? (id ∈ implements ·)
  case none => simpa [hi] using List.find?_eq_none.mp hf d hd
  case some d' =>
    have hi' : id ∈ implements d' := by simpa using List.find?_some hf
    rw [eq_of_implements hn hd (List.mem_of_find?_eq_some hf) hi hi']

theorem resolve_of_forall_not_mem (h : ∀ d ∈ ds, id ∉ implements d) :
    (registerServices {} ds).resolve id = none := by
  rw [resolve_registerServices]
  exact List.find?_eq_none.mpr fun d hd => by simpa using h d hd

-- The order of registration does not matter.
theorem resolve_perm (hn : (ds.flatMap implements).Nodup) (hp : ds.Perm ds') :
    (registerServices {} ds).resolve = (registerServices {} ds').resolve := by
  funext id
  by_cases hi : ∃ d ∈ ds, id ∈ implements d
  case pos =>
    obtain ⟨d, hd, hi⟩ := hi
    rw [resolve_of_mem hn hd hi,
      resolve_of_mem ((hp.flatMap_right implements).nodup_iff.mp hn) (hp.mem_iff.mp hd) hi]
  case neg =>
    simp only [not_exists, not_and] at hi
    rw [resolve_of_forall_not_mem hi, resolve_of_forall_not_mem fun d hd => hi d (hp.mem_iff.mpr hd)]

end ServiceManager

namespace Peer

variable {P : Platform} {ds : List Dispatcher} {s t : Peer} {a : Action}

-- All services have been registered, and none is any more.
structure Started (ds : List Dispatcher) (s : Peer) : Prop where
  manager : s.process.manager = .registerServices {} ds
  running : s.running = []
  held    : s.held = []

def Settled (s : Peer) (a : Action) : Prop :=
  Allowed s a ∧ ∀ d, a ≠ .registerService d

abbrev Serving (P : Platform) (ds : List Dispatcher) (s : Peer) : Prop :=
  Transition.Reachable (Started ds) Settled (next P) s

theorem resolve_next (ha : Settled s a) (h : next P s a = some t) :
    t.process.manager.resolve = s.process.manager.resolve := by
  cases a
  case registerService d => exact absurd rfl (ha.right d)
  case call              => exact Option.some.inj h ▸ Process.Quiet.proxyCall.resolve
  case work              => exact Option.some.inj h ▸ (Process.Quiet.of_works ha.left).resolve
  case receive           => exact receive_resolve h
  case resume =>
    obtain ⟨_, _, _, _, rfl⟩ := resume_eq_some_iff.mp h
    rfl
  case reply n =>
    have hr := reply_replies h
    cases hr
    case nothing            => rfl
    case replied hq         => exact hq.resolve
    case unlisted hq        => exact hq.resolve

theorem Serving.resolve_eq (h : Serving P ds s) :
    s.process.manager.resolve = (ServiceManager.registerServices {} ds).resolve :=
  h.invariant (fun _ hi => by rw [hi.manager]) fun _ _ _ hi ha hn => (resolve_next ha hn).trans hi

end Peer

namespace Process

variable {P : Platform} {ds ds' : List Dispatcher} {p p' : Process} {envelope : EnvelopePtr}

-- What `handleRequest` returns, once the service's method has, and which method of which service it
-- invokes.
def answer (P : Platform) (envelope : EnvelopePtr) (p : Process) :
    Bool × Option (Dispatcher × MethodDescriptor) :=
  let (q, outcome) := p.handleRequest P envelope
  match outcome with
  | .invoked invocation => (true, q.callee.map (·, invocation.method))
  | _                   => (outcome.succeeds, none)

-- The objects of a request arrive where they are waited for.
def PayloadsArrive (P : Platform) (envelope : EnvelopePtr) (p : Process) : Prop :=
  ∀ number content d method, envelope.request.data = some (number, content) →
    p.manager.resolve number = some d → d.service.method? number = some method →
    method.voidInput = false → Payload.AcceptsAll P (Payload.present method.inputType content)
      (p.dispatching d number, .parsed content)

-- A request is answered as it should be while the services of `ds` are registered.
structure RoutesRequest (P : Platform) (ds : List Dispatcher) (envelope : EnvelopePtr)
    (p : Process) : Prop where
  registered : ∀ d ∈ ds, ∀ method ∈ d.service.methods, ∀ content,
    envelope.request.extensions = [(method.id, content)] →
    ∃ q invocation, p.handleRequest P envelope = (q, .invoked invocation) ∧
      invocation.method = method ∧ dispatches q.trace = dispatches p.trace ++ [(d, method.id)]
  unregistered : (∀ number content, envelope.request.extensions = [(number, content)] →
      ∀ d ∈ ds, number ∉ d.service.ids) →
    ∃ q, p.handleRequest P envelope = (q, .returned false) ∧ dispatches q.trace = dispatches p.trace

theorem handleRequest_of_accepts {d : Dispatcher} {method : MethodDescriptor} {content : Content}
    {number : ℤ} (h : Accepts P p envelope.request d method content number) :
    ∃ q invocation, p.handleRequest P envelope = (q, .invoked invocation) ∧
      invocation.method = method ∧ dispatches q.trace = dispatches p.trace ++ [(d, number)] := by
  have hh := handleRequest_handles P envelope p
  have hs := handleRequest_dispatches (P := P) h.data h.resolved
  generalize p.handleRequest P envelope = result at hh hs
  obtain ⟨hd, hr, hm, ha⟩ := h
  have ha := arrived_snd_eq_none_iff.mpr ha
  cases hh
  case invoked number content method request q hd' _ hm' _ =>
    obtain ⟨rfl, rfl⟩ := Prod.mk.inj <| Option.some.inj <| hd.symm.trans hd'
    refine ⟨_, _, rfl, ?_, hs⟩
    simp_all [invocation_method]
  case noDispatcher hn hr' =>
    simp only [hd, Option.map_some, Option.getD_some] at hn
    exact nomatch (hn ▸ hr').symm.trans hr
  all_goals simp_all

theorem answer_of_accepts {d : Dispatcher} {method : MethodDescriptor} {content : Content}
    {number : ℤ} (h : Accepts P p envelope.request d method content number) :
    p.answer P envelope = (true, some (d, method)) := by
  obtain ⟨q, invocation, he, rfl, hs⟩ := handleRequest_of_accepts h
  simp [answer, he, callee, hs]

-- Where there is no extension, `id` is looked up, which is the field with number 1.
theorem handleRequest_of_unresolved
    (h : p.manager.resolve ((envelope.request.data.map Prod.fst).getD 1) = none) :
    ∃ q, p.handleRequest P envelope = (q, .returned false) ∧
      dispatches q.trace = dispatches p.trace := by
  have hh := handleRequest_handles P envelope p
  generalize p.handleRequest P envelope = result at hh
  cases hh
  case empty        => exact ⟨_, rfl, rfl⟩
  case noDispatcher => exact ⟨_, rfl, rfl⟩
  all_goals simp_all

theorem answer_of_unresolved
    (h : p.manager.resolve ((envelope.request.data.map Prod.fst).getD 1) = none) :
    p.answer P envelope = (false, none) := by
  obtain ⟨q, he, -⟩ := handleRequest_of_unresolved (P := P) h
  simp [answer, he, Outcome.succeeds]

end Process

namespace Peer

open Process

variable {P : Platform} {ds ds' : List Dispatcher} {s s' : Peer} {envelope : EnvelopePtr}

-- The field with number 1 is taken for nobody's method.
theorem Serving.resolve_one (h : Serving P ds s) : s.process.manager.resolve 1 = none := by
  rw [h.resolve_eq]
  apply ServiceManager.resolve_of_forall_not_mem
  intro d _ hi
  obtain ⟨method, _, he⟩ := List.mem_map.mp hi
  have hm := method.minExtensionNumber_le_id
  exact absurd (hm.trans_eq he) (by decide)

-- Either a method of a registered service is asked for, or there is nobody to ask.
theorem Serving.accepts_or_unresolved (h : Serving P ds s)
    (hn : (ds.flatMap (·.service.ids)).Nodup) (ha : s.process.PayloadsArrive P envelope) :
    (∃ d ∈ ds, ∃ method ∈ d.service.methods, ∃ content,
      s.process.Accepts P envelope.request d method content method.id) ∨
    (∀ number content, envelope.request.data = some (number, content) →
      ∀ d ∈ ds, number ∉ d.service.ids) := by
  by_contra hc
  obtain ⟨hc, hu⟩ := not_or.mp hc
  push Not at hu
  obtain ⟨number, content, hd, d, hm, hi⟩ := hu
  refine hc ⟨d, hm, ?_⟩
  obtain ⟨method, hm', rfl⟩ := List.mem_map.mp hi
  have hr := h.resolve_eq ▸ ServiceManager.resolve_of_mem hn hm hi
  have hl := ServiceDescriptor.method?_id (List.nodup_flatMap.mp hn |>.left d hm) hm'
  exact ⟨method, hm', content, hd, hr, hl, ha _ _ _ _ hd hr hl⟩

theorem Serving.unresolved (h : Serving P ds s)
    (hu : ∀ number content, envelope.request.data = some (number, content) →
      ∀ d ∈ ds, number ∉ d.service.ids) :
    s.process.manager.resolve ((envelope.request.data.map Prod.fst).getD 1) = none := by
  rcases hd : envelope.request.data with _ | ⟨number, content⟩
  case none => exact h.resolve_one
  case some =>
    rw [h.resolve_eq]
    exact ServiceManager.resolve_of_forall_not_mem <| hu number content hd

theorem Serving.routesRequest (h : Serving P ds s) (hn : (ds.flatMap (·.service.ids)).Nodup)
    (he : envelope.request.extensions.length ≤ 1) (ha : s.process.PayloadsArrive P envelope) :
    RoutesRequest P ds envelope s.process where
  registered d hd method hm content hx := by
    have hr := h.resolve_eq ▸ ServiceManager.resolve_of_mem hn hd (List.mem_map_of_mem hm)
    have hl := ServiceDescriptor.method?_id (List.nodup_flatMap.mp hn |>.left d hd) hm
    have hx : envelope.request.data = some (method.id, content) := by rw [Request.data, hx]; rfl
    exact handleRequest_of_accepts ⟨hx, hr, hl, ha _ _ _ _ hx hr hl⟩
  unregistered hu := by
    apply handleRequest_of_unresolved
    apply h.unresolved
    intro number content hd
    obtain ⟨exts, hx⟩ := List.head?_eq_some_iff.mp hd
    obtain rfl : exts = [] := by simpa [hx] using he
    exact hu number content hx

-- Whatever has come before, and in whatever order the services have been registered.
theorem Serving.answer_eq (h : Serving P ds s) (h' : Serving P ds' s')
    (hn : (ds.flatMap (·.service.ids)).Nodup) (hp : ds.Perm ds')
    (ha : s.process.PayloadsArrive P envelope) (ha' : s'.process.PayloadsArrive P envelope) :
    s.process.answer P envelope = s'.process.answer P envelope := by
  have hr : s.process.manager.resolve = s'.process.manager.resolve := by
    rw [h.resolve_eq, h'.resolve_eq, ServiceManager.resolve_perm hn hp]
  rcases h.accepts_or_unresolved hn ha with ⟨d, _, method, _, content, hc⟩ | hu
  case inl =>
    have hr' := hr ▸ hc.resolved
    have hc' : s'.process.Accepts P envelope.request d method content method.id :=
      ⟨hc.data, hr', hc.listed, ha' _ _ _ _ hc.data hr' hc.listed⟩
    rw [answer_of_accepts hc, answer_of_accepts hc']
  case inr =>
    have hu := h.unresolved hu
    rw [answer_of_unresolved hu, answer_of_unresolved (hr ▸ hu)]

theorem routesRequest_of_perm (hn : (ds.flatMap (·.service.ids)).Nodup) (hp : ds.Perm ds')
    (h : Serving P ds s) (h' : Serving P ds' s') (he : envelope.request.extensions.length ≤ 1)
    (ha : s.process.PayloadsArrive P envelope) (ha' : s'.process.PayloadsArrive P envelope) :
    RoutesRequest P ds envelope s.process ∧
      s.process.answer P envelope = s'.process.answer P envelope :=
  ⟨h.routesRequest hn he ha, h.answer_eq h' hn hp ha ha'⟩

-- Two services, and a request for a method of the second one.
def services : List Dispatcher := [External.dispatcher 0, Salutation.dispatcher 1]

def started (ds : List Dispatcher) : Peer where
  process.manager := .registerServices {} ds

def voidRequest : EnvelopePtr where
  message.request := some { extensions := [(Salutation.sayVoid.id, ⟨Salutation.void, []⟩)] }

theorem serving_started : Serving P ds (started ds) := .start ⟨rfl, rfl, rfl⟩

theorem payloadsArrive_voidRequest {p : Process} : p.PayloadsArrive P voidRequest := by
  rintro _ _ d method ⟨⟩ _ _ _
  rw [Payload.present_of_nil rfl]
  trivial

theorem routesRequest_voidRequest :
    RoutesRequest Salutation.platform services voidRequest (started services).process ∧
      (started services).process.answer Salutation.platform voidRequest =
        (started services.reverse).process.answer Salutation.platform voidRequest :=
  routesRequest_of_perm (by decide +kernel) (List.reverse_perm _).symm serving_started
    serving_started (by decide) payloadsArrive_voidRequest payloadsArrive_voidRequest

end Peer

end ProtoCall
