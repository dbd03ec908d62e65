import ProtoCall.Examples.Salutation
import ProtoCall.Runtime.Completion

namespace ProtoCall

namespace Process

variable {P : Platform} {p p' : Process} {envelope : EnvelopePtr} {id : ℤ} {d : Dispatcher}

-- The method of the request that is received next.
def requested (P : Platform) (p : Process) : Option ℤ := do
  let envelope ← (p.channel.link.receiveMessage P).fst
  let request ← envelope.request
  let (number, _) ← request.data
  return number

theorem receive_dispatches (h : p.requested P = some id) (hr : p.manager.resolve id = some d) :
    dispatches (p.receive P).fst.trace = dispatches p.trace ++ [(d, id)] := by
  simp only [requested, Option.bind_eq_bind, Option.bind_eq_some_iff] at h
  obtain ⟨message, hm, request, hq, ⟨number, content⟩, hd, hn⟩ := h
  obtain rfl : number = id := Option.some.inj hn
  have hd : (EnvelopePtr.mk p.next message).request.data = some (number, content) := by
    simpa only [EnvelopePtr.request, hq, Option.getD_some] using hd
  have ho : dispatches (p.opened P).trace = dispatches p.trace := by
    simp [opened, log, withLink, dispatches]
  rw [receive_of_some hm, handleMessage, if_pos (by rw [hq]; rfl),
    handleRequest_dispatches (p := p.opened P) hd hr, ho]

end Process

-- A round of the server's loop: where its dispatcher lives, and the processes that `receive` is
-- called on. Between two calls the service's methods may do to the process whatever they like, but
-- for the service manager, which they are not given.
structure Connection where
  addr   : ℕ
  served : List Process

namespace Connection

def dispatcher (service : ServiceDescriptor) (c : Connection) : Dispatcher where
  addr := c.addr
  service

end Connection

-- `while(channel.receive());`, or a part of it from its start.
inductive Serves (P : Platform) :
    ServiceManager Dispatcher → List Process → ServiceManager Dispatcher → Prop
  | stop {mgr : ServiceManager Dispatcher} : Serves P mgr [] mgr
  | receive {p : Process} {ps : List Process} {mgr : ServiceManager Dispatcher} :
    (ps ≠ [] → (p.receive P).snd.succeeds) →
    Serves P (p.receive P).fst.manager ps mgr →
    Serves P p.manager (p :: ps) mgr

-- `while(true)`: the dispatcher of a connection is gone when the next one comes, what the service
-- manager knows of it is not.
inductive ServerLoop (P : Platform) (service : ServiceDescriptor) :
    ServiceManager Dispatcher → List Connection → Prop
  | stop {mgr : ServiceManager Dispatcher} : ServerLoop P service mgr []
  | connection {c : Connection} {cs : List Connection} {mgr mgr' : ServiceManager Dispatcher} :
    Serves P (mgr.registerService (c.dispatcher service)) c.served mgr' →
    ServerLoop P service mgr' cs →
    ServerLoop P service mgr (c :: cs)

-- Every request for a method of the service goes to the dispatcher of the connection that it is
-- received on.
def NeverDead (P : Platform) (service : ServiceDescriptor) (cs : List Connection) : Prop :=
  ∀ c ∈ cs, ∀ p ∈ c.served, ∀ id ∈ service.ids, p.requested P = some id →
    dispatches (p.receive P).fst.trace = dispatches p.trace ++ [(c.dispatcher service, id)]

def Connection.Requested (P : Platform) (service : ServiceDescriptor) (c : Connection) : Prop :=
  ∃ p ∈ c.served, ∃ id ∈ service.ids, p.requested P = some id

section

variable {P : Platform} {service : ServiceDescriptor} {mgr mgr' : ServiceManager Dispatcher}
  {d : Dispatcher} {ps : List Process} {c₀ c : Connection} {cs : List Connection}

theorem Serves.claimed (s : Serves P mgr ps mgr') (h : mgr.Claimed d) :
    mgr'.Claimed d ∧ ∀ p ∈ ps, p.manager.Claimed d := by
  induction s
  case stop => exact ⟨h, fun _ hm => nomatch hm⟩
  case receive hi =>
    obtain ⟨hm, hp⟩ := hi h.receive
    exact ⟨hm, List.forall_mem_cons.mpr ⟨h, hp⟩⟩

theorem ServerLoop.claimed (l : ServerLoop P service mgr cs) (h : mgr.Claimed d) :
    ∀ c ∈ cs, ∀ p ∈ c.served, p.manager.Claimed d := by
  induction l
  case stop => exact fun _ hm => nomatch hm
  case connection hs _ hi =>
    obtain ⟨hm, hp⟩ := hs.claimed h.registerService
    exact List.forall_mem_cons.mpr ⟨hp, hi hm⟩

-- All that is ever dispatched to is the dispatcher of the first connection.
theorem ServerLoop.dispatches_eq (l : ServerLoop P service {} (c₀ :: cs)) :
    ∀ c ∈ c₀ :: cs, ∀ p ∈ c.served, ∀ id ∈ service.ids, p.requested P = some id →
      dispatches (p.receive P).fst.trace = dispatches p.trace ++ [(c₀.dispatcher service, id)] := by
  cases l
  case connection hs hl =>
    obtain ⟨hm, hp⟩ := hs.claimed <| .registered (d := c₀.dispatcher service)
    have hc := List.forall_mem_cons.mpr ⟨hp, hl.claimed hm⟩
    intro c hc' p hp id hi hr
    exact Process.receive_dispatches hr <| (hc c hc' p hp).resolve hi

theorem neverDead_iff (l : ServerLoop P service {} (c₀ :: cs)) :
    NeverDead P service (c₀ :: cs) ↔ ∀ c ∈ cs, c.Requested P service → c.addr = c₀.addr where
  mp h c hc := by
    rintro ⟨p, hp, id, hi, hr⟩
    have hn := h c (List.mem_cons_of_mem _ hc) p hp id hi hr
    have he := l.dispatches_eq c (List.mem_cons_of_mem _ hc) p hp id hi hr
    have hd : (c.dispatcher service, id) = (c₀.dispatcher service, id) :=
      (List.cons.inj <| List.append_cancel_left <| hn.symm.trans he).left
    exact congrArg (·.fst.addr) hd
  mpr h c hc p hp id hi hr := by
    have ha : c.addr = c₀.addr := by
      obtain rfl | hc := List.mem_cons.mp hc
      case inl => rfl
      case inr => exact h c hc ⟨p, hp, id, hi, hr⟩
    have he := l.dispatches_eq c hc p hp id hi hr
    rwa [Connection.dispatcher, ha]

end

-- A process that is about to receive a request for `sayVoid`.
def visited (manager : ServiceManager Dispatcher) : Process where
  manager
  channel.link.incoming := [
    .envelope { request := some { extensions := [(Salutation.sayVoid.id, ⟨Salutation.void, []⟩)] } }
  ]

theorem requested_visited {manager : ServiceManager Dispatcher} :
    (visited manager).requested Salutation.platform = some Salutation.sayVoid.id := rfl

theorem serves_visited {manager : ServiceManager Dispatcher} :
    Serves Salutation.platform manager [visited manager]
      ((visited manager).receive Salutation.platform).fst.manager :=
  .receive (p := visited manager) (absurd rfl) .stop

-- The manager of the first connection, and the one of the second.
def firstVisit (addr : ℕ) : ServiceManager Dispatcher :=
  .registerService {} (Salutation.dispatcher addr)

def secondVisit (addr addr' : ℕ) : ServiceManager Dispatcher :=
  ((visited <| firstVisit addr).receive Salutation.platform).fst.manager.registerService
    (Salutation.dispatcher addr')

theorem serverLoop_visits {addr addr' : ℕ} :
    ServerLoop Salutation.platform Salutation.service {}
      [⟨addr, [visited <| firstVisit addr]⟩, ⟨addr', [visited <| secondVisit addr addr']⟩] :=
  .connection serves_visited <| .connection serves_visited .stop

-- The same place on the stack is used for both dispatchers.
theorem neverDead_visits : NeverDead Salutation.platform Salutation.service
    [⟨0, [visited <| firstVisit 0]⟩, ⟨0, [visited <| secondVisit 0 0]⟩] :=
  (neverDead_iff <| @serverLoop_visits 0 0).mpr <| List.forall_mem_singleton.mpr fun _ => rfl

theorem not_neverDead_visits : ¬NeverDead Salutation.platform Salutation.service
    [⟨0, [visited <| firstVisit 0]⟩, ⟨1, [visited <| secondVisit 0 1]⟩] := by
  intro h
  have hi : Salutation.sayVoid.id ∈ Salutation.service.ids := by decide +kernel
  have hn := h ⟨1, [visited <| secondVisit 0 1]⟩ (by simp) _ (List.mem_singleton_self _) _ hi
    requested_visited
  have he := (@serverLoop_visits 0 1).dispatches_eq ⟨1, [visited <| secondVisit 0 1]⟩ (by simp) _
    (List.mem_singleton_self _) _ hi requested_visited
  have hd := (List.cons.inj <| List.append_cancel_left <| hn.symm.trans he).left
  exact absurd (congrArg (·.fst.addr) hd) (by decide)

end ProtoCall
