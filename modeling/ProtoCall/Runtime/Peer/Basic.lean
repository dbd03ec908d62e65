import ProtoCall.Library.Transition
import ProtoCall.Runtime.Proxy
import ProtoCall.Runtime.Handling

namespace ProtoCall

-- A request whose method has been invoked and whose `done` has not been run yet: the dispatcher that
-- has built the closure, and where the envelope is.
structure Pending where
  dispatcher : Dispatcher
  envelope   : ℕ
  done       : DoneClosure

-- A process in the course of its life, as a client, as a server, or as both.
structure Peer where
  process : Process := {}
  -- The callbacks that have not returned yet, the innermost one first.
  running : List Activation := []
  held    : List Pending := []

-- The dispatcher that is, or was last, in its `dispatch`.
def Process.callee (p : Process) : Option Dispatcher :=
  (dispatches p.trace).getLast?.map Prod.fst

namespace Peer

inductive Action
  | registerService (dispatcher : Dispatcher)
  -- A method of a generated proxy is called.
  | call (service : ServiceDescriptor) (method : MethodDescriptor) (input : Option Message)
    (output : Option Ref) (done : Closure)
  -- `receive` is called, also from within a callback or from within a service's method.
  | receive
  -- The innermost callback returns.
  | resume
  -- A service runs one of its closures.
  | reply (n : ℕ)
  -- The application works on its own objects, and the other end of the link on the link.
  | work (p : Process)

def receive (P : Platform) (s : Peer) : Option Peer :=
  match s.process.receive P with
  | (_, .aborted)                 => none
  | (process, .invoked invocation) => process.callee.map fun dispatcher =>
    let done := invocation.done
    { s with process, held := s.held ++ [{ dispatcher, envelope := s.process.next, done }] }
  | (process, .callback a)        => some { s with process, running := a :: s.running }
  | (process, .returned _)        => some { s with process }

def resume (s : Peer) : Option Peer :=
  match s.running with
  | []           => none
  | a :: running => (s.process.resume a).map fun process => { s with process, running }

theorem resume_eq_some_iff {s t : Peer} : s.resume = some t ↔ ∃ a running,
    s.running = a :: running ∧ s.process.channel.responseCallbacks.lookup a.id = some a.entry ∧
      { s with process := s.process.finish a, running } = t := by
  rw [resume]
  split
  case h_1 hr => simp [hr]
  case h_2 hr => simp [hr, Process.resume_eq_some_iff]

def reply (P : Platform) (n : ℕ) (s : Peer) : Option Peer := do
  let c ← s.held[n]?
  let held := s.held.eraseIdx n
  match c.done with
  | .doNothing  => some { s with held }
  | .reply info =>
    match s.process.reply P c.dispatcher.service info with
    | (_, some .abort) => none
    | (process, _)     => some { s with process, held }

def next (P : Platform) (s : Peer) : Action → Option Peer
  | .registerService d => some { s with process.manager := s.process.manager.registerService d }
  | .call service method input output done =>
    some { s with process := (s.process.proxyCall P service method input output done).fst }
  | .receive           => s.receive P
  | .resume            => s.resume
  | .reply n           => s.reply P n
  | .work process      => some { s with process }

structure Works (p p' : Process) : Prop where
  process : p' = { p with
    heap         := p'.heap
    responses    := p'.responses
    next         := p'.next
    channel.link := p'.channel.link
  }
  next    : p.next ≤ p'.next

def Allowed (s : Peer) : Action → Prop
  | .work p => Works s.process p
  | _       => True

end Peer

-- Events that requests have nothing to do with.
def Event.quiet : Event → Bool
  | newEnvelope _ | deleteEnvelope _ | dispatch .. => false
  | _                                              => true

-- Calls are only added with handlers that are new.
structure Process.Ages (p p' : Process) : Prop where
  next    : p.next ≤ p'.next
  pending : ∀ id entry, p'.channel.responseCallbacks.lookup id = some entry →
    p.channel.responseCallbacks.lookup id = some entry ∨
      p.next ≤ entry.handler.addr ∧ entry.handler.addr < p'.next

namespace Process.Ages

variable {p p' p'' : Process}

theorem of_eq (hn : p.next ≤ p'.next)
    (hc : p'.channel.responseCallbacks = p.channel.responseCallbacks) : Ages p p' where
  next            := hn
  pending _ _ hl  := .inl <| hc ▸ hl

theorem trans (h : Ages p p') (h' : Ages p' p'') : Ages p p'' where
  next             := h.next.trans h'.next
  pending id e hl  := by
    obtain hl | ⟨hg, hb⟩ := h'.pending id e hl
    case inl => exact (h.pending id e hl).imp_right <| And.imp_right (·.trans_le h'.next)
    case inr => exact .inr ⟨h.next.trans hg, hb⟩

theorem finish {a : Activation} : Ages p (p.finish a) where
  next            := le_rfl
  pending _ _ hl  := .inl (StdMap.lookup_erase_eq_some.mp hl).right

end Process.Ages

-- What code may change that has nothing to do with requests.
structure Process.Quiet (p p' : Process) : Prop extends p.Ages p' where
  resolve : p'.manager.resolve = p.manager.resolve
  trace   : ∃ es, p'.trace = p.trace ++ es ∧ ∀ e ∈ es, e.quiet

namespace Process.Quiet

variable {P : Platform} {p p' p'' : Process} {envelope : EnvelopePtr} {method : MethodDescriptor}

theorem refl : Quiet p p where
  toAges  := .of_eq le_rfl rfl
  resolve := rfl
  trace   := ⟨[], by simp⟩

theorem trans (h : Quiet p p') (h' : Quiet p' p'') : Quiet p p'' where
  toAges  := h.toAges.trans h'.toAges
  resolve := h'.resolve.trans h.resolve
  trace   := appended_trans h.trace h'.trace

theorem of_transfers (h : p.Transfers p') : Quiet p p' where
  toAges  := .of_eq h.next.ge h.callbacks
  resolve := by rw [h.manager]
  trace   := by
    obtain ⟨es, he, hd⟩ := h.trace
    refine ⟨es, he, fun e hm => ?_⟩
    obtain ⟨a, rfl⟩ := hd e hm
    rfl

theorem of_works (h : Peer.Works p p') : Quiet p p' where
  toAges  := .of_eq h.next <| by rw [h.process]
  resolve := by rw [h.process]
  trace   := ⟨[], by rw [h.process]; simp⟩

theorem log {e : Event} (h : e.quiet) : Quiet p (p.log e) where
  toAges  := .of_eq le_rfl rfl
  resolve := rfl
  trace   := ⟨[e], rfl, by simpa using h⟩

theorem lookup {id : ℤ} :
    Quiet p { p with manager := (p.manager.lookupServiceDispatcher id).snd } where
  toAges  := .of_eq le_rfl rfl
  resolve := funext fun _ => ServiceManager.resolve_lookupServiceDispatcher
  trace   := ⟨[], by simp⟩

theorem register {service : ServiceDescriptor} {output : Option Ref} {done : Closure} :
    Quiet p (p.register service output done) where
  next               := Nat.le_succ _
  pending id entry hl := by
    have hl := StdMap.lookup_insertNew.symm.trans hl
    cases ho : p.channel.responseCallbacks.lookup id <;>
      simp only [ho, Option.none_or, Option.some_or, Option.ite_none_right_eq_some] at hl
    case some => exact .inl hl
    case none =>
      obtain rfl := Option.some.inj hl.right
      exact .inr ⟨le_rfl, Nat.lt_succ_self _⟩
  resolve            := rfl
  trace              := ⟨[.newHandler p.next, .register done],
    by simp [Process.register, Process.log], by simp [Event.quiet]⟩

theorem prepare {service : ServiceDescriptor} {output : Option Ref} {done : Closure} :
    Quiet p (p.prepare service method output done).snd := by
  rw [Process.prepare]
  split
  case isTrue  => exact register
  case isFalse => exact refl

theorem proxyCall {service : ServiceDescriptor} {input : Option Message} {output : Option Ref}
    {done : Closure} : Quiet p (p.proxyCall P service method input output done).fst := by
  rw [proxyCall_eq]
  exact prepare.trans <| of_transfers submit_transfers

theorem invocation {request : Message} :
    Quiet p (p.invocation method envelope request).fst := by
  rw [Process.invocation]
  split
  case isTrue  => exact refl
  case isFalse => exact { toAges := .of_eq (Nat.le_succ _) rfl, resolve := rfl, trace := ⟨[], by simp⟩ }

theorem deliver {content : Content} {error : ErrorHolder} {r : Ref} :
    Quiet p (p.deliver P method content error r) where
  toAges  := .of_eq received_receives.left.next.ge deliver_callbacks
  resolve := by rw [show (p.deliver P method content error r).manager = p.manager from
    received_receives.left.manager]
  trace   := by
    obtain ⟨es, he, hd⟩ : ∃ es, (p.deliver P method content error r).trace = p.trace ++ es ∧
      ∀ e ∈ es, ∃ a, e = .deleteObject a := deliver_trace
    refine ⟨es, he, fun e hm => ?_⟩
    obtain ⟨a, rfl⟩ := hd e hm
    rfl

theorem dispatches_eq (h : Quiet p p') : dispatches p'.trace = dispatches p.trace := by
  obtain ⟨es, he, hq⟩ := h.trace
  have hn : dispatches es = [] := by
    apply List.filterMap_eq_nil_iff.mpr
    intro e hm
    have he := hq e hm
    cases e <;> simp_all [Event.quiet]
  rw [dispatches, he, List.filterMap_append]
  exact (congrArg _ hn).trans <| List.append_nil _

end Process.Quiet

namespace Process

variable {P : Platform} {p : Process} {service : ServiceDescriptor} {info : ReplyInfo}

-- A reply that the `switch` does not list: the envelope is not even looked at.
theorem reply_of_none (h : service.replying? info.methodId = none) :
    Quiet p (p.reply P service info).fst := by
  simp only [Process.reply, RpcGenerator.select_reply_of_none h]
  simp only [RpcGenerator.generateRelyMethod, Stmt.exec, ↓reduceIte]
  split
  case isTrue  => exact .of_transfers .setErrorString
  case isFalse => exact .refl

end Process
end ProtoCall
