import ProtoCall.Library.Transition
import ProtoCall.Runtime.Handling
import ProtoCall.Runtime.Proxy

namespace ProtoCall

-- Whether an event leaves the pending calls, their handlers and their closures alone.
def Event.steady : Event → Bool
  | .newHandler _ | .deleteHandler _ | .register _ | .erase _ | .run _ => false
  | _ => true

-- What a process can go through with its pending calls left alone. Messages never change their
-- types.
structure Process.Steady (p p' : Process) : Prop where
  callbacks : p'.channel.responseCallbacks = p.channel.responseCallbacks
  next      : p.next ≤ p'.next
  types     : ∀ r < p.next, (p'.responses r).type = (p.responses r).type
  trace     : ∃ es, p'.trace = p.trace ++ es ∧ ∀ e ∈ es, e.steady

namespace Process

variable {P : Platform} {p p' p'' : Process} {envelope : EnvelopePtr}

namespace Steady

theorem refl : Steady p p where
  callbacks := rfl
  next      := le_rfl
  types _ _ := rfl
  trace     := ⟨[], by simp⟩

theorem trans (h : Steady p p') (h' : Steady p' p'') : Steady p p'' where
  callbacks   := h'.callbacks.trans h.callbacks
  next        := h.next.trans h'.next
  types r hr  := (h'.types r <| hr.trans_le h.next).trans (h.types r hr)
  trace       := appended_trans h.trace h'.trace

theorem of_transfers (h : p.Transfers p') : Steady p p' where
  callbacks := h.callbacks
  next      := h.next.ge
  types _ _ := by rw [h.responses]
  trace     := by
    obtain ⟨es, he, hd⟩ := h.trace
    refine ⟨es, he, fun e hm => ?_⟩
    obtain ⟨_, rfl⟩ := hd e hm
    rfl

theorem log {e : Event} (h : e.steady) : Steady p (p.log e) :=
  { refl with trace := ⟨[e], rfl, by simpa using h⟩ }

theorem withManager {manager : ServiceManager Dispatcher} : Steady p { p with manager } :=
  { refl with }

theorem opened : Steady p (p.opened P) where
  callbacks := rfl
  next      := Nat.le_succ _
  types _ _ := rfl
  trace     := ⟨[.newEnvelope p.next], rfl, by simp [Event.steady]⟩

theorem dispatching {dispatcher : Dispatcher} {number : ℤ} :
    Steady p (p.dispatching dispatcher number) :=
  withManager.trans <| log rfl

theorem invocation {method : MethodDescriptor} {request : Message} :
    Steady p (p.invocation method envelope request).fst := by
  rw [Process.invocation]
  split
  case isTrue => exact refl
  case isFalse =>
    exact {
      callbacks   := rfl
      next        := Nat.le_succ _
      types _ hr  := congrArg (fun m : Message => m.type) <| Function.update_of_ne hr.ne ..
      trace       := ⟨[], by simp⟩
    }

theorem deliver {method : MethodDescriptor} {content : Content} {error : ErrorHolder} {r : Ref}
    (ht : (p.responses r).type = content.type) : Steady p (p.deliver P method content error r) where
  callbacks   := deliver_callbacks
  next        := received_receives.left.next.ge
  types r' _  := by
    by_cases hr : r' = r
    case neg => rw [deliver_responses_of_ne hr]
    case pos =>
      rw [hr, ht]
      exact congrArg _ deliver_responses_self
  trace       := by
    obtain ⟨es, he, hd⟩ := deliver_trace (P := P) (p := p)
    refine ⟨es, he, fun e hm => ?_⟩
    obtain ⟨_, rfl⟩ := hd e hm
    rfl

theorem handleRequest : Steady p (p.handleRequest P envelope).fst := by
  have h := handleRequest_handles P envelope p
  generalize p.handleRequest P envelope = result at h
  cases h
  case empty        => exact of_transfers .setErrorString
  case noMessage    => exact withManager
  case noDispatcher => exact withManager.trans <| of_transfers .setErrorString
  case unlisted ht _ _ => exact dispatching.trans <| of_transfers ht
  case lost         => exact dispatching.trans <| of_transfers arrived_receives.left
  case invoked ha   =>
    exact dispatching.trans <| (of_transfers (ha ▸ arrived_receives).left).trans invocation

end Steady

-- A response is being handled under the id of `entry`.
structure Answered (envelope : EnvelopePtr) (p : Process) (entry : ResponseCallbackEntry) : Prop where
  pending : p.channel.responseCallbacks.lookup envelope.responseId = some entry
  data    : envelope.response.data.isSome

-- What `handleResponse` does to the pending calls.
inductive Settles (envelope : EnvelopePtr) (p : Process) : Process × Outcome → Prop
  | steady {p' : Process} {outcome : Outcome} :
    p.Steady p' → (∀ a, outcome ≠ .callback a) → Settles envelope p (p', outcome)
  | dropped {p' : Process} {entry : ResponseCallbackEntry} :
    Answered envelope p entry → p.Steady p' →
    Settles envelope p (p'.finish ⟨envelope.responseId, entry, envelope⟩, .returned true)
  | completed {p' : Process} {entry : ResponseCallbackEntry} :
    Answered envelope p entry → p.Steady p' →
    Settles envelope p
      (p'.log (.run entry.done), .callback ⟨envelope.responseId, entry, envelope⟩)

theorem handleResponse_settles (P : Platform) (envelope : EnvelopePtr) (p : Process) :
    Settles envelope p (p.handleResponse P envelope) := by
  have h := handleResponse_handles P envelope p
  generalize p.handleResponse P envelope = result at h
  cases h
  case unexpected => exact .steady (.of_transfers .setErrorString) nofun
  case empty      => exact .steady (.of_transfers .setErrorString) nofun
  case noMessage  => exact .steady .refl nofun
  case mismatch   => exact .steady .refl nofun
  case unlisted hl hd _           => exact .dropped ⟨hl, by rw [hd]; rfl⟩ .refl
  case lost hl hd _ _ ht _        => exact .dropped ⟨hl, by rw [hd]; rfl⟩ <| .deliver ht
  case completed hl hd _ _ ht _   => exact .completed ⟨hl, by rw [hd]; rfl⟩ <| .deliver ht

theorem handleRequest_outcome {a : Activation} :
    (p.handleRequest P envelope).snd ≠ .callback a := by
  have h := handleRequest_handles P envelope p
  generalize p.handleRequest P envelope = result at h
  cases h
  case unlisted ho => rcases ho with rfl | rfl <;> exact nofun
  all_goals exact nofun

end Process

-- The callbacks that are running after a `receive`.
def Outcome.running : Outcome → List Activation → List Activation
  | callback a, running => a :: running
  | _, running          => running

-- A process in which the callbacks `running` have not returned yet, the innermost one first.
structure Client where
  process : Process := {}
  running : List Activation := []

namespace Client

inductive Action
  | call (service : ServiceDescriptor) (method : MethodDescriptor) (input : Option Message)
    (output : Option Ref) (done : Closure)
  | receive
  -- The innermost callback returns.
  | resume
  -- Anything else that happens: what the peer sends comes in, the application works on its objects
  -- and serves requests.
  | environment (p : Process)

-- A process that aborts is gone.
def next (P : Platform) (c : Client) : Action → Option Client
  | .call service method input output done =>
    some { c with process := (c.process.proxyCall P service method input output done).fst }
  | .receive =>
    match c.process.receive P with
    | (_, .aborted) => none
    | (p, outcome)  => some { process := p, running := outcome.running c.running }
  | .resume =>
    match c.running with
    | []           => none
    | a :: running => (c.process.resume a).map fun process => { process, running }
  | .environment p => some { c with process := p }

-- The generated signatures are kept, and nobody else works on the pending calls.
def Allowed (c : Client) : Action → Prop
  | .call _ method _ output _ => (∀ r, output = some r → r < c.process.next ∧
    method.voidOutput = false ∧ (c.process.responses r).type = method.outputType)
  | .environment p => c.process.Steady p
  | _              => True

structure Initial (c : Client) : Prop where
  callbacks : c.process.channel.responseCallbacks = ∅
  trace     : c.process.trace = []
  running   : c.running = []

end Client
end ProtoCall
