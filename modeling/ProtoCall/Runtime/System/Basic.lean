import ProtoCall.Library.Transition
import ProtoCall.Runtime.System.Frames

namespace ProtoCall

-- What becomes of the calls of a client. They are numbered in the order in which they are made, and
-- so are the invocations of the service's methods.
inductive Note
  | called (call : ℕ) (method : MethodDescriptor) (input : Option Value)
  | invoked (call : ℕ) (method : MethodDescriptor) (input : Option Value)
  -- The service has run its `done`.
  | replied (call : ℕ) (output : Value) (error : ErrorHolder)
  -- The client's `done` is run.
  | completed (call : ℕ) (output : Value) (error : ErrorHolder)
  deriving DecidableEq

-- A client and a server at the two ends of a connection. The `done` of the n-th call is the closure
-- with the number n.
structure System where
  client      : Process := {}
  -- The client's callbacks that have not returned yet, the innermost one first.
  running     : List Activation := []
  server      : Process := {}
  -- The closures that the service has yet to run, with the numbers of their invocations.
  held        : List (ℕ × DoneClosure) := []
  calls       : ℕ := 0
  invocations : ℕ := 0
  log         : List Note := []

namespace System

inductive Action
  | call (method : MethodDescriptor) (input : Option Message) (output : Option Ref)
  -- The server calls `receive`.
  | serve
  -- The service runs one of its closures.
  | reply (n : ℕ)
  -- The client calls `receive`, also from within a callback.
  | receive
  -- The client's innermost callback returns.
  | resume
  -- The applications work on their own objects.
  | work (client server : Process)

-- What `source` has sent arrives at `target`.
def post (source target : Process) : Process × Process :=
  let sent := source.channel.link.outgoing
  let incoming := target.channel.link.incoming ++ sent
  (source.withLink { source.channel.link with outgoing := [] },
    target.withLink { target.channel.link with incoming })

def call (P : Platform) (service : ServiceDescriptor) (method : MethodDescriptor)
    (input : Option Message) (output : Option Ref) (s : System) : System :=
  let (p, _) := s.client.proxyCall P service method input output s.calls
  let (client, server) := post p s.server
  { s with
    client
    server
    calls := s.calls + 1
    log   := s.log ++ [.called s.calls method <| input.map (·.value s.client.heap)]
  }

def serve (P : Platform) (s : System) : Option System :=
  match s.server.receive P with
  | (_, .aborted)                => none
  | (server, .invoked invocation) =>
    let input := invocation.input.map (·.value server.heap)
    some { s with
      server
      held        := s.held ++ [(s.invocations, invocation.done)]
      invocations := s.invocations + 1
      log         := s.log ++ [.invoked s.invocations invocation.method input]
    }
  | (server, _)                  => some { s with server }

def reply (P : Platform) (service : ServiceDescriptor) (n : ℕ) (s : System) : Option System :=
  match s.held[n]? with
  | none                    => none
  | some (_, .doNothing)    => some { s with held := s.held.eraseIdx n }
  | some (call, .reply info) =>
    let output := s.server.responses info.response
    let (p, _) := s.server.reply P service info
    let (server, client) := post p s.client
    some { s with
      client
      server
      held := s.held.eraseIdx n
      log  := s.log ++ [.replied call (output.value s.server.heap) output.error]
    }

def receive (P : Platform) (s : System) : Option System :=
  match s.client.receive P with
  | (_, .aborted)         => none
  | (client, .callback a) =>
    let output := a.entry.response.elim (.new ⟨"", []⟩) client.responses
    some { s with
      client
      running := a :: s.running
      log     := s.log ++ [.completed a.entry.done (output.value client.heap) output.error]
    }
  | (client, _)           => some { s with client }

def resume (s : System) : Option System :=
  match s.running with
  | []           => none
  | a :: running => (s.client.resume a).map fun client => { s with client, running }

theorem resume_eq_some_iff {s s' : System} : s.resume = some s' ↔ ∃ a running,
    s.running = a :: running ∧ s.client.channel.responseCallbacks.lookup a.id = some a.entry ∧
      { s with client := s.client.finish a, running } = s' := by
  rw [resume]
  split
  case h_1 hr => simp [hr]
  case h_2 hr => simp [hr, Process.resume_eq_some_iff]

def next (P : Platform) (service : ServiceDescriptor) (s : System) : Action → Option System
  | .call method input output => some <| s.call P service method input output
  | .serve                    => s.serve P
  | .reply n                  => s.reply P service n
  | .receive                  => s.receive P
  | .resume                   => s.resume
  | .work client server       => some { s with client, server }

-- Applications allocate objects and change them. If the calls have objects of their own, those are
-- left alone while the response is waited for.
structure Works (own : Prop) (p p' : Process) : Prop where
  process : p' = { p with heap := p'.heap, responses := p'.responses, next := p'.next }
  next    : p.next ≤ p'.next
  types   : ∀ r < p.next, (p'.responses r).type = (p.responses r).type
  waiting : own → ∀ id entry r, p.channel.responseCallbacks.lookup id = some entry →
    entry.response = some r → p'.responses r = p.responses r

-- The object that is passed for the response.
structure Offers (own : Prop) (p : Process) (method : MethodDescriptor) (output : Option Ref) :
    Prop where
  given : output.isSome = !method.voidOutput
  typed : ∀ r ∈ output, r < p.next ∧ (p.responses r).type = method.outputType
  new   : own → ∀ r ∈ output, p.responses r = .new method.outputType
  apart : own → ∀ r ∈ output, ∀ id entry,
    p.channel.responseCallbacks.lookup id = some entry → entry.response ≠ some r

-- Whatever is sent has its objects, and the generated signatures are kept.
def Allowed (own : Prop) (service : ServiceDescriptor) (s : System) : Action → Prop
  | .call method input output => method ∈ service.methods ∧ input.isSome = !method.voidInput ∧
    Process.Fits method.inputType (input.getD <| .new method.inputType) ∧
    Offers own s.client method output
  | .reply n                  => ∀ call info, s.held[n]? = some (call, .reply info) →
    Payload.Full (s.server.responses info.response).type (s.server.responses info.response)
  | .work client server       => Works own s.client client ∧ Works own s.server server
  | _                         => True

-- The sizes of the objects that are sent are not too large for the code.
def Sized (P : Platform) (s : System) : Action → Prop
  | .call method input _ =>
    Payload.Sized P s.client.heap (input.getD <| .new method.inputType) method.inputType
  | .reply n             => ∀ call info, s.held[n]? = some (call, .reply info) →
    Payload.Sized P s.server.heap (s.server.responses info.response)
      (s.server.responses info.response).type
  | _                    => True

-- The dispatcher has been registered, and nothing has been called.
structure Initial (service : ServiceDescriptor) (s : System) : Prop where
  client      : s.client.channel = {}
  server      : s.server.channel = {}
  manager     : ∃ addr, s.server.manager = .registerService {} ⟨addr, service⟩
  running     : s.running = []
  held        : s.held = []
  calls       : s.calls = 0
  invocations : s.invocations = 0
  log         : s.log = []

end System
end ProtoCall
