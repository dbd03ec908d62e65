import ProtoCall.Runtime.Duplex.Frames
import ProtoCall.Runtime.Network.Isolation

namespace ProtoCall

-- A process at one end of a connection, which calls the service at the other end and has one of its
-- own: the callbacks of its calls that have not returned, the closures that its service has yet to
-- run, and what has become of its calls.
structure Duplex.End where
  process     : Process := {}
  running     : List Activation := []
  held        : List (ℕ × DoneClosure) := []
  calls       : ℕ := 0
  invocations : ℕ := 0
  log         : List Note := []

structure Duplex where
  ends : Bool → Duplex.End

namespace Duplex

open Transition

inductive Action
  | call (method : MethodDescriptor) (input : Option Message) (output : Option Ref)
  -- `receive` is called, be it a request or a response that comes in.
  | receive
  -- The service runs one of its closures.
  | reply (n : ℕ)
  -- The innermost callback returns.
  | resume
  -- The application works on its own objects.
  | work (p : Process)

-- The calls of one end, with the other end as their server.
def view (d : Duplex) (b : Bool) : System where
  client      := (d.ends b).process
  running     := (d.ends b).running
  server      := (d.ends !b).process
  held        := (d.ends !b).held
  calls       := (d.ends b).calls
  invocations := (d.ends !b).invocations
  log         := (d.ends b).log

def put (d : Duplex) (b : Bool) (s : System) : Duplex where
  ends c :=
    if c = b then
      { d.ends b with process := s.client, running := s.running, calls := s.calls, log := s.log }
    else
      { d.ends !b with process := s.server, held := s.held, invocations := s.invocations }

-- What is received decides which of the two ends has called the other.
def receive (P : Platform) (b : Bool) (d : Duplex) : Option Duplex :=
  match ((d.ends b).process.receive P).snd with
  | .invoked _ => ((d.view !b).serve P).map (d.put !b)
  | _          => ((d.view b).receive P).map (d.put b)

-- The service that end `b` calls is `services b`.
def next (P : Platform) (services : Bool → ServiceDescriptor) (d : Duplex) :
    Bool × Action → Option Duplex
  | (b, .call method input output) =>
    some <| d.put b <| (d.view b).call P (services b) method input output
  | (b, .receive)                  => d.receive P b
  | (b, .reply n)                  => ((d.view !b).reply P (services !b) n).map (d.put !b)
  | (b, .resume)                   => (d.view b).resume.map (d.put b)
  | (b, .work p)                   => some <| d.put b { d.view b with client := p }

def Allowed (P : Platform) (services : Bool → ServiceDescriptor) (d : Duplex) : Bool × Action → Prop
  | (b, .call method input output) => (d.view b).Proper P (services b) (.call method input output)
  | (b, .reply n)                  => (d.view !b).Proper P (services !b) (.reply n)
  | (b, .work p)                   => System.Works True (d.ends b).process p
  | _                              => True

-- Each end has registered the service that the other one calls, and nothing has been called.
structure Initial (services : Bool → ServiceDescriptor) (d : Duplex) : Prop where
  channel     : ∀ b, (d.ends b).process.channel = {}
  manager     : ∀ b, ∃ addr,
    (d.ends b).process.manager = .registerService {} ⟨addr, services !b⟩
  running     : ∀ b, (d.ends b).running = []
  held        : ∀ b, (d.ends b).held = []
  calls       : ∀ b, (d.ends b).calls = 0
  invocations : ∀ b, (d.ends b).invocations = 0
  log         : ∀ b, (d.ends b).log = []

section Put

variable {d : Duplex} {b c : Bool} {s : System}

@[simp] theorem view_put_self : (d.put b s).view b = s := by
  simp [put, view]

-- What the other end finds of it.
theorem view_put_not : (d.put b s).view (!b) =
    { d.view !b with client := s.server, server := s.client } := by
  simp [put, view]

end Put

end Duplex
end ProtoCall
