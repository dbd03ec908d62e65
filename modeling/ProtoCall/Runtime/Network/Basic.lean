import ProtoCall.Runtime.System.Correlation

namespace ProtoCall

-- A client, and what the server has for it: the channel at the other end of their connection, and
-- the closures that answer over it.
structure Network.Line where
  client      : Process := {}
  running     : List Activation := []
  channel     : RpcChannel := {}
  held        : List (ℕ × DoneClosure) := []
  calls       : ℕ := 0
  invocations : ℕ := 0
  log         : List Note := []

-- A server with a line to each of its clients. There is one service manager in a process, so
-- they share it, and they share the objects. The channel of `server` is the one it has used last.
structure Network (ι : Type*) where
  server : Process := {}
  line   : ι → Network.Line := fun _ => {}

-- The same line after the server has done something on another one.
def System.besides (server : Process) (s : System) : System :=
  { s with server := { server with channel := s.server.channel } }

namespace Network

open Transition

variable {ι : Type*}

-- A line, with all of the server that can be got at through it.
def view (n : Network ι) (i : ι) : System where
  client      := (n.line i).client
  running     := (n.line i).running
  server      := { n.server with channel := (n.line i).channel }
  held        := (n.line i).held
  calls       := (n.line i).calls
  invocations := (n.line i).invocations
  log         := (n.line i).log

def put [DecidableEq ι] (n : Network ι) (i : ι) (s : System) : Network ι where
  server := s.server
  line   := Function.update n.line i {
    client      := s.client
    running     := s.running
    channel     := s.server.channel
    held        := s.held
    calls       := s.calls
    invocations := s.invocations
    log         := s.log
  }

-- A step on one of the lines.
def next [DecidableEq ι] (P : Platform) (services : ι → ServiceDescriptor) (n : Network ι)
    (a : ι × System.Action) : Option (Network ι) :=
  ((n.view a.fst).next P (services a.fst) a.snd).map (n.put a.fst)

-- The services are registered with numbers that are all different, and nothing has been called.
structure Initial (services : ι → ServiceDescriptor) (n : Network ι) : Prop where
  line    : ∀ i, ∃ client : Process, client.channel = {} ∧ n.line i = { client }
  manager : ∃ ds : List Dispatcher, n.server.manager = ds.foldl .registerService {} ∧
    ds.Pairwise (fun d d' => d.service.ids.Disjoint d'.service.ids) ∧
    ∀ i, ∃ d ∈ ds, d.service = services i

-- What is allowed on a line is up to what can be seen through it.
def Each (allowed : ι → System → System.Action → Prop) (n : Network ι)
    (a : ι × System.Action) : Prop :=
  allowed a.fst (n.view a.fst) a.snd

section Put

variable [DecidableEq ι] {n : Network ι} {i j : ι} {s t : System}

@[simp] theorem view_put_self : (n.put i s).view i = s := by
  simp [put, view]

theorem view_put_of_ne (h : j ≠ i) : (n.put i s).view j = (n.view j).besides s.server := by
  simp [put, view, h, System.besides]

@[simp] theorem put_put : (n.put i s).put i t = n.put i t := by
  simp [put]

end Put

end Network
end ProtoCall
