import ProtoCall.Examples.Salutation
import ProtoCall.Runtime.Peer.Requests

namespace ProtoCall

-- Protobuf's `ParseFromArray`: whether it accepts the bytes, and what the message holds afterwards,
-- which can be anything if it does not.
abbrev ParseFromArray := Bytes → Bool × Envelope

-- `receive(rpc::Message *)` of a channel, where its transport has come up with `data`, or has
-- failed to.
abbrev ReceiveMessage := Option Bytes → Process → Bool × Envelope × Process

def zmqCommunicatorChannel.receive (parse : ParseFromArray) : ReceiveMessage
  | none, p      => (false, {}, p.setErrorString "Incorrect amount of data received")
  -- What `ParseFromArray` returns is not looked at.
  | some data, p => (true, (parse data).snd, p)

def vtkCommunicatorChannel.receive (parse : ParseFromArray) : ReceiveMessage
  | none, p      => (false, {}, p.setErrorString "Unable to receive message data")
  | some data, p =>
    let (ok, msg) := parse data
    if !ok then
      (false, msg, p.setErrorString "ProtoBuf Erro: Error calling ParseFromArray")
    else
      (true, msg, p)

namespace Process

-- `RpcChannel::receive(bool)`, with the overload of `receive(rpc::Message *)` that it calls.
def receiveBy (P : Platform) (receive : ReceiveMessage) (data : Option Bytes) (p : Process) :
    Process × Outcome :=
  let addr := p.next
  let p := { p with next := addr + 1 }.log (.newEnvelope addr)
  match receive data p with
  | (false, _, p)  => (p.log (.deleteEnvelope addr), .returned false)
  | (true, msg, p) => p.handleMessage P { addr, message := msg }

-- Nothing has been called, and whoever waits for a response still does.
structure Untouched (p : Process) (result : Process × Outcome) : Prop where
  failed     : ∃ q, result = (q, .returned false)
  dispatches : dispatches result.fst.trace = dispatches p.trace
  runs       : ∀ done, result.fst.runs done = p.runs done
  callbacks  : result.fst.channel.responseCallbacks = p.channel.responseCallbacks

variable {P : Platform} {p : Process} {parse : ParseFromArray} {data : Bytes}
  {envelope : EnvelopePtr}

theorem receiveBy_zmq : p.receiveBy P (zmqCommunicatorChannel.receive parse) (some data) =
    ({ p with next := p.next + 1 }.log (.newEnvelope p.next)).handleMessage P
      ⟨p.next, (parse data).snd⟩ := rfl

theorem receiveBy_vtk_of_accepts (h : (parse data).fst) :
    p.receiveBy P (vtkCommunicatorChannel.receive parse) (some data) =
      ({ p with next := p.next + 1 }.log (.newEnvelope p.next)).handleMessage P
        ⟨p.next, (parse data).snd⟩ := by
  simp [receiveBy, vtkCommunicatorChannel.receive, h]

-- An envelope on the link is the message of some bytes that either channel accepts.
theorem receive_eq_receiveBy {message : Envelope} {receive : ReceiveMessage}
    (hr : receive = zmqCommunicatorChannel.receive parse ∨
      receive = vtkCommunicatorChannel.receive parse)
    (hm : (p.channel.link.receiveMessage P).fst = some message)
    (hp : parse data = (true, message)) :
    p.receive P =
      (p.withLink (p.channel.link.receiveMessage P).snd).receiveBy P receive (some data) := by
  rw [receive_of_some hm]
  obtain rfl | rfl := hr
  case inl => rw [receiveBy_zmq, hp]; rfl
  case inr => rw [receiveBy_vtk_of_accepts (by rw [hp]), hp]; rfl

def server : Process where
  manager := .registerService {} (Salutation.dispatcher 0)

end Process
end ProtoCall
