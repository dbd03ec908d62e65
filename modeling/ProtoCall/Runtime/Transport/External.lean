import ProtoCall.Runtime.Transport.Shim
import ProtoCall.Runtime.Transport.Unfinished
import ProtoCall.Runtime.Transport.Vtk

namespace ProtoCall

open Zmq (SocketIdentity SocketType Sender VoidData)

namespace RpcVoidData

variable {numbytes : ℕ} {data bytes : Bytes}

theorem length_new : (new numbytes).length = numbytes % 2 ^ 32 := List.length_replicate

theorem length_written : (written data bytes).length = data.length := by
  rw [written, List.length_append, List.length_take, List.length_drop]
  omega

-- `RpcVoidData data(size)`, after the serializer has written to it.
def filled (numbytes : ℕ) (bytes : Bytes) : VoidData where
  bytes   := written (new numbytes) bytes
  size_lt := by
    rw [length_written, length_new]
    exact Nat.mod_lt _ (by decide)

end RpcVoidData

-- How raw data gets from one process to another: over the sockets of two zmq channels, or over the
-- communicators of two VTK channels, where nothing else is on the way.
inductive Route {C : Type} (comm : Vtk.Communicator C)
  | zmq (identities : List SocketIdentity) (sender : Sender) (type : SocketType)
  | vtk (c : C) (idle : comm.data c = [])

namespace Route

variable {C : Type} {comm : Vtk.Communicator C}

-- What the receiving socket has of a message: the identities are used up on the way.
def delivered (type : SocketType) (message : List Zmq.Frame) : List Bytes :=
  message.getLast?.elim [] fun frame =>
    (if Zmq.isNotReqRepSocket { type } then [[]] else []) ++ [frame.data]

-- What `send` returns, and what `receive` comes to on the other side, where the link does not fail.
def carry (data : VoidData) : Route comm → Bool × Option Bytes
  | zmq identities sender type =>
    let (sent, sender') := Zmq.sendVoidData .three (fun _ => none) identities data sender
    let frames := delivered type <| Zmq.added sender sender'
    (sent.isOk, (Zmq.receiveBytes .three (fun _ => []) .voidData { type, frames }).fst)
  | vtk c _ =>
    let (sent, c) := Vtk.sendVoidData comm data c
    (sent.isOk, (Vtk.receiveVoidData comm c).fst.toOption)

-- The sizes that each of them is good for.
def Carries (size : ℕ) : Route comm → Prop
  | zmq _ _ _ => 0 < size ∧ size < 2 ^ 31
  | vtk _ _   => size < 2 ^ 32

end Route

namespace Platform

variable {C : Type} {comm : Vtk.Communicator C} (P : Platform) (cls : String) (content : Bytes)
  (route : Route comm)

-- The generated code for an external object: whether all of the code that sends it is run, and what
-- its deserializer is called with.
def exchange : Bool × Option Bytes :=
  (P.serialize cls content (P.size cls content)).elim (false, none) fun bytes =>
    route.carry (RpcVoidData.filled (P.size cls content) bytes)

end Platform

namespace Route

variable {C : Type} {comm : Vtk.Communicator C} {identities : List SocketIdentity} {sender : Sender}
  {type : SocketType} {data : VoidData}

end Route

namespace Platform

variable {C : Type} {comm : Vtk.Communicator C} {P : Platform} {cls : String}
  {content bytes : Bytes} {route : Route comm}

theorem exchange_eq (h : P.serialize cls content (P.size cls content) = some bytes) :
    P.exchange cls content route = route.carry (RpcVoidData.filled (P.size cls content) bytes) := by
  rw [exchange, h]
  rfl

section Generated

open RpcGenerator Payload

variable {m : Machine} {v ch : Ident} {d : Descriptor} {i a : ℕ}

-- The code that is generated for the sender, where the link does what the route does with what is
-- sent. `sendData` is called with the buffer that has been filled.
theorem exec_sentExternalBlock (hd : d.externalFields = [(i, .external cls)])
    (hi : (m.message v).has i) (ho : ((m.message v).holder i).object = some a)
    (hc : m.process.heap.content a = content)
    (h : P.serialize cls content (P.size cls content) = some bytes)
    (hs : P.sendOk m.process.channel.link.sends =
      (route.carry <| RpcVoidData.filled (P.size cls content) bytes).fst) :
    (((generateSentExternalBlock v ch d).exec P m).snd = none ↔
      (P.exchange cls content route).fst) ∧
    ((generateSentExternalBlock v ch d).exec P m).fst.process = (m.process.send P <|
      .payload ⟨.voidData, (RpcVoidData.filled (P.size cls content) bytes).bytes⟩).snd := by
  have hx : SendsFrom m ((generateSentExternalBlock v ch d).exec P m).fst _ ∧
      ((generateSentExternalBlock v ch d).exec P m).snd = _ :=
    sentExternalBlock_simulates (.refl m)
  obtain ⟨⟨_, hp⟩, he⟩ := hx
  have hf : Command.block (d.externalFields.map <| sendField P (m.message v)) m.process =
      attempt P (some ⟨.voidData, (RpcVoidData.filled (P.size cls content) bytes).bytes⟩)
        m.process := by
    rw [hd, List.map_singleton, Command.block_cons, Command.block_nil, Command.seq_skip, sendField,
      if_pos hi, ho, Option.elim_some, sendObject_eq, hc, encode, voidData, h]
    rfl
  constructor
  case left  => rw [he, hf, attempt_snd_eq_none_iff, exchange_eq h, hs]
  case right => rw [hp, hf]; rfl

-- The code that is generated for the receiver, where `receive` comes to what it does over the route:
-- the deserializer is called with that.
theorem exec_receiveExternalBlock (hd : d.externalFields = [(i, .external cls)])
    (hv : v ∉ receiveVars) (hi : (m.message v).has i)
    (hr : (m.process.channel.link.receivePayload P .voidData).fst =
      (P.exchange cls content route).snd) :
    ((generateReceiveExternalBlock v ch d).exec P m).snd = none ↔
      ∃ bytes, (P.exchange cls content route).snd = some bytes ∧
        (P.deserialize cls bytes <| old i (m.process, m.message v)).fst := by
  have he : ((generateReceiveExternalBlock v ch d).exec P m).snd = _ :=
    (receiveExternalBlock_simulates hv <| .refl m v).right
  have hf : Command.block (d.externalFields.map <| receiveField P) (m.process, m.message v) =
      receiveObject P (i, .external cls) (m.process, m.message v) := by
    rw [hd, List.map_singleton, Command.block_cons, Command.block_nil, Command.seq_skip,
      receiveField, if_pos hi]
  rw [he, hf, ← hr]
  constructor
  case mp =>
    intro hn
    by_contra ha
    have hx : (receiveObject P (i, .external cls) (m.process, m.message v)).snd = some .ret :=
      receiveObject_of_not_accepts ha
    rw [hx] at hn
    contradiction
  case mpr =>
    rintro ⟨bytes, hb, ho⟩
    exact receiveObject_of_accepts ⟨bytes, hb, ho⟩

end Generated

-- A communicator that does not fail, without anything on it.
def quiet : Vtk.Communicator Vtk.Queue := Vtk.Queue.communicator fun _ => true

end Platform
end ProtoCall
