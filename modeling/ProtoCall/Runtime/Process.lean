import ProtoCall.Plugin.Generator
import ProtoCall.Runtime.Message
import ProtoCall.Runtime.ServiceManager.Basic

namespace ProtoCall

-- What the runtime and the generated code call without being given its source: the transport below
-- the virtual `send` and `receive`, by the outcome of the n-th attempt, and the (de)serializers of
-- the external types, by class.
structure Platform where
  sendOk      : ℕ → Bool
  receiveOk   : ℕ → Bool
  -- `Serializer::size()`
  size        : String → Bytes → ℕ
  -- `Serializer::serialize(data, size)`: what it writes at `data`, unless it returns false
  serialize   : String → Bytes → ℕ → Option Bytes
  -- `Deserializer::deserialize(data, size)`, with the content that it turns the old one into
  deserialize : String → Bytes → Bytes → Bool × Bytes

-- The link takes and gives what it is asked to, and no (de)serializer fails.
structure Platform.Reliable (P : Platform) : Prop where
  sendOk      : ∀ n, P.sendOk n
  receiveOk   : ∀ n, P.receiveOk n
  serialize   : ∀ cls content, (P.serialize cls content <| P.size cls content).isSome
  deserialize : ∀ cls bytes old, (P.deserialize cls bytes old).fst

namespace RpcVoidData

-- `RpcVoidData(unsigned int numbytes)`: the number of bytes is cut to 32 bits.
def new (numbytes : ℕ) : Bytes := List.replicate (numbytes % 2 ^ 32) 0

-- What a buffer holds after `bytes` have been written to its start. Bytes behind its end are lost.
def written (data bytes : Bytes) : Bytes :=
  bytes.take data.length ++ data.drop bytes.length

end RpcVoidData

-- A pointer to an object of the application: a `done` closure, a response message.
abbrev Closure := ℕ

abbrev Ref := ℕ

-- A `ResponseHandler`. It is of the class that has been generated for `service`.
structure Handler where
  addr    : ℕ
  service : ServiceDescriptor
  deriving DecidableEq

structure ResponseCallbackEntry where
  done     : Closure
  response : Option Ref
  handler  : Handler
  deriving DecidableEq

abbrev CallBackMap := Finmap fun _ : UInt64 => ResponseCallbackEntry

-- This end of the connection: what can be received, what has been sent, how often either has been
-- tried, and the payload kinds that have been asked for.
structure Link where
  incoming : List Item := []
  outgoing : List Item := []
  sends    : ℕ := 0
  receives : ℕ := 0
  reads    : List PayloadKind := []

namespace Link

def send (P : Platform) (l : Link) (item : Item) : Bool × Link :=
  if P.sendOk l.sends then
    (true, { l with outgoing := l.outgoing ++ [item], sends := l.sends + 1 })
  else
    (false, { l with sends := l.sends + 1 })

-- Reading a payload item. One of another kind is not taken.
def receivePayload (P : Platform) (l : Link) (kind : PayloadKind) : Option Bytes × Link :=
  let l' := { l with receives := l.receives + 1, reads := l.reads ++ [kind] }
  if P.receiveOk l.receives then
    match l.incoming with
    | .payload p :: rest =>
      if p.kind = kind then (some p.bytes, { l' with incoming := rest }) else (none, l')
    | _ => (none, l')
  else
    (none, l')

-- `receive(rpc::Message *)`. A payload item is taken for an envelope that does not parse.
def receiveMessage (P : Platform) (l : Link) : Option Envelope × Link :=
  let l' := { l with receives := l.receives + 1 }
  if P.receiveOk l.receives then
    match l.incoming with
    | .envelope e :: rest => (some e, { l' with incoming := rest })
    | .payload _ :: rest  => (none, { l' with incoming := rest })
    | []                  => (none, l')
  else
    (none, l')

end Link

structure RpcChannel where
  currentRequestId  : UInt64 := 0
  responseCallbacks : CallBackMap := ∅
  errorString       : String := ""
  link              : Link := {}

namespace RpcChannel

def nextRequestId (ch : RpcChannel) : UInt64 × RpcChannel :=
  (ch.currentRequestId, { ch with currentRequestId := ch.currentRequestId + 1 })

def registerResponseCallback (ch : RpcChannel) (requestId : UInt64) (response : Option Ref)
    (handler : Handler) (done : Closure) : RpcChannel :=
  let entry := { response, done, handler }
  { ch with responseCallbacks := StdMap.insertNew ch.responseCallbacks requestId entry }

def setErrorString (ch : RpcChannel) (errorString : String) : RpcChannel :=
  { ch with errorString }

def extractDataFieldLoop : Option DataField → List DataField → Option DataField
  | descriptor, [] => descriptor
  | _, it :: fields => if it.isExtension then some it else extractDataFieldLoop (some it) fields

-- The loop over `ListFields`. It keeps its last candidate if there is no extension.
def extractDataField (fields : List DataField) : Option DataField :=
  extractDataFieldLoop none fields

end RpcChannel

-- A `ServiceDispatcher`. It is of the class that has been generated for `service`.
structure Dispatcher where
  addr    : ℕ
  service : ServiceDescriptor
  deriving DecidableEq

instance : ServiceDispatcher Dispatcher where
  implements d := RpcGenerator.generateImplementsMethod d.service

inductive Event
  | newEnvelope (addr : ℕ)
  | deleteEnvelope (addr : ℕ)
  | newHandler (addr : ℕ)
  | deleteHandler (addr : ℕ)
  | deleteObject (addr : ℕ)
  -- `done` has been passed to `registerResponseCallback`
  | register (done : Closure)
  -- the pending entry with this handler has been erased
  | erase (handler : ℕ)
  -- `done` has been run
  | run (done : Closure)
  -- `dispatch(methodId, ..)` has been called
  | dispatch (dispatcher : Dispatcher) (methodId : ℤ)
  deriving DecidableEq

-- A process with one channel. The runtime allocates its own objects (envelopes, handlers, the
-- response messages of the server) from `next` on.
structure Process where
  channel   : RpcChannel := {}
  manager   : ServiceManager Dispatcher := {}
  heap      : Heap := .empty
  responses : Ref → Message := fun _ => .new ⟨"", []⟩
  next      : ℕ := 0
  trace     : List Event := []

namespace Process

def log (p : Process) (e : Event) : Process :=
  { p with trace := p.trace ++ [e] }

def setErrorString (p : Process) (text : String) : Process :=
  { p with channel := p.channel.setErrorString text }

def withLink (p : Process) (l : Link) : Process :=
  { p with channel := { p.channel with link := l } }

def send (P : Platform) (p : Process) (item : Item) : Bool × Process :=
  let (ok, l) := p.channel.link.send P item
  (ok, p.withLink l)

def receivePayload (P : Platform) (p : Process) (kind : PayloadKind) : Option Bytes × Process :=
  let (bytes, l) := p.channel.link.receivePayload P kind
  (bytes, p.withLink l)

def receiveMessage (P : Platform) (p : Process) : Option Envelope × Process :=
  let (e, l) := p.channel.link.receiveMessage P
  (e, p.withLink l)

end Process
end ProtoCall
