import ProtoCall.Runtime.Semantics

namespace ProtoCall

-- A `handleResponse` whose `callback->Run()` has been reached.
structure Activation where
  id       : UInt64
  entry    : ResponseCallbackEntry
  envelope : EnvelopePtr
  deriving DecidableEq

-- What `receive` comes to: it returns, or it reaches the code of the application. After a service's
-- method it returns true, after a callback it goes on with `resume`.
inductive Outcome
  | returned (rc : Bool)
  | invoked (invocation : Invocation)
  | callback (activation : Activation)
  | aborted

namespace Process

open RpcGenerator RpcChannel

-- The generated code is entered at four places. They are opaque to proofs, but for what is proved of
-- their bodies.

-- A call of a method of the generated proxy.
@[irreducible]
def proxyCall (P : Platform) (service : ServiceDescriptor) (method : MethodDescriptor)
    (input : Option Message) (output : Option Ref) (done : Closure) (p : Process) :
    Process × Option Exit :=
  let m : Machine := {
    process  := p
    args     := { output, done }
    messages := fun _ => input.getD <| .new method.inputType
  }
  let (m, exit) := (generateServiceProxyMethod service method).exec P m
  (m.process, exit)

-- `dispatch` of the generated dispatcher.
@[irreducible]
def dispatch (P : Platform) (dispatcher : Dispatcher) (methodId : ℤ) (envelope : EnvelopePtr)
    (request : Message) (p : Process) : Process × Option Exit :=
  let m : Machine := {
    process  := p.log (.dispatch dispatcher methodId)
    args     := { methodId, envelope }
    messages := fun _ => request
  }
  let (m, exit) := (generateDispatchMethodBody dispatcher.service |>.select methodId).exec P m
  (m.process, exit)

-- `reply` of the generated dispatcher.
@[irreducible]
def reply (P : Platform) (service : ServiceDescriptor) (info : ReplyInfo) (p : Process) :
    Process × Option Exit :=
  let m : Machine := {
    process  := p
    args     := { info }
    messages := fun _ => p.responses info.response
  }
  let (m, exit) := (generateRelyMethod service |>.select info.methodId).exec P m
  (m.leave, exit)

-- `handle` of the generated response handler.
@[irreducible]
def handle (P : Platform) (handler : Handler) (methodId : ℤ) (incomingResponse : Message)
    (targetResponse : Option Ref) (errorCode : Int32) (errorString : String) (callback : Closure)
    (p : Process) : Process × Option Exit :=
  let m : Machine := {
    process  := p
    args     := { methodId, output := targetResponse, errorCode, errorString, done := callback }
    messages := fun x => if x = "incomingResponse" then incomingResponse else
      targetResponse.elim (.new ⟨"", []⟩) p.responses
  }
  let (m, exit) := (generateResponseHandlerCpp handler.service |>.select methodId).exec P m
  let responses := targetResponse.elim m.process.responses fun r =>
    Function.update m.process.responses r <| m.messages "targetResponse"
  ({ m.process with responses }, exit)

def handleRequest (P : Platform) (envelope : EnvelopePtr) (p : Process) : Process × Outcome :=
  let request := envelope.message.request.getD {}
  match extractDataField request.listFields with
  | none => (p.setErrorString "Unable to extract data field from message", .returned false)
  | some descriptor =>
    let methodId := descriptor.number
    let (dispatcher, manager) := p.manager.lookupServiceDispatcher methodId
    let p := { p with manager }
    match dispatcher with
    | none =>
      (p.setErrorString s!"Can't load dispatcher for methodId: {methodId}", .returned false)
    | some dispatcher =>
      -- `MutableMessage` of a field that is not a message fails a check.
      match (if descriptor.isExtension then request.extensions.lookup methodId else none) with
      | none    => (p, .aborted)
      | some content =>
        match p.dispatch P dispatcher methodId envelope (.parsed content) with
        | (p, some (.invoke invocation)) => (p, .invoked invocation)
        | (p, some .abort)               => (p, .aborted)
        | (p, _)                         => (p, .returned true)

-- What `handleResponse` does after `handle`, with the iterator that it has found the entry by.
def finish (a : Activation) (p : Process) : Process :=
  let responseCallbacks := p.channel.responseCallbacks.erase a.id
  { p with channel.responseCallbacks := responseCallbacks }
    |>.log (.erase a.entry.handler.addr)
    |>.log (.deleteHandler a.entry.handler.addr)
    |>.log (.deleteEnvelope a.envelope.addr)

-- A callback returns. If its entry has been erased in the meantime, the iterator dangles and the
-- handler is deleted again: that is undefined, and nothing is said of a process that gets there.
def resume (a : Activation) (p : Process) : Option Process :=
  if p.channel.responseCallbacks.lookup a.id = some a.entry then some (p.finish a) else none

theorem resume_eq_some_iff {a : Activation} {p q : Process} : p.resume a = some q ↔
    p.channel.responseCallbacks.lookup a.id = some a.entry ∧ p.finish a = q := by
  simp [resume]

def handleResponse (P : Platform) (envelope : EnvelopePtr) (p : Process) : Process × Outcome :=
  let response := envelope.message.response.getD {}
  let id := response.idValue.toUInt64
  match p.channel.responseCallbacks.lookup id with
  | none =>
    (p.setErrorString s!"Received unexpected response with id: {response.idValue}",
      .returned false)
  | some entry =>
    match extractDataField response.listFields with
    | none => (p.setErrorString "Unable to extract data field", .returned false)
    | some descriptor =>
      match (if descriptor.isExtension then response.extensions.lookup descriptor.number
        else none) with
      | none      => (p, .aborted)
      | some data =>
        let errorCode := response.errorCode.getD 0
        let errorString := response.errorString.getD ""
        let a : Activation := { id, entry, envelope }
        match p.handle P entry.handler descriptor.number (.parsed data) entry.response errorCode
          errorString entry.done with
        | (p, some (.run done)) => (p.log (.run done), .callback a)
        | (p, some .abort)      => (p, .aborted)
        | (p, _)                => (p.finish a, .returned true)

def handleMessage (P : Platform) (envelope : EnvelopePtr) (p : Process) : Process × Outcome :=
  if envelope.message.request.isSome then
    p.handleRequest P envelope
  else if envelope.message.response.isSome then
    p.handleResponse P envelope
  else
    (p.setErrorString "Invalid message format", .returned false)

-- `RpcChannel::receive(bool)`
def receive (P : Platform) (p : Process) : Process × Outcome :=
  let addr := p.next
  let p := { p with next := addr + 1 }.log (.newEnvelope addr)
  match p.receiveMessage P with
  | (none, p)         => (p.log (.deleteEnvelope addr), .returned false)
  | (some message, p) => p.handleMessage P { addr, message }

end Process
end ProtoCall
