import ProtoCall.Library.Command
import ProtoCall.Runtime.Process

namespace ProtoCall

-- A pointer to an envelope that `RpcChannel::receive` has allocated, with what was parsed into it.
structure EnvelopePtr where
  addr    : ℕ := 0
  message : Envelope := {}
  deriving DecidableEq

structure ReplyInfo where
  methodId               : ℤ := 0
  requestMessageEnvelope : EnvelopePtr := {}
  response               : Ref := 0
  deriving DecidableEq

-- The closures that the generated dispatcher passes to the service's methods.
inductive DoneClosure
  | reply (info : ReplyInfo)
  | doNothing
  deriving DecidableEq

-- A call of a service's method. Arguments that the generated signature lacks are `none`.
structure Invocation where
  method : MethodDescriptor
  input  : Option Message
  output : Option Ref
  done   : DoneClosure

-- How a generated body is left. The code of others is only ever called at the end of one, and a
-- failing check of protobuf's aborts the process.
inductive Exit
  | ret
  | invoke (invocation : Invocation)
  | run (done : Closure)
  | abort

-- The arguments of the generated functions that are not messages.
structure Arguments where
  methodId    : ℤ := 0
  envelope    : EnvelopePtr := {}
  info        : ReplyInfo := {}
  output      : Option Ref := none
  done        : Closure := 0
  errorCode   : Int32 := 0
  errorString : String := ""

-- Local variables that hold something else than a message or an envelope.
structure Scratch where
  object  : Ident → Option ℕ := fun _ => none
  flag    : Ident → Bool := fun _ => false
  codec   : Ident → String × Option ℕ := fun _ => ("", none)
  size    : Ident → ℕ := fun _ => 0
  data    : Ident → Bytes := fun _ => []
  id      : Ident → UInt64 := fun _ => 0
  handler : Ident → Option Handler := fun _ => none

-- The state of a running body. Pointers to messages are identifiers: `root` leads from one that has
-- been cast from another to the one that the message was passed or created under.
structure Machine where
  process  : Process
  args     : Arguments
  messages : Ident → Message
  root     : Ident → Ident := id
  scratch  : Scratch := {}
  msg      : Envelope := {}
  info     : ReplyInfo := {}
  out      : Ref := 0
  reply    : DoneClosure := .doNothing
  autoPtr  : Option EnvelopePtr := none

namespace Machine

def message (m : Machine) (x : Ident) : Message := m.messages (m.root x)

def setMessage (m : Machine) (x : Ident) (message : Message) : Machine :=
  { m with messages := Function.update m.messages (m.root x) message }

def setObject (m : Machine) (x : Ident) (a : Option ℕ) : Machine :=
  { m with scratch := { m.scratch with object := Function.update m.scratch.object x a } }

def putFlag (m : Machine) (x : Ident) (b : Bool) : Machine :=
  { m with scratch := { m.scratch with flag := Function.update m.scratch.flag x b } }

def setCodec (m : Machine) (x : Ident) (c : String × Option ℕ) : Machine :=
  { m with scratch := { m.scratch with codec := Function.update m.scratch.codec x c } }

def setSize (m : Machine) (x : Ident) (n : ℕ) : Machine :=
  { m with scratch := { m.scratch with size := Function.update m.scratch.size x n } }

def setData (m : Machine) (x : Ident) (bytes : Bytes) : Machine :=
  { m with scratch := { m.scratch with data := Function.update m.scratch.data x bytes } }

def setId (m : Machine) (x : Ident) (id : UInt64) : Machine :=
  { m with scratch := { m.scratch with id := Function.update m.scratch.id x id } }

def setHandler (m : Machine) (x : Ident) (h : Handler) : Machine :=
  { m with scratch := { m.scratch with handler := Function.update m.scratch.handler x (some h) } }

def updateProcess (m : Machine) (f : Process → Process) : Machine :=
  { m with process := f m.process }

def updateRequest (m : Machine) (f : Request → Request) : Machine :=
  { m with msg.request := some <| f <| m.msg.request.getD {} }

def updateResponse (m : Machine) (f : Response → Response) : Machine :=
  { m with msg.response := some <| f <| m.msg.response.getD {} }

-- The content of the object that an object pointer points to.
def content (m : Machine) (a : Option ℕ) : Bytes :=
  a.elim [] m.process.heap.content

end Machine

-- The types of vtk.proto that are listed there as data arrays.
def vtkDataArrays : List String := [
  "vtkBitArray", "vtkCharArray", "vtkDoubleArray", "vtkFloatArray", "vtkIdTypeArray", "vtkIntArray",
  "vtkLongArray", "vtkLongLongArray", "vtkShortArray", "vtkSignedCharArray", "vtkUnsignedCharArray",
  "vtkUnsignedIntArray", "vtkUnsignedLongArray", "vtkUnsignedLongLongArray", "vtkUnsignedShortArray"
]

-- The overload of `send` and `receive` that is chosen for a pointer to a `vtkType`.
def overload (vtkType : String) : PayloadKind :=
  if vtkType ∈ vtkDataArrays then .vtkDataArray else .vtkDataObject

def Call.eval (P : Platform) (m : Machine) : Call → Bool × Machine
  | .sendMessage _ _ =>
    let (ok, p) := m.process.send P (.envelope m.msg)
    (ok, { m with process := p })
  | .sendObject _ obj vtkType =>
    let item := .payload ⟨overload vtkType, m.content (m.scratch.object obj)⟩
    let (ok, p) := m.process.send P item
    (ok, { m with process := p })
  | .sendData _ data =>
    let (ok, p) := m.process.send P (.payload ⟨.voidData, m.scratch.data data⟩)
    (ok, { m with process := p })
  | .receiveObject _ obj vtkType =>
    match m.process.receivePayload P (overload vtkType) with
    | (none, p)       => (false, { m with process := p })
    | (some bytes, p) =>
      let heap := (m.scratch.object obj).elim p.heap (p.heap.write · bytes)
      (true, { m with process := { p with heap } })
  | .receiveData _ data =>
    match m.process.receivePayload P .voidData with
    | (none, p)       => (false, { m with process := p })
    | (some bytes, p) => (true, { m with process := p }.setData data bytes)
  | .serialize serializer data size =>
    let (type, obj) := m.scratch.codec serializer
    match P.serialize type (m.content obj) (m.scratch.size size) with
    | none       => (false, m)
    | some bytes => (true, m.setData data <| RpcVoidData.written (m.scratch.data data) bytes)
  | .deserialize deserializer data =>
    let (type, obj) := m.scratch.codec deserializer
    let (ok, content) := P.deserialize type (m.scratch.data data) (m.content obj)
    let heap := obj.elim m.process.heap (m.process.heap.write · content)
    (ok, { m with process := { m.process with heap } })

open Command in
def Stmt.exec (P : Platform) : Stmt → Command Machine Exit
  | skip => Command.skip
  | seq s t => Command.seq (s.exec P) (t.exec P)
  | ifHas msg i _ body => fun m => if (m.message msg).has i then body.exec P m else (m, none)
  | ifObject obj body => fun m => if (m.scratch.object obj).isSome then body.exec P m else (m, none)
  | ifNull obj body => fun m => if (m.scratch.object obj).isNone then body.exec P m else (m, none)
  | ifFlag flag body => fun m => if m.scratch.flag flag then body.exec P m else (m, none)
  | ifError msg body => fun m => if (m.message msg).error.hasError then body.exec P m else (m, none)
  | check call block => fun m =>
    let (ok, m) := call.eval P m
    if ok then (m, none) else block.exec P m
  | ret => fun m => (m, some .ret)
  | setErrorString _ text => fun m => (m.updateProcess (·.setErrorString text), none)
  -- A pointer into a string literal: behind its end there is nothing to point to.
  | setErrorStringAt _ text n => fun m =>
    let n := if n = .member "info" "methodId" then m.args.info.methodId else m.args.methodId
    if 0 ≤ n ∧ n ≤ text.length then
      (m.updateProcess (·.setErrorString <| substr text n.toNat), none)
    else
      (m, some .abort)
  | cast _ x y => fun m => ({ m with root := Function.update m.root x (m.root y) }, none)
  | declObject _ obj msg i _ => fun m => (m.setObject obj ((m.message msg).holder i).object, none)
  | declFlag flag => fun m => (m.putFlag flag false, none)
  | setFlag flag => fun m => (m.putFlag flag true, none)
  | newObject obj _ => fun m =>
    let a := m.process.heap.next
    (m.updateProcess (fun p => { p with heap := p.heap.alloc }) |>.setObject obj (some a), none)
  | deleteObject obj => fun m =>
    (m.updateProcess fun p => (m.scratch.object obj).elim p fun a =>
      { p with heap := p.heap.delete a }.log (.deleteObject a), none)
  | setAllocated msg i _ obj => fun m =>
    (m.setMessage msg <| (m.message msg).setHolder i (.setAllocated (m.scratch.object obj)), none)
  | declSerializer type x obj => fun m => (m.setCodec x (type, m.scratch.object obj), none)
  | declSize size serializer => fun m =>
    let (type, obj) := m.scratch.codec serializer
    (m.setSize size <| P.size type (m.content obj), none)
  | declData data size => fun m =>
    (m.setData data <| size.elim [] fun size => RpcVoidData.new (m.scratch.size size), none)
  | declDeserializer type x obj => fun m => (m.setCodec x (type, m.scratch.object obj), none)
  | declMessage _ => fun m => ({ m with msg := {} }, none)
  | mutableRequest _ _ => fun m => (m.updateRequest id, none)
  | mutableResponse _ _ => fun m => (m.updateResponse id, none)
  | nextRequestId x => fun m =>
    let (id, channel) := m.process.channel.nextRequestId
    (m.updateProcess (fun p => { p with channel }) |>.setId x id, none)
  | requestIdOf x _ => fun m =>
    let request := m.args.info.requestMessageEnvelope.message.request.getD {}
    (m.setId x request.idValue.toUInt64, none)
  | setRequestId _ x => fun m =>
    (m.updateRequest ({ · with id := some (m.scratch.id x).toInt64 }), none)
  | setResponseId _ x => fun m =>
    (m.updateResponse ({ · with id := some (m.scratch.id x).toInt64 }), none)
  | newHandler x service => fun m =>
    let addr := m.process.next
    let p := { m.process with next := addr + 1 }.log (.newHandler addr)
    ({ m with process := p }.setHandler x ⟨addr, service⟩, none)
  | registerResponseCallback id _ handler _ => fun m =>
    match m.scratch.handler handler with
    | none         => (m, some .abort)
    | some handler =>
      let channel := m.process.channel.registerResponseCallback (m.scratch.id id) m.args.output
        handler m.args.done
      (m.updateProcess fun p => { p with channel }.log (.register m.args.done), none)
  | mutableExtension type _ _ _ number => fun m =>
    (m.updateRequest ({ · with extensions := [(number, ⟨type, []⟩)] }), none)
  | copyToExtension _ input => fun m =>
    let content := (m.message input).toContent
    (m.updateRequest fun r =>
      { r with extensions := r.extensions.map fun (number, _) => (number, content) }, none)
  -- Of protobuf's `CopyFrom`: a message of another type fails a check, and so does `NULL`.
  | copyFrom target incoming => fun m =>
    let content := (m.message incoming).toContent
    if m.args.output.isSome ∧ (m.message target).type = content.type then
      (m.setMessage target <| (m.message target).copyFrom content, none)
    else
      (m, some .abort)
  | newMessage _ type => fun m =>
    let out := m.process.next
    let responses := Function.update m.process.responses out (.new type)
    ({ m with process := { m.process with next := out + 1, responses }, out }, none)
  | declInfo _ => fun m => ({ m with info := {} }, none)
  | setInfoMethodId _ methodId => fun m => ({ m with info.methodId := methodId }, none)
  | setInfoEnvelope _ _ => fun m =>
    ({ m with info.requestMessageEnvelope := m.args.envelope }, none)
  | setInfoResponse _ _ => fun m => ({ m with info.response := m.out }, none)
  | setInfoChannel _ _ => Command.skip
  | newReplyCallback _ _ _ => fun m => ({ m with reply := .reply m.info }, none)
  | newDoNothing _ => fun m => ({ m with reply := .doNothing }, none)
  | invoke _ method input output _ => fun m =>
    (m, some <| .invoke {
      method
      input  := input.map m.message
      output := output.map fun _ => m.out
      done   := m.reply
    })
  | setResponseErrorString _ msg => fun m =>
    (m.updateResponse ({ · with errorString := some (m.message msg).error.errorString }), none)
  | setResponseErrorCode _ msg => fun m =>
    (m.updateResponse ({ · with errorCode := some (m.message msg).error.errorCode }), none)
  | setAllocatedExtension _ _ number msg => fun m =>
    (m.updateResponse ({ · with extensions := [(number, (m.message msg).toContent)] }), none)
  | declAutoPtr _ => fun m => ({ m with autoPtr := none }, none)
  | resetAutoPtr _ _ => fun m =>
    ({ m with autoPtr := some m.args.info.requestMessageEnvelope }, none)
  | setErrorCode msg _ => fun m =>
    (m.setMessage msg { m.message msg with error.errorCode := m.args.errorCode }, none)
  | setErrorText msg _ => fun m =>
    (m.setMessage msg { m.message msg with error.errorString := m.args.errorString }, none)
  | run _ => fun m => (m, some <| .run m.args.done)

-- The end of the scope that an `auto_ptr` lives in.
def Machine.leave (m : Machine) : Process :=
  m.autoPtr.elim m.process fun envelope => m.process.log (.deleteEnvelope envelope.addr)

end ProtoCall
