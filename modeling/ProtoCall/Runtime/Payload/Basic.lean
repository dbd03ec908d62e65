import ProtoCall.Runtime.Semantics

namespace ProtoCall

-- How the object of a payload field travels: as a VTK object of some type, or in the serialized
-- form of an external class.
inductive Carrier
  | vtk (type : String)
  | external (cls : String)
  deriving DecidableEq, Repr

def Carrier.kind : Carrier → PayloadKind
  | vtk type   => overload type
  | external _ => .voidData

def FieldDescriptor.vtk? (field : FieldDescriptor) : Option Carrier :=
  match field.type with
  | .message name => if startsWith "vtk." name then some <| .vtk <| substr name 4 else none
  | .other        => none

def FieldDescriptor.external? (field : FieldDescriptor) : Option Carrier :=
  match field.type with
  | .message name =>
    if startsWith "external." name then some <| .external <| externalTypeToClass name else none
  | .other        => none

namespace Descriptor

def vtkFields (d : Descriptor) : List (ℕ × Carrier) :=
  d.fields.zipIdx.filterMap fun (field, i) => field.vtk?.map (i, ·)

def externalFields (d : Descriptor) : List (ℕ × Carrier) :=
  d.fields.zipIdx.filterMap fun (field, i) => field.external?.map (i, ·)

-- The fields whose objects follow an envelope, in the order in which they do.
def payloadFields (d : Descriptor) : List (ℕ × Carrier) :=
  d.vtkFields ++ d.externalFields

end Descriptor

namespace Platform

-- The buffer that is filled by a serializer before it is sent.
def voidData (P : Platform) (cls : String) (content : Bytes) : Option Bytes :=
  (P.serialize cls content (P.size cls content)).map <|
    RpcVoidData.written <| RpcVoidData.new <| P.size cls content

-- What is sent for an object.
def encode (P : Platform) : Carrier → Bytes → Option PayloadItem
  | .vtk type, content     => some ⟨overload type, content⟩
  | .external cls, content => (P.voidData cls content).map (⟨.voidData, ·⟩)

-- What becomes of an object for which `bytes` are received, and whether that succeeds.
def decode (P : Platform) : Carrier → Bytes → Bytes → Bool × Bytes
  | .vtk _, bytes, _          => (true, bytes)
  | .external cls, bytes, old => P.deserialize cls bytes old

end Platform

-- What the generated code is for, one field at a time.
namespace Payload

-- A present field without an object is passed over.
def sendObject (P : Platform) (carrier : Carrier) (a : ℕ) : Command Process Exit := fun p =>
  match P.encode carrier <| p.heap.content a with
  | none      => (p.setErrorString "Serialization failed", some .ret)
  | some item =>
    let (ok, p) := p.send P (.payload item)
    (p, if ok then none else some .ret)

def sendField (P : Platform) (msg : Message) : ℕ × Carrier → Command Process Exit
  | (i, carrier) =>
    if msg.has i then (msg.holder i).object.elim .skip (sendObject P carrier) else .skip

def send (P : Platform) (msg : Message) (d : Descriptor) : Command Process Exit :=
  .block <| d.payloadFields.map <| sendField P msg

-- A process, and the message that it receives objects into.
abbrev Target := Process × Message

-- The object to receive into: the one that the field's holder has, or a new one.
def obtain (i : ℕ) (s : Target) : ℕ × Bool × Process :=
  match (s.snd.holder i).object with
  | some a => (a, false, s.fst)
  | none   => (s.fst.heap.next, true, { s.fst with heap := s.fst.heap.alloc })

def hand (i a : ℕ) (allocated : Bool) (msg : Message) : Message :=
  if allocated then msg.setHolder i (.setAllocated (some a)) else msg

def receiveVtk (P : Platform) (i : ℕ) (type : String) : Command Target Exit := fun s =>
  let (a, allocated, p) := obtain i s
  match p.receivePayload P (overload type) with
  | (none, p)       =>
    (({ p with heap := p.heap.delete a }.log (.deleteObject a), s.snd), some .ret)
  | (some bytes, p) =>
    (({ p with heap := p.heap.write a bytes }, hand i a allocated s.snd), none)

def receiveExternal (P : Platform) (i : ℕ) (cls : String) : Command Target Exit := fun s =>
  match s.fst.receivePayload P .voidData with
  | (none, p)       => ((p, s.snd), some .ret)
  | (some bytes, p) =>
    let (a, allocated, p) := obtain i (p, s.snd)
    let (ok, content) := P.deserialize cls bytes (p.heap.content a)
    let p := { p with heap := p.heap.write a content }
    if ok then
      ((p, hand i a allocated s.snd), none)
    else
      ((p.setErrorString "Deserialization failed", s.snd), some .ret)

def receiveObject (P : Platform) : ℕ × Carrier → Command Target Exit
  | (i, .vtk type)     => receiveVtk P i type
  | (i, .external cls) => receiveExternal P i cls

def receiveField (P : Platform) (x : ℕ × Carrier) : Command Target Exit := fun s =>
  if s.snd.has x.fst then receiveObject P x s else (s, none)

def receive (P : Platform) (d : Descriptor) : Command Target Exit :=
  .block <| d.payloadFields.map <| receiveField P

end Payload
end ProtoCall
