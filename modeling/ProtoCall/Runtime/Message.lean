import Mathlib.Data.Finmap
import Mathlib.Logic.Function.Basic
import ProtoCall.Plugin.Descriptor

namespace ProtoCall

abbrev Bytes := List UInt8

-- The VTK and external objects of a process, by address, with their content. Nothing lives at an
-- address that the allocator has not handed out yet. Where a pointer can be `NULL` that is `none`.
structure Heap where
  objects : ℕ → Option Bytes
  next    : ℕ
  fresh   : ∀ a, next ≤ a → objects a = none

namespace Heap

def empty : Heap where
  objects _ := none
  next      := 0
  fresh _ _ := rfl

-- `new T()`: the object is there, and has no content yet.
def alloc (h : Heap) : Heap where
  objects   := Function.update h.objects h.next (some [])
  next      := h.next + 1
  fresh a l := by rw [Function.update_of_ne (by omega), h.fresh a (by omega)]

-- Writing to an object that does not exist changes nothing.
def write (h : Heap) (a : ℕ) (bytes : Bytes) : Heap where
  objects   := Function.update h.objects a ((h.objects a).map fun _ => bytes)
  next      := h.next
  fresh b l := by
    by_cases hb : b = a
    case pos => simp [hb, h.fresh a (hb ▸ l)]
    case neg => rw [Function.update_of_ne hb, h.fresh b l]

def delete (h : Heap) (a : ℕ) : Heap where
  objects   := Function.update h.objects a none
  next      := h.next
  fresh b l := by
    by_cases hb : b = a
    case pos => simp [hb]
    case neg => rw [Function.update_of_ne hb, h.fresh b l]

def content (h : Heap) (a : ℕ) : Bytes := (h.objects a).getD []

variable {h : Heap} {a b : ℕ} {bytes : Bytes}

theorem alloc_objects_self : h.alloc.objects h.next = some [] := by
  simp [alloc]

theorem alloc_objects_of_ne (n : a ≠ h.next) : h.alloc.objects a = h.objects a := by
  simp [alloc, n]

theorem write_objects_self (s : (h.objects a).isSome) :
    (h.write a bytes).objects a = some bytes := by
  obtain ⟨_, s⟩ := Option.isSome_iff_exists.mp s
  simp [write, s]

theorem write_objects_of_ne (n : b ≠ a) : (h.write a bytes).objects b = h.objects b := by
  simp [write, n]

theorem write_isSome : ((h.write a bytes).objects b).isSome = (h.objects b).isSome := by
  by_cases hb : b = a
  case pos => simp [write, hb]
  case neg => rw [write_objects_of_ne hb]

theorem lt_next_of_isSome (s : (h.objects a).isSome) : a < h.next := by
  by_contra hl
  simp [h.fresh a (Nat.le_of_not_lt hl)] at s

end Heap

-- The object holder that the plugin inserts into the wrapper messages.
structure Holder where
  object : Option ℕ := none
  owns   : Bool := false
  deriving DecidableEq, Repr

namespace Holder

def setAllocated (object : Option ℕ) : Holder where
  object
  owns := true

end Holder

-- The error holder that the plugin inserts into the response messages.
structure ErrorHolder where
  errorCode   : Int32 := 0
  errorString : String := ""
  deriving DecidableEq

def ErrorHolder.hasError (e : ErrorHolder) : Bool :=
  e.errorCode ≠ 0 || e.errorString.length ≠ 0

theorem ErrorHolder.eq_default_of_hasError {e : ErrorHolder} (h : e.hasError = false) : e = {} := by
  obtain ⟨errorCode, errorString⟩ := e
  simp_all [hasError]

structure FieldContent where
  has  : Bool := false
  data : Bytes := []
  deriving DecidableEq, Repr, Inhabited

-- What protobuf serializes of a message. The holders are not part of it.
structure Content where
  type   : Descriptor
  fields : List FieldContent := []
  deriving DecidableEq, Repr

namespace Content

def field (c : Content) (i : ℕ) : FieldContent := c.fields.getD i default

def has (c : Content) (i : ℕ) : Bool := (c.field i).has

end Content

-- A message object. The holder of a field is the one inside the field's wrapper message.
structure Message extends Content where
  holder : ℕ → Holder := fun _ => {}
  error  : ErrorHolder := {}

namespace Message

def new (type : Descriptor) : Message where
  type := type

-- A message that protobuf has just parsed.
def parsed (c : Content) : Message where
  toContent := c

-- `CopyFrom` a message of the same type: neither holders nor errors are copied.
def copyFrom (m : Message) (c : Content) : Message :=
  { m with toContent := c }

def setHolder (m : Message) (i : ℕ) (holder : Holder) : Message :=
  { m with holder := Function.update m.holder i holder }

@[simp]
theorem parsed_toContent {c : Content} : (parsed c).toContent = c := rfl

@[simp]
theorem setHolder_holder_self {m : Message} {i : ℕ} {holder : Holder} :
    (m.setHolder i holder).holder i = holder := by
  simp [setHolder]

theorem setHolder_holder_of_ne {m : Message} {i j : ℕ} {holder : Holder} (h : j ≠ i) :
    (m.setHolder i holder).holder j = m.holder j := by
  simp [setHolder, h]

end Message

-- `rpc.Request` and `rpc.Response`, with the extensions that are set in increasing order of their
-- numbers. All other known numbers are smaller than theirs.
structure Request where
  id         : Option Int64 := none
  extensions : List (ℤ × Content) := []
  deriving DecidableEq

structure Response where
  id          : Option Int64 := none
  errorCode   : Option Int32 := none
  errorString : Option String := none
  extensions  : List (ℤ × Content) := []
  deriving DecidableEq

-- `rpc.Message`
structure Envelope where
  request  : Option Request := none
  response : Option Response := none
  deriving DecidableEq

-- A `FieldDescriptor` of `rpc.Request` or `rpc.Response`, by its number.
inductive DataField
  | field (number : ℤ)
  | extension (number : ℤ)
  deriving DecidableEq, Repr

def DataField.isExtension : DataField → Bool
  | field _     => false
  | extension _ => true

def DataField.number : DataField → ℤ
  | field n | extension n => n

namespace Request

def idValue (r : Request) : Int64 := r.id.getD 0

def listFields (r : Request) : List DataField :=
  (if r.id.isSome then [.field 1] else []) ++ r.extensions.map (.extension ·.fst)

end Request

namespace Response

def idValue (r : Response) : Int64 := r.id.getD 0

def listFields (r : Response) : List DataField :=
  (if r.id.isSome then [.field 1] else []) ++
    (if r.errorCode.isSome then [.field 2] else []) ++
    (if r.errorString.isSome then [.field 3] else []) ++ r.extensions.map (.extension ·.fst)

end Response

-- What one payload transfer carries: the two overloads for VTK types, and raw data.
inductive PayloadKind
  | vtkDataObject
  | vtkDataArray
  | voidData
  deriving DecidableEq, Repr

structure PayloadItem where
  kind  : PayloadKind
  bytes : Bytes
  deriving DecidableEq, Repr

inductive Item
  | envelope (e : Envelope)
  | payload (p : PayloadItem)
  deriving DecidableEq

end ProtoCall
