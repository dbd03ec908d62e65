import Mathlib.Data.List.DropRight
import Mathlib.Data.List.Nodup
import ProtoCall.Plugin.Utilities

namespace ProtoCall

-- What the plugin reads of protobuf's descriptors. `FieldDescriptor::type()` matters only as far as
-- it is `TYPE_MESSAGE`, in which case `message_type()->full_name()` is read, too.
inductive FieldType
  | message (fullName : String)
  | other
  deriving DecidableEq, Repr

structure FieldDescriptor where
  lowercaseName : String
  type          : FieldType
  deriving DecidableEq, Repr

structure Descriptor where
  fullName : String
  fields   : List FieldDescriptor
  deriving DecidableEq, Repr

structure MethodDescriptor where
  fullName   : String
  inputType  : Descriptor
  outputType : Descriptor
  deriving DecidableEq, Repr

structure ServiceDescriptor where
  fullName : String
  methods  : List MethodDescriptor
  deriving DecidableEq, Repr

-- `name()` of a descriptor: the part of `full_name()` behind the last dot.
def simpleName (fullName : String) : String :=
  .ofList (fullName.toList.reverse.takeWhile (· ≠ '.')).reverse

theorem simpleName_of_notMem {name : String} (hn : '.' ∉ name.toList) : simpleName name = name := by
  have h : name.toList.rtakeWhile (· ≠ '.') = name.toList := by
    apply List.rtakeWhile_eq_self_iff.mpr
    intro c hc
    have hne : c ≠ '.' := by rintro rfl; exact hn hc
    simpa using hne
  exact (congrArg String.ofList h).trans <| String.ofList_toList

theorem simpleName_append {pre name : List Char} (hn : '.' ∉ name) :
    simpleName (.ofList (pre ++ '.' :: name)) = .ofList name := by
  have h : ∀ c ∈ name.reverse, decide (c ≠ '.') = true := by
    intro c hc
    have hne : c ≠ '.' := by rintro rfl; exact hn (List.mem_reverse.mp hc)
    simpa using hne
  rw [simpleName]
  simp only [String.toList_ofList, List.reverse_append, List.reverse_cons, List.append_assoc,
    List.takeWhile_append_of_pos h]
  simp

theorem notMem_simpleName {name : String} : '.' ∉ (simpleName name).toList := by
  rw [simpleName, String.toList_ofList]
  intro h
  simpa using List.mem_rtakeWhile_imp h

def Descriptor.name (d : Descriptor) : String := simpleName d.fullName

def MethodDescriptor.name (m : MethodDescriptor) : String := simpleName m.fullName

def ServiceDescriptor.name (s : ServiceDescriptor) : String := simpleName s.fullName

namespace MethodDescriptor

-- `isVoidType(inputType)` and `isVoidType(outputType)`, as the generator's loops test them.
def voidInput (m : MethodDescriptor) : Bool := isVoidType m.inputType.name

def voidOutput (m : MethodDescriptor) : Bool := isVoidType m.outputType.name

def id (m : MethodDescriptor) : ℤ := generateExtensionNumber m.fullName

theorem minExtensionNumber_le_id {m : MethodDescriptor} : minExtensionNumber ≤ m.id := by
  rw [id, generateExtensionNumber]
  have h : 0 ≤ availableExtensionNumbers * (crc32 m.fullName.toUTF8.toList : ℤ) / 4294967295 :=
    Int.ediv_nonneg (Int.mul_nonneg (by decide) (Int.natCast_nonneg _)) (by decide)
  exact Int.le_add_of_nonneg_right h

end MethodDescriptor

namespace ServiceDescriptor

def ids (s : ServiceDescriptor) : List ℤ := s.methods.map (·.id)

-- The method whose `case` label is `id`.
def method? (s : ServiceDescriptor) (id : ℤ) : Option MethodDescriptor :=
  s.methods.find? (·.id = id)

variable {s : ServiceDescriptor} {m : MethodDescriptor}

theorem method?_id (hn : s.ids.Nodup) (hm : m ∈ s.methods) : s.method? m.id = some m := by
  have hu : ∀ m' ∈ s.methods, m'.id = m.id → m' = m :=
    fun m' hm' he => List.inj_on_of_nodup_map hn hm' hm he
  cases h : s.method? m.id
  case none   => simpa using List.find?_eq_none.mp h m hm
  case some m' =>
    have he := List.find?_some h
    exact congrArg some <| hu m' (List.mem_of_find?_eq_some h) (by simpa using he)

theorem mem_of_method? {id : ℤ} (h : s.method? id = some m) : m ∈ s.methods :=
  List.mem_of_find?_eq_some h

theorem id_of_method? {id : ℤ} (h : s.method? id = some m) : m.id = id := by
  simpa using List.find?_some h

end ServiceDescriptor
end ProtoCall
