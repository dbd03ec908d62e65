import Mathlib.Data.List.Sort
import ProtoCall.Examples.External
import ProtoCall.Plugin.Inserts
import ProtoCall.Plugin.Scope

namespace ProtoCall

-- The classes for external types that are named in a printed piece of code.
@[simp]
def Stmt.classes : Stmt → List String
  | seq s t => s.classes ++ t.classes
  | ifHas _ _ _ body | ifObject _ body | ifNull _ body | ifFlag _ body | ifError _ body
  | check _ body => body.classes
  | declSerializer type _ _ => [type ++ "Serializer"]
  | declDeserializer type _ _ => [type ++ "Deserializer"]
  | _ => []

def Switch.bodies (s : Switch) : List Stmt := s.cases.map (·.snd) ++ [s.default]

-- `insert` of a `set<string>`, which is in order.
def insertName (names : List String) (name : String) : List String :=
  if name ∈ names then names else names.orderedInsert (· ≤ ·) name

namespace RpcGenerator

def extractMessageExternalTypes (descriptor : Descriptor) (externalTypes : List String) :
    List String :=
  descriptor.fields.foldl (fun externalTypes field =>
    match field.type with
    | .other                   => externalTypes
    | .message messageTypeName =>
      if startsWith "external." messageTypeName then
        insertName externalTypes messageTypeName
      else
        externalTypes) externalTypes

def extractExternalTypes (descriptor : ServiceDescriptor) : List String :=
  descriptor.methods.foldl (fun externalTypes method =>
    let externalTypes := extractMessageExternalTypes method.inputType externalTypes
    extractMessageExternalTypes method.outputType externalTypes) []

end RpcGenerator

-- A printed source: the headers that it includes, and what is in the bodies of its functions.
structure SourceFile where
  includes : List String
  code     : List Stmt

namespace SourceFile

open RpcGenerator

def lowerClassName (type : String) : String := (extractClassName type).toLower

variable (descriptor : ServiceDescriptor)

def generateServiceProxyCc : SourceFile where
  includes := [
    descriptor.name ++ ".pb.h", descriptor.name ++ "_Handler.pb.h",
    "google/protobuf/stubs/common.h"]
  code     := descriptor.methods.map (generateServiceProxyMethod descriptor)

def generateDispatcherCc : SourceFile where
  includes := [
    descriptor.name ++ "_Dispatcher.pb.h", "iostream", "memory",
    "google/protobuf/stubs/common.h"] ++
      (extractExternalTypes descriptor).map (lowerClassName · ++ "serializer.h")
  code     :=
    (generateDispatchMethodBody descriptor).bodies ++ (generateRelyMethod descriptor).bodies

def generateResponseHandlerCpp : SourceFile where
  includes :=
    let cls := descriptor.name ++ "_Handler"
    (cls ++ ".pb.h") ::
      (extractExternalTypes descriptor).map (lowerClassName · ++ "deserializer.h")
  code     := (RpcGenerator.generateResponseHandlerCpp descriptor).bodies

end SourceFile

def FieldDescriptor.externalType? (field : FieldDescriptor) : Option String :=
  match field.type with
  | .message name => if startsWith "external." name then some name else none
  | .other        => none

def Descriptor.externalTypes (d : Descriptor) : List String := d.fields.filterMap (·.externalType?)

def SourceFile.classes (file : SourceFile) : List String := file.code.flatMap (·.classes)

-- A source that names the classes for a type includes their headers.
structure SourceFile.Covers (file : SourceFile) (type : String) : Prop where
  serializer   : externalTypeToClass type ++ "Serializer" ∈ file.classes →
    lowerClassName type ++ "serializer.h" ∈ file.includes
  deserializer : externalTypeToClass type ++ "Deserializer" ∈ file.classes →
    lowerClassName type ++ "deserializer.h" ∈ file.includes

-- The sources of a service cover the types in the messages of its methods.
structure ServiceDescriptor.IncludesUsed (service : ServiceDescriptor) : Prop where
  covers : ∀ method ∈ service.methods, ∀ d ∈ [method.inputType, method.outputType],
    ∀ type ∈ d.externalTypes,
      (SourceFile.generateServiceProxyCc service).Covers type ∧
      (SourceFile.generateDispatcherCc service).Covers type ∧
      (SourceFile.generateResponseHandlerCpp service).Covers type

section Extraction

variable {names : List String} {name type : String} {d : Descriptor} {service : ServiceDescriptor}

@[simp]
theorem mem_insertName : name ∈ insertName names type ↔ name = type ∨ name ∈ names := by
  rw [insertName]
  split
  case isFalse => exact List.mem_orderedInsert _
  case isTrue h =>
    have hn : name = type → name ∈ names := by rintro rfl; exact h
    exact ⟨.inr, (·.elim hn id)⟩

-- A loop that collects names has what it comes across, and what it has started with.
theorem mem_foldl {α : Type} {as : List α} {collect : List String → α → List String} {p : α → Prop}
    (h : ∀ names, ∀ a ∈ as, name ∈ collect names a ↔ p a ∨ name ∈ names) :
    name ∈ as.foldl collect names ↔ (∃ a ∈ as, p a) ∨ name ∈ names := by
  induction as generalizing names
  case nil => simp
  case cons a as hi =>
    rw [List.foldl_cons, hi fun names b hb => h names b (List.mem_cons_of_mem a hb),
      h names a List.mem_cons_self, List.exists_mem_cons_iff, or_assoc, or_left_comm]

theorem mem_extractMessageExternalTypes : name ∈ RpcGenerator.extractMessageExternalTypes d names ↔
    name ∈ d.externalTypes ∨ name ∈ names := by
  rw [RpcGenerator.extractMessageExternalTypes, Descriptor.externalTypes, List.mem_filterMap]
  apply mem_foldl
  intro names field _
  cases ht : field.type
  case other => simp [FieldDescriptor.externalType?, ht]
  case message messageTypeName =>
    by_cases hs : startsWith "external." messageTypeName <;>
      simp [FieldDescriptor.externalType?, ht, hs, eq_comm]

theorem mem_extractExternalTypes : name ∈ RpcGenerator.extractExternalTypes service ↔
    ∃ method ∈ service.methods, ∃ d ∈ [method.inputType, method.outputType],
      name ∈ d.externalTypes := by
  have hm : name ∈ RpcGenerator.extractExternalTypes service ↔ _ ∨ name ∈ [] := mem_foldl <| by
    intro names method _
    simp only [mem_extractMessageExternalTypes]
    exact or_left_comm.trans or_assoc.symm
  simpa using hm

end Extraction

section Classes

open RpcGenerator

variable {x c : Ident} {d : Descriptor} {y : FieldDescriptor × ℕ} {ss : List Stmt}
  {s : ServiceDescriptor} {m : MethodDescriptor} {j : ℕ}

@[simp]
theorem Stmt.classes_block : (block ss).classes = ss.flatMap classes := by
  induction ss
  case nil          => rfl
  case cons s ss hi => rw [block, classes, hi, List.flatMap_cons]

theorem classes_sentVtk : (generateSentVtk x c y).classes = [] := by
  obtain ⟨⟨_, type⟩, i⟩ := y
  cases type
  case other => rfl
  case message name =>
    by_cases hs : startsWith "vtk." name <;>
      simp [generateSentVtk, hs, generateErrorCheck]

theorem classes_sentExternal : (generateSentExternal x c y).classes =
    y.fst.externalType?.toList.map (externalTypeToClass · ++ "Serializer") := by
  obtain ⟨⟨_, type⟩, i⟩ := y
  cases type
  case other => rfl
  case message name =>
    by_cases hs : startsWith "external." name <;>
      simp [generateSentExternal, FieldDescriptor.externalType?, hs, generateErrorCheck]

theorem classes_receiveVtk : (generateReceiveVtk c y).toList.flatMap Stmt.classes = [] := by
  obtain ⟨⟨_, type⟩, i⟩ := y
  cases type
  case other => rfl
  case message name =>
    by_cases hs : startsWith "vtk." name <;>
      simp [generateReceiveVtk, hs, generateErrorCheck]

theorem classes_receiveExternal : (generateReceiveExternal c y).toList.flatMap Stmt.classes =
    y.fst.externalType?.toList.map (externalTypeToClass · ++ "Deserializer") := by
  obtain ⟨⟨_, type⟩, i⟩ := y
  cases type
  case other => rfl
  case message name =>
    by_cases hs : startsWith "external." name <;>
      simp [generateReceiveExternal, FieldDescriptor.externalType?, hs, generateErrorCheck]

-- What does not depend on the places of the fields.
theorem flatMap_zipIdx {α β : Type} {as : List α} {f : α × ℕ → List β} {g : α → List β}
    (h : ∀ y, f y = g y.fst) : as.zipIdx.flatMap f = as.flatMap g := by
  conv_rhs => rw [← List.zipIdx_map_fst 0 as, List.flatMap_map]
  exact congrArg (List.flatMap · _) (funext h)

theorem classes_sentVtkBlock : (generateSentVtkBlock x c d).classes = [] := by
  rw [generateSentVtkBlock, Stmt.classes_block, List.flatMap_map]
  exact List.flatMap_eq_nil_iff.mpr fun _ _ => classes_sentVtk

theorem classes_sentExternalBlock : (generateSentExternalBlock x c d).classes =
    d.externalTypes.map (externalTypeToClass · ++ "Serializer") := by
  rw [Descriptor.externalTypes, List.filterMap_eq_flatMap_toList, List.map_flatMap,
    generateSentExternalBlock, Stmt.classes_block, List.flatMap_map]
  exact flatMap_zipIdx fun _ => classes_sentExternal

theorem classes_receiveBlock {type variableName : String}
    {receive : FieldDescriptor × ℕ → Option Stmt} :
    (receiveBlock type variableName x d receive).classes =
      d.fields.zipIdx.flatMap fun y => (receive y).toList.flatMap Stmt.classes := by
  rw [← List.flatMap_assoc, ← List.filterMap_eq_flatMap_toList, receiveBlock]
  cases hc : d.fields.zipIdx.filterMap receive
  case nil  => rfl
  case cons => simp

theorem classes_receiveVtkBlock : (generateReceiveVtkBlock x c d).classes = [] :=
  classes_receiveBlock.trans <| List.flatMap_eq_nil_iff.mpr fun _ _ => classes_receiveVtk

theorem classes_receiveExternalBlock : (generateReceiveExternalBlock x c d).classes =
    d.externalTypes.map (externalTypeToClass · ++ "Deserializer") := by
  rw [Descriptor.externalTypes, List.filterMap_eq_flatMap_toList, List.map_flatMap]
  exact classes_receiveBlock.trans <| flatMap_zipIdx fun _ => classes_receiveExternal

theorem classes_proxyMethod : (generateServiceProxyMethod s m).classes =
    m.inputType.externalTypes.map (externalTypeToClass · ++ "Serializer") := by
  simp [generateServiceProxyMethod, generateErrorCheck, classes_sentVtkBlock,
    classes_sentExternalBlock, apply_ite Stmt.classes]

theorem classes_dispatchCase : (generateDispatchCase s m).classes =
    if m.voidInput then [] else
      m.inputType.externalTypes.map (externalTypeToClass · ++ "Deserializer") := by
  cases hv : m.voidInput <;>
    simp [generateDispatchCase, hv, classes_receiveVtkBlock, classes_receiveExternalBlock,
      apply_ite Stmt.classes]

theorem classes_replyCase : (generateReplyCase m j).classes =
    m.outputType.externalTypes.map (externalTypeToClass · ++ "Serializer") := by
  simp [generateReplyCase, generateErrorCheck, classes_sentVtkBlock, classes_sentExternalBlock]

theorem classes_handleCase : (generateHandleCase m).classes =
    m.outputType.externalTypes.map (externalTypeToClass · ++ "Deserializer") := by
  simp [generateHandleCase, classes_receiveVtkBlock, classes_receiveExternalBlock]

end Classes

section Sources

open RpcGenerator

variable {service : ServiceDescriptor} {name type : String}

theorem mem_classes_proxy : name ∈ (SourceFile.generateServiceProxyCc service).classes ↔
    ∃ method ∈ service.methods, ∃ type ∈ method.inputType.externalTypes,
      name = externalTypeToClass type ++ "Serializer" := by
  simp [SourceFile.classes, SourceFile.generateServiceProxyCc, classes_proxyMethod, eq_comm]

theorem mem_classes_dispatcher (h : name ∈ (SourceFile.generateDispatcherCc service).classes) :
    (∃ method ∈ service.methods, ∃ type ∈ method.inputType.externalTypes,
      name = externalTypeToClass type ++ "Deserializer") ∨
    ∃ method ∈ service.methods, ∃ type ∈ method.outputType.externalTypes,
      name = externalTypeToClass type ++ "Serializer" := by
  rw [SourceFile.classes, SourceFile.generateDispatcherCc, List.flatMap_append,
    List.mem_append] at h
  rcases h with h | h
  case inl =>
    simp only [Switch.bodies, generateDispatchMethodBody, List.map_map, List.flatMap_append,
      List.flatMap_map, List.mem_append, List.mem_flatMap, Function.comp_apply,
      classes_dispatchCase] at h
    rcases h with ⟨method, hm, hn⟩ | h
    case inr => simp at h
    case inl =>
      split at hn
      case isTrue  => simp at hn
      case isFalse =>
        obtain ⟨type, ht, rfl⟩ := List.mem_map.mp hn
        exact .inl ⟨method, hm, type, ht, rfl⟩
  case inr =>
    simp only [Switch.bodies, generateRelyMethod, List.flatMap_append, List.flatMap_map,
      List.mem_append, List.mem_flatMap, List.mem_filterMap] at h
    rcases h with ⟨c, ⟨⟨method, j⟩, hm, hc⟩, hn⟩ | h
    case inr => simp at h
    case inl =>
      dsimp only at hc
      split at hc
      case isTrue  => contradiction
      case isFalse =>
        cases hc
        rw [classes_replyCase] at hn
        obtain ⟨type, ht, rfl⟩ := List.mem_map.mp hn
        exact .inr ⟨method, List.fst_mem_of_mem_zipIdx hm, type, ht, rfl⟩

theorem mem_classes_handler
    (h : name ∈ (SourceFile.generateResponseHandlerCpp service).classes) :
    ∃ method ∈ service.methods, ∃ type ∈ method.outputType.externalTypes,
      name = externalTypeToClass type ++ "Deserializer" := by
  simp only [SourceFile.classes, SourceFile.generateResponseHandlerCpp, Switch.bodies,
    generateResponseHandlerCpp, List.flatMap_append, List.flatMap_map, List.mem_append,
    List.mem_flatMap, List.mem_filterMap] at h
  rcases h with ⟨c, ⟨method, hm, hc⟩, hn⟩ | h
  case inr => simp at h
  case inl =>
    split at hc
    case isTrue  => contradiction
    case isFalse =>
      cases hc
      rw [classes_handleCase] at hn
      obtain ⟨type, ht, rfl⟩ := List.mem_map.mp hn
      exact ⟨method, hm, type, ht, rfl⟩

theorem serializer_ne_deserializer {s t : String} : s ++ "Serializer" ≠ t ++ "Deserializer" :=
  append_ne_append (by decide) (by decide)

theorem notMem_includes_proxy {s : String} :
    s ++ "serializer.h" ∉ (SourceFile.generateServiceProxyCc service).includes := by
  have hh : "_Handler.pb.h" = "_Handler" ++ ".pb.h" := by decide
  have hc : "google/protobuf/stubs/common.h" = "google/protobuf/stubs/" ++ "common.h" := by decide
  have hp (t : String) : s ++ "serializer.h" ≠ t ++ ".pb.h" :=
    append_ne_append (by decide) (by decide)
  rw [SourceFile.generateServiceProxyCc, hh, hc, ← String.append_assoc]
  simp only [List.mem_cons, hp, List.not_mem_nil, or_false, false_or]
  exact append_ne_append (by decide) (by decide)

theorem mem_includes_dispatcher (h : type ∈ extractExternalTypes service) :
    SourceFile.lowerClassName type ++ "serializer.h" ∈
      (SourceFile.generateDispatcherCc service).includes := by
  apply List.mem_append_right
  exact List.mem_map_of_mem (f := (SourceFile.lowerClassName · ++ "serializer.h")) h

theorem mem_includes_handler (h : type ∈ extractExternalTypes service) :
    SourceFile.lowerClassName type ++ "deserializer.h" ∈
      (SourceFile.generateResponseHandlerCpp service).includes := by
  apply List.mem_cons_of_mem
  exact List.mem_map_of_mem (f := (SourceFile.lowerClassName · ++ "deserializer.h")) h

theorem notMem_classes_proxy (hi : ∀ method ∈ service.methods, method.inputType.externalTypes = []) :
    name ∉ (SourceFile.generateServiceProxyCc service).classes := by
  intro hc
  obtain ⟨method, hm, _, ht, _⟩ := mem_classes_proxy.mp hc
  simp [hi method hm] at ht

theorem covers_proxy (hi : ∀ method ∈ service.methods, method.inputType.externalTypes = []) :
    (SourceFile.generateServiceProxyCc service).Covers type where
  serializer hc   := absurd hc <| notMem_classes_proxy hi
  deserializer hc := absurd hc <| notMem_classes_proxy hi

theorem covers_dispatcher (hi : ∀ method ∈ service.methods, method.inputType.externalTypes = [])
    (he : type ∈ extractExternalTypes service) :
    (SourceFile.generateDispatcherCc service).Covers type where
  serializer _    := mem_includes_dispatcher he
  deserializer hc := by
    rcases mem_classes_dispatcher hc with ⟨method, hm, _, ht, _⟩ | ⟨_, _, _, _, hs⟩
    case inl => simp [hi method hm] at ht
    case inr => exact absurd hs.symm serializer_ne_deserializer

theorem covers_handler (he : type ∈ extractExternalTypes service) :
    (SourceFile.generateResponseHandlerCpp service).Covers type where
  deserializer _ := mem_includes_handler he
  serializer hc  := by
    obtain ⟨_, _, _, _, hs⟩ := mem_classes_handler hc
    exact absurd hs serializer_ne_deserializer

-- The proxy does not include any of the headers, whereas it names the classes for what is sent.
theorem includesUsed_iff : service.IncludesUsed ↔
    ∀ method ∈ service.methods, method.inputType.externalTypes = [] := by
  constructor
  case mp =>
    intro h method hm
    rw [List.eq_nil_iff_forall_not_mem]
    intro type ht
    have hc := (h.covers method hm method.inputType (by simp) type ht).left
    have hn := mem_classes_proxy.mpr ⟨method, hm, type, ht, rfl⟩
    exact notMem_includes_proxy <| hc.serializer hn
  case mpr =>
    intro hi
    constructor
    intro method hm d hd type ht
    have he := mem_extractExternalTypes.mpr ⟨method, hm, d, hd, ht⟩
    exact ⟨covers_proxy hi, covers_dispatcher hi he, covers_handler he⟩

theorem not_includesUsed : ¬External.service.IncludesUsed := by
  intro h
  have hc := (h.covers External.test (by decide) External.testMesage (by decide)
    "external.Foo.Bar" (by decide)).left.serializer (by decide)
  exact notMem_includes_proxy hc

end Sources
end ProtoCall
