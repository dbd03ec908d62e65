import ProtoCall.Library.FirstUse
import ProtoCall.Plugin.Response

namespace ProtoCall

-- The loop of `extractNamespaces`, on what begins at `start`. Each round finds another `::`.
def extractNamespacesLoop : ℕ → List Char → List String
  | 0, _           => []
  | fuel + 1, type =>
    match find "::".toList type with
    | none     => []
    | some «end» =>
      .ofList (type.take «end») :: extractNamespacesLoop fuel (type.drop («end» + 2))

def extractNamespaces (type : String) : List String :=
  extractNamespacesLoop (type.toList.length + 1) type.toList

def extractClassName (type : String) : String := simpleName type

-- `replace` throws if there is nothing to be replaced.
def toHeader (type : String) : Option String :=
  (find ".proto".toList type.toList).map fun pos => .ofList (type.toList.take pos) ++ ".pb.h"

namespace RpcPlugin

-- One round of the loop in `addVtkInserts`.
def addVtkInsert (response : CodeGeneratorResponse) (type : Descriptor) : CodeGeneratorResponse :=
  let vtkType := type.name
  let response := response.addFile {
    name           := "protocall/vtk.pb.h"
    insertionPoint := "includes"
    content        := .include (vtkType ++ ".h")
  }
  response.addFile {
    name           := "protocall/vtk.pb.h"
    insertionPoint := "class_scope:vtk." ++ vtkType
    content        := .vtkObjectHolder vtkType
  }

def addVtkInserts (pool : List FileDescriptor) (response : CodeGeneratorResponse) :
    CodeGeneratorResponse :=
  match pool.find? (·.name = "protocall/vtk.proto") with
  | none                => response
  | some vtkDescriptors =>
    let response := response.addFile {
      name           := "protocall/vtk.pb.h"
      insertionPoint := "includes"
      content        := .include "vtkNew.h"
    }
    vtkDescriptors.messageTypes.foldl addVtkInsert response

-- One round of the loop in `addExternalInsert`.
def addExternalTypeInsert (fileDes : FileDescriptor) (response : CodeGeneratorResponse)
    (type : Descriptor) : Option CodeGeneratorResponse :=
  if !startsWith "external." type.fullName then
    some response
  else do
    let externalType := type.fullName
    let externalClass := externalTypeToClass externalType
    let header ← toHeader fileDes.name
    let namespaces := (extractNamespaces externalClass).map fun name => name.toLower ++ "/"
    let className := (extractClassName externalType).toLower
    let response := response.addFile {
      name           := header
      insertionPoint := "includes"
      content        := .include (namespaces.foldl (· ++ ·) "" ++ className ++ ".h")
    }
    return response.addFile {
      name           := header
      insertionPoint := "class_scope:" ++ externalType
      content        := .externalObjectHolder externalClass
    }

def addExternalInsert (response : CodeGeneratorResponse) (fileDes : FileDescriptor) :
    Option CodeGeneratorResponse :=
  fileDes.messageTypes.foldlM (addExternalTypeInsert fileDes) response

def addExternalInserts (files : List FileDescriptor) (response : CodeGeneratorResponse) :
    Option CodeGeneratorResponse :=
  files.foldlM addExternalInsert response

def addResponseErrorInsert (response : CodeGeneratorResponse) (header type : String) :
    CodeGeneratorResponse :=
  response.addFile {
    name           := header
    insertionPoint := "class_scope:" ++ type
    content        := .errorHolder
  }

-- One round of the loop over methods in `addResponseErrorInserts`, with the response and with
-- `responseTypes`.
def addMethodErrorInsert (header : String) :
    CodeGeneratorResponse × List String → MethodDescriptor → CodeGeneratorResponse × List String
  | (response, responseTypes), method =>
    let name := method.outputType.fullName
    if name = "Void" then
      (response, responseTypes)
    else if name ∈ responseTypes then
      (response, responseTypes)
    else
      (addResponseErrorInsert response header name, name :: responseTypes)

def addServiceErrorInserts (header : String) (state : CodeGeneratorResponse × List String)
    (descriptor : ServiceDescriptor) : CodeGeneratorResponse × List String :=
  descriptor.methods.foldl (addMethodErrorInsert header) state

def addFileErrorInserts (state : CodeGeneratorResponse × List String) (file : FileDescriptor) :
    Option (CodeGeneratorResponse × List String) := do
  let header ← toHeader file.name
  return file.services.foldl (addServiceErrorInserts header) state

def addResponseErrorInserts (files : List FileDescriptor) (response : CodeGeneratorResponse) :
    Option CodeGeneratorResponse :=
  (files.foldlM addFileErrorInserts (response, [])).map Prod.fst

-- What `main` does after the generators. It dies (`none`) of an exception.
def addInserts (pool files : List FileDescriptor) (response : CodeGeneratorResponse) :
    Option CodeGeneratorResponse := do
  let response := addVtkInserts pool response
  let response ← addExternalInserts files response
  addResponseErrorInserts files response

end RpcPlugin

open CodeGeneratorResponse RpcPlugin

theorem toHeader_eq {name : String} (h : (toHeader name).isSome) :
    toHeader name = some (untilProto name ++ ".pb.h") := by
  rw [toHeader, Option.isSome_map] at h
  obtain ⟨pos, hp⟩ := Option.isSome_iff_exists.mp h
  rw [toHeader, untilProto, hp]
  rfl

namespace FileDescriptor

def header (file : FileDescriptor) : String := untilProto file.name ++ ".pb.h"

-- The types that the methods of a file answer with.
def responseTypes (file : FileDescriptor) : List String :=
  ((file.services.flatMap (·.methods)).map (·.outputType.fullName)).filter (· ≠ "Void")

-- The insertions that are for `vtk.proto`, for the messages of a file and for a type that one of
-- its methods answers with.
def vtkInserts (file : FileDescriptor) : List File :=
  { name := "protocall/vtk.pb.h", insertionPoint := "includes", content := .include "vtkNew.h" } ::
    file.messageTypes.flatMap fun type => (addVtkInsert {} type).files

def externalInserts (file : FileDescriptor) : List File :=
  file.messageTypes.flatMap fun type => ((addExternalTypeInsert file {} type).getD {}).files

def errorInsert (file : FileDescriptor) (type : String) : File :=
  { name := file.header, insertionPoint := "class_scope:" ++ type, content := .errorHolder }

variable {file : FileDescriptor} {p : File → Prop}

theorem forall_vtkInserts
    (hi : ∀ path, p {
      name := "protocall/vtk.pb.h", insertionPoint := "includes", content := .include path })
    (hs : ∀ (scope vtkType : String), p {
      name           := "protocall/vtk.pb.h"
      insertionPoint := scope
      content        := .vtkObjectHolder vtkType }) :
    ∀ f ∈ file.vtkInserts, p f := by
  refine List.forall_mem_cons.mpr ⟨hi _, List.forall_mem_flatMap.mpr fun type _ => ?_⟩
  simpa [addVtkInsert, addFile] using ⟨hi _, hs _ _⟩

theorem forall_externalInserts
    (hi : ∀ header path, p {
      name := header, insertionPoint := "includes", content := .include path })
    (hs : ∀ (header scope externalClass : String), p {
      name := header, insertionPoint := scope, content := .externalObjectHolder externalClass }) :
    ∀ f ∈ file.externalInserts, p f := by
  refine List.forall_mem_flatMap.mpr fun type _ => ?_
  rw [addExternalTypeInsert]
  split
  case isTrue  => simp
  case isFalse =>
    cases toHeader file.name
    case none   => simp
    case some _ => simpa [addFile] using ⟨hi _ _, hs _ _ _⟩

end FileDescriptor

namespace RpcPlugin

variable {pool files : List FileDescriptor} {response : CodeGeneratorResponse}
  {file : FileDescriptor}

-- Who answers with what, in the order in which `addResponseErrorInserts` comes across it.
def uses (files : List FileDescriptor) : List (FileDescriptor × String) :=
  files.flatMap fun file => file.responseTypes.map (file, ·)

def inserts (pool files : List FileDescriptor) : List File :=
  (pool.find? (·.name = "protocall/vtk.proto")).toList.flatMap (·.vtkInserts) ++
    files.flatMap (·.externalInserts) ++
      (FirstUse.take Prod.snd [] (uses files)).map fun use => use.fst.errorInsert use.snd

theorem addVtkInsert_eq {type : Descriptor} :
    addVtkInsert response type = response.addFiles (addVtkInsert {} type).files := by
  simp [addVtkInsert, addFile, addFiles]

theorem addVtkInserts_eq : addVtkInserts pool response = response.addFiles
    ((pool.find? (·.name = "protocall/vtk.proto")).toList.flatMap (·.vtkInserts)) := by
  rw [addVtkInserts]
  cases pool.find? (·.name = "protocall/vtk.proto")
  case none => simp
  case some vtkDescriptors =>
    simp only [addFile_eq]
    rw [foldl_addFiles (g := addVtkInsert) fun _ _ => addVtkInsert_eq]
    simp [FileDescriptor.vtkInserts]

theorem addExternalTypeInsert_eq {type : Descriptor} (h : (toHeader file.name).isSome) :
    addExternalTypeInsert file response type =
      some (response.addFiles ((addExternalTypeInsert file {} type).getD {}).files) := by
  rw [addExternalTypeInsert, addExternalTypeInsert, toHeader_eq h]
  split
  case isTrue  => simp
  case isFalse => simp [addFile, addFiles]

theorem addExternalInserts_eq (h : ∀ file ∈ files, (toHeader file.name).isSome) :
    addExternalInserts files response =
      some (response.addFiles (files.flatMap (·.externalInserts))) :=
  foldlM_addFiles fun _ file hf => foldlM_addFiles fun _ _ _ => addExternalTypeInsert_eq (h file hf)

def addUse (response : CodeGeneratorResponse) (use : FileDescriptor × String) :
    CodeGeneratorResponse :=
  response.addFiles [use.fst.errorInsert use.snd]

theorem addMethodErrorInsert_eq {state : CodeGeneratorResponse × List String}
    {method : MethodDescriptor} : addMethodErrorInsert file.header state method =
      if method.outputType.fullName ≠ "Void" then
        FirstUse.step Prod.snd addUse state (file, method.outputType.fullName)
      else
        state := by
  by_cases hv : method.outputType.fullName = "Void" <;>
    simp [addMethodErrorInsert, FirstUse.step, addUse, hv, addResponseErrorInsert, addFile_eq,
      FileDescriptor.errorInsert]

-- The loops over the services and over the methods of a file are a pass over its uses.
theorem addFileErrorInserts_eq {state : CodeGeneratorResponse × List String}
    (h : (toHeader file.name).isSome) : addFileErrorInserts state file =
      some ((file.responseTypes.map (file, ·)).foldl (FirstUse.step Prod.snd addUse) state) := by
  have hl : file.services.foldl (addServiceErrorInserts file.header) state =
      (file.services.flatMap (·.methods)).foldl (addMethodErrorInsert file.header) state :=
    List.foldl_flatMap.symm
  rw [addFileErrorInserts, toHeader_eq h, Option.bind_eq_bind, Option.bind_some]
  rw [FileDescriptor.header] at hl
  rw [hl, FileDescriptor.responseTypes, List.foldl_map, List.foldl_filter, List.foldl_map]
  apply congrArg some
  apply congrArg (List.foldl · state _)
  funext state method
  rw [← FileDescriptor.header, addMethodErrorInsert_eq]
  simp

theorem foldlM_addFileErrorInserts {state : CodeGeneratorResponse × List String}
    (h : ∀ file ∈ files, (toHeader file.name).isSome) :
    files.foldlM addFileErrorInserts state =
      some ((uses files).foldl (FirstUse.step Prod.snd addUse) state) := by
  induction files generalizing state
  case nil => rfl
  case cons file files hi =>
    rw [List.foldlM_cons, addFileErrorInserts_eq (h file List.mem_cons_self), Option.bind_eq_bind,
      Option.bind_some, hi fun f hf => h f (List.mem_cons_of_mem file hf), uses, uses,
      List.flatMap_cons, List.foldl_append]

theorem addResponseErrorInserts_eq (h : ∀ file ∈ files, (toHeader file.name).isSome) :
    addResponseErrorInserts files response = some (response.addFiles
      ((FirstUse.take Prod.snd [] (uses files)).map fun use => use.fst.errorInsert use.snd)) := by
  rw [addResponseErrorInserts, foldlM_addFileErrorInserts h, Option.map_some, FirstUse.foldl_step,
    foldl_addFiles (g := addUse) fun _ _ => rfl, List.map_eq_flatMap]

theorem isSome_of_addResponseErrorInserts (h : (addResponseErrorInserts files response).isSome) :
    ∀ file ∈ files, (toHeader file.name).isSome := by
  rw [addResponseErrorInserts, Option.isSome_map] at h
  generalize (response, []) = state at h
  induction files generalizing state
  case nil => simp
  case cons file files hi =>
    rw [List.foldlM_cons, addFileErrorInserts] at h
    cases ht : toHeader file.name
    case none => simp [ht] at h
    case some header =>
      rw [List.forall_mem_cons]
      exact ⟨by simp [ht], hi _ (by simpa [ht] using h)⟩

theorem addInserts_eq (h : ∀ file ∈ files, (toHeader file.name).isSome) :
    addInserts pool files response = some (response.addFiles (inserts pool files)) := by
  rw [addInserts, addVtkInserts_eq, addExternalInserts_eq h, Option.bind_eq_bind, Option.bind_some,
    addResponseErrorInserts_eq h, inserts]
  simp

theorem isSome_of_addInserts (h : (addInserts pool files response).isSome) :
    ∀ file ∈ files, (toHeader file.name).isSome := by
  rw [addInserts] at h
  cases he : addExternalInserts files (addVtkInserts pool response)
  case none      => simp [he] at h
  case some next =>
    have hr : (addResponseErrorInserts files next).isSome := by simpa [he] using h
    exact isSome_of_addResponseErrorInserts hr

end RpcPlugin
end ProtoCall
