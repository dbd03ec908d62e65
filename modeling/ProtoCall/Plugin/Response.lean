import ProtoCall.Plugin.RpcPlugin

namespace ProtoCall

-- What goes into a file of the response. The code of whole files is not told apart here.
inductive Fragment
  | code
  | include (header : String)
  | vtkObjectHolder (vtkType : String)
  | externalObjectHolder (externalClass : String)
  | errorHolder
  deriving DecidableEq, Repr

structure CodeGeneratorResponse.File where
  name           : String
  insertionPoint : Option String := none
  content        : Fragment := .code
  deriving DecidableEq, Repr

structure CodeGeneratorResponse where
  error : Option String := none
  files : List CodeGeneratorResponse.File := []
  deriving DecidableEq, Repr

-- The names of the files that stand for themselves.
def CodeGeneratorResponse.wholeFiles (response : CodeGeneratorResponse) : List String :=
  (response.files.filter (·.insertionPoint.isNone)).map (·.name)

namespace CodeGeneratorResponse

def addFile (response : CodeGeneratorResponse) (file : File) : CodeGeneratorResponse :=
  { response with files := response.files ++ [file] }

def addFiles (response : CodeGeneratorResponse) (files : List File) : CodeGeneratorResponse :=
  { response with files := response.files ++ files }

variable {response : CodeGeneratorResponse} {files files' : List File} {file : File}

theorem addFile_eq : response.addFile file = response.addFiles [file] := rfl

@[simp]
theorem addFiles_nil : response.addFiles [] = response := by simp [addFiles]

@[simp]
theorem addFiles_addFiles :
    (response.addFiles files).addFiles files' = response.addFiles (files ++ files') := by
  simp [addFiles]

@[simp]
theorem addFiles_addFile :
    (response.addFiles files).addFile file = response.addFiles (files ++ [file]) :=
  addFiles_addFiles

variable {α : Type} {as : List α} {f : α → List File}

theorem foldl_addFiles {g : CodeGeneratorResponse → α → CodeGeneratorResponse}
    (h : ∀ response a, g response a = response.addFiles (f a)) :
    as.foldl g response = response.addFiles (as.flatMap f) := by
  induction as generalizing response
  case nil          => simp
  case cons a as hi => rw [List.foldl_cons, h, hi, addFiles_addFiles, List.flatMap_cons]

theorem foldlM_addFiles {g : CodeGeneratorResponse → α → Option CodeGeneratorResponse}
    (h : ∀ response, ∀ a ∈ as, g response a = some (response.addFiles (f a))) :
    as.foldlM g response = some (response.addFiles (as.flatMap f)) := by
  induction as generalizing response
  case nil => simp
  case cons a as hi =>
    rw [List.foldlM_cons, h response a List.mem_cons_self, Option.bind_eq_bind, Option.bind_some,
      hi fun response b hb => h response b (List.mem_cons_of_mem a hb), addFiles_addFiles,
      List.flatMap_cons]

end CodeGeneratorResponse

-- A context adds to the response that it has been made for.
abbrev GeneratorResponseContext := CodeGeneratorResponse

namespace GeneratorResponseContext

-- The files that the generators open. What they are named is all that is printed in them here.
def openFile (context : GeneratorResponseContext) (filename : String) : GeneratorResponseContext :=
  context.addFile { name := filename }

variable (context : GeneratorResponseContext) (descriptor : ServiceDescriptor)

def generateServiceHeader : GeneratorResponseContext :=
  context.openFile (descriptor.name ++ ".pb.h")

def generateServiceProxyCc : GeneratorResponseContext :=
  context.openFile (descriptor.name ++ "_Proxy.pb.cc")

def generateDispatcherHeader : GeneratorResponseContext :=
  let name := descriptor.name ++ "_Dispatcher"
  context.openFile (name ++ ".pb.h")

def generateDispatcherCc : GeneratorResponseContext :=
  context.openFile (descriptor.name ++ "_Dispatcher.pb.cc")

def generateResponseHandlerHeader : GeneratorResponseContext :=
  context.openFile (descriptor.name ++ "_Handler.pb.h")

def generateResponseHandlerCpp : GeneratorResponseContext :=
  let cls := descriptor.name ++ "_Handler"
  context.openFile (cls ++ ".pb.cc")

def generateResponseHandler : GeneratorResponseContext :=
  let context := generateResponseHandlerHeader context descriptor
  generateResponseHandlerCpp context descriptor

-- One round of the loop in `Generate`.
def generateService : GeneratorResponseContext :=
  let context := generateServiceHeader context descriptor
  let context := generateServiceProxyCc context descriptor
  let context := generateDispatcherHeader context descriptor
  let context := generateDispatcherCc context descriptor
  generateResponseHandler context descriptor

end GeneratorResponseContext

def RpcGenerator.generate (file : FileDescriptor) (context : GeneratorResponseContext) :
    Bool × GeneratorResponseContext :=
  (true, file.services.foldl GeneratorResponseContext.generateService context)

-- `CppGenerator` names its files by this.
def stripProto (name : String) : String :=
  let suffix := ".proto".toList
  if suffix.isSuffixOf name.toList then
    .ofList (name.toList.take (name.toList.length - suffix.length))
  else
    name

def FileDescriptor.stem (file : FileDescriptor) : String := stripProto file.name

theorem stripProto_append {stem : String} : stripProto (stem ++ ".proto") = stem := by
  have hs : ".proto".toList.isSuffixOf (stem ++ ".proto").toList := by
    rw [List.isSuffixOf_iff_suffix, String.toList_append]
    exact List.suffix_append _ _
  rw [stripProto, if_pos hs]
  simp [String.toList_append]

theorem append_ne_append {s t suffix suffix' : String} (h : ¬suffix.toList <:+ suffix'.toList)
    (h' : ¬suffix'.toList <:+ suffix.toList) : s ++ suffix ≠ t ++ suffix' := by
  intro he
  have hl := congrArg String.toList he
  rw [String.toList_append, String.toList_append] at hl
  rcases List.suffix_or_suffix_of_suffix (hl ▸ List.suffix_append _ _) (List.suffix_append _ _)
    with hs | hs
  case inl => exact h hs
  case inr => exact h' hs

theorem append_injective {suffix : String} : Function.Injective (· ++ suffix) :=
  fun _ _ h => String.append_left_inj _ |>.mp h

-- The names of the files for a service.
def ServiceDescriptor.fileNames (descriptor : ServiceDescriptor) : List String :=
  (GeneratorResponseContext.generateService {} descriptor).files.map (·.name)

theorem RpcGenerator.generate_eq {file : FileDescriptor} {context : GeneratorResponseContext} :
    generate file context = (true, context.addFiles <|
      (file.services.flatMap (·.fileNames)).map fun filename => { name := filename }) := by
  rw [generate, List.map_flatMap, CodeGeneratorResponse.foldl_addFiles]
  intro context descriptor
  simp [ServiceDescriptor.fileNames, GeneratorResponseContext.generateService,
    GeneratorResponseContext.generateServiceHeader, GeneratorResponseContext.generateServiceProxyCc,
    GeneratorResponseContext.generateDispatcherHeader,
    GeneratorResponseContext.generateDispatcherCc, GeneratorResponseContext.generateResponseHandler,
    GeneratorResponseContext.generateResponseHandlerHeader,
    GeneratorResponseContext.generateResponseHandlerCpp, GeneratorResponseContext.openFile,
    CodeGeneratorResponse.addFile, CodeGeneratorResponse.addFiles]

-- What the plugin has from protobuf: `BuildFile` of a file of the request, and of a file that the
-- plugin has put together, in a pool; and `CppGenerator::Generate`, with the files that it opens
-- and the error that it sets.
structure Protobuf (Proto : Type) where
  buildFile    : List FileDescriptor → Proto → Option FileDescriptor
  buildRpcFile : List FileDescriptor → FileDescriptorProto → Option FileDescriptor
  generate     : FileDescriptor → String → Bool × List CodeGeneratorResponse.File × String

-- The C++ generator opens two files, by the name of the file without its suffix, or it fails before
-- it has opened any.
def Protobuf.NamesFiles {Proto : Type} (protobuf : Protobuf Proto) : Prop :=
  ∀ file parameter,
    CodeGeneratorResponse.wholeFiles { files := (protobuf.generate file parameter).snd.fst } =
      if (protobuf.generate file parameter).fst then
        [file.stem ++ ".pb.h", file.stem ++ ".pb.cc"]
      else
        []

-- A file that the plugin puts together is built under its own name.
def Protobuf.KeepsName {Proto : Type} (protobuf : Protobuf Proto) : Prop :=
  ∀ pool proto file, protobuf.buildRpcFile pool proto = some file → file.name = proto.name

namespace RpcPlugin

variable {Proto : Type}

-- The result and the error, with the files that have been opened. There is none of it if a file is
-- not there: `BuildFile` has returned a null pointer, and the generators follow it.
def callGenerators (protobuf : Protobuf Proto) (parameter : String) :
    List (Option FileDescriptor) → GeneratorResponseContext →
      Option (Bool × String × GeneratorResponseContext)
  | [], context                 => some (true, "", context)
  | none :: _, _                => none
  | some file :: files, context =>
    match protobuf.generate file parameter with
    | (false, opened, error) =>
      some (false, error, context.addFiles opened)
    | (true, opened, _) =>
      match RpcGenerator.generate file (context.addFiles opened) with
      | (false, context) => some (false, "", context)
      | (true, context)  => callGenerators protobuf parameter files context

end RpcPlugin
end ProtoCall
