import Mathlib.Data.List.Perm.Basic
import ProtoCall.Plugin.Sharing

namespace ProtoCall

open CodeGeneratorResponse

namespace RpcPlugin

variable {Proto : Type}

-- The names of the whole files that a run emits.
def emittedFiles (protobuf : Protobuf Proto) (request : CodeGeneratorRequest Proto) : List String :=
  match main protobuf request with
  | .answered response => response.wholeFiles
  | _                  => []

-- The files that `callGenerators` gets through, unless it comes across a null pointer.
def generated (protobuf : Protobuf Proto) (parameter : String) :
    List (Option FileDescriptor) → Option (List FileDescriptor)
  | []                 => some []
  | none :: _          => none
  | some file :: files =>
    if (protobuf.generate file parameter).fst then
      (generated protobuf parameter files).map (file :: ·)
    else
      some []

-- The files whose code is in the response, if there is a response.
def reached (protobuf : Protobuf Proto) (request : CodeGeneratorRequest Proto) :
    List FileDescriptor :=
  if ∀ file ∈ fileDescriptors protobuf request, (toHeader file.name).isSome then
    (generated protobuf request.parameter (parsedFiles protobuf request)).getD []
  else
    []

-- What the pool makes of the extensions of a file. There are none to build if it has no services.
def Extends (protobuf : Protobuf Proto) (declaring file : FileDescriptor) : Prop :=
  declaring.services.length > 0 ∧
    ∃ pool, protobuf.buildRpcFile pool (addRpcMessageExtensions declaring).snd = some file

end RpcPlugin

def FileDescriptor.fileNames (file : FileDescriptor) : List String :=
  (file.stem ++ ".pb.h") :: (file.stem ++ ".pb.cc") :: file.services.flatMap (·.fileNames)

section Names

variable (files : List FileDescriptor)

def stems : List String := files.map (·.stem)

def serviceNames : List String := (files.flatMap (·.services)).map (·.name)

-- Stems differ, and so do the simple names of services. Where both are in front of the same suffix,
-- a stem is not a name with something added to it, and a name is not another one with something
-- added to it.
structure Separate : Prop where
  stems : (stems files).Nodup
  names : (serviceNames files).Nodup
  stem  : ∀ stem ∈ ProtoCall.stems files, ∀ name ∈ serviceNames files,
    ∀ suffix ∈ ["", "_Proxy", "_Dispatcher", "_Handler"], stem ≠ name ++ suffix
  name  : ∀ name ∈ serviceNames files, ∀ name' ∈ serviceNames files,
    ∀ suffix ∈ ["_Dispatcher", "_Handler"], name ≠ name' ++ suffix

-- The names of the headers and of the sources, without their suffixes.
def headers : List String :=
  stems files ++ (serviceNames files ++
    ((serviceNames files).map (· ++ "_Dispatcher") ++ (serviceNames files).map (· ++ "_Handler")))

def sources : List String :=
  stems files ++ ((serviceNames files).map (· ++ "_Proxy") ++
    ((serviceNames files).map (· ++ "_Dispatcher") ++ (serviceNames files).map (· ++ "_Handler")))

variable {files}

theorem ServiceDescriptor.fileNames_eq {service : ServiceDescriptor} : service.fileNames = [
    service.name ++ ".pb.h", service.name ++ "_Proxy" ++ ".pb.cc",
    service.name ++ "_Dispatcher" ++ ".pb.h", service.name ++ "_Dispatcher" ++ ".pb.cc",
    service.name ++ "_Handler" ++ ".pb.h", service.name ++ "_Handler" ++ ".pb.cc"] := by
  simp [fileNames, GeneratorResponseContext.generateService,
    GeneratorResponseContext.generateServiceHeader, GeneratorResponseContext.generateServiceProxyCc,
    GeneratorResponseContext.generateDispatcherHeader,
    GeneratorResponseContext.generateDispatcherCc, GeneratorResponseContext.generateResponseHandler,
    GeneratorResponseContext.generateResponseHandlerHeader,
    GeneratorResponseContext.generateResponseHandlerCpp, GeneratorResponseContext.openFile,
    CodeGeneratorResponse.addFile, String.append_assoc]

theorem flatMap_map_perm {α β : Type} (as : List α) (fs : List (α → β)) :
    (as.flatMap fun a => fs.map (· a)).Perm (fs.flatMap (as.map ·)) := by
  induction fs
  case nil          => simp
  case cons f fs hi => exact (List.map_append_flatMap_perm as f _).symm.trans (hi.append_left _)

theorem services_perm {services : List ServiceDescriptor} :
    (services.flatMap (·.fileNames)).Perm <|
      services.map (·.name ++ ".pb.h") ++ (services.map (·.name ++ "_Proxy" ++ ".pb.cc") ++
        (services.map (·.name ++ "_Dispatcher" ++ ".pb.h") ++
          (services.map (·.name ++ "_Dispatcher" ++ ".pb.cc") ++
            (services.map (·.name ++ "_Handler" ++ ".pb.h") ++
              services.map (·.name ++ "_Handler" ++ ".pb.cc"))))) := by
  have h := flatMap_map_perm services [
    fun s => s.name ++ ".pb.h", fun s => s.name ++ "_Proxy" ++ ".pb.cc",
    fun s => s.name ++ "_Dispatcher" ++ ".pb.h", fun s => s.name ++ "_Dispatcher" ++ ".pb.cc",
    fun s => s.name ++ "_Handler" ++ ".pb.h", fun s => s.name ++ "_Handler" ++ ".pb.cc"]
  simp only [ServiceDescriptor.fileNames_eq]
  simpa only [List.map_cons, List.map_nil, List.flatMap_cons, List.flatMap_nil, List.append_nil]
    using h

theorem fileNames_perm : (files.flatMap (·.fileNames)).Perm
    ((headers files).map (· ++ ".pb.h") ++ (sources files).map (· ++ ".pb.cc")) := by
  have hf : (files.flatMap (·.fileNames)).Perm <| files.map (·.stem ++ ".pb.h") ++
      (files.map (·.stem ++ ".pb.cc") ++ (files.flatMap (·.services)).flatMap (·.fileNames)) := by
    rw [List.flatMap_assoc]
    exact (List.map_append_flatMap_perm files _ _).symm.trans <|
      (List.map_append_flatMap_perm files _ _).symm.append_left _
  apply hf.trans
  apply ((services_perm.append_left _).append_left _).trans
  rw [List.perm_iff_count]
  intro name
  simp only [headers, sources, stems, serviceNames, List.map_append, List.map_map,
    List.count_append]
  simp only [Function.comp_def]
  omega

theorem dispatcher_ne_handler {name name' : String} : name ++ "_Dispatcher" ≠ name' ++ "_Handler" :=
  append_ne_append (by decide) (by decide)

theorem headers_nodup : (headers files).Nodup ↔ (stems files).Nodup ∧ (serviceNames files).Nodup ∧
    (∀ stem ∈ stems files, ∀ name ∈ serviceNames files,
      ∀ suffix ∈ ["", "_Dispatcher", "_Handler"], stem ≠ name ++ suffix) ∧
    ∀ name ∈ serviceNames files, ∀ name' ∈ serviceNames files,
      ∀ suffix ∈ ["_Dispatcher", "_Handler"], name ≠ name' ++ suffix := by
  rw [headers]
  generalize stems files = stems
  generalize serviceNames files = names
  simp only [List.nodup_append, List.nodup_map_iff append_injective, List.forall_mem_append,
    List.forall_mem_map, List.forall_mem_cons, List.not_mem_nil, String.append_empty, imp_and,
    forall_and, false_imp_iff, implies_true, and_true, ne_eq, dispatcher_ne_handler, not_false_iff]
  tauto

theorem sources_nodup : (sources files).Nodup ↔ (stems files).Nodup ∧ (serviceNames files).Nodup ∧
    ∀ stem ∈ stems files, ∀ name ∈ serviceNames files,
      ∀ suffix ∈ ["_Proxy", "_Dispatcher", "_Handler"], stem ≠ name ++ suffix := by
  have hd (name name' : String) : name ++ "_Proxy" ≠ name' ++ "_Dispatcher" :=
    append_ne_append (by decide) (by decide)
  have hh (name name' : String) : name ++ "_Proxy" ≠ name' ++ "_Handler" :=
    append_ne_append (by decide) (by decide)
  rw [sources]
  generalize stems files = stems
  generalize serviceNames files = names
  simp only [List.nodup_append, List.nodup_map_iff append_injective, List.forall_mem_append,
    List.forall_mem_map, List.forall_mem_cons, List.not_mem_nil, imp_and, forall_and, false_imp_iff,
    implies_true, and_true, ne_eq, dispatcher_ne_handler, hd, hh, not_false_iff]
  tauto

theorem fileNames_nodup : (files.flatMap (·.fileNames)).Nodup ↔ Separate files := by
  have hs (name name' : String) : name ++ ".pb.h" ≠ name' ++ ".pb.cc" :=
    append_ne_append (by decide) (by decide)
  rw [fileNames_perm.nodup_iff, List.nodup_append, List.nodup_map_iff append_injective,
    List.nodup_map_iff append_injective, headers_nodup, sources_nodup]
  constructor
  case mp =>
    rintro ⟨⟨hst, hn, hsh, hnn⟩, ⟨-, -, hss⟩, -⟩
    refine { stems := hst, names := hn, stem := ?_, name := hnn }
    intro stem hst name hn suffix hm
    by_cases hp : suffix = "_Proxy"
    case pos => exact hss stem hst name hn suffix (by simp [hp])
    case neg => exact hsh stem hst name hn suffix (by simpa [hp] using hm)
  case mpr =>
    intro h
    have hsub : ["", "_Dispatcher", "_Handler"] ⊆ ["", "_Proxy", "_Dispatcher", "_Handler"] := by
      decide
    refine ⟨⟨h.stems, h.names, ?_, h.name⟩, ⟨h.stems, h.names, ?_⟩, ?_⟩
    · exact fun stem hst name hn suffix hm => h.stem stem hst name hn suffix (hsub hm)
    · exact fun stem hst name hn suffix hm => h.stem stem hst name hn suffix (.tail _ hm)
    · simp only [List.forall_mem_map]
      exact fun name _ name' _ => hs name name'

end Names

namespace RpcPlugin

variable {Proto : Type} {protobuf : Protobuf Proto} {request : CodeGeneratorRequest Proto}
  {parameter : String} {files : List (Option FileDescriptor)} {context : GeneratorResponseContext}

theorem wholeFiles_addFiles {response : CodeGeneratorResponse} {files : List File} :
    (response.addFiles files).wholeFiles = response.wholeFiles ++ wholeFiles { files } := by
  simp [wholeFiles, addFiles]

theorem wholeFiles_named {names : List String} :
    wholeFiles { files := names.map ({ name := · }) } = names := by
  simp [wholeFiles, List.filter_map, Function.comp_def]

theorem isSome_insertionPoint {pool files : List FileDescriptor} :
    ∀ file ∈ inserts pool files, file.insertionPoint.isSome := by
  rw [inserts]
  simp only [List.forall_mem_append, List.forall_mem_flatMap, List.forall_mem_map]
  refine ⟨⟨fun file _ => ?_, fun file _ => ?_⟩, fun _ _ => rfl⟩
  · exact FileDescriptor.forall_vtkInserts (fun _ => rfl) fun _ _ => rfl
  · exact FileDescriptor.forall_externalInserts (fun _ _ => rfl) fun _ _ _ => rfl

theorem wholeFiles_inserts {pool files : List FileDescriptor} :
    wholeFiles { files := inserts pool files } = [] := by
  rw [wholeFiles, List.map_eq_nil_iff, List.filter_eq_nil_iff]
  intro file hf
  simpa [Option.isSome_iff_ne_none] using isSome_insertionPoint file hf

theorem callGenerators_wholeFiles (h : protobuf.NamesFiles) :
    (callGenerators protobuf parameter files context).map (·.snd.snd.wholeFiles) =
      (generated protobuf parameter files).map
        (context.wholeFiles ++ ·.flatMap (·.fileNames)) := by
  induction files generalizing context
  case nil => simp [callGenerators, generated]
  case cons file files hi =>
    cases file
    case none => simp [callGenerators, generated]
    case some file =>
      have hw := h file parameter
      rw [callGenerators_cons, generated]
      split
      case isFalse hg =>
        rw [if_neg hg] at hw
        simp [wholeFiles_addFiles, hw]
      case isTrue hg =>
        rw [if_pos hg] at hw
        rw [hi, RpcGenerator.generate_eq, wholeFiles_addFiles, wholeFiles_addFiles, hw,
          wholeFiles_named, Option.map_map]
        refine congrArg (Option.map · _) <| funext fun reached => ?_
        simp [FileDescriptor.fileNames]

theorem emittedFiles_eq (h : protobuf.NamesFiles) :
    emittedFiles protobuf request = (reached protobuf request).flatMap (·.fileNames) := by
  have hc : (callGenerators protobuf request.parameter (parsedFiles protobuf request) {}).map _ =
    (generated protobuf request.parameter (parsedFiles protobuf request)).map _ :=
      callGenerators_wholeFiles h
  rw [emittedFiles, reached]
  cases hm : main protobuf request
  case answered response =>
    obtain ⟨-, hn, result, error, generated, hg, rfl⟩ := main_eq_answered.mp hm
    rw [hg, Option.map_some, eq_comm, Option.map_eq_some_iff] at hc
    obtain ⟨reached, hr, he⟩ := hc
    have ha : (generated.addFiles <| inserts (pool protobuf request)
        (fileDescriptors protobuf request)).wholeFiles = _ := wholeFiles_addFiles
    rw [wholeFiles_inserts, List.append_nil, ← he] at ha
    rw [if_pos hn, hr]
    exact ha
  all_goals
    -- Without a response the files have not been built, or there has been a null pointer.
    dsimp only
    split
    case isFalse => rfl
    case isTrue hn =>
      cases hb : buildFiles protobuf request.protoFiles
      case none =>
        have hf : fileDescriptors protobuf request = [] := by simp [fileDescriptors, hb]
        simp [parsedFiles, hf, buildRpcFiles, generated]
      case some files =>
        cases hg : callGenerators protobuf request.parameter (parsedFiles protobuf request) {}
        case none =>
          rw [hg, Option.map_none, eq_comm, Option.map_eq_none_iff] at hc
          rw [hc]
          rfl
        case some val =>
          have ha := main_eq_answered.mpr ⟨by rw [hb]; rfl, hn, _, _, _, hg, rfl⟩
          rw [hm] at ha
          contradiction

theorem mem_of_generated {reached : List FileDescriptor} {file : FileDescriptor}
    (h : generated protobuf parameter files = some reached) (hf : file ∈ reached) :
    some file ∈ files := by
  induction files generalizing reached
  case nil => cases h; contradiction
  case cons head files hi =>
    cases head
    case none => contradiction
    case some head =>
      rw [generated] at h
      split at h
      case isFalse => cases h; contradiction
      case isTrue =>
        obtain ⟨reached, hr, rfl⟩ := Option.map_eq_some_iff.mp h
        rcases List.mem_cons.mp hf with rfl | hf
        case inl => exact List.mem_cons_self
        case inr => exact List.mem_cons_of_mem _ (hi hr hf)

theorem mem_buildRpcFiles {pool files : List FileDescriptor} {file : FileDescriptor}
    (h : some file ∈ (buildRpcFiles protobuf files pool).fst) :
    ∃ declaring ∈ files, Extends protobuf declaring file := by
  induction files generalizing pool
  case nil => contradiction
  case cons head files hi =>
    rw [buildRpcFiles] at h
    split at h
    case isFalse =>
      obtain ⟨declaring, hd, he⟩ := hi h
      exact ⟨declaring, List.mem_cons_of_mem _ hd, he⟩
    case isTrue hs =>
      rcases List.mem_cons.mp h with he | h
      case inl => exact ⟨head, List.mem_cons_self, hs, pool, he.symm⟩
      case inr =>
        obtain ⟨declaring, hd, he⟩ := hi h
        exact ⟨declaring, List.mem_cons_of_mem _ hd, he⟩

-- There is code for the files that protoc hands over, and for the extensions of those of them that
-- have services.
theorem mem_reached {file : FileDescriptor} (h : file ∈ reached protobuf request) :
    file ∈ fileDescriptors protobuf request ∨
      ∃ declaring ∈ fileDescriptors protobuf request, Extends protobuf declaring file := by
  rw [reached] at h
  split at h
  case isFalse => contradiction
  case isTrue =>
    cases hg : generated protobuf request.parameter (parsedFiles protobuf request)
    case none =>
      rw [hg] at h
      contradiction
    case some reached =>
      rw [hg] at h
      rcases List.mem_append.mp <| mem_of_generated hg h with hm | hm
      case inl =>
        obtain ⟨_, hd, he⟩ := List.mem_map.mp hm
        cases he
        exact .inl hd
      case inr => exact .inr <| mem_buildRpcFiles hm

theorem Extends.stem {declaring file : FileDescriptor} (h : Extends protobuf declaring file)
    (hk : protobuf.KeepsName) : file.stem = untilProto declaring.name ++ "_rpc" := by
  obtain ⟨-, pool, he⟩ := h
  have hn := hk _ _ _ he
  have hr : untilProto declaring.name ++ "_rpc.proto" =
      untilProto declaring.name ++ "_rpc" ++ ".proto" := by
    rw [String.append_assoc]
    rfl
  rw [addRpcMessageExtensions_name] at hn
  rw [FileDescriptor.stem, hn, hr, stripProto_append]

theorem emittedFiles_nodup (h : protobuf.NamesFiles) :
    (emittedFiles protobuf request).Nodup ↔ Separate (reached protobuf request) := by
  rw [emittedFiles_eq h, fileNames_nodup]

end RpcPlugin

namespace Salutation

theorem emittedFiles_nodup_crowdedRequest :
    (RpcPlugin.emittedFiles protobuf crowdedRequest).Nodup :=
  (RpcPlugin.emittedFiles_nodup protobuf_namesFiles).mpr {
    stems := by decide +kernel
    names := by decide +kernel
    stem  := by decide +kernel
    name  := by decide +kernel
  }

-- A service is named like its file, and both of them have a header.
def sameNameRequest : CodeGeneratorRequest FileDescriptor where
  protoFiles := [messagesFile, serviceFile "Query.proto" "Query" "readAxis"]

theorem not_emittedFiles_nodup : ¬(RpcPlugin.emittedFiles protobuf sameNameRequest).Nodup := by
  decide +kernel

end Salutation
end ProtoCall
