import ProtoCall.Examples.Protobuf
import ProtoCall.Plugin.Main

namespace ProtoCall

open CodeGeneratorResponse

-- The messages of a file are those at its top, and what is inside of them.
def FileDescriptor.declares (file : FileDescriptor) (name : String) : Bool :=
  file.messageTypes.any fun d => startsWith (d.fullName ++ ".") (name ++ ".")

-- What goes to the end of a class goes into the header of the file that declares the class.
def CodeGeneratorResponse.File.Lands (files : List FileDescriptor) (file : File) : Prop :=
  ∀ name, file.insertionPoint = some ("class_scope:" ++ name) →
    ∃ declaring ∈ files, declaring.declares name ∧ file.name = declaring.stem ++ ".pb.h"

def CodeGeneratorResponse.File.holdsError (name : String) (file : File) : Bool :=
  file.insertionPoint = some ("class_scope:" ++ name) && file.content = .errorHolder

namespace RpcPlugin

-- All that is inserted lands, and each type that a method answers with gets just one error holder.
structure InsertsLand (files : List FileDescriptor) (inserted : List File) : Prop where
  lands  : ∀ file ∈ inserted, file.Lands files
  errors : ∀ file ∈ files, ∀ type ∈ file.responseTypes, inserted.countP (·.holdsError type) = 1

-- The files as a pool builds them. Their names differ, no file declares a message of another one,
-- also not inside of one, and what the methods answer with is declared.
structure WellFormed (files : List FileDescriptor) : Prop where
  names    : (files.map (·.name)).Nodup
  apart    : ∀ file ∈ files, ∀ file' ∈ files, ∀ d ∈ file.messageTypes, ∀ d' ∈ file'.messageTypes,
    startsWith (d.fullName ++ ".") (d'.fullName ++ ".") → file = file'
  declared : ∀ file ∈ files, ∀ type ∈ file.responseTypes, ∃ file' ∈ files, file'.declares type

-- Every name has a `.proto`, and a file with external types has it at the end only. What is in
-- `protocall/vtk.proto` is in a package or in a message `vtk`. The first file that uses a type, with
-- its name up to the first `.proto`, goes by the name of the file that declares the type, without
-- its suffix: with the usual names, it is that file.
structure Placed (files : List FileDescriptor) : Prop where
  named    : ∀ file ∈ files, (toHeader file.name).isSome
  vtk      : ∀ file ∈ files, file.name = "protocall/vtk.proto" → ∀ d ∈ file.messageTypes,
    file.declares ("vtk." ++ d.name)
  external : ∀ file ∈ files, ∀ d ∈ file.messageTypes, startsWith "external." d.fullName →
    file.stem = untilProto file.name
  response : ∀ use ∈ uses files, (uses files).find? (·.snd = use.snd) = some use →
    ∀ file ∈ files, file.declares use.snd → file.stem = untilProto use.fst.name

variable {files : List FileDescriptor}

theorem WellFormed.unique (h : WellFormed files) {file file' : FileDescriptor} {name : String}
    (hf : file ∈ files) (hf' : file' ∈ files) (hd : file.declares name)
    (hd' : file'.declares name) : file = file' := by
  rw [FileDescriptor.declares, List.any_eq_true] at hd hd'
  obtain ⟨d, hd, hp⟩ := hd
  obtain ⟨d', hd', hp'⟩ := hd'
  rw [startsWith, List.isPrefixOf_iff_prefix] at hp hp'
  rcases List.prefix_or_prefix_of_prefix hp hp' with hpp | hpp
  case inl => exact h.apart file hf file' hf' d hd d' hd' (List.isPrefixOf_iff_prefix.mpr hpp)
  case inr =>
    exact (h.apart file' hf' file hf d' hd' d hd (List.isPrefixOf_iff_prefix.mpr hpp)).symm

theorem WellFormed.eq_of_name (h : WellFormed files) {file file' : FileDescriptor}
    (hf : file ∈ files) (hf' : file' ∈ files) (hn : file.name = file'.name) : file = file' :=
  List.inj_on_of_nodup_map h.names hf hf' hn

-- `class_scope:name` in the header that is made up of a stem.
def Target (files : List FileDescriptor) (stem name : String) : Prop :=
  ∃ declaring ∈ files, declaring.declares name ∧ declaring.stem = stem

theorem lands_iff {stem name : String} {content : Fragment} : File.Lands files
    { name := stem ++ ".pb.h", insertionPoint := "class_scope:" ++ name, content } ↔
      Target files stem name := by
  constructor
  case mp =>
    intro h
    obtain ⟨declaring, hf, hd, hn⟩ := h name rfl
    exact ⟨declaring, hf, hd, (append_injective hn).symm⟩
  case mpr =>
    rintro ⟨declaring, hf, hd, rfl⟩ name' hn
    cases String.append_right_inj _ |>.mp <| Option.some.inj hn
    exact ⟨declaring, hf, hd, rfl⟩

theorem lands_includes {name : String} {content : Fragment} :
    File.Lands files { name, insertionPoint := "includes", content } := by
  intro name h
  simpa using congrArg String.toList <| Option.some.inj h

theorem lands_pair (stem : String) {header name : String} {content content' : Fragment} :
    (∀ file ∈ [
      { name := header, insertionPoint := "includes", content := content },
      { name := stem ++ ".pb.h", insertionPoint := "class_scope:" ++ name, content := content' }],
      File.Lands files file) ↔ Target files stem name := by
  rw [List.forall_mem_cons, List.forall_mem_singleton, lands_iff]
  exact and_iff_right lands_includes

theorem vtkInserts_land {file : FileDescriptor} : (∀ f ∈ file.vtkInserts, f.Lands files) ↔
    ∀ d ∈ file.messageTypes, Target files "protocall/vtk" ("vtk." ++ d.name) := by
  have hs (name : String) : "class_scope:vtk." ++ name = "class_scope:" ++ ("vtk." ++ name) := by
    rw [← String.append_assoc]
    rfl
  rw [FileDescriptor.vtkInserts, List.forall_mem_cons, List.forall_mem_flatMap,
    and_iff_right lands_includes]
  apply forall₂_congr
  intro d _
  simp only [addVtkInsert, hs]
  exact lands_pair "protocall/vtk"

theorem externalInserts_land {file : FileDescriptor} (h : (toHeader file.name).isSome) :
    (∀ f ∈ file.externalInserts, f.Lands files) ↔ ∀ d ∈ file.messageTypes,
      startsWith "external." d.fullName → Target files (untilProto file.name) d.fullName := by
  rw [FileDescriptor.externalInserts, List.forall_mem_flatMap]
  apply forall₂_congr
  intro d _
  rw [addExternalTypeInsert, toHeader_eq h]
  by_cases he : startsWith "external." d.fullName
  case pos =>
    rw [if_neg (by simp [he])]
    simp only [he, true_imp_iff]
    exact lands_pair _
  case neg =>
    rw [if_pos (by simp [he])]
    simp [he]

theorem errorInserts_land : (∀ f ∈ (FirstUse.take Prod.snd [] (uses files)).map
      fun use => use.fst.errorInsert use.snd, f.Lands files) ↔
    ∀ file type, (uses files).find? (·.snd = type) = some (file, type) →
      Target files (untilProto file.name) type := by
  simp only [List.forall_mem_map, FirstUse.mem_take, List.not_mem_nil, not_false_eq_true, true_and,
    Prod.forall]
  refine forall₂_congr fun file type => imp_congr Iff.rfl lands_iff

theorem inserts_land {pool : List FileDescriptor}
    (h : ∀ file ∈ files, (toHeader file.name).isSome) :
    (∀ file ∈ inserts pool files, file.Lands files) ↔
      (∀ file, pool.find? (·.name = "protocall/vtk.proto") = some file → ∀ d ∈ file.messageTypes,
        Target files "protocall/vtk" ("vtk." ++ d.name)) ∧
      (∀ file ∈ files, ∀ d ∈ file.messageTypes, startsWith "external." d.fullName →
        Target files (untilProto file.name) d.fullName) ∧
      ∀ file type, (uses files).find? (·.snd = type) = some (file, type) →
        Target files (untilProto file.name) type := by
  rw [inserts, List.forall_mem_append, List.forall_mem_append, and_assoc, errorInserts_land]
  simp only [List.forall_mem_flatMap, Option.mem_toList, vtkInserts_land]
  refine and_congr_right fun _ => and_congr_left fun _ => ?_
  exact forall₂_congr fun file hf => externalInserts_land (h file hf)

theorem countP_inserts {pool : List FileDescriptor} {file : FileDescriptor} {type : String}
    (hf : file ∈ files) (ht : type ∈ file.responseTypes) :
    (inserts pool files).countP (·.holdsError type) = 1 := by
  have hv : ((pool.find? (·.name = "protocall/vtk.proto")).toList.flatMap
      (·.vtkInserts)).countP (·.holdsError type) = 0 := by
    refine List.countP_eq_zero.mpr <| List.forall_mem_flatMap.mpr fun file _ => ?_
    exact FileDescriptor.forall_vtkInserts (by simp [File.holdsError]) (by simp [File.holdsError])
  have he : (files.flatMap (·.externalInserts)).countP (·.holdsError type) = 0 := by
    refine List.countP_eq_zero.mpr <| List.forall_mem_flatMap.mpr fun file _ => ?_
    exact FileDescriptor.forall_externalInserts (by simp [File.holdsError])
      (by simp [File.holdsError])
  have hu : type ∈ (uses files).map Prod.snd := by
    rw [uses, List.map_flatMap, List.mem_flatMap]
    exact ⟨file, hf, by simpa using ht⟩
  have hc : (fun use : FileDescriptor × String =>
      (use.fst.errorInsert use.snd).holdsError type) = fun use => use.snd == type := by
    funext use
    simp [File.holdsError, FileDescriptor.errorInsert, beq_eq_decide]
  rw [inserts, List.countP_append, List.countP_append, hv, he, List.countP_map, Function.comp_def,
    hc]
  have ho := FirstUse.count_take hu
  rw [List.count, List.countP_map, Function.comp_def] at ho
  simpa using ho

variable {Proto : Type} {protobuf : Protobuf Proto} {request : CodeGeneratorRequest Proto}

-- A run adds the same to whatever the generators have written, and that lands.
def InsertsLandIn (protobuf : Protobuf Proto) (request : CodeGeneratorRequest Proto) : Prop :=
  ∃ inserted, InsertsLand (fileDescriptors protobuf request) inserted ∧ ∀ response,
    addInserts (pool protobuf request) (fileDescriptors protobuf request) response =
      some (response.addFiles inserted)

theorem buildRpcFiles_find? (h : protobuf.KeepsName) {files pool : List FileDescriptor} :
    (buildRpcFiles protobuf files pool).snd.find? (·.name = "protocall/vtk.proto") =
      pool.find? (·.name = "protocall/vtk.proto") := by
  induction files generalizing pool
  case nil => rfl
  case cons file files hi =>
    rw [buildRpcFiles]
    split
    case isFalse => exact hi
    case isTrue =>
      simp only [hi, List.find?_append]
      cases hb : protobuf.buildRpcFile pool (addRpcMessageExtensions file).snd
      case none => simp
      case some rpcFile =>
        have hv : "protocall/vtk.proto" = "protocall/" ++ "vtk.proto" := by decide
        have hn : rpcFile.name ≠ "protocall/vtk.proto" := by
          rw [h _ _ _ hb, addRpcMessageExtensions_name, hv]
          exact append_ne_append (by decide) (by decide)
        simp [hn]

theorem stripProto_eq {name stem : String} (h : stripProto name = stem) :
    name = stem ++ ".proto" ∨ name = stem := by
  rw [stripProto] at h
  split at h
  case isFalse => exact .inr h
  case isTrue hs =>
    obtain ⟨pre, hp⟩ := List.isSuffixOf_iff_suffix.mp hs
    left
    rw [← h, ← String.toList_inj, ← hp]
    simp

theorem declares_self {file : FileDescriptor} {d : Descriptor} (h : d ∈ file.messageTypes) :
    file.declares d.fullName :=
  List.any_eq_true.mpr ⟨d, h, List.isPrefixOf_iff_prefix.mpr (List.prefix_refl _)⟩

theorem mem_of_uses {files : List FileDescriptor} {file : FileDescriptor} {type : String}
    (h : (uses files).find? (·.snd = type) = some (file, type)) :
    file ∈ files ∧ type ∈ file.responseTypes := by
  obtain ⟨file', hf, hu⟩ := List.mem_flatMap.mp <| List.mem_of_find?_eq_some h
  obtain ⟨type', ht, he⟩ := List.mem_map.mp hu
  cases he
  exact ⟨hf, ht⟩

theorem lands_iff_placed {files : List FileDescriptor} (h : WellFormed files)
    (hn : ∀ file ∈ files, (toHeader file.name).isSome) :
    (∀ file ∈ inserts files files, file.Lands files) ↔ Placed files := by
  rw [inserts_land hn]
  constructor
  case mp =>
    rintro ⟨hv, he, hr⟩
    constructor
    case named => exact hn
    case vtk =>
      intro file hf hname d hd
      obtain ⟨file', hfind⟩ := Option.isSome_iff_exists.mp <| List.find?_isSome
        (p := (·.name = "protocall/vtk.proto")) |>.mpr ⟨file, hf, by simpa using hname⟩
      have hname' : file'.name = "protocall/vtk.proto" := by simpa using List.find?_some hfind
      have hf' := List.mem_of_find?_eq_some hfind
      cases h.eq_of_name hf hf' (hname.trans hname'.symm)
      obtain ⟨declaring, hdf, hdd, hs⟩ := hv file hfind d hd
      rcases stripProto_eq hs with hdn | hdn
      case inl => rwa [h.eq_of_name hf hdf (hname.trans hdn.symm)]
      case inr =>
        -- A file without the suffix would not have got this far.
        have hsome := hn declaring hdf
        rw [hdn] at hsome
        exact absurd hsome (by decide)
    case external =>
      intro file hf d hd hext
      obtain ⟨declaring, hf', hd', hs⟩ := he file hf d hd hext
      rw [← hs, h.unique hf' hf hd' (declares_self hd)]
    case response =>
      intro use _ hu file hf hd
      obtain ⟨declaring, hf', hd', hs⟩ := hr use.fst use.snd hu
      rw [← hs, h.unique hf' hf hd' hd]
  case mpr =>
    intro hp
    refine ⟨?_, ?_, ?_⟩
    · intro file hfind d hd
      have hf := List.mem_of_find?_eq_some hfind
      have hname : file.name = "protocall/vtk.proto" := by simpa using List.find?_some hfind
      refine ⟨file, hf, hp.vtk file hf hname d hd, ?_⟩
      rw [FileDescriptor.stem, hname]
      decide
    · exact fun file hf d hd hext => ⟨file, hf, declares_self hd, hp.external file hf d hd hext⟩
    · intro file type hu
      obtain ⟨hf, ht⟩ := mem_of_uses hu
      obtain ⟨declaring, hd, hdd⟩ := h.declared file hf type ht
      exact ⟨declaring, hd, hdd, hp.response _ (List.mem_of_find?_eq_some hu) hu declaring hd hdd⟩

theorem insertsLandIn_iff (h : WellFormed (fileDescriptors protobuf request))
    (hk : protobuf.KeepsName) :
    InsertsLandIn protobuf request ↔ Placed (fileDescriptors protobuf request) := by
  have hp : inserts (pool protobuf request) (fileDescriptors protobuf request) =
      inserts (fileDescriptors protobuf request) (fileDescriptors protobuf request) := by
    rw [inserts, inserts, pool, buildRpcFiles_find? hk]
  constructor
  case mp =>
    rintro ⟨inserted, hl, ha⟩
    obtain ⟨hn, he⟩ := addInserts_eq_some.mp (ha {})
    have hi := congrArg (·.files) he
    simp only [addFiles, List.nil_append, hp] at hi
    exact (lands_iff_placed h hn).mp (hi ▸ hl.lands)
  case mpr =>
    intro hpl
    refine ⟨_, ⟨?_, ?_⟩, fun response => addInserts_eq hpl.named⟩
    · exact hp ▸ (lands_iff_placed h hpl.named).mpr hpl
    · exact fun file hf type ht => countP_inserts hf ht

end RpcPlugin

namespace Salutation

-- What comes with the runtime, as far as it matters here, and a service with its messages.
def helloRequest : CodeGeneratorRequest FileDescriptor where
  protoFiles := [
    { name         := "protocall/vtk.proto"
      package      := "vtk"
      messageTypes := [⟨"vtk.vtkTable", []⟩, ⟨"vtk.vtkTree", []⟩] },
    { name         := "protocall/void.proto"
      messageTypes := [void] },
    { name         := "hello.proto"
      dependencies := ["protocall/vtk.proto", "protocall/void.proto"]
      messageTypes := [request, response, notification, requestVTK, responseVTK]
      services     := [service] }
  ]

theorem insertsLandIn_helloRequest : RpcPlugin.InsertsLandIn protobuf helloRequest := by
  refine (RpcPlugin.insertsLandIn_iff ?_ protobuf_keepsName).mpr ?_
  · constructor <;> decide +kernel
  · constructor <;> decide +kernel

-- A service that answers with a message of a file that it imports.
def importRequest : CodeGeneratorRequest FileDescriptor where
  protoFiles := [messagesFile, serviceFile "query.proto" "QueryService" "readAxis"]

theorem not_insertsLandIn : ¬RpcPlugin.InsertsLandIn protobuf importRequest := by
  rintro ⟨inserted, hl, ha⟩
  have hi := congrArg (·.files) (RpcPlugin.addInserts_eq_some.mp (ha {})).right
  simp only [addFiles, List.nil_append] at hi
  have hm : File.mk "query.pb.h" "class_scope:Response" .errorHolder ∈ inserted := by
    rw [hi]
    decide +kernel
  exact absurd (hl.lands _ hm "Response" rfl) (by decide +kernel)

end Salutation
end ProtoCall
