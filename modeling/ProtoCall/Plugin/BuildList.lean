import ProtoCall.Examples.Protobuf
import ProtoCall.Plugin.Files
import ProtoCall.Plugin.ProtoCallConfig

namespace ProtoCall

open RpcPlugin ProtoCallConfig

def sourceSuffixes : List String := ["_Proxy", "_Dispatcher", "_Handler"]

-- The sources that the macro lists for a file, without `.pb.cc`.
def ProtoCallConfig.ProtoFile.sources (file : ProtoFile) : List String :=
  file.nameWE :: (file.nameWE ++ "_rpc") ::
    (extractServiceNames file.text).flatMap fun name => sourceSuffixes.map (name ++ ·)

section Names

variable {files : List FileDescriptor} {file : ProtoFile}
  {name name' suffix suffix' source : String}

theorem suffix_inj (hs : suffix ∈ "_rpc" :: sourceSuffixes)
    (hs' : suffix' ∈ "_rpc" :: sourceSuffixes) (he : name ++ suffix = name' ++ suffix') :
    name = name' ∧ suffix = suffix' := by
  have ha : ∀ suffix ∈ "_rpc" :: sourceSuffixes, ∀ suffix' ∈ "_rpc" :: sourceSuffixes,
      suffix ≠ suffix' → ¬suffix.toList <:+ suffix'.toList := by
    decide +kernel
  by_cases h : suffix = suffix'
  case pos =>
    subst h
    exact ⟨append_injective he, rfl⟩
  case neg =>
    exact absurd he <| append_ne_append (ha _ hs _ hs' h) (ha _ hs' _ hs (Ne.symm h))

theorem mem_sources : source ∈ sources files ↔ source ∈ stems files ∨
    ∃ name ∈ serviceNames files, ∃ suffix ∈ sourceSuffixes, source = name ++ suffix := by
  simp only [sources, sourceSuffixes, List.mem_append, List.mem_map, List.exists_mem_cons_iff,
    List.not_mem_nil, false_and, exists_const, or_false, and_or_left, exists_or, @eq_comm _ source]

theorem append_mem_sources (hs : suffix ∈ "_rpc" :: sourceSuffixes) :
    name ++ suffix ∈ sources files ↔
      name ++ suffix ∈ stems files ∨ suffix ∈ sourceSuffixes ∧ name ∈ serviceNames files := by
  rw [mem_sources]
  apply or_congr_right
  constructor
  case mp =>
    rintro ⟨name', hn, suffix', hs', he⟩
    obtain ⟨rfl, rfl⟩ := suffix_inj hs (.tail _ hs') he
    exact ⟨hs', hn⟩
  case mpr => exact fun ⟨hs, hn⟩ => ⟨name, hn, suffix, hs, rfl⟩

theorem ServiceDescriptor.mem_fileNames {service : ServiceDescriptor} :
    source ++ ".pb.cc" ∈ service.fileNames ↔
      ∃ suffix ∈ sourceSuffixes, source = service.name ++ suffix := by
  have hh (name : String) : source ++ ".pb.cc" ≠ name ++ ".pb.h" :=
    append_ne_append (by decide) (by decide)
  simp only [ServiceDescriptor.fileNames_eq, sourceSuffixes, List.mem_cons, List.not_mem_nil, hh,
    String.append_left_inj, false_or, or_false, exists_eq_or_imp, exists_eq_left]

theorem append_mem_fileSources (hs : suffix ∈ sourceSuffixes) : name ++ suffix ∈ file.sources ↔
    file.nameWE = name ++ suffix ∨ Extracts file.text name := by
  rw [extracts_iff, ProtoFile.sources, List.mem_cons, List.mem_cons, @eq_comm _ (name ++ suffix)]
  apply or_congr_right
  constructor
  case mp =>
    rintro (he | hm)
    case inl =>
      obtain ⟨-, rfl⟩ := suffix_inj (.tail _ hs) (.head _) he
      contradiction
    case inr =>
      obtain ⟨name', hn, hm⟩ := List.mem_flatMap.mp hm
      obtain ⟨suffix', hs', he⟩ := List.mem_map.mp hm
      obtain ⟨rfl, -⟩ := suffix_inj (.tail _ hs') (.tail _ hs) he
      exact hn
  case mpr =>
    exact fun hn => .inr <| List.mem_flatMap.mpr ⟨name, hn, List.mem_map_of_mem hs⟩

end Names

section Output

variable {file : ProtoFile} {files : List ProtoFile} {lists : Lists} {output : String}

theorem mem_append_output : output ∈ (lists.append file).output ↔
    output ∈ lists.output ∨ output ∈ file.sources.map (· ++ ".pb.cc") := by
  simp only [Lists.append, Lists.output, ProtoFile.sources, sourceSuffixes, List.mem_append,
    List.mem_map, List.mem_flatMap, List.map_cons, List.map_nil, List.map_flatMap, List.mem_cons,
    List.not_mem_nil, or_false, @eq_comm _ _ output, and_or_left, exists_or]
  apply iff_of_eq
  ac_rfl

theorem mem_output : output ∈ (protocallc files).output ↔
    ∃ file ∈ files, output ∈ file.sources.map (· ++ ".pb.cc") := by
  have h (lists : Lists) : output ∈ (files.foldl .append lists).output ↔
      output ∈ lists.output ∨ ∃ file ∈ files, output ∈ file.sources.map (· ++ ".pb.cc") := by
    induction files generalizing lists
    case nil => simp
    case cons file files hi =>
      rw [List.foldl_cons, hi, mem_append_output, or_assoc, List.exists_mem_cons_iff]
  exact (h {}).trans <| by simp [Lists.output]

end Output

section Agreement

-- The files that the macro is given, with what protobuf makes of each of them, and a run of the
-- plugin.
variable {Proto : Type} (protobuf : Protobuf Proto) (request : CodeGeneratorRequest Proto)
  (parsed : ProtoFile → FileDescriptor) (files : List ProtoFile)

-- The plugin emits what the macro declares, and the macro lists the sources of every service that
-- the plugin gets to.
structure BuildAgrees : Prop where
  emitted : ∀ output ∈ (protocallc files).output, output ∈ emittedFiles protobuf request
  listed  : ∀ file ∈ files, parsed file ∈ reached protobuf request →
    ∀ service ∈ (parsed file).services, ∀ source, source ++ ".pb.cc" ∈ service.fileNames →
      source ++ ".pb.cc" ∈ (protocallc files).output

-- What is in front of the first dot of a file's name is the stem of a file that the plugin gets to.
-- With `_rpc` behind it, it is that of the extensions of a file with services, or else of a file that
-- is named so. The names that come out of the lines are those of services. It is only by accident
-- that a file is named like a source of a service.
structure Recognized : Prop where
  file      : ∀ file ∈ files, file.nameWE ∈ stems (reached protobuf request) ∨
    ∃ name ∈ serviceNames (reached protobuf request), ∃ suffix ∈ sourceSuffixes,
      file.nameWE = name ++ suffix
  rpcFile   : ∀ file ∈ files, ∃ rpcFile ∈ reached protobuf request,
    rpcFile.stem = file.nameWE ++ "_rpc" ∧
      ((∃ declaring ∈ fileDescriptors protobuf request, Extends protobuf declaring rpcFile) ∨
        rpcFile ∈ fileDescriptors protobuf request)
  extracted : ∀ file ∈ files, ∀ name, Extracts file.text name →
    name ∈ serviceNames (reached protobuf request) ∨
      ∀ suffix ∈ sourceSuffixes, name ++ suffix ∈ stems (reached protobuf request)
  service   : ∀ file ∈ files, parsed file ∈ reached protobuf request →
    ∀ service ∈ (parsed file).services, (∃ other ∈ files, Extracts other.text service.name) ∨
      ∀ suffix ∈ sourceSuffixes, ∃ other ∈ files, other.nameWE = service.name ++ suffix

variable {protobuf request parsed files}

theorem mem_emittedFiles (h : protobuf.NamesFiles) {source : String} :
    source ++ ".pb.cc" ∈ emittedFiles protobuf request ↔
      source ∈ sources (reached protobuf request) := by
  have hh (name : String) : name ++ ".pb.h" ≠ source ++ ".pb.cc" :=
    append_ne_append (by decide) (by decide)
  rw [emittedFiles_eq h, fileNames_perm.mem_iff]
  simp only [List.mem_append, List.mem_map, hh, String.append_left_inj, and_false, exists_false,
    false_or, exists_eq_right]

theorem emitted_iff (h : protobuf.NamesFiles) :
    (∀ output ∈ (protocallc files).output, output ∈ emittedFiles protobuf request) ↔
      ∀ file ∈ files, ∀ source ∈ file.sources, source ∈ sources (reached protobuf request) := by
  simp only [mem_output, List.mem_map, forall_exists_index, and_imp]
  constructor
  case mp =>
    intro ho file hf source hs
    exact (mem_emittedFiles h).mp <| ho _ file hf source hs rfl
  case mpr =>
    rintro hr _ file hf source hs rfl
    exact (mem_emittedFiles h).mpr <| hr file hf source hs

theorem forall_fileSources {file : ProtoFile} {p : String → Prop} :
    (∀ source ∈ file.sources, p source) ↔ p file.nameWE ∧ p (file.nameWE ++ "_rpc") ∧
      ∀ name, Extracts file.text name → ∀ suffix ∈ sourceSuffixes, p (name ++ suffix) := by
  simp only [ProtoFile.sources, List.forall_mem_cons, List.forall_mem_flatMap, List.forall_mem_map,
    extracts_iff]

theorem listed_iff : (∀ file ∈ files, parsed file ∈ reached protobuf request →
    ∀ service ∈ (parsed file).services, ∀ source, source ++ ".pb.cc" ∈ service.fileNames →
      source ++ ".pb.cc" ∈ (protocallc files).output) ↔
    ∀ file ∈ files, parsed file ∈ reached protobuf request → ∀ service ∈ (parsed file).services,
      ∀ suffix ∈ sourceSuffixes, ∃ other ∈ files, service.name ++ suffix ∈ other.sources := by
  simp only [ServiceDescriptor.mem_fileNames, mem_output, List.mem_map, String.append_left_inj,
    exists_eq_right, forall_exists_index, and_imp]
  refine forall₂_congr fun file _ => forall_congr' fun _ => forall₂_congr fun service _ => ?_
  constructor
  case mp => exact fun h suffix hs => h _ suffix hs rfl
  case mpr =>
    rintro h _ suffix hs rfl
    exact h suffix hs

theorem exists_rpcFile {stem : String} (h : stem ∈ stems (reached protobuf request)) :
    ∃ rpcFile ∈ reached protobuf request, rpcFile.stem = stem ∧
      ((∃ declaring ∈ fileDescriptors protobuf request, Extends protobuf declaring rpcFile) ∨
        rpcFile ∈ fileDescriptors protobuf request) := by
  obtain ⟨rpcFile, hr, he⟩ := List.mem_map.mp h
  exact ⟨rpcFile, hr, he, (mem_reached hr).symm⟩

theorem BuildAgrees.recognized (h : protobuf.NamesFiles)
    (ha : BuildAgrees protobuf request parsed files) :
    Recognized protobuf request parsed files where
  file file hf := by
    have hs := forall_fileSources.mp <| (emitted_iff h).mp ha.emitted file hf
    exact mem_sources.mp hs.left
  rpcFile file hf := by
    have hs := forall_fileSources.mp <| (emitted_iff h).mp ha.emitted file hf
    refine exists_rpcFile <| (append_mem_sources (.head _)).mp hs.right.left |>.resolve_right ?_
    exact fun hr => absurd hr.left (by decide)
  extracted file hf name hn := by
    have hs := forall_fileSources.mp <| (emitted_iff h).mp ha.emitted file hf
    apply or_iff_not_imp_left.mpr
    intro hne suffix hm
    have hx := hs.right.right name hn suffix hm
    exact (append_mem_sources (.tail _ hm)).mp hx |>.resolve_right fun hr => hne hr.right
  service file hf hr service hs := by
    apply or_iff_not_imp_left.mpr
    intro hne suffix hm
    obtain ⟨other, ho, hso⟩ := listed_iff.mp ha.listed file hf hr service hs suffix hm
    refine ⟨other, ho, (append_mem_fileSources hm).mp hso |>.resolve_right ?_⟩
    exact fun hn => hne ⟨other, ho, hn⟩

theorem Recognized.buildAgrees (h : protobuf.NamesFiles)
    (hr : Recognized protobuf request parsed files) :
    BuildAgrees protobuf request parsed files where
  emitted := by
    refine (emitted_iff h).mpr fun file hf => forall_fileSources.mpr ⟨?_, ?_, ?_⟩
    · exact mem_sources.mpr (hr.file file hf)
    · obtain ⟨rpcFile, hm, he, -⟩ := hr.rpcFile file hf
      exact (append_mem_sources (.head _)).mpr <| .inl <| he ▸ List.mem_map_of_mem hm
    · intro name hn suffix hm
      rcases hr.extracted file hf name hn with hs | hs
      case inl => exact (append_mem_sources (.tail _ hm)).mpr <| .inr ⟨hm, hs⟩
      case inr => exact (append_mem_sources (.tail _ hm)).mpr <| .inl (hs suffix hm)
  listed := by
    apply listed_iff.mpr
    intro file hf hm service hs suffix hx
    rcases hr.service file hf hm service hs with ⟨other, ho, hn⟩ | ho
    case inl => exact ⟨other, ho, (append_mem_fileSources hx).mpr (.inr hn)⟩
    case inr =>
      obtain ⟨other, ho, hn⟩ := ho suffix hx
      exact ⟨other, ho, (append_mem_fileSources hx).mpr (.inl hn)⟩

-- A file without services has no source for its extensions, unless there is another file behind the
-- name that the macro makes up.
theorem not_buildAgrees_of_services (h : protobuf.NamesFiles) (hk : protobuf.KeepsName)
    {file : ProtoFile} (hf : file ∈ files)
    (hs : ∀ declaring ∈ fileDescriptors protobuf request, declaring.services.length > 0 →
      untilProto declaring.name ≠ file.nameWE)
    (hr : file.nameWE ++ "_rpc" ∉ stems (fileDescriptors protobuf request)) :
    ¬BuildAgrees protobuf request parsed files := by
  intro ha
  obtain ⟨rpcFile, -, he, ⟨declaring, hd, hx⟩ | hm⟩ := (ha.recognized h).rpcFile file hf
  case inl => exact hs declaring hd hx.left <| append_injective <| (Extends.stem hx hk).symm.trans he
  case inr => exact hr <| he ▸ List.mem_map_of_mem hm

-- A service is lost if what stands in front of its body takes more than one line.
theorem not_buildAgrees_of_declares (h : protobuf.NamesFiles) {file : ProtoFile} (hf : file ∈ files)
    (hr : parsed file ∈ reached protobuf request) {service : ServiceDescriptor}
    (hs : service ∈ (parsed file).services)
    (hp : ∀ other ∈ files, ∀ line ∈ CMake.strings other.text.toList, CMake.Plain line)
    (hd : ∀ other ∈ files, ∀ line ∈ CMake.strings other.text.toList,
      ¬Declares (line.filter (· ≠ ';')) service.name.toList)
    (hw : ∀ other ∈ files, other.nameWE ≠ service.name ++ "_Proxy") :
    ¬BuildAgrees protobuf request parsed files := by
  intro ha
  rcases (ha.recognized h).service file hf hr service hs with ⟨other, ho, he⟩ | hn
  case inl =>
    obtain ⟨-, line, hl, -, hdl⟩ := (extracts_of_plain (hp other ho)).mp he
    exact hd other ho line hl hdl
  case inr =>
    obtain ⟨other, ho, he⟩ := hn "_Proxy" (.head _)
    exact hw other ho he

theorem buildAgrees_iff (h : protobuf.NamesFiles) : BuildAgrees protobuf request parsed files ↔
    Recognized protobuf request parsed files :=
  ⟨BuildAgrees.recognized h, Recognized.buildAgrees h⟩

end Agreement

namespace Salutation

def queryProto : ProtoFile where
  path := "src/query.proto"
  text := "service QueryService \x7b\n  rpc readAxis(Request) returns (Response);\n\x7d\n"

def queryRequest : CodeGeneratorRequest FileDescriptor where
  protoFiles := [messagesFile, serviceFile "query.proto" "QueryService" "readAxis"]

theorem buildAgrees_queryProto : BuildAgrees protobuf queryRequest
    (fun _ => serviceFile "query.proto" "QueryService" "readAxis") [queryProto] := by
  have he : extractServiceNames queryProto.text = ["QueryService"] := by decide +kernel
  refine (buildAgrees_iff protobuf_namesFiles).mpr {
    file      := by decide +kernel
    rpcFile   := ?rpcFile
    extracted := ?extracted
    service   := ?service
  }
  case rpcFile =>
    intro file hf
    cases List.mem_singleton.mp hf
    exact exists_rpcFile (by decide +kernel)
  case extracted =>
    intro file hf name hn
    cases List.mem_singleton.mp hf
    rw [extracts_iff, he] at hn
    cases List.mem_singleton.mp hn
    decide +kernel
  case service =>
    intro file hf _ service hs
    cases List.mem_singleton.mp hs
    refine .inl ⟨queryProto, List.mem_cons_self, extracts_iff.mpr ?_⟩
    rw [he]
    decide +kernel

def messagesProto : ProtoFile where
  path := "src/messages.proto"
  text := "message Request \x7b\x7d\nmessage Response \x7b\x7d\n"

-- Both of the messages are in a file of their own, where there are no services.
theorem not_buildAgrees_messagesProto : ¬BuildAgrees protobuf { protoFiles := [messagesFile] }
    (fun _ => messagesFile) [messagesProto] := by
  refine not_buildAgrees_of_services protobuf_namesFiles protobuf_keepsName List.mem_cons_self ?_ ?_
  · decide +kernel
  · decide +kernel

end Salutation
end ProtoCall
