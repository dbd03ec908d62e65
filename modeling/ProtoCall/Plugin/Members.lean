import ProtoCall.Plugin.Placement

namespace ProtoCall

open CodeGeneratorResponse

-- What is declared in the class that the code is inserted into.
def Fragment.members : Fragment → List String
  | .code | .include _      => []
  | .vtkObjectHolder _      => ["VTKObjectHolder", "m_holder", "set", "set_allocated", "get"]
  | .externalObjectHolder _ => ["ExternalObjectHolder", "m_holder", "set", "set_allocated", "get"]
  | .errorHolder            => [
    "ErrorHolder", "m_holder", "setErrorCode", "setErrorString", "errorCode", "errorString",
    "hasError"
  ]

def CodeGeneratorResponse.File.scopes (name : String) (file : File) : Bool :=
  file.insertionPoint = some ("class_scope:" ++ name)

-- All that is inserted into one class.
def CodeGeneratorResponse.members (name : String) (inserted : List File) : List String :=
  (inserted.filter (·.scopes name)).flatMap (·.content.members)

def FileDescriptor.externalTypes (file : FileDescriptor) : List String :=
  file.messageTypes.flatMap fun d => if startsWith "external." d.fullName then [d.fullName] else []

theorem FileDescriptor.externalTypes_eq {file : FileDescriptor} : file.externalTypes =
    (file.messageTypes.map (·.fullName)).filter (startsWith "external.") := by
  rw [externalTypes]
  induction file.messageTypes
  case nil => rfl
  case cons d ds hi =>
    rw [List.flatMap_cons, hi, List.map_cons, List.filter_cons]
    split <;> rfl

namespace RpcPlugin

-- The types whose classes hold an object.
def objectTypes (files : List FileDescriptor) : List String :=
  ((files.find? (·.name = "protocall/vtk.proto")).toList.flatMap fun file =>
    file.messageTypes.map fun d => "vtk." ++ d.name) ++ files.flatMap (·.externalTypes)

variable {α β γ : Type*} {as : List α} {f : α → List β} {g : α → List γ} {p : β → Bool}
  {q : γ → Bool}

theorem countP_flatMap_congr (h : ∀ a ∈ as, (f a).countP p = (g a).countP q) :
    (as.flatMap f).countP p = (as.flatMap g).countP q := by
  induction as
  case nil => rfl
  case cons a as hi =>
    rw [List.flatMap_cons, List.flatMap_cons, List.countP_append, List.countP_append,
      h a List.mem_cons_self, hi fun b hb => h b <| List.mem_cons_of_mem a hb]

-- Lists that have something in common are only put together without a double if there is just one.
theorem nodup_flatMap_iff {b : β} (h : ∀ a ∈ as, (f a).Nodup ∧ b ∈ f a) :
    (as.flatMap f).Nodup ↔ as.length ≤ 1 := by
  rcases as with _ | ⟨a, _ | ⟨a', as⟩⟩
  case nil => simp
  case cons.nil => simpa using (h a List.mem_cons_self).left
  case cons.cons =>
    have ha := (h a List.mem_cons_self).right
    have ha' := (h a' <| List.mem_cons_of_mem a List.mem_cons_self).right
    refine iff_of_false (fun hn => ?_) (by simp)
    rw [List.flatMap_cons, List.flatMap_cons] at hn
    exact List.disjoint_of_nodup_append hn ha <| List.mem_append_left _ ha'

variable {files : List FileDescriptor} {file : FileDescriptor} {name scope header path : String}
  {content : Fragment}

theorem scopes_includes : File.scopes name
    { name := header, insertionPoint := "includes", content := .include path } = false := by
  refine decide_eq_false fun he => ?_
  simpa using congrArg String.toList <| Option.some.inj he

theorem scopes_class : File.scopes name
    { name := header, insertionPoint := "class_scope:" ++ scope, content } = (scope == name) := by
  simp only [File.scopes, Option.some.injEq, String.append_right_inj, beq_eq_decide]

theorem countP_vtkInserts : file.vtkInserts.countP (·.scopes name) =
    (file.messageTypes.map fun d => "vtk." ++ d.name).count name := by
  rw [FileDescriptor.vtkInserts, List.countP_cons_of_neg (by simp [scopes_includes]),
    ← List.flatMap_pure_eq_map]
  refine countP_flatMap_congr fun d _ => ?_
  have hs : "class_scope:vtk." ++ d.name = "class_scope:" ++ ("vtk." ++ d.name) := by
    rw [← String.append_assoc]
    rfl
  simp only [addVtkInsert, addFile, hs, Function.comp_apply, List.pure_def, List.nil_append,
    List.cons_append, List.countP_cons, List.countP_nil, scopes_includes, scopes_class,
    Bool.false_eq_true, ↓reduceIte, Nat.add_zero, Nat.zero_add]

theorem countP_externalInserts (h : (toHeader file.name).isSome) :
    file.externalInserts.countP (·.scopes name) = file.externalTypes.count name := by
  refine countP_flatMap_congr fun d _ => ?_
  rw [addExternalTypeInsert, toHeader_eq h]
  cases startsWith "external." d.fullName
  case false => rfl
  case true =>
    simp only [Bool.not_true, Bool.false_eq_true, ↓reduceIte, Option.bind_eq_bind, Option.bind_some,
      Option.pure_def, Option.getD_some, addFile, List.nil_append, List.cons_append,
      List.countP_cons, List.countP_nil, scopes_includes, scopes_class, Nat.add_zero, Nat.zero_add]

-- How often something is inserted into a class.
theorem countP_inserts_scopes (hn : ∀ file ∈ files, (toHeader file.name).isSome) :
    (inserts files files).countP (·.scopes name) =
      (objectTypes files ++ (FirstUse.take Prod.snd [] (uses files)).map Prod.snd).count name := by
  have he (use : FileDescriptor × String) :
      (use.fst.errorInsert use.snd).scopes name = (use.snd == name) := scopes_class
  rw [inserts, List.countP_append, List.countP_append, objectTypes, List.count_append,
    List.count_append, List.countP_map, List.count, List.countP_map, Function.comp_def]
  simp only [he]
  congr 2
  · exact countP_flatMap_congr fun _ _ => countP_vtkInserts
  · exact countP_flatMap_congr fun file hf => countP_externalInserts (hn file hf)

-- Everything that is inserted into classes declares one name.
theorem members_of_scopes {pool : List FileDescriptor} : ∀ file ∈ inserts pool files,
    file.scopes name → file.content.members.Nodup ∧ "m_holder" ∈ file.content.members := by
  have hv (type : String) : (Fragment.vtkObjectHolder type).members.Nodup ∧
      "m_holder" ∈ (Fragment.vtkObjectHolder type).members := by simp [Fragment.members]
  have he (cls : String) : (Fragment.externalObjectHolder cls).members.Nodup ∧
      "m_holder" ∈ (Fragment.externalObjectHolder cls).members := by simp [Fragment.members]
  have hr : Fragment.errorHolder.members.Nodup ∧ "m_holder" ∈ Fragment.errorHolder.members := by
    simp [Fragment.members]
  rw [inserts]
  simp only [List.forall_mem_append, List.forall_mem_flatMap, List.forall_mem_map]
  refine ⟨⟨fun file _ => ?_, fun file _ => ?_⟩, fun _ _ _ => hr⟩
  · refine FileDescriptor.forall_vtkInserts (fun _ h => ?_) fun _ type _ => hv type
    rw [scopes_includes] at h
    contradiction
  · refine FileDescriptor.forall_externalInserts (fun _ _ h => ?_) fun _ _ cls _ => he cls
    rw [scopes_includes] at h
    contradiction

-- Nothing is inserted into a class twice if no name is an object's and a response's.
theorem members_nodup (hn : ∀ file ∈ files, (toHeader file.name).isSome) :
    (∀ name, (members name (inserts files files)).Nodup) ↔
      (objectTypes files ++ (FirstUse.take Prod.snd [] (uses files)).map Prod.snd).Nodup := by
  rw [List.nodup_iff_count_le_one]
  refine forall_congr' fun name => ?_
  rw [← countP_inserts_scopes hn, List.countP_eq_length_filter, members]
  refine nodup_flatMap_iff (b := "m_holder") fun file hf => ?_
  obtain ⟨hf, hs⟩ := List.mem_filter.mp hf
  exact members_of_scopes file hf hs

variable {Proto : Type} {protobuf : Protobuf Proto} {request : CodeGeneratorRequest Proto}

-- A run declares nothing twice in a class.
def MembersApart (protobuf : Protobuf Proto) (request : CodeGeneratorRequest Proto) : Prop :=
  ∃ inserted, (∀ name, (members name inserted).Nodup) ∧ ∀ response,
    addInserts (pool protobuf request) (fileDescriptors protobuf request) response =
      some (response.addFiles inserted)

-- The names of the messages at the top of a file differ.
def Apart (files : List FileDescriptor) : Prop :=
  ∀ file ∈ files, (file.messageTypes.map (·.name)).Nodup

theorem objectTypes_nodup (h : WellFormed files) (ha : Apart files) :
    (objectTypes files).Nodup := by
  have hd (file : FileDescriptor) (hf : file ∈ files) :
      (file.messageTypes.map (·.fullName)).Nodup := by
    refine List.Nodup.of_map simpleName ?_
    rw [List.map_map]
    exact ha file hf
  refine List.nodup_append.mpr ⟨?_, List.nodup_flatMap.mpr ⟨fun file hf => ?_, ?_⟩, ?_⟩
  case refine_1 =>
    cases hv : files.find? (·.name = "protocall/vtk.proto")
    case none => exact .nil
    case some file =>
      have hn := ha file <| List.mem_of_find?_eq_some hv
      have hi : Function.Injective ("vtk." ++ ·) := fun _ _ => String.append_right_inj _ |>.mp
      simpa [Function.comp_def] using hn.map hi
  case refine_2 =>
    rw [FileDescriptor.externalTypes_eq]
    exact (hd file hf).filter _
  case refine_3 =>
    refine (List.pairwise_map.mp h.names).imp_of_mem fun hf hf' hne type ht ht' => hne ?_
    simp only [FileDescriptor.externalTypes_eq] at ht ht'
    obtain ⟨d, hm, rfl⟩ := List.mem_map.mp (List.mem_filter.mp ht).left
    obtain ⟨d', hm', he⟩ := List.mem_map.mp (List.mem_filter.mp ht').left
    rw [h.apart _ hf _ hf' d hm d' hm' (he ▸ List.isPrefixOf_iff_prefix.mpr (List.prefix_refl _))]
  case refine_4 =>
    rintro type ht _ ht' rfl
    obtain ⟨file, -, ht'⟩ := List.mem_flatMap.mp ht'
    rw [FileDescriptor.externalTypes_eq] at ht'
    obtain ⟨file', -, ht⟩ := List.mem_flatMap.mp ht
    obtain ⟨d, -, rfl⟩ := List.mem_map.mp ht
    have hs := (List.mem_filter.mp ht').right
    simp [startsWith] at hs

theorem membersApart_iff (h : WellFormed (fileDescriptors protobuf request))
    (ha : Apart (fileDescriptors protobuf request)) (hk : protobuf.KeepsName)
    (hn : ∀ file ∈ fileDescriptors protobuf request, (toHeader file.name).isSome) :
    MembersApart protobuf request ↔ ∀ file ∈ fileDescriptors protobuf request,
      ∀ type ∈ file.responseTypes, type ∉ objectTypes (fileDescriptors protobuf request) := by
  set files := fileDescriptors protobuf request with hfiles
  have hp : inserts (pool protobuf request) files = inserts files files := by
    rw [inserts, inserts, pool, buildRpcFiles_find? hk]
  have hm : MembersApart protobuf request ↔ ∀ name, (members name (inserts files files)).Nodup := by
    rw [MembersApart, ← hp]
    constructor
    case mp =>
      rintro ⟨inserted, hi, he⟩
      have he := congrArg (·.files) <| Option.some.inj <| (he {}).symm.trans <| addInserts_eq hn
      simp only [addFiles, List.nil_append] at he
      exact he ▸ hi
    case mpr => exact fun hi => ⟨_, hi, fun response => addInserts_eq hn⟩
  rw [hm, members_nodup hn, List.nodup_append]
  constructor
  case mp =>
    rintro ⟨-, -, hd⟩ file hf type ht hm
    have hu : type ∈ (uses files).map Prod.snd := by
      rw [uses, List.map_flatMap, List.mem_flatMap]
      exact ⟨file, hf, by simpa using ht⟩
    exact hd type hm type (FirstUse.mem_map_take.mpr ⟨List.not_mem_nil, hu⟩) rfl
  case mpr =>
    refine fun hd => ⟨objectTypes_nodup h ha, FirstUse.nodup_take, ?_⟩
    rintro type hm _ ht rfl
    obtain ⟨use, hu, rfl⟩ := List.mem_map.mp (FirstUse.mem_map_take.mp ht).right
    obtain ⟨file, hf, hu⟩ := List.mem_flatMap.mp hu
    obtain ⟨type, ht', rfl⟩ := List.mem_map.mp hu
    exact hd file hf type ht' hm

end RpcPlugin

namespace Salutation

-- A service that answers with a table instead of a message that has one.
def tableRequest : CodeGeneratorRequest FileDescriptor where
  protoFiles := [
    { name         := "protocall/vtk.proto"
      package      := "vtk"
      messageTypes := [⟨"vtk.vtkTable", []⟩] },
    { name         := "table.proto"
      dependencies := ["protocall/vtk.proto"]
      messageTypes := [request]
      services     := [⟨"TableService", [⟨"TableService.read", request, ⟨"vtk.vtkTable", []⟩⟩]⟩] }
  ]

theorem membersApart_helloRequest : RpcPlugin.MembersApart protobuf helloRequest ∧
    ¬RpcPlugin.MembersApart protobuf tableRequest := by
  constructor
  case left =>
    refine (RpcPlugin.membersApart_iff ?_ ?_ protobuf_keepsName ?_).mpr ?_
    · constructor <;> decide +kernel
    · unfold RpcPlugin.Apart; decide +kernel
    · decide +kernel
    · decide +kernel
  case right =>
    rw [RpcPlugin.membersApart_iff ?_ ?_ protobuf_keepsName ?_]
    · decide +kernel
    · constructor <;> decide +kernel
    · unfold RpcPlugin.Apart; decide +kernel
    · decide +kernel

end Salutation
end ProtoCall
