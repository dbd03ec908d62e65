import ProtoCall.Examples.Protobuf

namespace ProtoCall

-- A file without a package, with the names that protobuf gives to its methods: the only dot is the
-- one between the service and the method.
structure FileDescriptor.Unpackaged (file : FileDescriptor) : Prop where
  package  : file.package = ""
  undotted : ∀ service ∈ file.services, '.' ∉ service.fullName.toList
  named    : ∀ service ∈ file.services, ∀ method ∈ service.methods,
    method.fullName = service.fullName ++ "." ++ method.name
  distinct : ((file.services.flatMap (·.methods)).map (·.fullName)).Nodup

def FileDescriptorProto.extensionNames (proto : FileDescriptorProto) : List String :=
  proto.extensions.map (·.name)

-- The second service is named after the first one, an underscore, and the beginning of the name of
-- a method: `A` with `B_c`, and `A_B` with `c`.
def Straddles (service service' : ServiceDescriptor) : Prop :=
  ∃ rest, service'.fullName = service.fullName ++ "_" ++ rest ∧
    ∃ method ∈ service.methods, ∃ method' ∈ service'.methods,
      method.name = rest ++ "_" ++ method'.name

-- There is only one candidate for the rest of the name.
theorem straddles_iff {service service' : ServiceDescriptor} : Straddles service service' ↔
    let rest := .ofList (service'.fullName.toList.drop (service.fullName.length + 1))
    service'.fullName = service.fullName ++ "_" ++ rest ∧
      ∃ method ∈ service.methods, ∃ method' ∈ service'.methods,
        method.name = rest ++ "_" ++ method'.name := by
  refine ⟨?_, fun h => ⟨_, h⟩⟩
  rintro ⟨rest, he, h⟩
  have hr : .ofList (service'.fullName.toList.drop (service.fullName.length + 1)) = rest := by
    rw [he, ← String.length_toList]
    apply String.toList_injective
    simp [List.drop_append]
  exact hr.symm ▸ ⟨he, h⟩

instance {service service' : ServiceDescriptor} : Decidable (Straddles service service') :=
  decidable_of_iff _ straddles_iff.symm

section Names

variable {s s' n n' : String}

theorem toExtensionName_append (hs : '.' ∉ s.toList) (hn : '.' ∉ n.toList) :
    toExtensionName (s ++ "." ++ n) = s ++ "_" ++ n := by
  have hm (cs : List Char) (h : '.' ∉ cs) :
      cs.map (fun c => if c = '.' then '_' else c) = cs := by
    refine (List.map_congr_left fun c hc => if_neg ?_).trans cs.map_id
    rintro rfl
    exact h hc
  apply String.toList_injective
  simp [toExtensionName, hm _ hs, hm _ hn]

-- One of two prefixes of a name goes on where the other one ends.
theorem straddle_of_append_eq (h : s ++ "_" ++ n = s' ++ "_" ++ n') :
    (s = s' ∧ n = n') ∨ (∃ rest, s' = s ++ "_" ++ rest ∧ n = rest ++ "_" ++ n') ∨
      ∃ rest, s = s' ++ "_" ++ rest ∧ n' = rest ++ "_" ++ n := by
  have hl : s.toList ++ '_' :: n.toList = s'.toList ++ '_' :: n'.toList := by
    simpa using congrArg String.toList h
  have hu {t t' : String} {cs ds ds' : List Char} (ht : t'.toList = t.toList ++ '_' :: cs)
      (hd : ds = cs ++ '_' :: ds') : t' = t ++ "_" ++ .ofList cs ∧
        String.ofList ds = .ofList cs ++ "_" ++ .ofList ds' := by
    constructor <;> apply String.toList_injective <;> simp [ht, hd]
  rcases List.append_eq_append_iff.mp hl with ⟨cs, hs, hc⟩ | ⟨cs, hs, hc⟩ <;>
    rcases cs with _ | ⟨c, cs⟩
  case inl.nil =>
    refine .inl ⟨String.toList_injective <| by simpa using hs.symm, String.toList_injective ?_⟩
    simpa using hc
  case inr.nil =>
    refine .inl ⟨String.toList_injective <| by simpa using hs, String.toList_injective ?_⟩
    simpa using hc.symm
  case inl.cons =>
    obtain ⟨rfl, hc'⟩ := List.cons.inj hc
    refine .inr <| .inl ⟨.ofList cs, ?_⟩
    simpa using hu hs hc'
  case inr.cons =>
    obtain ⟨rfl, hc'⟩ := List.cons.inj hc
    refine .inr <| .inr ⟨.ofList cs, ?_⟩
    simpa using hu hs hc'

end Names

namespace MethodDescriptor

variable {m m' : MethodDescriptor} {name : String}

def extensionNames (m : MethodDescriptor) : List String := m.extensions.map (·.name)

theorem request_ne_response {s t : String} : s ++ "_request" ≠ t ++ "_response" :=
  append_ne_append (by decide) (by decide)

theorem requestName_mem : toExtensionName m.fullName ++ "_request" ∈ m.extensionNames := by
  simp [extensionNames, extensions, requestExtension]

theorem extensionNames_nodup : m.extensionNames.Nodup := by
  rw [extensionNames, extensions]
  split <;> simp [requestExtension, responseExtension]

theorem eq_of_mem (h : name ∈ m.extensionNames) (h' : name ∈ m'.extensionNames) :
    toExtensionName m.fullName = toExtensionName m'.fullName := by
  have hm {m : MethodDescriptor} (h : name ∈ m.extensionNames) :
      name = toExtensionName m.fullName ++ "_request" ∨
        name = toExtensionName m.fullName ++ "_response" := by
    rw [extensionNames, extensions] at h
    split at h <;> simp_all [requestExtension, responseExtension]
  rcases hm h with rfl | rfl <;> rcases hm h' with he | he
  case inl.inl => exact append_injective he
  case inl.inr => exact absurd he request_ne_response
  case inr.inl => exact absurd he.symm request_ne_response
  case inr.inr => exact append_injective he

theorem disjoint_extensionNames : m.extensionNames.Disjoint m'.extensionNames ↔
    toExtensionName m.fullName ≠ toExtensionName m'.fullName where
  mp h he     := h requestName_mem <| he ▸ requestName_mem
  mpr h _ hn hn' := h <| eq_of_mem hn hn'

end MethodDescriptor

namespace RpcPlugin

variable {file : FileDescriptor}

theorem extensionNames_eq : (addRpcMessageExtensions file).snd.extensionNames =
    (file.services.flatMap (·.methods)).flatMap (·.extensionNames) := by
  rw [FileDescriptorProto.extensionNames, addRpcMessageExtensions_extensions, List.flatMap_assoc,
    List.map_flatMap]
  simp only [ServiceDescriptor.extensions, List.map_flatMap, MethodDescriptor.extensionNames]

-- An extension is told from the other one of its method, so it is all about the methods.
theorem extensionNames_nodup_iff : (addRpcMessageExtensions file).snd.extensionNames.Nodup ↔
    ((file.services.flatMap (·.methods)).map fun m => toExtensionName m.fullName).Nodup := by
  rw [extensionNames_eq, List.nodup_flatMap,
    and_iff_right fun _ _ => MethodDescriptor.extensionNames_nodup, List.Nodup, List.pairwise_map]
  exact List.Pairwise.iff fun _ _ => MethodDescriptor.disjoint_extensionNames

theorem distinctExtensionNames_iff (h : file.Unpackaged) :
    (addRpcMessageExtensions file).snd.extensionNames.Nodup ↔
      ∀ service ∈ file.services, ∀ service' ∈ file.services, ¬Straddles service service' := by
  have hn {service method} (hs : service ∈ file.services) (hm : method ∈ service.methods) :
      toExtensionName method.fullName = service.fullName ++ "_" ++ method.name := by
    rw [h.named _ hs _ hm]
    exact toExtensionName_append (h.undotted _ hs) notMem_simpleName
  rw [extensionNames_nodup_iff, List.nodup_map_iff_inj_on h.distinct.of_map]
  constructor
  case mp =>
    rintro hi service hs service' hs' ⟨rest, he, method, hm, method', hm', hr⟩
    have hx : method = method' := by
      apply hi _ (List.mem_flatMap_of_mem hs hm) _ (List.mem_flatMap_of_mem hs' hm')
      rw [hn hs hm, hn hs' hm', he, hr]
      simp [String.append_assoc]
    have hl := congrArg String.length hr
    rw [hx] at hl
    simp at hl
  case mpr =>
    intro hi method hm method' hm' he
    obtain ⟨service, hs, hm⟩ := List.mem_flatMap.mp hm
    obtain ⟨service', hs', hm'⟩ := List.mem_flatMap.mp hm'
    rw [hn hs hm, hn hs' hm'] at he
    rcases straddle_of_append_eq he with ⟨he, hr⟩ | ⟨rest, he, hr⟩ | ⟨rest, he, hr⟩
    case inl =>
      refine List.inj_on_of_nodup_map h.distinct (List.mem_flatMap_of_mem hs hm)
        (List.mem_flatMap_of_mem hs' hm') ?_
      rw [h.named _ hs _ hm, h.named _ hs' _ hm', he, hr]
    case inr.inl => exact absurd ⟨rest, he, method, hm, method', hm', hr⟩ (hi _ hs _ hs')
    case inr.inr => exact absurd ⟨rest, he, method', hm', method, hm, hr⟩ (hi _ hs' _ hs)

end RpcPlugin

namespace Salutation

-- The second service is named after the first one and an underscore, but no method of the first one
-- takes up the rest.
def adjoiningFile : FileDescriptor where
  name         := "query.proto"
  dependencies := ["messages.proto"]
  services     := [
    ⟨"Mesh", [⟨"Mesh.node_count", request, response⟩, ⟨"Mesh.Edge_at", request, response⟩]⟩,
    ⟨"Mesh_Edge", [⟨"Mesh_Edge.count", request, response⟩]⟩
  ]

theorem distinctExtensionNames_adjoiningFile :
    (RpcPlugin.addRpcMessageExtensions adjoiningFile).snd.extensionNames.Nodup :=
  (RpcPlugin.distinctExtensionNames_iff ⟨rfl, by decide, by decide, by decide⟩).mpr <| by
    decide +kernel

-- Both of the methods are `A_B_c` to the plugin.
def straddlingFile : FileDescriptor where
  name         := "query.proto"
  dependencies := ["messages.proto"]
  services     := [
    ⟨"A", [⟨"A.B_c", request, response⟩]⟩,
    ⟨"A_B", [⟨"A_B.c", request, response⟩]⟩
  ]

theorem not_distinctExtensionNames : straddlingFile.Unpackaged ∧
    ¬(RpcPlugin.addRpcMessageExtensions straddlingFile).snd.extensionNames.Nodup :=
  ⟨⟨rfl, by decide, by decide, by decide⟩, by decide +kernel⟩

end Salutation
end ProtoCall
