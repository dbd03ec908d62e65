import ProtoCall.Examples.Protobuf
import ProtoCall.Plugin.Names

namespace ProtoCall

open Occurrence

namespace RpcGenerator

-- `protoName` in `Generate`, as it is handed to the generators of the headers.
def protoName (file : FileDescriptor) : String := untilProto file.name

-- What `generateServiceHeader` includes of the files that come from a proto file.
def generateServiceIncludes (protoName : String) : List String :=
  [protoName ++ ".pb.h", protoName ++ "_rpc.pb.h"]

end RpcGenerator

-- The names are derived from what is in front of the suffix. The headers that are meant by them are
-- those that the C++ generator writes for the file, and for the one with the extensions.
structure FollowsSuffix (file : FileDescriptor) (stem : String) : Prop where
  header    : toHeader file.name = some (stem ++ ".pb.h")
  inserted  : ∀ d : Descriptor, startsWith "external." d.fullName →
    (RpcPlugin.addExternalTypeInsert file {} d).map (·.files.map (·.name)) =
      some [stem ++ ".pb.h", stem ++ ".pb.h"]
  protoName : RpcGenerator.protoName file = stem
  rpcName   : (RpcPlugin.addRpcMessageExtensions file).snd.name = stem ++ "_rpc.proto"
  written   : RpcGenerator.generateServiceIncludes (RpcGenerator.protoName file) = [
    file.stem ++ ".pb.h",
    stripProto (RpcPlugin.addRpcMessageExtensions file).snd.name ++ ".pb.h"]

section Suffix

variable {stem : String}

-- The first `.proto` is the last one if there is none in the stem, and only then.
theorem untilProto_eq_iff :
    untilProto (stem ++ ".proto") = stem ↔ ¬".proto".toList <:+: stem.toList := by
  have hl : (stem ++ ".proto").toList = stem.toList ++ ".proto".toList := String.toList_append
  have hs : First ".proto".toList (stem ++ ".proto").toList stem.toList.length ↔
      ¬".proto".toList <:+: stem.toList := by
    have hc : ".proto".toList = '.' :: "proto".toList := rfl
    rw [hl, hc]
    exact First.append_self_iff (by decide)
  rw [← hs, untilProto]
  cases hf : find ".proto".toList (stem ++ ".proto").toList
  case none =>
    have hi : ".proto".toList <:+: (stem ++ ".proto").toList := by
      rw [hl]
      exact (List.suffix_append _ _).isInfix
    exact absurd hi (find_eq_none.mp hf)
  case some n =>
    have hp := find_eq_some.mp hf
    dsimp only
    constructor
    case mp =>
      intro he
      have ht := congrArg String.toList he
      rw [String.toList_ofList] at ht
      have hn := congrArg List.length ht
      have h6 : ".proto".toList.length = 6 := rfl
      rw [List.length_take, hl, List.length_append] at hn
      have he : n = stem.toList.length := by omega
      exact he ▸ hp
    case mpr =>
      intro h
      rw [hp.unique h, hl, List.take_left, String.ofList_toList]

end Suffix

variable {file : FileDescriptor} {stem : String}

theorem followsSuffix_iff (hn : file.name = stem ++ ".proto") :
    FollowsSuffix file stem ↔ ¬".proto".toList <:+: stem.toList := by
  constructor
  case mp =>
    intro h
    apply untilProto_eq_iff.mp
    rw [← hn]
    exact h.protoName
  case mpr =>
    intro h
    have hu : untilProto file.name = stem := hn ▸ untilProto_eq_iff.mpr h
    have hi : (toHeader file.name).isSome := by
      rw [toHeader, Option.isSome_map, find_isSome, hn, String.toList_append]
      exact (List.suffix_append _ _).isInfix
    have hh := toHeader_eq hi
    rw [hu] at hh
    have hr : (RpcPlugin.addRpcMessageExtensions file).snd.name = stem ++ "_rpc.proto" := by
      rw [RpcPlugin.addRpcMessageExtensions_name, hu]
    refine ⟨hh, ?_, hu, hr, ?_⟩
    · intro d hd
      rw [RpcPlugin.addExternalTypeInsert, hh, if_neg (by simp [hd])]
      rfl
    · have hs : stem ++ "_rpc.proto" = stem ++ "_rpc" ++ ".proto" := by
        rw [String.append_assoc]
        rfl
      have hp : RpcGenerator.protoName file = stem := hu
      rw [hr, hs, stripProto_append, FileDescriptor.stem, hn, stripProto_append, hp,
        RpcGenerator.generateServiceIncludes, String.append_assoc]
      rfl

theorem messagesFile_followsSuffix : FollowsSuffix Salutation.messagesFile "messages" :=
  (followsSuffix_iff rfl).mpr (by decide)

-- There is a `.proto` in the stem of `my.protocol.proto`.
theorem not_followsSuffix :
    ¬FollowsSuffix (Salutation.serviceFile "my.protocol.proto" "Query" "readAxis")
      "my.protocol" := by
  intro h
  exact absurd h.header (by decide)

end ProtoCall
