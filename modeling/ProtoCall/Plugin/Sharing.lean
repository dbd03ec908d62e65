import ProtoCall.Examples.Protobuf
import ProtoCall.Plugin.Main

namespace ProtoCall

def FileDescriptor.methods (file : FileDescriptor) : List MethodDescriptor :=
  file.services.flatMap (·.methods)

def FileDescriptorProto.requestNumbers (proto : FileDescriptorProto) : List ℤ :=
  (proto.extensions.filter (·.extendee = "rpc.Request")).map (·.number)

namespace RpcPlugin

variable {Proto : Type}

-- The numbers of requests that a run adds, one for each method.
def requestNumbers (protobuf : Protobuf Proto) (request : CodeGeneratorRequest Proto) : List ℤ :=
  ((fileDescriptors protobuf request).filter (·.services.length > 0)).flatMap fun file =>
    (addRpcMessageExtensions file).snd.requestNumbers

def methods (protobuf : Protobuf Proto) (request : CodeGeneratorRequest Proto) :
    List MethodDescriptor :=
  (fileDescriptors protobuf request).flatMap (·.methods)

-- The ways in which the plugin can tell that something went wrong.
inductive Fails (protobuf : Protobuf Proto) (request : CodeGeneratorRequest Proto) : Prop
  | method {method : MethodDescriptor} {rpcProto : FileDescriptorProto} :
    method ∈ methods protobuf request → (addMethodExtensions method rpcProto).fst = false →
      Fails protobuf request
  | file {file : FileDescriptor} :
    file ∈ fileDescriptors protobuf request → (addRpcMessageExtensions file).fst = false →
      Fails protobuf request
  | generate {file : FileDescriptor} {context : GeneratorResponseContext} :
    some file ∈ parsedFiles protobuf request → (RpcGenerator.generate file context).fst = false →
      Fails protobuf request
  | generators {error : String} {context : GeneratorResponseContext} :
    callGenerators protobuf request.parameter (parsedFiles protobuf request) {} =
      some (false, error, context) → Fails protobuf request
  | response {response : CodeGeneratorResponse} :
    main protobuf request = .answered response → response.error.isSome → Fails protobuf request

-- No two methods have the same number, or else it fails.
def SharesNoId (protobuf : Protobuf Proto) (request : CodeGeneratorRequest Proto) : Prop :=
  (requestNumbers protobuf request).Nodup ∨ Fails protobuf request

variable {protobuf : Protobuf Proto} {request : CodeGeneratorRequest Proto}

theorem requestNumbers_addRpcMessageExtensions {file : FileDescriptor} :
    (addRpcMessageExtensions file).snd.requestNumbers = file.methods.map (·.id) := by
  have hm (method : MethodDescriptor) :
      (method.extensions.filter (·.extendee = "rpc.Request")).map (·.number) = [method.id] := by
    rw [MethodDescriptor.extensions]
    split <;> simp [MethodDescriptor.requestExtension, MethodDescriptor.responseExtension]
  rw [FileDescriptorProto.requestNumbers, addRpcMessageExtensions_extensions,
    FileDescriptor.methods]
  simp only [ServiceDescriptor.extensions, List.filter_flatMap, List.map_flatMap, hm]
  simp only [List.map_eq_flatMap]

theorem requestNumbers_eq :
    requestNumbers protobuf request = (methods protobuf request).map (·.id) := by
  rw [requestNumbers, methods, List.map_flatMap]
  simp only [requestNumbers_addRpcMessageExtensions]
  -- The files that are left out have no methods.
  induction fileDescriptors protobuf request
  case nil => rfl
  case cons file files hi =>
    rw [List.filter_cons, List.flatMap_cons]
    split
    case isTrue  => rw [List.flatMap_cons, hi]
    case isFalse h =>
      have hs : file.services = [] := by simpa using h
      simpa [FileDescriptor.methods, hs] using hi

-- The plugin itself never finds anything wrong.
theorem fails_iff : Fails protobuf request ↔
    refuses protobuf request.parameter (parsedFiles protobuf request) := by
  constructor
  case mp =>
    intro h
    cases h
    case method h     => contradiction
    case file h       => contradiction
    case generate h   => contradiction
    case generators h => exact callGenerators_eq_false.mp ⟨_, _, h⟩
    case response hm he =>
      obtain ⟨-, -, result, error, generated, hc, rfl⟩ := main_eq_answered.mp hm
      cases result
      case true  => contradiction
      case false => exact callGenerators_eq_false.mp ⟨_, _, hc⟩
  case mpr =>
    intro h
    obtain ⟨_, _, hc⟩ := callGenerators_eq_false.mpr h
    exact .generators hc

theorem sharesNoId_iff : SharesNoId protobuf request ↔
    (methods protobuf request).Pairwise
        (fun m m' => ¬Crowded (checksum m.fullName) (checksum m'.fullName)) ∨
      refuses protobuf request.parameter (parsedFiles protobuf request) := by
  rw [SharesNoId, fails_iff, requestNumbers_eq, List.Nodup, List.pairwise_map]
  simp only [MethodDescriptor.id, Ne, generateExtensionNumber_eq_iff]

end RpcPlugin

namespace Salutation

-- The checksums of the two methods are five apart.
def crowdedRequest : CodeGeneratorRequest FileDescriptor where
  protoFiles := [
    messagesFile,
    serviceFile "query.proto" "QueryService" "readAxis",
    serviceFile "table.proto" "TableService" "moveRawLight"
  ]

theorem not_sharesNoId :
    ((RpcPlugin.methods protobuf crowdedRequest).map (·.fullName)).Nodup ∧
      ¬RpcPlugin.SharesNoId protobuf crowdedRequest := by
  refine ⟨by decide +kernel, ?_⟩
  rw [RpcPlugin.SharesNoId, RpcPlugin.fails_iff]
  decide +kernel

end Salutation
end ProtoCall
