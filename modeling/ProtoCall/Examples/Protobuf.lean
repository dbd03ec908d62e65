import ProtoCall.Examples.Salutation
import ProtoCall.Plugin.Response

-- A protobuf that is given descriptors. There is only one file of a name, and only one extension of
-- a number in a file; the C++ generator does not know any parameters.
namespace ProtoCall.Salutation

def rpcFile (proto : FileDescriptorProto) : FileDescriptor where
  name         := proto.name
  package      := proto.package
  options      := proto.options
  dependencies := proto.dependencies

def protobuf : Protobuf FileDescriptor where
  buildFile pool file :=
    if file.name ∈ pool.map (·.name) then none else some file
  buildRpcFile pool proto :=
    if proto.name ∉ pool.map (·.name) ∧
        (proto.extensions.map fun e => (e.extendee, e.number)).Nodup then
      some (rpcFile proto)
    else
      none
  generate file parameter :=
    if parameter = "" then
      (true, [{ name := file.stem ++ ".pb.h" }, { name := file.stem ++ ".pb.cc" }], "")
    else
      (false, [], "Unknown generator option: " ++ parameter)

theorem protobuf_namesFiles : protobuf.NamesFiles := by
  intro file parameter
  by_cases hp : parameter = "" <;> simp [protobuf, hp, CodeGeneratorResponse.wholeFiles]

theorem protobuf_keepsName : protobuf.KeepsName := by
  intro pool proto file h
  dsimp only [protobuf] at h
  split at h
  case isTrue  => cases h; rfl
  case isFalse => contradiction

def messagesFile : FileDescriptor where
  name         := "messages.proto"
  messageTypes := [request, response]

-- A file with just one service and one method.
def serviceFile (name serviceName methodName : String) : FileDescriptor where
  name
  dependencies := ["messages.proto"]
  services     := [⟨serviceName, [⟨serviceName ++ "." ++ methodName, request, response⟩]⟩]

end ProtoCall.Salutation
