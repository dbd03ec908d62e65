import ProtoCall.Plugin.Descriptor

namespace ProtoCall

-- A file in the pool. Its dependencies are known by their names, its options by what they
-- serialize to.
structure FileDescriptor where
  name         : String
  package      : String := ""
  options      : String := ""
  dependencies : List String := []
  messageTypes : List Descriptor := []
  services     : List ServiceDescriptor := []
  deriving DecidableEq, Repr

-- An extension of a file that has yet to be built. All of them are optional, and messages.
structure FieldDescriptorProto where
  name     : String
  extendee : String
  number   : ℤ
  typeName : String
  deriving DecidableEq, Repr

structure FileDescriptorProto where
  name         : String := ""
  package      : String := ""
  options      : String := ""
  dependencies : List String := []
  extensions   : List FieldDescriptorProto := []
  deriving DecidableEq, Repr

-- `name.substr(0, name.find(".proto"))`, which is all of `name` if there is none.
def untilProto (name : String) : String :=
  match find ".proto".toList name.toList with
  | some index => .ofList (name.toList.take index)
  | none       => name

namespace RpcPlugin

def addExtension (rpcProto : FileDescriptorProto) (name extendee : String) (extensionNumber : ℤ)
    (typeName : String) : FileDescriptorProto :=
  let extension := { name, extendee, number := extensionNumber, typeName }
  { rpcProto with extensions := rpcProto.extensions ++ [extension] }

-- `addRpcMessageExtensions` of a method.
def addMethodExtensions (method : MethodDescriptor) (rpcProto : FileDescriptorProto) :
    Bool × FileDescriptorProto :=
  let extensionNumber := generateExtensionNumber method.fullName
  let extensionName := toExtensionName method.fullName
  let requestTypeName := method.inputType.fullName
  let rpcProto := addExtension rpcProto (extensionName ++ "_request") "rpc.Request" extensionNumber
    requestTypeName
  let responseTypeName := method.outputType.fullName
  let rpcProto :=
    if !isVoidType responseTypeName then
      addExtension rpcProto (extensionName ++ "_response") "rpc.Response" extensionNumber
        responseTypeName
    else
      rpcProto
  (true, rpcProto)

-- The loop over the methods of one service.
def addServiceExtensions (descriptor : ServiceDescriptor) (rpcProto : FileDescriptorProto) :
    FileDescriptorProto :=
  descriptor.methods.foldl (fun rpcProto method => (addMethodExtensions method rpcProto).snd)
    rpcProto

def addRpcMessageExtensions (file : FileDescriptor) : Bool × FileDescriptorProto :=
  let rpcProto : FileDescriptorProto := {
    name         := untilProto file.name ++ "_rpc.proto"
    package      := file.package
    options      := file.options
    dependencies := file.name :: file.dependencies
  }
  (true, file.services.foldl (fun rpcProto descriptor => addServiceExtensions descriptor rpcProto)
    rpcProto)

end RpcPlugin

namespace MethodDescriptor

def requestExtension (m : MethodDescriptor) : FieldDescriptorProto where
  name     := toExtensionName m.fullName ++ "_request"
  extendee := "rpc.Request"
  number   := m.id
  typeName := m.inputType.fullName

def responseExtension (m : MethodDescriptor) : FieldDescriptorProto where
  name     := toExtensionName m.fullName ++ "_response"
  extendee := "rpc.Response"
  number   := m.id
  typeName := m.outputType.fullName

-- The extensions that are added for a method.
def extensions (m : MethodDescriptor) : List FieldDescriptorProto :=
  m.requestExtension :: if isVoidType m.outputType.fullName then [] else [m.responseExtension]

end MethodDescriptor

namespace ServiceDescriptor

def extensions (s : ServiceDescriptor) : List FieldDescriptorProto :=
  s.methods.flatMap (·.extensions)

end ServiceDescriptor

namespace RpcPlugin

variable {rpcProto : FileDescriptorProto} {method : MethodDescriptor} {service : ServiceDescriptor}
  {file : FileDescriptor}

theorem addMethodExtensions_snd : (addMethodExtensions method rpcProto).snd =
    { rpcProto with extensions := rpcProto.extensions ++ method.extensions } := by
  cases h : isVoidType method.outputType.fullName <;>
    simp [addMethodExtensions, addExtension, MethodDescriptor.extensions, h,
      MethodDescriptor.requestExtension, MethodDescriptor.responseExtension, MethodDescriptor.id]

theorem addServiceExtensions_eq : addServiceExtensions service rpcProto =
    { rpcProto with extensions := rpcProto.extensions ++ service.extensions } := by
  rw [addServiceExtensions, ServiceDescriptor.extensions]
  induction service.methods generalizing rpcProto
  case nil => simp
  case cons method methods hi =>
    rw [List.foldl_cons, addMethodExtensions_snd, hi]
    simp

theorem addRpcMessageExtensions_extensions : (addRpcMessageExtensions file).snd.extensions =
    file.services.flatMap (·.extensions) := by
  suffices h : ∀ rpcProto : FileDescriptorProto, (file.services.foldl
      (fun rpcProto descriptor => addServiceExtensions descriptor rpcProto) rpcProto).extensions =
        rpcProto.extensions ++ file.services.flatMap (·.extensions) from
    (h _).trans <| List.nil_append _
  induction file.services
  case nil => simp
  case cons service services hi =>
    intro rpcProto
    rw [List.foldl_cons, hi, addServiceExtensions_eq]
    simp

theorem addRpcMessageExtensions_name :
    (addRpcMessageExtensions file).snd.name = untilProto file.name ++ "_rpc.proto" := by
  refine List.foldlRecOn file.services _ (motive := fun rpcProto : FileDescriptorProto =>
    rpcProto.name = untilProto file.name ++ "_rpc.proto") rfl ?_
  intro rpcProto h service _
  rw [addServiceExtensions_eq]
  exact h

end RpcPlugin
end ProtoCall
