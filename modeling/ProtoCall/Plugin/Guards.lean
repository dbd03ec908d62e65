import ProtoCall.Plugin.Files

namespace ProtoCall

-- `transform` with `::toupper`
def toUpper (name : String) : String := .ofList (name.toList.map Char.toUpper)

namespace RpcGenerator

variable (descriptor : ServiceDescriptor)

-- The macros that the generators of the headers guard them with.
def generateServiceHeaderGuard : String := toUpper (descriptor.name ++ "_H_")

def generateDispatcherHeaderGuard : String :=
  let name := descriptor.name ++ "_Dispatcher"
  toUpper (name ++ "_H_")

def generateResponseHandlerHeaderGuard : String :=
  let cls := descriptor.name
  toUpper (cls ++ "HANDLER_H_")

end RpcGenerator

def ServiceDescriptor.headerGuards (descriptor : ServiceDescriptor) : List String := [
  RpcGenerator.generateServiceHeaderGuard descriptor,
  RpcGenerator.generateDispatcherHeaderGuard descriptor,
  RpcGenerator.generateResponseHandlerHeaderGuard descriptor]

def upperNames (services : List ServiceDescriptor) : List String :=
  services.map fun service => toUpper service.name

-- The names differ not just by their cases, and none of them is another one with something added to
-- it that a guard adds, too.
structure Guarded (services : List ServiceDescriptor) : Prop where
  names  : (upperNames services).Nodup
  suffix : ∀ name ∈ upperNames services, ∀ name' ∈ upperNames services,
    ∀ suffix ∈ ["_DISPATCHER", "HANDLER"], name ≠ name' ++ suffix

variable {services : List ServiceDescriptor}

theorem toUpper_append {s t : String} : toUpper (s ++ t) = toUpper s ++ toUpper t := by
  rw [toUpper, String.toList_append, List.map_append, String.ofList_append]
  rfl

theorem ServiceDescriptor.headerGuards_eq {service : ServiceDescriptor} : service.headerGuards = [
    toUpper service.name ++ "_H_", toUpper service.name ++ "_DISPATCHER" ++ "_H_",
    toUpper service.name ++ "HANDLER" ++ "_H_"] := by
  have hs : toUpper "_H_" = "_H_" := by decide
  have hd : toUpper "_Dispatcher" = "_DISPATCHER" := by decide
  have hh : toUpper "HANDLER_H_" = "HANDLER" ++ "_H_" := by decide
  simp only [headerGuards, RpcGenerator.generateServiceHeaderGuard,
    RpcGenerator.generateDispatcherHeaderGuard, RpcGenerator.generateResponseHandlerHeaderGuard,
    toUpper_append, hs, hd, hh, String.append_assoc]

theorem headerGuards_perm : (services.flatMap (·.headerGuards)).Perm <|
    (upperNames services ++ ((upperNames services).map (· ++ "_DISPATCHER") ++
      (upperNames services).map (· ++ "HANDLER"))).map (· ++ "_H_") := by
  have h := flatMap_map_perm services [
    fun s => toUpper s.name ++ "_H_", fun s => toUpper s.name ++ "_DISPATCHER" ++ "_H_",
    fun s => toUpper s.name ++ "HANDLER" ++ "_H_"]
  simp only [ServiceDescriptor.headerGuards_eq]
  simpa [upperNames, List.flatMap_cons, Function.comp_def] using h

-- The guards of a dispatcher and of a handler differ by what is behind the names.
theorem headerGuards_nodup : (services.flatMap (·.headerGuards)).Nodup ↔ Guarded services := by
  have hd (name name' : String) : name ++ "_DISPATCHER" ≠ name' ++ "HANDLER" :=
    append_ne_append (by decide) (by decide)
  have hg : Guarded services ↔ (upperNames services).Nodup ∧ _ :=
    ⟨fun h => ⟨h.names, h.suffix⟩, fun h => ⟨h.left, h.right⟩⟩
  rw [headerGuards_perm.nodup_iff, List.nodup_map_iff append_injective, hg]
  generalize upperNames services = names
  simp only [List.nodup_append, List.nodup_map_iff append_injective, List.forall_mem_append,
    List.forall_mem_map, List.forall_mem_cons, List.not_mem_nil, imp_and, forall_and, false_imp_iff,
    implies_true, and_true, ne_eq, hd, not_false_iff]
  tauto

-- The handler of `Foo` and the service `FooHandler` are guarded alike.
theorem not_headerGuards_nodup : ¬([⟨"Foo", []⟩, ⟨"FooHandler", []⟩].flatMap
    ServiceDescriptor.headerGuards).Nodup := by
  decide

end ProtoCall
