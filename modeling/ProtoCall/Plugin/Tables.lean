import ProtoCall.Plugin.Cases
import ProtoCall.Plugin.RpcPlugin

namespace ProtoCall

-- The extensions that a body names, with the numbers that these stand for.
def Stmt.extensions : Stmt → List (String × ℤ)
  | seq s t => s.extensions ++ t.extensions
  | ifHas _ _ _ body | ifObject _ body | ifNull _ body | ifFlag _ body | ifError _ body
  | check _ body => body.extensions
  | mutableExtension _ _ _ extension number
  | setAllocatedExtension _ extension number _ => [(extension, number)]
  | _ => []

def Switch.labels (s : Switch) : List ℤ := s.cases.map Prod.fst

open RpcGenerator RpcPlugin

-- The extensions that the plugin adds for a method.
def MethodDescriptor.added (m : MethodDescriptor) : List FieldDescriptorProto :=
  (addMethodExtensions m {}).snd.extensions

namespace ServiceDescriptor

-- The extensions that the plugin adds for a service, in a file that has no other one.
def added (s : ServiceDescriptor) : List FieldDescriptorProto :=
  (addRpcMessageExtensions { name := s.fullName, services := [s] }).snd.extensions

-- It adds them in every file, between those of the services around it.
def AddedIn (s : ServiceDescriptor) (file : FileDescriptor) : Prop :=
  ∀ before after, file.services = before ++ s :: after →
    (addRpcMessageExtensions file).snd.extensions =
      (addRpcMessageExtensions { file with services := before }).snd.extensions ++ s.added ++
        (addRpcMessageExtensions { file with services := after }).snd.extensions

-- The methods that have something to reply.
def replying (s : ServiceDescriptor) : List MethodDescriptor :=
  s.methods.filter fun m => !m.voidOutput

-- No message but the one at the top level is called `Void`.
def OnlyVoid (s : ServiceDescriptor) : Prop :=
  ∀ m ∈ s.methods, ∀ type ∈ [m.inputType, m.outputType], type.name = "Void" → type.fullName = "Void"

instance (s : ServiceDescriptor) : Decidable s.OnlyVoid :=
  inferInstanceAs <| Decidable (∀ m ∈ s.methods, ∀ type ∈ [m.inputType, m.outputType], _)

-- The numbers of the extensions that the plugin adds to `extendee`.
def numbers (s : ServiceDescriptor) (extendee : String) : List ℤ :=
  (s.added.filter (·.extendee = extendee)).map (·.number)

-- The extension that the plugin adds for a method of the service, under which a body names it.
def Names (s : ServiceDescriptor) (extension : FieldDescriptorProto) (body : Stmt) : Prop :=
  body.extensions = [(extension.name, extension.number)] ∧
    ∀ x ∈ s.added, x.extendee = extension.extendee → x.number = extension.number →
      x = extension

end ServiceDescriptor

-- The method tables of the code that is generated for a service.
structure TablesAgree (s : ServiceDescriptor) : Prop where
  added      : ∀ file, s.AddedIn file
  implements : generateImplementsMethod s = s.ids
  dispatch   : (generateDispatchMethodBody s).labels = s.ids
  request    : s.numbers "rpc.Request" = s.ids
  reply      : (generateRelyMethod s).labels = s.replying.map (·.id)
  handle     : (generateResponseHandlerCpp s).labels = s.replying.map (·.id)
  response   : s.numbers "rpc.Response" = s.replying.map (·.id)
  proxy      : ∀ m ∈ s.methods, m.requestExtension ∈ m.added ∧
    s.Names m.requestExtension (generateServiceProxyMethod s m)
  answer     : ∀ m ∈ s.replying, m.responseExtension ∈ m.added ∧
    s.Names m.responseExtension ((generateRelyMethod s).select m.id)

namespace Stmt

variable {v ch : Ident} {d : Descriptor}

theorem extensions_block {ss : List Stmt} : (block ss).extensions = ss.flatMap extensions := by
  induction ss
  case nil          => rfl
  case cons s ss hi => rw [block, extensions, hi, List.flatMap_cons]

theorem extensions_sentVtkBlock : (generateSentVtkBlock v ch d).extensions = [] := by
  rw [generateSentVtkBlock, extensions_block, List.flatMap_eq_nil_iff]
  intro s hs
  obtain ⟨⟨field, i⟩, -, rfl⟩ := List.mem_map.mp hs
  rw [generateSentVtk]
  split
  case h_1 => rfl
  case h_2 => split <;> rfl

theorem extensions_sentExternalBlock : (generateSentExternalBlock v ch d).extensions = [] := by
  rw [generateSentExternalBlock, extensions_block, List.flatMap_eq_nil_iff]
  intro s hs
  obtain ⟨⟨field, i⟩, -, rfl⟩ := List.mem_map.mp hs
  rw [generateSentExternal]
  split
  case h_1 => rfl
  case h_2 => split <;> rfl

theorem extensions_proxyMethod {s : ServiceDescriptor} {m : MethodDescriptor} :
    (generateServiceProxyMethod s m).extensions =
      [(m.requestExtension.name, m.requestExtension.number)] := by
  cases hi : m.voidInput <;> cases ho : m.voidOutput <;>
    simp [generateServiceProxyMethod, extensions_block, extensions_sentVtkBlock,
      extensions_sentExternalBlock, hi, ho, extensions, MethodDescriptor.requestExtension,
      generateErrorCheck]

theorem extensions_replyCase {m : MethodDescriptor} {j : ℕ} :
    (generateReplyCase m j).extensions =
      [(m.responseExtension.name, m.responseExtension.number)] := by
  simp [generateReplyCase, extensions_block, extensions_sentVtkBlock, extensions_sentExternalBlock,
    extensions, MethodDescriptor.responseExtension, generateErrorCheck]

end Stmt

-- The labels of the cases of a loop that passes over some of its methods.
theorem labels_cases {α β : Type*} {xs : List α} {void : α → Bool} {label : α → ℤ} {body : α → β} :
    (xs.filterMap fun x => if void x then none else some (label x, body x)).map Prod.fst =
      (xs.filter fun x => !void x).map label := by
  induction xs
  case nil          => rfl
  case cons x xs hi => cases hv : void x <;> simp [hv, hi]

theorem MethodDescriptor.added_eq (m : MethodDescriptor) : m.added = m.extensions := by
  rw [added, addMethodExtensions_snd]
  rfl

namespace ServiceDescriptor

variable {s : ServiceDescriptor} {m : MethodDescriptor} {x : FieldDescriptorProto}

theorem added_eq : s.added = s.extensions := by
  rw [added, addRpcMessageExtensions_extensions]
  exact List.append_nil _

theorem addedIn (s : ServiceDescriptor) (file : FileDescriptor) : s.AddedIn file := by
  intro before after h
  rw [addRpcMessageExtensions_extensions, addRpcMessageExtensions_extensions,
    addRpcMessageExtensions_extensions, h, added_eq, List.flatMap_append, List.flatMap_cons,
    List.append_assoc]

theorem OnlyVoid.isVoidType_output (h : s.OnlyVoid) (hm : m ∈ s.methods) :
    isVoidType m.outputType.fullName = m.voidOutput := by
  have hv := h m hm m.outputType (by simp)
  simp only [isVoidType, MethodDescriptor.voidOutput, Descriptor.name] at hv ⊢
  rw [Bool.eq_iff_iff, beq_iff_eq, beq_iff_eq]
  exact ⟨fun he => by rw [he]; decide, hv⟩

theorem numbers_eq {extendee : String} : s.numbers extendee =
    s.methods.flatMap fun m => (m.extensions.filter (·.extendee = extendee)).map (·.number) := by
  rw [numbers, added_eq, extensions, List.filter_flatMap, List.map_flatMap]

theorem numbers_request : s.numbers "rpc.Request" = s.ids := by
  have h (m : MethodDescriptor) :
      (m.extensions.filter (·.extendee = "rpc.Request")).map (·.number) = [m.id] := by
    cases hv : isVoidType m.outputType.fullName <;>
      simp [MethodDescriptor.extensions, hv, MethodDescriptor.requestExtension,
        MethodDescriptor.responseExtension]
  simp only [numbers_eq, h]
  exact List.map_eq_flatMap.symm

theorem numbers_response (h : s.OnlyVoid) :
    s.numbers "rpc.Response" = s.replying.map (·.id) := by
  have hm {m : MethodDescriptor} (hm : m ∈ s.methods) :
      (m.extensions.filter (·.extendee = "rpc.Response")).map (·.number) =
        if m.voidOutput then [] else [m.id] := by
    rw [MethodDescriptor.extensions, h.isVoidType_output hm]
    cases m.voidOutput <;>
      simp [MethodDescriptor.requestExtension, MethodDescriptor.responseExtension]
  rw [numbers_eq, List.flatMap_congr fun m hm' => hm hm', replying]
  induction s.methods
  case nil          => rfl
  case cons m ms hi => cases hv : m.voidOutput <;> simp [hv, hi]

-- An extension that has been added for a method of the service.
theorem mem_added (hx : x ∈ s.added) :
    ∃ m ∈ s.methods, x = m.requestExtension ∨ x = m.responseExtension := by
  rw [added_eq] at hx
  obtain ⟨m, hm, hx⟩ := List.mem_flatMap.mp hx
  refine ⟨m, hm, ?_⟩
  rw [MethodDescriptor.extensions] at hx
  split at hx <;> simp_all

theorem extendee_ne {m m' : MethodDescriptor} :
    m.requestExtension.extendee ≠ m'.responseExtension.extendee := by
  simp [MethodDescriptor.requestExtension, MethodDescriptor.responseExtension]

theorem names_request (hn : s.ids.Nodup) (hm : m ∈ s.methods) :
    s.Names m.requestExtension (generateServiceProxyMethod s m) := by
  refine ⟨Stmt.extensions_proxyMethod, fun x hx he hi => ?_⟩
  obtain ⟨m', hm', rfl | rfl⟩ := mem_added hx
  case inl => rw [List.inj_on_of_nodup_map hn hm' hm hi]
  case inr => exact absurd he.symm extendee_ne

end ServiceDescriptor

theorem labels_reply {s : ServiceDescriptor} :
    (generateRelyMethod s).labels = s.replying.map (·.id) := by
  have h : (generateRelyMethod s).labels =
      (s.methods.zipIdx.filter fun x => !x.fst.voidOutput).map (·.fst.id) := labels_cases
  rw [h, ServiceDescriptor.replying]
  conv_rhs => rw [← List.zipIdx_map_fst 0 s.methods, List.filter_map, List.map_map]
  rfl

theorem tablesAgree (s : ServiceDescriptor) (hn : s.ids.Nodup) (hv : s.OnlyVoid) :
    TablesAgree s where
  added       := s.addedIn
  implements  := rfl
  dispatch    := by
    rw [Switch.labels, generateDispatchMethodBody, List.map_map]
    rfl
  request     := s.numbers_request
  reply       := labels_reply
  handle      := labels_cases
  response    := s.numbers_response hv
  proxy m hm  := ⟨m.added_eq ▸ List.mem_cons_self .., ServiceDescriptor.names_request hn hm⟩
  answer m hm := by
    obtain ⟨hm, ho⟩ := List.mem_filter.mp hm
    have ho : m.voidOutput = false := by simpa using ho
    obtain ⟨j, hj⟩ := select_reply <| ServiceDescriptor.replying?_id hn hm ho
    refine ⟨?_, hj ▸ Stmt.extensions_replyCase, fun x hx he hi => ?_⟩
    · simp [m.added_eq, MethodDescriptor.extensions, hv.isVoidType_output hm, ho]
    · obtain ⟨m', hm', rfl | rfl⟩ := ServiceDescriptor.mem_added hx
      case inl => exact absurd he ServiceDescriptor.extendee_ne
      case inr => rw [List.inj_on_of_nodup_map hn hm' hm hi]

end ProtoCall
