import ProtoCall.Examples.Salutation
import ProtoCall.Plugin.Generator

namespace ProtoCall

-- The identifiers in a printed piece of code.
def Call.idents : Call → List Ident
  | sendMessage channel msg        => [channel, msg]
  | sendObject channel obj _       => [channel, obj]
  | sendData channel data          => [channel, data]
  | receiveObject channel obj _    => [channel, obj]
  | receiveData channel data       => [channel, data]
  | serialize serializer data size => [serializer, data, size]
  | deserialize deserializer data  => [deserializer, data]

def Stmt.idents : Stmt → List Ident
  | skip | ret => []
  | seq s t => s.idents ++ t.idents
  | ifHas x _ _ body | ifObject x body | ifNull x body | ifFlag x body | ifError x body =>
    x :: body.idents
  | check call block => call.idents ++ block.idents
  | setErrorString x _ | declFlag x | setFlag x | newObject x _ | deleteObject x | declMessage x
  | nextRequestId x | newHandler x _ | newMessage x _ | declInfo x | setInfoMethodId x _
  | newDoNothing x | declAutoPtr x | run x => [x]
  | setErrorStringAt x _ y | cast _ x y | declObject _ x y _ _ | setAllocated x _ _ y
  | declSerializer _ x y | declSize x y | declDeserializer _ x y | mutableRequest x y
  | mutableResponse x y | requestIdOf x y | setRequestId x y | setResponseId x y
  | mutableExtension _ x y _ _ | copyToExtension x y | copyFrom x y | setInfoEnvelope x y
  | setInfoResponse x y | setInfoChannel x y | newReplyCallback x _ y | setResponseErrorString x y
  | setResponseErrorCode x y | setAllocatedExtension x _ _ y | resetAutoPtr x y | setErrorCode x y
  | setErrorText x y => [x, y]
  | declData x size => x :: size.toList
  | registerResponseCallback x output handler done => [x, output, handler, done]
  | invoke _ _ input output done => input.toList ++ output.toList ++ [done]

-- The type of a pointer.
structure CppType where
  const : Bool := false
  name  : String
  deriving DecidableEq, Repr

-- What is printed between the parentheses of a declaration or of a call.
inductive Piece (α : Type)
  | item (a : α)
  | comma
  deriving DecidableEq, Repr

-- The items of a list, if there is just one comma between any two of them.
def separated {α : Type} : List (Piece α) → Option (List α)
  | [.item a]                   => some [a]
  | .item a :: .comma :: pieces => (separated pieces).map (a :: ·)
  | _                           => none

namespace RpcGenerator

def removeExtern (name : String) : String :=
  let ext := "external.".toList
  let name := name.toList
  .ofList <| if (find ext name).isSome then name.drop ext.length else name

-- The parameters that `generateMethodSignature` prints, with their types.
def generateMethodSignature (method : MethodDescriptor) : List (Piece (CppType × String)) :=
  let input_type := removeExtern method.inputType.fullName
  let output_type := removeExtern method.outputType.fullName
  (if input_type ≠ "Void" then [.item ({ const := true, name := input_type }, "input")] else []) ++
    (if input_type ≠ "Void" ∧ output_type ≠ "Void" then [.comma] else []) ++
    (if output_type ≠ "Void" then [.item ({ name := output_type }, "output")] else []) ++
    (if input_type ≠ "Void" ∨ output_type ≠ "Void" then [.comma] else []) ++
    [.item ({ name := "::google::protobuf::Closure" }, "done")]

-- The arguments of the call that `generateDispatchMethodBody` prints.
def generateDispatchArguments (method : MethodDescriptor) : List (Piece String) :=
  (if !method.voidInput then [.item "in"] else []) ++
    (if !method.voidInput && !method.voidOutput then [.comma] else []) ++
    (if !method.voidOutput then [.item "out"] else []) ++
    (if !method.voidInput || !method.voidOutput then [.comma] else []) ++
    [.item "done"]

-- The types that it has declared them with.
def dispatchLocal (method : MethodDescriptor) (x : String) : CppType :=
  if x = "in" then { const := true, name := method.inputType.name }
  else if x = "out" then { name := method.outputType.name }
  else { name := "::google::protobuf::Closure" }

end RpcGenerator

open RpcGenerator

-- The call of a method passes what the method takes, and its proxy uses nothing else.
def SignatureMatches (service : ServiceDescriptor) (method : MethodDescriptor) : Prop :=
  ∃ params args, separated (generateMethodSignature method) = some params ∧
    separated (generateDispatchArguments method) = some args ∧
    params.map Prod.fst = args.map (dispatchLocal method) ∧
    ∀ x ∈ ["input", "output"], .named x ∈ (generateServiceProxyMethod service method).idents →
      x ∈ params.map Prod.snd

-- An object goes with this field.
def FieldDescriptor.carries (field : FieldDescriptor) : Bool :=
  match field.type with
  | .message name => startsWith "vtk." name || startsWith "external." name
  | .other        => false

-- There is neither a package nor an enclosing message to a name, apart from `external`.
def IsFlat (fullName : String) : Prop :=
  if startsWith "external." fullName then
    '.' ∉ (substr fullName 9).toList
  else
    '.' ∉ fullName.toList

-- The types have such names, there is an output or no input, and nothing goes with a `Void`.
structure MethodDescriptor.Plain (m : MethodDescriptor) : Prop where
  input  : IsFlat m.inputType.fullName
  output : IsFlat m.outputType.fullName
  answer : m.voidOutput → m.voidInput
  bare   : m.voidInput → ∀ field ∈ m.inputType.fields, field.carries = false

section Names

theorem find_isSome {search str : List Char} : (find search str).isSome ↔ search <:+: str := by
  induction str
  case nil => simp [find]
  case cons c str hi =>
    rw [find, List.infix_cons_iff, ← hi, ← List.isPrefixOf_iff_prefix]
    by_cases h : search.isPrefixOf (c :: str) <;> simp [h]

theorem isFlat_of_removeExtern {name : String} (hn : '.' ∉ (removeExtern name).toList) :
    IsFlat name := by
  rw [IsFlat]
  rw [removeExtern, String.toList_ofList] at hn
  by_cases hf : (find "external.".toList name.toList).isSome
  case neg =>
    rw [if_neg hf] at hn
    split
    case isTrue  => exact fun hd => hn <| List.mem_of_mem_drop (by simpa [substr] using hd)
    case isFalse => exact hn
  case pos =>
    rw [if_pos hf] at hn
    obtain ⟨pre, post, hl⟩ := find_isSome.mp hf
    cases pre
    case nil =>
      have hs : startsWith "external." name := by
        rw [startsWith, List.isPrefixOf_iff_prefix, ← hl]
        exact ⟨post, rfl⟩
      rw [if_pos hs]
      simpa [substr] using hn
    case cons c pre =>
      -- The dot of an `external.` further on is still there.
      have hd : name.toList = (c :: pre ++ "external".toList) ++ '.' :: post := by simp [← hl]
      have hlen : "external.".toList.length ≤ (c :: pre ++ "external".toList).length := by simp
      refine absurd ?_ hn
      rw [hd, List.drop_append_of_le_length hlen, String.toList_ofList]
      exact List.mem_append_right _ List.mem_cons_self

theorem removeExtern_of_isFlat {name : String} (h : IsFlat name) :
    removeExtern name = simpleName name := by
  rw [IsFlat] at h
  split at h
  case isTrue hs =>
    obtain ⟨post, hl⟩ := List.isPrefixOf_iff_prefix.mp hs
    have hf : (find "external.".toList name.toList).isSome := find_isSome.mpr ⟨[], post, hl⟩
    have hp : substr name 9 = .ofList post := by rw [substr, ← hl]; rfl
    have hr : removeExtern name = .ofList post := by rw [removeExtern, if_pos hf, ← hl]; rfl
    have he : name = .ofList ("external".toList ++ '.' :: post) := by
      rw [← String.ofList_toList (s := name), ← hl]
      rfl
    rw [hp, String.toList_ofList] at h
    rw [hr, he, simpleName_append h]
  case isFalse =>
    have hf : ¬(find "external.".toList name.toList).isSome := by
      intro hf
      have hm : '.' ∈ "external.".toList := by decide
      exact h <| (find_isSome.mp hf).subset hm
    rw [simpleName_of_notMem h, removeExtern, if_neg hf]
    exact String.ofList_toList

-- The two spellings of a type agree just if its name is flat.
theorem removeExtern_eq_simpleName {name : String} :
    removeExtern name = simpleName name ↔ IsFlat name where
  mp h  := isFlat_of_removeExtern (h ▸ notMem_simpleName)
  mpr h := removeExtern_of_isFlat h

end Names

namespace MethodDescriptor

-- The parameters and the arguments, without what is between them.
def params (m : MethodDescriptor) : List (CppType × String) :=
  (if removeExtern m.inputType.fullName = "Void" then []
    else [({ const := true, name := removeExtern m.inputType.fullName }, "input")]) ++
  (if removeExtern m.outputType.fullName = "Void" then []
    else [({ name := removeExtern m.outputType.fullName }, "output")]) ++
  [({ name := "::google::protobuf::Closure" }, "done")]

def args (m : MethodDescriptor) : List String :=
  (if m.voidInput then [] else ["in"]) ++ (if m.voidOutput then [] else ["out"]) ++ ["done"]

variable {m : MethodDescriptor}

theorem voidInput_iff : m.voidInput ↔ m.inputType.name = "Void" := by simp [voidInput, isVoidType]

theorem voidOutput_iff : m.voidOutput ↔ m.outputType.name = "Void" := by
  simp [voidOutput, isVoidType]

theorem separated_signature : separated (generateMethodSignature m) = some m.params := by
  by_cases hi : removeExtern m.inputType.fullName = "Void" <;>
    by_cases ho : removeExtern m.outputType.fullName = "Void" <;>
      simp [generateMethodSignature, params, hi, ho, separated]

theorem separated_arguments : separated (generateDispatchArguments m) = some m.args := by
  cases hi : m.voidInput <;> cases ho : m.voidOutput <;>
    simp [generateDispatchArguments, args, hi, ho, separated]

-- These are the arguments that the statement stands for.
theorem dispatchCase_arguments {service : ServiceDescriptor} : ∃ pre input output,
    generateDispatchCase service m = .block (pre ++ [.invoke service.name m input output "done"]) ∧
      m.args.map Ident.named = input.toList ++ output.toList ++ [.named "done"] := by
  refine ⟨[_, _], _, _, rfl, ?_⟩
  rw [args]
  cases m.voidInput <;> cases m.voidOutput <;> rfl

-- The `const` tells an input from an output where there is just one of them.
theorem types_eq {input output input' output' : String} {done : CppType} :
    (if input = "Void" then [] else [(⟨true, input⟩ : CppType)]) ++
        (if output = "Void" then [] else [⟨false, output⟩]) ++ [done] =
      (if input' = "Void" then [] else [⟨true, input'⟩]) ++
        (if output' = "Void" then [] else [⟨false, output'⟩]) ++ [done] ↔
    input = input' ∧ output = output' := by
  constructor
  case mpr => rintro ⟨rfl, rfl⟩; rfl
  case mp =>
    intro h
    rw [List.append_left_inj] at h
    split_ifs at h <;> simp_all

theorem params_types : m.params.map Prod.fst = m.args.map (dispatchLocal m) ↔
    removeExtern m.inputType.fullName = m.inputType.name ∧
      removeExtern m.outputType.fullName = m.outputType.name := by
  have hp : m.params.map Prod.fst =
      (if removeExtern m.inputType.fullName = "Void" then []
        else [⟨true, removeExtern m.inputType.fullName⟩]) ++
      (if removeExtern m.outputType.fullName = "Void" then []
        else [⟨false, removeExtern m.outputType.fullName⟩]) ++
      [⟨false, "::google::protobuf::Closure"⟩] := by
    rw [params, List.map_append, List.map_append, apply_ite (List.map Prod.fst),
      apply_ite (List.map Prod.fst)]
    rfl
  have ha : m.args.map (dispatchLocal m) =
      (if m.inputType.name = "Void" then [] else [⟨true, m.inputType.name⟩]) ++
      (if m.outputType.name = "Void" then [] else [⟨false, m.outputType.name⟩]) ++
      [⟨false, "::google::protobuf::Closure"⟩] := by
    simp only [← voidInput_iff, ← voidOutput_iff]
    rw [args, List.map_append, List.map_append, apply_ite (List.map (dispatchLocal m)),
      apply_ite (List.map (dispatchLocal m))]
    rfl
  rw [hp, ha]
  exact types_eq

theorem input_mem_params :
    "input" ∈ m.params.map Prod.snd ↔ removeExtern m.inputType.fullName ≠ "Void" := by
  by_cases hi : removeExtern m.inputType.fullName = "Void" <;>
    by_cases ho : removeExtern m.outputType.fullName = "Void" <;> simp [params, hi, ho]

theorem output_mem_params :
    "output" ∈ m.params.map Prod.snd ↔ removeExtern m.outputType.fullName ≠ "Void" := by
  by_cases hi : removeExtern m.inputType.fullName = "Void" <;>
    by_cases ho : removeExtern m.outputType.fullName = "Void" <;> simp [params, hi, ho]

end MethodDescriptor

section Idents

variable {x : String} {field : FieldDescriptor} {i : ℕ} {d : Descriptor}

theorem Stmt.mem_idents_block {x : Ident} {ss : List Stmt} :
    x ∈ (block ss).idents ↔ ∃ s ∈ ss, x ∈ s.idents := by
  induction ss
  case nil          => simp [block, idents]
  case cons s ss hi => simp [block, idents, hi]

-- The parameters, as far as their names go.
def parameters : List String := ["input", "output"]

theorem mem_idents_sentVtk (hx : x ∈ parameters) :
    .named x ∈ (generateSentVtk "input" "m_channel" (field, i)).idents ↔
      x = "input" ∧ ∃ name, field.type = .message name ∧ startsWith "vtk." name := by
  have hc : x ≠ "m_channel" := by rintro rfl; exact absurd hx (by decide)
  rcases ht : field.type with name | _
  case other => simp [generateSentVtk, ht, Stmt.idents]
  case message =>
    by_cases hn : startsWith "vtk." name <;>
      simp [generateSentVtk, ht, hn, Stmt.idents, Call.idents, Stmt.block, generateErrorCheck, hc]

theorem mem_idents_sentExternal (hx : x ∈ parameters) :
    .named x ∈ (generateSentExternal "input" "m_channel" (field, i)).idents ↔
      x = "input" ∧ ∃ name, field.type = .message name ∧ startsWith "external." name := by
  have hc : x ≠ "m_channel" ∧ x ≠ "serializer" ∧ x ≠ "size" ∧ x ≠ "data" := by
    refine ⟨?_, ?_, ?_, ?_⟩ <;> rintro rfl <;> exact absurd hx (by decide)
  rcases ht : field.type with name | _
  case other => simp [generateSentExternal, ht, Stmt.idents]
  case message =>
    by_cases hn : startsWith "external." name <;>
      simp [generateSentExternal, ht, hn, Stmt.idents, Call.idents, Stmt.block, generateErrorCheck,
        hc]

-- Only a field that something goes with makes the proxy look into its input.
theorem mem_idents_sentBlocks (hx : x ∈ parameters) :
    (.named x ∈ (generateSentVtkBlock "input" "m_channel" d).idents ∨
      .named x ∈ (generateSentExternalBlock "input" "m_channel" d).idents) ↔
      x = "input" ∧ ∃ field ∈ d.fields, field.carries := by
  have hz (q : FieldDescriptor → Prop) :
      (∃ f ∈ d.fields.zipIdx, q f.fst) ↔ ∃ field ∈ d.fields, q field := by
    have h := congrArg (fun fields => ∃ field ∈ fields, q field) <| List.zipIdx_map_fst 0 d.fields
    simpa only [List.mem_map, exists_exists_and_eq_and, eq_iff_iff] using h
  have hc (field : FieldDescriptor) : field.carries ↔
      (∃ name, field.type = .message name ∧ startsWith "vtk." name) ∨
        ∃ name, field.type = .message name ∧ startsWith "external." name := by
    cases h : field.type <;> simp [FieldDescriptor.carries, h]
  simp only [generateSentVtkBlock, generateSentExternalBlock, Stmt.mem_idents_block, List.mem_map,
    exists_exists_and_eq_and, mem_idents_sentVtk hx, mem_idents_sentExternal hx, hc]
  rw [hz fun field => x = "input" ∧ ∃ name, field.type = .message name ∧ startsWith "vtk." name,
    hz fun field => x = "input" ∧ ∃ name, field.type = .message name ∧ startsWith "external." name,
    ← exists_or]
  constructor
  case mp =>
    rintro ⟨field, ⟨hf, rfl, hn⟩ | ⟨hf, rfl, hn⟩⟩
    · exact ⟨rfl, field, hf, .inl hn⟩
    · exact ⟨rfl, field, hf, .inr hn⟩
  case mpr =>
    rintro ⟨rfl, field, hf, hn | hn⟩
    · exact ⟨field, .inl ⟨hf, rfl, hn⟩⟩
    · exact ⟨field, .inr ⟨hf, rfl, hn⟩⟩

variable {service : ServiceDescriptor} {method : MethodDescriptor}

theorem mem_idents_proxy (hx : x ∈ parameters) :
    .named x ∈ (generateServiceProxyMethod service method).idents ↔
      (x = "output" ∧ (method.voidInput = false ∨ method.voidOutput = false)) ∨
        x = "input" ∧ (method.voidInput = false ∨
          ∃ field ∈ method.inputType.fields, field.carries) := by
  have hb := mem_idents_sentBlocks (d := method.inputType) hx
  have hp : x = "input" ∨ x = "output" := by simpa [parameters] using hx
  rw [generateServiceProxyMethod, Stmt.mem_idents_block]
  rcases hp with rfl | rfl <;> cases method.voidInput <;> cases method.voidOutput <;>
    simp [Stmt.idents, Stmt.block, Call.idents, generateErrorCheck, hb]

end Idents

open MethodDescriptor

variable {service : ServiceDescriptor} {method : MethodDescriptor}

theorem SignatureMatches.iff_params : SignatureMatches service method ↔
    method.params.map Prod.fst = method.args.map (dispatchLocal method) ∧
      ∀ x ∈ parameters, .named x ∈ (generateServiceProxyMethod service method).idents →
        x ∈ method.params.map Prod.snd where
  mp h := by
    obtain ⟨params, args, hp, ha, ht, hx⟩ := h
    rw [separated_signature] at hp
    rw [separated_arguments] at ha
    cases hp
    cases ha
    exact ⟨ht, hx⟩
  mpr h := ⟨_, _, separated_signature, separated_arguments, h⟩

theorem signatureMatches_iff : SignatureMatches service method ↔ method.Plain := by
  have hi := voidInput_iff (m := method)
  have ho := voidOutput_iff (m := method)
  have hie : removeExtern method.inputType.fullName = method.inputType.name ↔ _ :=
    removeExtern_eq_simpleName
  have hoe : removeExtern method.outputType.fullName = method.outputType.name ↔ _ :=
    removeExtern_eq_simpleName
  rw [SignatureMatches.iff_params, params_types]
  constructor
  case mp =>
    rintro ⟨⟨hti, hto⟩, hx⟩
    have hxi := hx "input" (by decide)
    have hxo := hx "output" (by decide)
    rw [mem_idents_proxy (by decide), input_mem_params, hti, Ne, ← hi] at hxi
    rw [mem_idents_proxy (by decide), output_mem_params, hto, Ne, ← ho] at hxo
    exact {
      input  := hie.mp hti
      output := hoe.mp hto
      answer := fun hv => by
        cases hvi : method.voidInput
        case true  => rfl
        case false => exact absurd hv <| hxo <| .inl ⟨rfl, .inl hvi⟩
      bare   := fun hv field hf => by
        cases hc : field.carries
        case false => rfl
        case true  => exact absurd hv <| hxi <| .inr ⟨rfl, .inr ⟨field, hf, hc⟩⟩
    }
  case mpr =>
    intro hp
    have hti : _ = method.inputType.name := hie.mpr hp.input
    have hto : _ = method.outputType.name := hoe.mpr hp.output
    refine ⟨⟨hti, hto⟩, ?_⟩
    intro x hx
    rw [mem_idents_proxy hx]
    rintro (⟨rfl, hu⟩ | ⟨rfl, hu⟩)
    · rw [output_mem_params, hto, Ne, ← ho]
      intro hv
      rcases hu with hu | hu
      · exact absurd (hp.answer hv) (by simp [hu])
      · exact absurd hv (by simp [hu])
    · rw [input_mem_params, hti, Ne, ← hi]
      intro hv
      rcases hu with hu | ⟨field, hf, hc⟩
      · exact absurd hv (by simp [hu])
      · exact absurd hc (by simp [hp.bare hv field hf])

-- The proxy of `sayNotify` registers an `output` that it does not have.
theorem not_signatureMatches : ¬SignatureMatches Salutation.service Salutation.sayNotify := by
  rintro ⟨params, args, hp, -, -, hx⟩
  have hd : separated (generateMethodSignature Salutation.sayNotify) = some [
      (⟨true, "Notification"⟩, "input"), (⟨false, "::google::protobuf::Closure"⟩, "done")] := by
    decide
  rw [hp] at hd
  have hm := hx "output" (by decide) (by decide)
  rw [Option.some.inj hd] at hm
  exact absurd hm (by decide)

end ProtoCall
