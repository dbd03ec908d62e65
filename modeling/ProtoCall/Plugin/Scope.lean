import ProtoCall.Plugin.Signature

namespace ProtoCall

-- The name that is looked up for an identifier: a member is one of the variable's.
def Ident.text : Ident → String
  | named x     => x
  | indexed x i => x ++ toString i
  | member x _  => x

namespace Ident

variable {x field : String} {i : ℕ}

@[simp]
theorem text_named : (named x).text = x := rfl

@[simp]
theorem text_indexed : (indexed x i).text = x ++ toString i := rfl

@[simp]
theorem text_member : (member x field).text = x := rfl

end Ident

namespace Stmt

-- What is declared in the block that a statement stands in. The blocks in it have their own.
def declared : Stmt → List String
  | seq s t => s.declared ++ t.declared
  | cast _ x _ | declObject _ x _ _ _ | declFlag x | declSerializer _ x _ | declSize x _
  | declData x _ | declDeserializer _ x _ | declMessage x | mutableRequest x _ | mutableResponse x _
  | nextRequestId x | requestIdOf x _ | newHandler x _ | mutableExtension _ x _ _ _ | newMessage x _
  | declInfo x | newReplyCallback x _ _ | newDoNothing x | declAutoPtr x => [x.text]
  | _ => []

-- What a declaration declares comes first in it. All the rest is used.
def used (s : Stmt) : List String := (s.idents.map (·.text)).drop s.declared.length

-- Whatever is used is visible, in this block and in the ones in it, and none of those declares
-- anything twice.
def Scoped : Stmt → List String → Prop
  | seq s t, visible => s.Scoped visible ∧ t.Scoped (s.declared ++ visible)
  | ifHas x _ _ body, visible | ifObject x body, visible | ifNull x body, visible
  | ifFlag x body, visible | ifError x body, visible =>
    x.text ∈ visible ∧ body.declared.Nodup ∧ body.Scoped visible
  | check call block, visible =>
    (∀ x ∈ call.idents, x.text ∈ visible) ∧ block.declared.Nodup ∧ block.Scoped visible
  | s, visible => ∀ x ∈ s.used, x ∈ visible

structure WellScoped (s : Stmt) (visible : List String) : Prop where
  once  : s.declared.Nodup
  bound : s.Scoped visible

variable {s : Stmt} {ss : List Stmt} {visible visible' : List String}

@[simp]
theorem declared_block : (block ss).declared = ss.flatMap declared := by
  induction ss
  case nil          => rfl
  case cons s ss hi => rw [block, declared, hi, List.flatMap_cons]

theorem scoped_block (h : ∀ s ∈ ss, s.declared = []) :
    (block ss).Scoped visible ↔ ∀ s ∈ ss, s.Scoped visible := by
  induction ss
  case nil => simp [block, Scoped, used, idents]
  case cons s ss hi =>
    have hs : s.declared = [] := h s List.mem_cons_self
    rw [block, Scoped, hs, List.nil_append, hi fun s hs => h s (List.mem_cons_of_mem _ hs),
      List.forall_mem_cons]

theorem wellScoped_iff_of_scoped (h : s.Scoped visible) :
    s.WellScoped visible ↔ s.declared.Nodup :=
  ⟨(·.once), fun hn => ⟨hn, h⟩⟩

end Stmt

-- Every `case` has a block of its own; there are no declarations between them.
structure Switch.WellScoped (s : Switch) (parameters : List String) : Prop where
  cases   : ∀ c ∈ s.cases, c.snd.WellScoped parameters
  default : s.default.WellScoped parameters

namespace RpcGenerator

-- The parameters that are named in the signatures.
def dispatchSignature : List String :=
  ["methodId", "requestMessageEnvelope", "request", "replyChannel"]

def replySignature : List String := ["info"]

def handleSignature : List String :=
  ["channel", "methodId", "incomingResponse", "targetResponse", "errorCode", "errorString",
    "callback"]

end RpcGenerator

open RpcGenerator

structure ServiceDescriptor.WellScoped (service : ServiceDescriptor) : Prop where
  dispatch : (generateDispatchMethodBody service).WellScoped dispatchSignature
  reply    : (generateRelyMethod service).WellScoped replySignature
  handle   : (generateResponseHandlerCpp service).WellScoped handleSignature

def FieldDescriptor.isOf (package : String) (field : FieldDescriptor) : Bool :=
  match field.type with
  | .message name => startsWith package name
  | .other        => false

-- There are both kinds of objects in messages of this type.
def Descriptor.mixes (d : Descriptor) : Bool :=
  d.fields.any (·.isOf "vtk.") && d.fields.any (·.isOf "external.")

section Blocks

variable {x c : Ident} {d : Descriptor} {field : FieldDescriptor} {i : ℕ}
  {visible : List String} {text text' s s' : String}

-- Two names do not become the same by what is put behind them.
def Apart (text text' : String) : Prop :=
  ¬text.toList <+: text'.toList ∧ ¬text'.toList <+: text.toList

instance : DecidableRel Apart := fun _ _ => inferInstanceAs (Decidable (_ ∧ _))

theorem Apart.append_ne_append (h : Apart text text') : text ++ s ≠ text' ++ s' := by
  intro he
  have hl := congrArg String.toList he
  rw [String.toList_append, String.toList_append] at hl
  rcases List.prefix_or_prefix_of_prefix (hl ▸ List.prefix_append _ _) (List.prefix_append _ _)
    with hs | hs
  case inl => exact h.left hs
  case inr => exact h.right hs

theorem nodup_of_apart (names : List (String × String))
    (h : (names.map Prod.fst).Pairwise Apart) : (names.map fun n => n.fst ++ n.snd).Nodup :=
  List.pairwise_map.mpr <| (List.pairwise_map.mp h).imp fun h => h.append_ne_append

-- A piece of code without any identifiers.
theorem scoped_skip : Stmt.skip.Scoped visible := by simp [Stmt.Scoped, Stmt.used, Stmt.idents]

-- What sends an object declares nothing, and it only uses the message and the channel from outside.
structure Sends (x c : Ident) (s : Stmt) : Prop where
  declared : s.declared = []
  bound    : ∀ visible, x.text ∈ visible → c.text ∈ visible → s.Scoped visible

theorem sends_skip : Sends x c .skip where
  declared    := rfl
  bound _ _ _ := scoped_skip

theorem sentVtk_sends : Sends x c (generateSentVtk x c (field, i)) := by
  rw [generateSentVtk]
  split
  case h_1 => exact sends_skip
  case h_2 =>
    dsimp only
    split
    case isFalse => exact sends_skip
    case isTrue =>
      refine ⟨rfl, fun visible hx hc => ?_⟩
      simp [Stmt.Scoped, Stmt.used, Stmt.idents, Stmt.block, Stmt.declared, generateErrorCheck,
        Call.idents, hx, hc]

theorem sentExternal_sends : Sends x c (generateSentExternal x c (field, i)) := by
  rw [generateSentExternal]
  split
  case h_1 => exact sends_skip
  case h_2 =>
    dsimp only
    split
    case isFalse => exact sends_skip
    case isTrue =>
      refine ⟨rfl, fun visible hx hc => ?_⟩
      simp [Stmt.Scoped, Stmt.used, Stmt.idents, Stmt.block, Stmt.declared, generateErrorCheck,
        Call.idents, hx, hc]

theorem sends_map {fields : List (FieldDescriptor × ℕ)} {sent : FieldDescriptor × ℕ → Stmt}
    (h : ∀ y, Sends x c (sent y)) : Sends x c (.block <| fields.map sent) := by
  have hd : ∀ s ∈ fields.map sent, s.declared = [] :=
    List.forall_mem_map.mpr fun y _ => (h y).declared
  constructor
  case declared =>
    rw [Stmt.declared_block]
    exact List.flatMap_eq_nil_iff.mpr hd
  case bound =>
    intro visible hx hc
    rw [Stmt.scoped_block hd]
    exact List.forall_mem_map.mpr fun y _ => (h y).bound visible hx hc

theorem sentVtkBlock_sends : Sends x c (generateSentVtkBlock x c d) :=
  sends_map fun _ => sentVtk_sends

theorem sentExternalBlock_sends : Sends x c (generateSentExternalBlock x c d) :=
  sends_map fun _ => sentExternal_sends

-- What comes of a field that is an object is one statement.
structure Receives (package : String) (c : Ident) (field : FieldDescriptor) (code : Option Stmt) :
    Prop where
  isSome   : code.isSome = field.isOf package
  declared : ∀ s ∈ code, s.declared = []
  bound    : ∀ s ∈ code, ∀ visible, "tmp" ∈ visible → c.text ∈ visible → s.Scoped visible

theorem receiveVtk_receives : Receives "vtk." c field (generateReceiveVtk c (field, i)) := by
  rw [generateReceiveVtk]
  split
  case h_1 ht => exact ⟨by simp [FieldDescriptor.isOf, ht], nofun, nofun⟩
  case h_2 ht =>
    dsimp only
    split
    case isFalse hn => exact ⟨by simp [FieldDescriptor.isOf, ht, hn], nofun, nofun⟩
    case isTrue hn =>
      constructor
      case isSome   => simp [FieldDescriptor.isOf, ht, hn]
      case declared => rintro _ ⟨⟩; rfl
      case bound =>
        rintro _ ⟨⟩ visible ht hc
        have hd := nodup_of_apart [("obj", toString i), ("allocated", "")]
          (show ["obj", "allocated"].Pairwise Apart by decide)
        simp_all [Stmt.Scoped, Stmt.used, Stmt.idents, Stmt.block, Stmt.declared,
          generateErrorCheck, Call.idents]

theorem receiveExternal_receives :
    Receives "external." c field (generateReceiveExternal c (field, i)) := by
  rw [generateReceiveExternal]
  split
  case h_1 ht => exact ⟨by simp [FieldDescriptor.isOf, ht], nofun, nofun⟩
  case h_2 ht =>
    dsimp only
    split
    case isFalse hn => exact ⟨by simp [FieldDescriptor.isOf, ht, hn], nofun, nofun⟩
    case isTrue hn =>
      constructor
      case isSome   => simp [FieldDescriptor.isOf, ht, hn]
      case declared => rintro _ ⟨⟩; rfl
      case bound =>
        rintro _ ⟨⟩ visible ht hc
        have hd := nodup_of_apart
          [("data", toString i), ("obj", toString i), ("allocated", ""), ("deserializer", toString i)]
          (show ["data", "obj", "allocated", "deserializer"].Pairwise Apart by decide)
        simp_all [Stmt.Scoped, Stmt.used, Stmt.idents, Stmt.block, Stmt.declared,
          generateErrorCheck, Call.idents]

variable {package type variableName : String} {receive : FieldDescriptor × ℕ → Option Stmt}
  {s : Stmt}

-- The statements for the objects are in the block that the message is declared in.
def receiveBlock (type variableName : String) (x : Ident) (d : Descriptor)
    (receive : FieldDescriptor × ℕ → Option Stmt) : Stmt :=
  let code := d.fields.zipIdx.filterMap receive
  if !code.isEmpty then
    .block [.cast type variableName x, .cast d.name "tmp" variableName, .block code]
  else
    .skip

theorem isEmpty_code (h : ∀ y, Receives package c y.fst (receive y)) :
    (d.fields.zipIdx.filterMap receive).isEmpty = !d.fields.any (·.isOf package) := by
  have hr : d.fields.any (·.isOf package) = d.fields.zipIdx.any fun y => (receive y).isSome := by
    simp only [(h _).isSome]
    conv_lhs => rw [← List.zipIdx_map_fst 0 d.fields, List.any_map]
    rfl
  rw [hr, Bool.eq_iff_iff]
  simp [List.filterMap_eq_nil_iff]

theorem declared_of_mem_code (h : ∀ y, Receives package c y.fst (receive y))
    (hs : s ∈ d.fields.zipIdx.filterMap receive) : s.declared = [] := by
  obtain ⟨y, -, hs⟩ := List.mem_filterMap.mp hs
  exact (h y).declared s hs

theorem declared_receiveBlock (h : ∀ y, Receives package c y.fst (receive y)) :
    (receiveBlock type variableName x d receive).declared =
      if d.fields.any (·.isOf package) then [variableName, "tmp"] else [] := by
  have hd : (d.fields.zipIdx.filterMap receive).flatMap Stmt.declared = [] :=
    List.flatMap_eq_nil_iff.mpr fun _ => declared_of_mem_code h
  simp only [receiveBlock, isEmpty_code h, Bool.not_not]
  split
  case isTrue  => simp [Stmt.declared, hd]
  case isFalse => rfl

theorem scoped_receiveBlock (h : ∀ y, Receives package c y.fst (receive y))
    (hx : x.text ∈ visible) (hc : c.text ∈ visible) :
    (receiveBlock type variableName x d receive).Scoped visible := by
  have hb : (Stmt.block <| d.fields.zipIdx.filterMap receive).Scoped
      ("tmp" :: variableName :: visible) := by
    rw [Stmt.scoped_block fun _ => declared_of_mem_code h]
    intro s hs
    obtain ⟨y, -, hs⟩ := List.mem_filterMap.mp hs
    exact (h y).bound s hs _ (.head _) (.tail _ <| .tail _ hc)
  rw [receiveBlock]
  split
  case isFalse => exact scoped_skip
  case isTrue  =>
    simpa [Stmt.Scoped, Stmt.used, Stmt.idents, Stmt.block, Stmt.declared, hx] using hb

theorem declared_receiveVtkBlock : (generateReceiveVtkBlock x c d).declared =
    if d.fields.any (·.isOf "vtk.") then ["mut", "tmp"] else [] :=
  declared_receiveBlock fun _ => receiveVtk_receives

theorem declared_receiveExternalBlock : (generateReceiveExternalBlock x c d).declared =
    if d.fields.any (·.isOf "external.") then ["mutableRequest", "tmp"] else [] :=
  declared_receiveBlock fun _ => receiveExternal_receives

theorem scoped_receiveVtkBlock (hx : x.text ∈ visible) (hc : c.text ∈ visible) :
    (generateReceiveVtkBlock x c d).Scoped visible :=
  scoped_receiveBlock (fun _ => receiveVtk_receives) hx hc

theorem scoped_receiveExternalBlock (hx : x.text ∈ visible) (hc : c.text ∈ visible) :
    (generateReceiveExternalBlock x c d).Scoped visible :=
  scoped_receiveBlock (fun _ => receiveExternal_receives) hx hc

end Blocks

section Cases

variable {service : ServiceDescriptor} {method : MethodDescriptor} {j : ℕ}

theorem declared_dispatchCase : (generateDispatchCase service method).declared =
    (if method.voidInput then [] else
      "in" :: ((if method.inputType.fields.any (·.isOf "vtk.") then ["mut", "tmp"] else []) ++
        if method.inputType.fields.any (·.isOf "external.") then ["mutableRequest", "tmp"]
        else [])) ++
      if method.voidOutput then ["done"] else ["out", "info", "done"] := by
  rw [generateDispatchCase]
  cases method.voidInput <;> cases method.voidOutput <;>
    simp [Stmt.declared, declared_receiveVtkBlock, declared_receiveExternalBlock]

theorem scoped_dispatchCase : (generateDispatchCase service method).Scoped dispatchSignature := by
  have hv : (generateReceiveVtkBlock "request" "replyChannel" method.inputType).Scoped
      ("in" :: dispatchSignature) := scoped_receiveVtkBlock (by decide) (by decide)
  have he (declared : List String) :
      (generateReceiveExternalBlock "request" "replyChannel" method.inputType).Scoped
        (declared ++ "in" :: dispatchSignature) :=
    scoped_receiveExternalBlock (List.mem_append_right _ <| by decide)
      (List.mem_append_right _ <| by decide)
  rw [dispatchSignature] at hv he
  rw [generateDispatchCase]
  cases method.voidInput <;> cases method.voidOutput <;>
    simp [Stmt.block, Stmt.Scoped, Stmt.declared, Stmt.used, Stmt.idents, dispatchSignature, hv, he]

theorem declared_replyCase : (generateReplyCase method j).declared =
    ["msg", "response", "requestId", "tmp" ++ toString j, "request"] := by
  simp [generateReplyCase, Stmt.declared, sentVtkBlock_sends.declared,
    sentExternalBlock_sends.declared, generateErrorCheck]

theorem nodup_reply : ["msg", "response", "requestId", "tmp" ++ toString j, "request"].Nodup := by
  have hn (text : String) (h : Apart "tmp" text) : "tmp" ++ toString j ≠ text ++ "" :=
    h.append_ne_append
  have hm := hn "msg" (by decide)
  have hr := hn "response" (by decide)
  have hi := hn "requestId" (by decide)
  have hq := hn "request" (by decide)
  simp_all [eq_comm]

theorem scoped_replyCase : (generateReplyCase method j).Scoped replySignature := by
  have hv : (generateSentVtkBlock (.indexed "tmp" j) (.member "info" "replyChannel")
      method.outputType).Scoped
        ["request", "tmp" ++ toString j, "requestId", "response", "msg", "info"] :=
    sentVtkBlock_sends.bound _ (by simp) (by simp)
  have he : (generateSentExternalBlock (.indexed "tmp" j) (.member "info" "replyChannel")
      method.outputType).Scoped
        ["request", "tmp" ++ toString j, "requestId", "response", "msg", "info"] :=
    sentExternalBlock_sends.bound _ (by simp) (by simp)
  simpa [generateReplyCase, Stmt.block, Stmt.Scoped, Stmt.declared, Stmt.used, Stmt.idents,
    Call.idents, generateErrorCheck, replySignature, sentVtkBlock_sends.declared]
    using And.intro hv he

theorem declared_handleCase : (generateHandleCase method).declared =
    "mutableResponse" :: "responseType" ::
      ((if method.outputType.fields.any (·.isOf "vtk.") then ["mut", "tmp"] else []) ++
        if method.outputType.fields.any (·.isOf "external.") then ["mutableRequest", "tmp"]
        else []) := by
  simp [generateHandleCase, Stmt.declared, declared_receiveVtkBlock, declared_receiveExternalBlock]

theorem scoped_handleCase : (generateHandleCase method).Scoped handleSignature := by
  have hv : (generateReceiveVtkBlock "targetResponse" "channel" method.outputType).Scoped
      ("responseType" :: "mutableResponse" :: handleSignature) :=
    scoped_receiveVtkBlock (by decide) (by decide)
  have he (declared : List String) :
      (generateReceiveExternalBlock "targetResponse" "channel" method.outputType).Scoped
        (declared ++ "responseType" :: "mutableResponse" :: handleSignature) :=
    scoped_receiveExternalBlock (List.mem_append_right _ <| by decide)
      (List.mem_append_right _ <| by decide)
  rw [handleSignature] at hv he
  simp [generateHandleCase, Stmt.block, Stmt.Scoped, Stmt.declared, Stmt.used, Stmt.idents,
    handleSignature, hv, he]

-- Both of the blocks for received objects declare `tmp`.
theorem nodup_dispatch {void vtk external voidOut : Bool} :
    ((if void then [] else "in" :: ((if vtk then ["mut", "tmp"] else []) ++
        if external then ["mutableRequest", "tmp"] else [])) ++
      if voidOut then ["done"] else ["out", "info", "done"]).Nodup ↔
      (void = false → (vtk && external) = false) := by
  cases void <;> cases vtk <;> cases external <;> cases voidOut <;> decide

theorem nodup_handle {vtk external : Bool} :
    ("mutableResponse" :: "responseType" :: ((if vtk then ["mut", "tmp"] else []) ++
      if external then ["mutableRequest", "tmp"] else [])).Nodup ↔ (vtk && external) = false := by
  cases vtk <;> cases external <;> decide

theorem wellScoped_dispatchCase :
    (generateDispatchCase service method).WellScoped dispatchSignature ↔
      (method.voidInput = false → method.inputType.mixes = false) := by
  rw [Stmt.wellScoped_iff_of_scoped scoped_dispatchCase, declared_dispatchCase, nodup_dispatch]
  rfl

theorem wellScoped_replyCase : (generateReplyCase method j).WellScoped replySignature := by
  rw [Stmt.wellScoped_iff_of_scoped scoped_replyCase, declared_replyCase]
  exact nodup_reply

theorem wellScoped_handleCase : (generateHandleCase method).WellScoped handleSignature ↔
    method.outputType.mixes = false := by
  rw [Stmt.wellScoped_iff_of_scoped scoped_handleCase, declared_handleCase, nodup_handle]
  rfl

end Cases

section Switches

variable {service : ServiceDescriptor}

theorem wellScoped_dispatch :
    (generateDispatchMethodBody service).WellScoped dispatchSignature ↔
      ∀ method ∈ service.methods, method.voidInput = false → method.inputType.mixes = false := by
  constructor
  case mp =>
    intro h method hm
    exact wellScoped_dispatchCase.mp <| h.cases _ <| List.mem_map_of_mem hm
  case mpr =>
    intro h
    constructor
    case cases =>
      intro c hc
      obtain ⟨method, hm, rfl⟩ := List.mem_map.mp hc
      exact wellScoped_dispatchCase.mpr (h method hm)
    case default =>
      constructor <;> simp [generateDispatchMethodBody, Stmt.declared, Stmt.Scoped, Stmt.used,
        Stmt.idents, dispatchSignature]

theorem wellScoped_reply : (generateRelyMethod service).WellScoped replySignature := by
  constructor
  case cases =>
    intro c hc
    obtain ⟨⟨method, j⟩, -, hc⟩ := List.mem_filterMap.mp hc
    dsimp only at hc
    split at hc
    case isTrue  => contradiction
    case isFalse =>
      obtain rfl := Option.some.inj hc
      exact wellScoped_replyCase
  case default =>
    constructor <;> simp [generateRelyMethod, Stmt.declared, Stmt.Scoped, Stmt.used, Stmt.idents,
      replySignature]

theorem wellScoped_handle : (generateResponseHandlerCpp service).WellScoped handleSignature ↔
    ∀ method ∈ service.methods, method.voidOutput = false → method.outputType.mixes = false := by
  constructor
  case mp =>
    intro h method hm hv
    have hc : (method.id, generateHandleCase method) ∈ (generateResponseHandlerCpp service).cases :=
      List.mem_filterMap.mpr ⟨method, hm, if_neg <| by simp [hv]⟩
    exact wellScoped_handleCase.mp <| h.cases _ hc
  case mpr =>
    intro h
    constructor
    case cases =>
      intro c hc
      obtain ⟨method, hm, hc⟩ := List.mem_filterMap.mp hc
      split at hc
      case isTrue => contradiction
      case isFalse hv =>
        obtain rfl := Option.some.inj hc
        apply wellScoped_handleCase.mpr
        exact h method hm <| by simpa using hv
    case default => exact ⟨List.nodup_nil, scoped_skip⟩

end Switches

theorem wellScoped_iff {service : ServiceDescriptor} : service.WellScoped ↔
    ∀ method ∈ service.methods,
      (method.voidInput = false → method.inputType.mixes = false) ∧
        (method.voidOutput = false → method.outputType.mixes = false) := by
  constructor
  case mp =>
    intro h method hm
    exact ⟨wellScoped_dispatch.mp h.dispatch method hm, wellScoped_handle.mp h.handle method hm⟩
  case mpr =>
    intro h
    exact {
      dispatch := wellScoped_dispatch.mpr fun method hm => (h method hm).left
      reply    := wellScoped_reply
      handle   := wellScoped_handle.mpr fun method hm => (h method hm).right
    }

-- A method whose input has a table and an external object.
def Salutation.mixedService : ServiceDescriptor where
  fullName := "MixedService"
  methods  := [{
    fullName   := "MixedService.store"
    inputType  := ⟨"Mixed", [vtkField "table" "vtkTable", ⟨"foo", .message "external.Foo.Bar"⟩]⟩
    outputType := void
  }]

-- The `case` in `dispatch` declares `tmp` twice.
theorem not_wellScoped : ¬Salutation.mixedService.WellScoped := by
  rintro ⟨⟨h, -⟩, -, -⟩
  exact absurd (h _ List.mem_cons_self).once (by decide +kernel)

end ProtoCall
