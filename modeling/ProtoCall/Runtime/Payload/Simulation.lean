import ProtoCall.Runtime.Payload.Basic

namespace ProtoCall

namespace Stmt

attribute [local simp] exec

variable {P : Platform}

theorem exec_block {ss : List Stmt} : (block ss).exec P = .block (ss.map (·.exec P)) := by
  induction ss
  case nil => rfl
  case cons s ss hi => simp [block, hi, Command.block_cons]

end Stmt

-- A machine that has been running code that only sends.
def SendsFrom (m₀ m : Machine) (p : Process) : Prop :=
  ∃ scratch, m = { m₀ with process := p, scratch }

theorem SendsFrom.refl (m₀ : Machine) : SendsFrom m₀ m₀ m₀.process := ⟨m₀.scratch, rfl⟩

-- The pointers that the receive blocks declare.
def receiveVars : List Ident := ["mut", "mutableRequest", "tmp"]

-- A machine that has been running code that only receives, into the message that `v` points to.
def ReceivesFrom (m₀ : Machine) (v : Ident) (m : Machine) (s : Payload.Target) : Prop :=
  ∃ root scratch, (∀ x ∉ receiveVars, root x = m₀.root x) ∧ m = { m₀ with
    process  := s.fst
    messages := Function.update m₀.messages (m₀.root v) s.snd
    root
    scratch
  }

theorem ReceivesFrom.refl (m₀ : Machine) (v : Ident) :
    ReceivesFrom m₀ v m₀ (m₀.process, m₀.message v) :=
  ⟨m₀.root, m₀.scratch, fun _ _ => rfl, by simp [Machine.message]⟩

namespace RpcGenerator

open Payload Command

variable {P : Platform} {m₀ : Machine} {v ch : Ident} {d : Descriptor}

section Send

-- Both kinds of fields are sent by a block of this form.
theorem sendField_simulates {body : Stmt} {type : String} {obj : Ident} {i : ℕ}
    {field : FieldDescriptor} {carrier : Carrier}
    (h : ∀ a, Simulates (fun m p => SendsFrom m₀ m p ∧ m.scratch.object obj = some a)
      (body.exec P) (sendObject P carrier a)) :
    Simulates (SendsFrom m₀)
      ((Stmt.ifHas v i field <| .block [.declObject type obj v i field, .ifObject obj body]).exec P)
      (sendField P (m₀.message v) (i, carrier)) := by
  rintro _ p ⟨scratch, rfl⟩
  simp only [Stmt.exec, sendField, Stmt.exec_block, List.map_cons, List.map_nil, block_cons,
    block_nil, seq_skip, Machine.message]
  by_cases hh : (m₀.messages (m₀.root v)).has i
  case neg => simpa [hh, skip] using ⟨scratch, rfl⟩
  rcases Option.eq_none_or_eq_some ((m₀.messages (m₀.root v)).holder i).object with ho | ⟨a, ho⟩
  case inl =>
    simpa [hh, ho, seq, skip, Machine.setObject, Machine.message] using ⟨_, rfl⟩
  case inr =>
    simp only [hh, ho, ↓reduceIte, seq, Machine.setObject, Function.update_self, Option.isSome_some,
      Option.elim_some]
    exact (h a ⟨⟨_, rfl⟩, by simp⟩).imp And.left id

theorem generateSentVtk_simulates {x : FieldDescriptor × ℕ} :
    Simulates (SendsFrom m₀) ((generateSentVtk v ch x).exec P)
      ((x.fst.vtk?.map (sendField P (m₀.message v) ⟨x.snd, ·⟩)).getD .skip) := by
  obtain ⟨⟨_, name | _⟩, i⟩ := x <;> simp only [generateSentVtk, FieldDescriptor.vtk?]
  case other => exact .skip
  by_cases hn : startsWith "vtk." name <;> simp only [hn, Bool.false_eq_true, ↓reduceIte]
  case neg => exact .skip
  apply sendField_simulates
  intro a
  rintro _ p ⟨⟨scratch, rfl⟩, ho⟩
  simp only at ho
  simp only [generateErrorCheck, Stmt.exec, Call.eval, ho, Machine.content, Option.elim_some,
    sendObject, Platform.encode]
  rcases p.send P _ with ⟨_ | _, p⟩ <;> exact ⟨⟨⟨_, rfl⟩, ho⟩, rfl⟩

theorem generateSentExternal_simulates {x : FieldDescriptor × ℕ} :
    Simulates (SendsFrom m₀) ((generateSentExternal v ch x).exec P)
      ((x.fst.external?.map (sendField P (m₀.message v) ⟨x.snd, ·⟩)).getD .skip) := by
  obtain ⟨⟨_, name | _⟩, i⟩ := x <;> simp only [generateSentExternal, FieldDescriptor.external?]
  case other => exact .skip
  by_cases hn : startsWith "external." name <;> simp only [hn, Bool.false_eq_true, ↓reduceIte]
  case neg => exact .skip
  apply sendField_simulates
  intro a
  rintro _ p ⟨⟨scratch, rfl⟩, ho⟩
  simp only at ho
  simp only [generateErrorCheck, Stmt.exec, Stmt.block, seq, skip, Call.eval, ho, Machine.setCodec,
    Machine.setSize, Machine.setData, Machine.content, Option.elim_some, Function.update_self,
    sendObject, Platform.encode, Platform.voidData]
  rcases P.serialize _ _ _ with _ | bytes
  case none => exact ⟨⟨⟨_, rfl⟩, ho⟩, rfl⟩
  case some =>
    simp only [↓reduceIte, Function.update_self, Option.map_some]
    rcases p.send P _ with ⟨_ | _, p⟩ <;> exact ⟨⟨⟨_, rfl⟩, ho⟩, rfl⟩

theorem sentVtkBlock_simulates :
    Simulates (SendsFrom m₀) ((generateSentVtkBlock v ch d).exec P)
      (.block <| d.vtkFields.map <| sendField P (m₀.message v)) := by
  simp only [generateSentVtkBlock, Descriptor.vtkFields, Stmt.exec_block, List.map_map,
    List.map_filterMap, ← block_getD]
  refine .block fun x _ => ?_
  rw [Function.comp_apply, Option.map_map]
  exact generateSentVtk_simulates

theorem sentExternalBlock_simulates :
    Simulates (SendsFrom m₀) ((generateSentExternalBlock v ch d).exec P)
      (.block <| d.externalFields.map <| sendField P (m₀.message v)) := by
  simp only [generateSentExternalBlock, Descriptor.externalFields, Stmt.exec_block, List.map_map,
    List.map_filterMap, ← block_getD]
  refine .block fun x _ => ?_
  rw [Function.comp_apply, Option.map_map]
  exact generateSentExternal_simulates

theorem sentBlocks_simulate :
    Simulates (SendsFrom m₀)
      (seq ((generateSentVtkBlock v ch d).exec P) ((generateSentExternalBlock v ch d).exec P))
      (send P (m₀.message v) d) := by
  simp only [send, Descriptor.payloadFields, List.map_append, block_append]
  exact sentVtkBlock_simulates.seq sentExternalBlock_simulates

end Send

section Receive

-- After the casts, `tmp` stands for the message that `v` points to.
def ReceivesInto (m₀ : Machine) (v : Ident) (m : Machine) (s : Target) : Prop :=
  ReceivesFrom m₀ v m s ∧ m.root "tmp" = m₀.root v

variable {m : Machine} {s : Target} {i a : ℕ} {field : FieldDescriptor} {obj : Ident}
  {allocated : Bool} {type : String}

namespace ReceivesInto

theorem process (h : ReceivesInto m₀ v m s) : m.process = s.fst := by
  obtain ⟨⟨_, _, _, rfl⟩, _⟩ := h
  rfl

theorem message_tmp (h : ReceivesInto m₀ v m s) : m.message "tmp" = s.snd := by
  obtain ⟨⟨root, scratch, _, rfl⟩, ht⟩ := h
  simp only at ht
  simp [Machine.message, ht]

theorem update (h : ReceivesInto m₀ v m s) (p : Process) (scratch : Scratch) :
    ReceivesInto m₀ v { m with process := p, scratch } (p, s.snd) := by
  obtain ⟨⟨root, _, hr, rfl⟩, ht⟩ := h
  exact ⟨⟨root, scratch, hr, rfl⟩, ht⟩

theorem setMessage (h : ReceivesInto m₀ v m s) (msg : Message) :
    ReceivesInto m₀ v (m.setMessage "tmp" msg) (s.fst, msg) := by
  obtain ⟨⟨root, scratch, hr, rfl⟩, ht⟩ := h
  simp only at ht
  exact ⟨⟨root, scratch, hr, by simp [Machine.setMessage, ht]⟩, ht⟩

end ReceivesInto

-- `obj` after the statements that look for the object to receive into.
def obtained (m : Machine) (obj : Ident) (o : ℕ × Bool × Process) : Machine :=
  { m with process := o.snd.snd }.setObject obj (some o.fst) |>.putFlag "allocated" o.snd.fst

theorem exec_obtain {rest : Command Machine Exit} (h : ReceivesInto m₀ v m s) :
    seq ((Stmt.declObject type obj "tmp" i field).exec P)
      (seq ((Stmt.declFlag "allocated").exec P)
        (seq ((Stmt.ifNull obj <| .block [.newObject obj type, .setFlag "allocated"]).exec P)
          rest)) m = rest (obtained m obj <| obtain i s) := by
  have hm := h.message_tmp
  rcases ho : (s.snd.holder i).object with _ | a <;>
    simp [seq, Stmt.exec, Stmt.block, skip, Machine.setObject, Machine.putFlag,
      Machine.updateProcess, hm, ho, obtained, obtain, ← h.process]

theorem exec_receiveData {rest : Command Machine Exit} {data : Ident} {bytes : Bytes} {p : Process}
    (h : m.process.receivePayload P .voidData = (some bytes, p)) :
    seq ((Stmt.declData data none).exec P)
      (seq ((generateErrorCheck <| .receiveData ch data).exec P) rest) m =
      rest ({ m with process := p }.setData data bytes) := by
  simp [seq, Stmt.exec, generateErrorCheck, Call.eval, Machine.setData, h]

theorem generateReceiveVtk_simulates {x : FieldDescriptor × ℕ} :
    Simulates (ReceivesInto m₀ v) (((generateReceiveVtk ch x).map (·.exec P)).getD .skip)
      ((x.fst.vtk?.map (receiveField P ⟨x.snd, ·⟩)).getD .skip) := by
  obtain ⟨⟨_, name | _⟩, i⟩ := x <;> simp only [generateReceiveVtk, FieldDescriptor.vtk?]
  case other => exact .skip
  by_cases hn : startsWith "vtk." name <;> simp only [hn, Bool.false_eq_true, ↓reduceIte]
  case neg => exact .skip
  intro m s h
  simp only [Option.map_some, Option.getD_some, Stmt.exec.eq_3, receiveField, h.message_tmp]
  by_cases hh : s.snd.has i
  case neg => simpa [hh] using h
  simp only [hh, ↓reduceIte, receiveObject, receiveVtk, Stmt.exec_block, List.map_cons,
    List.map_nil, block_cons, block_nil, seq_skip, exec_obtain h]
  rcases obtain i s with ⟨a, allocated, p⟩
  rcases hp : p.receivePayload P (overload <| substr name 4) with ⟨_ | bytes, p'⟩ <;>
    simp only [seq, Stmt.exec, Stmt.block, generateErrorCheck, Call.eval, obtained,
      Machine.setObject, Machine.putFlag, Machine.updateProcess, hp, Bool.false_eq_true, ↓reduceIte,
      Function.update_self, Option.elim_some]
  case none => exact ⟨h.update _ _, trivial⟩
  case some =>
    cases allocated <;> simp only [hand, Bool.false_eq_true, ↓reduceIte]
    case false => exact ⟨h.update _ _, trivial⟩
    case true => rw [(h.update _ _).message_tmp]; exact ⟨(h.update _ _).setMessage _, trivial⟩

theorem generateReceiveExternal_simulates {x : FieldDescriptor × ℕ} :
    Simulates (ReceivesInto m₀ v) (((generateReceiveExternal ch x).map (·.exec P)).getD .skip)
      ((x.fst.external?.map (receiveField P ⟨x.snd, ·⟩)).getD .skip) := by
  obtain ⟨⟨_, name | _⟩, i⟩ := x <;> simp only [generateReceiveExternal, FieldDescriptor.external?]
  case other => exact .skip
  by_cases hn : startsWith "external." name <;> simp only [hn, Bool.false_eq_true, ↓reduceIte]
  case neg => exact .skip
  intro m s h
  simp only [Option.map_some, Option.getD_some, Stmt.exec.eq_3, receiveField, h.message_tmp]
  by_cases hh : s.snd.has i
  case neg => simpa [hh] using h
  simp only [hh, ↓reduceIte, receiveObject, receiveExternal, Stmt.exec_block, List.map_cons,
    List.map_nil, block_cons, block_nil, seq_skip]
  rcases hp : s.fst.receivePayload P .voidData with ⟨_ | bytes, p⟩
  case none =>
    simp only [seq, Stmt.exec, generateErrorCheck, Call.eval, Machine.setData, h.process, hp,
      Bool.false_eq_true, ↓reduceIte]
    exact ⟨h.update _ _, trivial⟩
  rw [exec_receiveData (h.process ▸ hp)]
  have h := h.update p (m.setData (.indexed "data" i) bytes).scratch
  simp only [Machine.setData] at h ⊢
  rw [exec_obtain h]
  rcases obtain i (p, s.snd) with ⟨a, allocated, p⟩
  rcases hd : P.deserialize (externalTypeToClass name) bytes (p.heap.content a) with ⟨_ | _, content⟩
    <;> simp only [seq, Stmt.exec, Stmt.block, generateErrorCheck, Call.eval, obtained,
      Machine.setObject, Machine.putFlag, Machine.setCodec, Machine.content, Machine.updateProcess,
      hd, Bool.false_eq_true, ↓reduceIte, Function.update_self, Option.elim_some]
  case false => exact ⟨h.update _ _, trivial⟩
  case true =>
    cases allocated <;> simp only [hand, Bool.false_eq_true, ↓reduceIte]
    case false => exact ⟨h.update _ _, trivial⟩
    case true => rw [(h.update _ _).message_tmp]; exact ⟨(h.update _ _).setMessage _, trivial⟩

-- `x` is cast from `v`, and `tmp` from `x`.
theorem exec_casts {x : Ident} (hv : v ∉ receiveVars) (hx : x ∈ receiveVars)
    (h : ReceivesFrom m₀ v m s) :
    ∃ m', ReceivesInto m₀ v m' s ∧ ∀ P type type' rest,
      seq ((Stmt.cast type x v).exec P) (seq ((Stmt.cast type' "tmp" x).exec P) rest) m =
        rest m' := by
  obtain ⟨root, scratch, hr, rfl⟩ := h
  have ht : .named "tmp" ∈ receiveVars := by decide
  refine ⟨_, ⟨⟨_, scratch, fun y hy => ?_, rfl⟩, ?_⟩, fun _ _ _ _ => rfl⟩
  case refine_1 =>
    have hx := (ne_of_mem_of_not_mem hx hy).symm
    have ht := (ne_of_mem_of_not_mem ht hy).symm
    simp [hx, ht, hr y hy]
  case refine_2 => simp [hr v hv]

-- Both kinds of receive blocks are of this form.
theorem receiveBlock_simulates {f : FieldDescriptor × ℕ → Option Stmt}
    {g : FieldDescriptor → Option Carrier} {x : Ident} {type type' : String}
    (hv : v ∉ receiveVars) (hx : x ∈ receiveVars) (hn : ∀ y, f y = none → g y.fst = none)
    (h : ∀ y, Simulates (ReceivesInto m₀ v) (((f y).map (·.exec P)).getD .skip)
      (((g y.fst).map (receiveField P ⟨y.snd, ·⟩)).getD .skip)) :
    Simulates (ReceivesFrom m₀ v)
      ((let code := d.fields.zipIdx.filterMap f
        if !code.isEmpty then
          Stmt.block [.cast type x v, .cast type' "tmp" x, .block code]
        else
          .skip).exec P)
      (.block <| (d.fields.zipIdx.filterMap fun (field, i) => (g field).map (i, ·)).map <|
        receiveField P) := by
  intro m s hr
  by_cases hc : d.fields.zipIdx.filterMap f = []
  case pos =>
    have hg : d.fields.zipIdx.filterMap (fun (field, i) => (g field).map (i, ·)) = [] := by
      simp only [List.filterMap_eq_nil_iff, Option.map_eq_none_iff] at hc ⊢
      exact fun y hy => hn y <| hc y hy
    simpa [hc, hg, Stmt.exec, block_nil, skip] using hr
  case neg =>
    obtain ⟨m', hr, he⟩ := exec_casts hv hx hr
    simp only [List.isEmpty_eq_false_iff.mpr hc, Bool.not_false, ↓reduceIte, Stmt.exec_block,
      List.map_cons, List.map_nil, block_cons, block_nil, seq_skip, he, List.map_filterMap,
      Option.map_map, ← block_getD]
    exact (Simulates.block (fun y _ => h y) hr).imp And.left id

theorem receiveVtkBlock_simulates (hv : v ∉ receiveVars) :
    Simulates (ReceivesFrom m₀ v) ((generateReceiveVtkBlock v ch d).exec P)
      (.block <| d.vtkFields.map <| receiveField P) := by
  refine receiveBlock_simulates hv (by decide) ?_ fun _ => generateReceiveVtk_simulates
  rintro ⟨⟨_, name | _⟩, i⟩ h <;> simp_all [generateReceiveVtk, FieldDescriptor.vtk?]

theorem receiveExternalBlock_simulates (hv : v ∉ receiveVars) :
    Simulates (ReceivesFrom m₀ v) ((generateReceiveExternalBlock v ch d).exec P)
      (.block <| d.externalFields.map <| receiveField P) := by
  refine receiveBlock_simulates hv (by decide) ?_ fun _ => generateReceiveExternal_simulates
  rintro ⟨⟨_, name | _⟩, i⟩ h <;> simp_all [generateReceiveExternal, FieldDescriptor.external?]

theorem receiveBlocks_simulate (hv : v ∉ receiveVars) :
    Simulates (ReceivesFrom m₀ v)
      (seq ((generateReceiveVtkBlock v ch d).exec P) ((generateReceiveExternalBlock v ch d).exec P))
      (receive P d) := by
  simp only [receive, Descriptor.payloadFields, List.map_append, block_append]
  exact (receiveVtkBlock_simulates hv).seq (receiveExternalBlock_simulates hv)

end Receive
end RpcGenerator
end ProtoCall
