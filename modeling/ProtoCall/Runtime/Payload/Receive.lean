import ProtoCall.Runtime.Payload.Send

namespace ProtoCall.Payload

variable {P : Platform} {msg : Message} {d : Descriptor} {s : Target} {x : ℕ × Carrier} {i : ℕ}
  {carrier : Carrier}

-- What the object to receive into contains before.
def old (i : ℕ) (s : Target) : Bytes :=
  (s.snd.holder i).object.elim [] s.fst.heap.content

theorem obtain_content : (obtain i s).snd.snd.heap.content (obtain i s).fst = old i s := by
  rcases h : (s.snd.holder i).object with _ | a <;>
    simp [obtain, old, h, Heap.content, Heap.alloc_objects_self]

theorem obtain_channel : (obtain i s).snd.snd.channel = s.fst.channel := by
  rcases h : (s.snd.holder i).object with _ | a <;> simp [obtain, h]

theorem obtain_transfers : s.fst.Transfers (obtain i s).snd.snd := by
  rcases h : (s.snd.holder i).object with _ | a <;> simp only [obtain, h]
  case none => exact .withHeap
  case some => exact .refl

theorem obtain_withLink {l : Link} :
    obtain i (s.fst.withLink l, s.snd) =
      ((obtain i s).fst, (obtain i s).snd.fst, (obtain i s).snd.snd.withLink l) := by
  rcases h : (s.snd.holder i).object with _ | a <;> simp [obtain, h, Process.withLink]

theorem obtain_trace : (obtain i s).snd.snd.trace = s.fst.trace := by
  rcases h : (s.snd.holder i).object with _ | a <;> simp [obtain, h]

-- What becomes of the object to receive into.
inductive Disposal (P : Platform) (i : ℕ) (carrier : Carrier) (s : Target) :
    Target × Option Exit → Prop
  | filled {p : Process} {bytes content : Bytes}
      (item : s.fst.channel.link.receivePayload P carrier.kind = (some bytes, p.channel.link))
      (decode : P.decode carrier bytes (old i s) = (true, content))
      (heap : p.heap = (obtain i s).snd.snd.heap.write (obtain i s).fst content)
      (trace : p.trace = s.fst.trace) (transfers : s.fst.Transfers p) :
      Disposal P i carrier s ((p, hand i (obtain i s).fst (obtain i s).snd.fst s.snd), none)
  | deleted {p : Process} {type : String} (vtk : carrier = .vtk type)
      (item : s.fst.channel.link.receivePayload P carrier.kind = (none, p.channel.link))
      (heap : p.heap = (obtain i s).snd.snd.heap.delete (obtain i s).fst)
      (trace : p.trace = s.fst.trace ++ [.deleteObject (obtain i s).fst])
      (transfers : s.fst.Transfers p) : Disposal P i carrier s ((p, s.snd), some .ret)
  | untouched {p : Process} {cls : String} (external : carrier = .external cls)
      (item : s.fst.channel.link.receivePayload P carrier.kind = (none, p.channel.link))
      (heap : p.heap = s.fst.heap) (trace : p.trace = s.fst.trace)
      (transfers : s.fst.Transfers p) : Disposal P i carrier s ((p, s.snd), some .ret)
  | abandoned {p : Process} {bytes content : Bytes}
      (item : s.fst.channel.link.receivePayload P carrier.kind = (some bytes, p.channel.link))
      (decode : P.decode carrier bytes (old i s) = (false, content))
      (heap : p.heap = (obtain i s).snd.snd.heap.write (obtain i s).fst content)
      (trace : p.trace = s.fst.trace) (transfers : s.fst.Transfers p) :
      Disposal P i carrier s ((p, s.snd), some .ret)

theorem receiveObject_disposal (P : Platform) (x : ℕ × Carrier) (s : Target) :
    Disposal P x.fst x.snd s (receiveObject P x s) := by
  have ht := obtain_transfers (i := x.fst) (s := s)
  obtain ⟨i, type | cls⟩ := x
  case vtk =>
    simp only [receiveObject, receiveVtk, Process.receivePayload, obtain_channel]
    rcases hl : s.fst.channel.link.receivePayload P (overload type) with ⟨_ | bytes, l⟩
    case none =>
      refine .deleted rfl hl rfl ?_ ?_
      case refine_1 => exact congrArg (· ++ _) obtain_trace
      case refine_2 => exact ht.trans <| .trans .withLink <| .trans .withHeap .deleteObject
    case some => exact .filled hl rfl rfl obtain_trace <| ht.trans <| .trans .withLink .withHeap
  case external =>
    rcases hl : s.fst.channel.link.receivePayload P .voidData with ⟨_ | bytes, l⟩
    case none =>
      simp only [receiveObject, receiveExternal, Process.receivePayload, hl]
      exact .untouched rfl hl rfl rfl .withLink
    case some =>
      have hh : ((obtain i s).snd.snd.withLink l).heap.content (obtain i s).fst = old i s :=
        obtain_content
      rcases hd : P.deserialize cls bytes (old i s) with ⟨_ | _, content⟩ <;>
        simp only [receiveObject, receiveExternal, Process.receivePayload, hl, obtain_withLink, hh,
          hd, Bool.false_eq_true, ↓reduceIte]
      case false =>
        refine .abandoned hl hd rfl obtain_trace ?_
        exact ht.trans <| .trans .withLink <| .trans .withHeap .setErrorString
      case true =>
        refine .filled hl hd rfl obtain_trace ?_
        exact ht.trans <| .trans .withLink .withHeap

-- How receiving one object can come out.
inductive Received (P : Platform) (i : ℕ) (carrier : Carrier) (s : Target) :
    Target × Option Exit → Prop
  -- There is nothing of that kind to receive.
  | lost {p : Process} (item : (s.fst.channel.link.receivePayload P carrier.kind).fst = none)
      (link : p.channel.link = (s.fst.channel.link.receivePayload P carrier.kind).snd)
      (transfers : s.fst.Transfers p) : Received P i carrier s ((p, s.snd), some .ret)
  | refused {p : Process} {bytes : Bytes}
      (item : (s.fst.channel.link.receivePayload P carrier.kind).fst = some bytes)
      (link : p.channel.link = (s.fst.channel.link.receivePayload P carrier.kind).snd)
      (decode : (P.decode carrier bytes (old i s)).fst = false) (transfers : s.fst.Transfers p) :
      Received P i carrier s ((p, s.snd), some .ret)
  | filled {p : Process} {bytes content : Bytes}
      (item : (s.fst.channel.link.receivePayload P carrier.kind).fst = some bytes)
      (link : p.channel.link = (s.fst.channel.link.receivePayload P carrier.kind).snd)
      (decode : P.decode carrier bytes (old i s) = (true, content))
      (heap : p.heap = (obtain i s).snd.snd.heap.write (obtain i s).fst content)
      (transfers : s.fst.Transfers p) :
      Received P i carrier s ((p, hand i (obtain i s).fst (obtain i s).snd.fst s.snd), none)

theorem receiveObject_received (P : Platform) (x : ℕ × Carrier) (s : Target) :
    Received P x.fst x.snd s (receiveObject P x s) := by
  have h := receiveObject_disposal P x s
  generalize receiveObject P x s = r at h
  cases h
  case filled item decode heap _ transfers =>
    exact .filled (congrArg Prod.fst item) (congrArg Prod.snd item).symm decode heap transfers
  case abandoned item decode _ _ transfers =>
    refine .refused (congrArg Prod.fst item) ?_ (congrArg Prod.fst decode) transfers
    exact (congrArg Prod.snd item).symm
  case deleted item _ _ transfers | untouched item _ _ transfers =>
    exact .lost (congrArg Prod.fst item) (congrArg Prod.snd item).symm transfers

theorem receiveObject_transfers : s.fst.Transfers (receiveObject P x s).fst.fst := by
  have h := receiveObject_received P x s
  generalize receiveObject P x s = r at h
  cases h <;> assumption

theorem receiveObject_link : (receiveObject P x s).fst.fst.channel.link =
    (s.fst.channel.link.receivePayload P x.snd.kind).snd := by
  have h := receiveObject_received P x s
  generalize receiveObject P x s = r at h
  cases h <;> assumption

theorem hand_toContent {a : ℕ} {allocated : Bool} :
    (hand i a allocated msg).toContent = msg.toContent := by
  cases allocated <;> rfl

theorem receiveObject_toContent :
    (receiveObject P x s).fst.snd.toContent = s.snd.toContent := by
  have h := receiveObject_received P x s
  generalize receiveObject P x s = r at h
  cases h
  case filled => exact hand_toContent
  all_goals rfl

-- The object of a field can be received, and is accepted by its deserializer.
def Accepts (P : Platform) (x : ℕ × Carrier) (s : Target) : Prop :=
  ∃ bytes, (s.fst.channel.link.receivePayload P x.snd.kind).fst = some bytes ∧
    (P.decode x.snd bytes <| old x.fst s).fst

theorem receiveObject_of_accepts (h : Accepts P x s) : (receiveObject P x s).snd = none := by
  obtain ⟨bytes, hb, hd⟩ := h
  have h := receiveObject_received P x s
  generalize receiveObject P x s = r at h
  cases h
  case lost hn _ _           => simp [hb] at hn
  case refused _ hs hf _ _ => simp_all
  case filled                => rfl

theorem receiveObject_of_not_accepts (h : ¬Accepts P x s) :
    (receiveObject P x s).snd = some .ret := by
  have hr := receiveObject_received P x s
  generalize receiveObject P x s = r at hr
  cases hr
  case filled bytes _ hb _ hd _ _ => exact absurd ⟨bytes, hb, congrArg Prod.fst hd⟩ h
  all_goals rfl

-- The fields of a message whose objects are received.
def present (d : Descriptor) (c : Content) : List (ℕ × Carrier) :=
  d.payloadFields.filter (c.has ·.fst)

theorem present_of_nil {t : Descriptor} {c : Content} (h : c.fields = []) :
    present t c = [] := by
  have hf : ∀ x ∈ t.payloadFields, ¬c.has x.fst := fun _ _ => by
    simp [Content.has, Content.field, h]
    rfl
  exact List.filter_eq_nil_iff.mpr hf

def receiveObjects (P : Platform) (xs : List (ℕ × Carrier)) : Command Target Exit :=
  .block <| xs.map <| receiveObject P

variable {xs : List (ℕ × Carrier)}

theorem receive_eq : receive P d s = receiveObjects P (present d s.snd.toContent) s := by
  simp only [receive, receiveObjects, present]
  induction d.payloadFields generalizing s
  case nil => rfl
  case cons x xs hi =>
    have hc := receiveObject_toContent (P := P) (x := x) (s := s)
    rw [List.map_cons, Command.block_cons, List.filter_cons]
    split
    case isFalse hx =>
      have hf : receiveField P x s = (s, none) := if_neg hx
      rw [Command.seq_of_none hf, hi]
    case isTrue hx =>
      have hf : receiveField P x s = receiveObject P x s := if_pos hx
      rcases hr : receiveObject P x s with ⟨s', _ | e⟩ <;> rw [hr] at hc <;>
        rw [List.map_cons, Command.block_cons]
      case none => rw [Command.seq_of_none (hf.trans hr), Command.seq_of_none hr, hi, hc]
      case some => rw [Command.seq_of_some (hf.trans hr), Command.seq_of_some hr]

-- What a run of receives keeps, whatever becomes of it.
def Receives (s s' : Target) : Prop :=
  s.fst.Transfers s'.fst ∧ s'.snd.toContent = s.snd.toContent

instance : Std.Refl Receives := ⟨fun _ => ⟨.refl, rfl⟩⟩

instance : IsTrans Target Receives := ⟨fun _ _ _ h h' => ⟨h.1.trans h'.1, h'.2.trans h.2⟩⟩

theorem receiveObjects_receives : Receives s (receiveObjects P xs s).fst :=
  Command.Keeps.block
    (fun _ _ _ => ⟨receiveObject_transfers, receiveObject_toContent⟩) s

theorem receive_receives : Receives s (receive P d s).fst :=
  receive_eq ▸ receiveObjects_receives

theorem receiveObjects_cons_of_accepts (h : Accepts P x s) :
    receiveObjects P (x :: xs) s = receiveObjects P xs (receiveObject P x s).fst :=
  Command.seq_of_none <| Prod.ext rfl <| receiveObject_of_accepts h

theorem receiveObjects_cons_of_not_accepts (h : ¬Accepts P x s) :
    receiveObjects P (x :: xs) s = ((receiveObject P x s).fst, some .ret) :=
  Command.seq_of_some <| Prod.ext rfl <| receiveObject_of_not_accepts h

-- The objects of all fields can be received and are accepted, one after the other.
def AcceptsAll (P : Platform) : List (ℕ × Carrier) → Target → Prop
  | [], _      => True
  | x :: xs, s => Accepts P x s ∧ AcceptsAll P xs (receiveObject P x s).fst

theorem receiveObjects_snd_eq_none_iff :
    (receiveObjects P xs s).snd = none ↔ AcceptsAll P xs s := by
  induction xs generalizing s
  case nil => exact ⟨fun _ => trivial, fun _ => rfl⟩
  case cons x xs hi =>
    by_cases h : Accepts P x s
    case pos => rw [receiveObjects_cons_of_accepts h, hi]; simp [AcceptsAll, h]
    case neg => simp [receiveObjects_cons_of_not_accepts h, AcceptsAll, h]

theorem receiveObjects_of_not_acceptsAll (h : ¬AcceptsAll P xs s) :
    (receiveObjects P xs s).snd = some .ret := by
  induction xs generalizing s
  case nil => exact absurd trivial h
  case cons x xs hi =>
    by_cases hx : Accepts P x s
    case pos =>
      rw [receiveObjects_cons_of_accepts hx]
      exact hi fun ha => h ⟨hx, ha⟩
    case neg => rw [receiveObjects_cons_of_not_accepts hx]

theorem receiveObjects_exit {e : Exit} (h : (receiveObjects P xs s).snd = some e) : e = .ret := by
  by_cases ha : AcceptsAll P xs s
  case pos => exact nomatch (receiveObjects_snd_eq_none_iff.mpr ha).symm.trans h
  case neg => exact Option.some.inj <| h.symm.trans <| receiveObjects_of_not_acceptsAll ha

end ProtoCall.Payload
