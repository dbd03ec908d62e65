import ProtoCall.Runtime.Payload.Agreement

namespace ProtoCall

namespace Platform

variable {P : Platform} {carrier : Carrier} {content old : Bytes} {item : PayloadItem}

-- Deserializers invert their serializers, whatever the object was before, and a serialized object
-- has the size that was announced.
structure Inverse (P : Platform) : Prop extends P.Reliable where
  inverse : ∀ cls content bytes, P.serialize cls content (P.size cls content) = some bytes →
    bytes.length = P.size cls content ∧ ∀ old, P.deserialize cls bytes old = (true, content)

-- An `unsigned int` holds the size of what is sent for an object.
def Sized (P : Platform) : Carrier → Bytes → Prop
  | .vtk _, _              => True
  | .external cls, content => P.size cls content < 2 ^ 32

instance : Decidable (P.Sized carrier content) :=
  match carrier with
  | .vtk _        => inferInstanceAs <| Decidable True
  | .external cls => inferInstanceAs <| Decidable (P.size cls content < 2 ^ 32)

theorem written_new {bytes : Bytes} (h : bytes.length < 2 ^ 32) :
    RpcVoidData.written (RpcVoidData.new bytes.length) bytes = bytes := by
  simp only [RpcVoidData.written, RpcVoidData.new, List.length_replicate, Nat.mod_eq_of_lt h]
  simp

theorem Inverse.decode (hP : P.Inverse) (hs : P.Sized carrier content)
    (h : P.encode carrier content = some item) :
    P.decode carrier item.bytes old = (true, content) := by
  cases carrier
  case vtk type =>
    obtain rfl := Option.some.inj h
    rfl
  case external cls =>
    simp only [encode, voidData, Option.map_eq_some_iff] at h
    obtain ⟨_, ⟨bytes, he, rfl⟩, rfl⟩ := h
    obtain ⟨hl, hd⟩ := hP.inverse cls content bytes he
    have hs : P.size cls content < 2 ^ 32 := hs
    rw [← hl] at hs ⊢
    rw [written_new hs]
    exact hd old

end Platform

namespace Link

variable {P : Platform} {l : Link} {rest : List Item}

theorem receivePayload_of_kind {item : PayloadItem} (hr : ∀ n, P.receiveOk n)
    (h : l.incoming = .payload item :: rest) :
    (l.receivePayload P item.kind).fst = some item.bytes ∧
      (l.receivePayload P item.kind).snd.incoming = rest := by
  simp [receivePayload, hr, h]

theorem receivePayload_outgoing {kind : PayloadKind} :
    (l.receivePayload P kind).snd.outgoing = l.outgoing := by
  simp only [receivePayload]
  repeat' split
  all_goals rfl

end Link

namespace Payload

variable {P : Platform} {d : Descriptor} {msg : Message} {heap : Heap} {xs : List (ℕ × Carrier)}
  {x : ℕ × Carrier} {items : List PayloadItem} {item : PayloadItem} {contents : List Bytes}
  {content : Bytes} {s : Target} {rest : List Item}

-- The items that objects with these contents travel in.
inductive Encodes (P : Platform) : List (ℕ × Carrier) → List PayloadItem → List Bytes → Prop
  | nil : Encodes P [] [] []
  | cons {x : ℕ × Carrier} {xs : List (ℕ × Carrier)} {item : PayloadItem}
      {items : List PayloadItem} {content : Bytes} {contents : List Bytes} :
    P.encode x.snd content = some item → Encodes P xs items contents →
    Encodes P (x :: xs) (item :: items) (content :: contents)

-- Items from which the objects' contents are found again.
inductive Intact (P : Platform) : List (ℕ × Carrier) → List PayloadItem → List Bytes → Prop
  | nil : Intact P [] [] []
  | cons {x : ℕ × Carrier} {xs : List (ℕ × Carrier)} {item : PayloadItem}
      {items : List PayloadItem} {content : Bytes} {contents : List Bytes} :
    (∀ old, P.decode x.snd item.bytes old = (true, content)) → Intact P xs items contents →
    Intact P (x :: xs) (item :: items) (content :: contents)

-- Every field that is present has an object.
def Full (d : Descriptor) (msg : Message) : Prop :=
  ∀ x ∈ present d msg.toContent, (msg.holder x.fst).object.isSome

instance : Decidable (Full d msg) :=
  inferInstanceAs <| Decidable (∀ x ∈ present d msg.toContent, (msg.holder x.fst).object.isSome)

-- The contents of the objects of the fields that are present.
def objects (heap : Heap) (msg : Message) (d : Descriptor) : List (Option Bytes) :=
  (present d msg.toContent).map fun x => (msg.holder x.fst).object.map heap.content

-- The objects can be sent in one piece.
def Sized (P : Platform) (heap : Heap) (msg : Message) (d : Descriptor) : Prop :=
  ∀ x ∈ present d msg.toContent, ∀ a ∈ (msg.holder x.fst).object, P.Sized x.snd (heap.content a)

instance : Decidable (Sized P heap msg d) :=
  inferInstanceAs <| Decidable (∀ x ∈ present d msg.toContent,
    ∀ a ∈ (msg.holder x.fst).object, P.Sized x.snd (heap.content a))

theorem items_encodes (hP : P.Reliable) (hf : Full d msg) :
    ∃ contents, Encodes P (present d msg.toContent) (Payload.items P heap msg d) contents ∧
      (P.Inverse → Sized P heap msg d →
        Intact P (present d msg.toContent) (Payload.items P heap msg d) contents) ∧
      objects heap msg d = contents.map some := by
  simp only [Full, Sized, objects, Payload.items, attempts, present] at hf ⊢
  generalize d.payloadFields = xs at hf ⊢
  induction xs
  case nil => exact ⟨[], .nil, fun _ _ => .nil, rfl⟩
  case cons x xs hi =>
    rw [List.filter_cons] at hf
    by_cases hx : msg.has x.fst
    case neg =>
      rw [if_neg hx] at hf
      obtain ⟨contents, he, hv, ho⟩ := hi hf
      exact ⟨contents, by simpa [hx] using he, by simpa [hx] using hv, by simpa [hx] using ho⟩
    case pos =>
      rw [if_pos hx] at hf
      obtain ⟨hs, hf⟩ := List.forall_mem_cons.mp hf
      obtain ⟨contents, he, hv, ho⟩ := hi hf
      obtain ⟨a, ha⟩ := Option.isSome_iff_exists.mp hs
      have hs : (P.encode x.snd <| heap.content a).isSome := encode_isSome hP
      obtain ⟨item, hs⟩ := Option.isSome_iff_exists.mp hs
      refine ⟨heap.content a :: contents, ?_, fun hI hz => ?_, by simpa [hx, ha] using ho⟩
      · simpa [hx, ha, hs, List.reduceOption_cons_of_some] using Encodes.cons hs he
      · rw [List.filter_cons, if_pos hx] at hz
        obtain ⟨hx', hz⟩ := List.forall_mem_cons.mp hz
        have hv := Intact.cons (fun _ => hI.decode (hx' a ha) hs) (hv hI hz)
        simpa [hx, ha, hs, List.reduceOption_cons_of_some] using hv

-- What is received is what has been sent, up to the objects' contents.
structure Takes (P : Platform) (xs : List (ℕ × Carrier)) (s : Target) (rest : List Item) : Prop where
  exit     : (receiveObjects P xs s).snd = none
  incoming : (receiveObjects P xs s).fst.fst.channel.link.incoming = rest

theorem receiveObject_incoming (hr : ∀ n, P.receiveOk n) (hk : item.kind = x.snd.kind)
    (hi : s.fst.channel.link.incoming = .payload item :: rest) :
    (receiveObject P x s).fst.fst.channel.link.incoming = rest := by
  rw [receiveObject_link, ← hk]
  exact (Link.receivePayload_of_kind hr hi).right

theorem receiveObject_accepts (hP : P.Reliable) (hk : item.kind = x.snd.kind)
    (hi : s.fst.channel.link.incoming = .payload item :: rest) : Accepts P x s := by
  rw [accepts_iff hP, ← hk, (Link.receivePayload_of_kind hP.receiveOk hi).left]
  rfl

theorem Encodes.takes (he : Encodes P xs items contents) (hP : P.Reliable)
    (hi : s.fst.channel.link.incoming = items.map .payload ++ rest) : Takes P xs s rest := by
  induction he generalizing s
  case nil => exact ⟨rfl, hi⟩
  case cons hx _ ih =>
    have hk := kind_of_encode hx
    have ha := receiveObject_accepts hP hk hi
    have ⟨he, hr⟩ := ih <| receiveObject_incoming hP.receiveOk hk hi
    rw [← receiveObjects_cons_of_accepts ha] at he hr
    exact ⟨he, hr⟩

-- Nothing is sent, and the error of the message stays as it is.
def Leaves (s s' : Target) : Prop :=
  s'.fst.channel.link.outgoing = s.fst.channel.link.outgoing ∧ s'.snd.error = s.snd.error

instance : Std.Refl Leaves := ⟨fun _ => ⟨rfl, rfl⟩⟩

instance : IsTrans Target Leaves := ⟨fun _ _ _ h h' => ⟨h'.1.trans h.1, h'.2.trans h.2⟩⟩

theorem receiveObject_leaves : Leaves s (receiveObject P x s).fst := by
  refine ⟨?_, ?_⟩
  case refine_1 => rw [receiveObject_link, Link.receivePayload_outgoing]
  case refine_2 =>
    have h := receiveObject_received P x s
    generalize receiveObject P x s = r at h
    cases h
    case filled => rw [hand]; split <;> rfl
    all_goals rfl

theorem receiveObjects_leaves : Leaves s (receiveObjects P xs s).fst :=
  Command.Keeps.block (R := Leaves) (fun _ _ _ => receiveObject_leaves) s

section Values

-- No field of a message that has just come in has an object yet.
theorem receiveObject_value (hP : P.Reliable) (hk : item.kind = x.snd.kind)
    (hv : ∀ old, P.decode x.snd item.bytes old = (true, content))
    (hi : s.fst.channel.link.incoming = .payload item :: rest)
    (hn : (s.snd.holder x.fst).object = none) :
    (receiveObject P x s).fst.fst.heap = s.fst.heap.alloc.write s.fst.heap.next content ∧
      (receiveObject P x s).fst.snd =
        s.snd.setHolder x.fst (.setAllocated (some s.fst.heap.next)) := by
  have hr := receiveObject_received P x s
  have hb := (Link.receivePayload_of_kind hP.receiveOk hi).left
  rw [hk] at hb
  have ho : obtain x.fst s = (s.fst.heap.next, true, { s.fst with heap := s.fst.heap.alloc }) := by
    simp [obtain, hn]
  generalize receiveObject P x s = result at hr
  cases hr
  case lost hl _ _ => cases hl.symm.trans hb
  case refused hl _ hd _ =>
    obtain rfl := Option.some.inj <| hl.symm.trans hb
    rw [hv] at hd
    contradiction
  case filled hl _ hd hh _ =>
    obtain rfl := Option.some.inj <| hl.symm.trans hb
    obtain ⟨_, rfl⟩ := Prod.mk.inj <| (hv _).symm.trans hd
    rw [ho] at hh ⊢
    exact ⟨hh, rfl⟩

-- Where receiving leaves the objects, and what it leaves alone.
structure Fills (xs : List (ℕ × Carrier)) (contents : List Bytes) (s s' : Target) : Prop where
  next    : s.fst.heap.next ≤ s'.fst.heap.next
  kept    : ∀ a < s.fst.heap.next, s'.fst.heap.content a = s.fst.heap.content a
  holders : ∀ i, i ∉ xs.map Prod.fst → s'.snd.holder i = s.snd.holder i
  objects : xs.map (fun x => (s'.snd.holder x.fst).object.map s'.fst.heap.content) =
    contents.map some

theorem Encodes.fills (he : Encodes P xs items contents) (hP : P.Reliable)
    (hv : Intact P xs items contents)
    (hi : s.fst.channel.link.incoming = items.map .payload ++ rest)
    (hx : (xs.map Prod.fst).Nodup) (hn : ∀ x ∈ xs, (s.snd.holder x.fst).object = none) :
    Fills xs contents s (receiveObjects P xs s).fst := by
  induction he generalizing s
  case nil => exact ⟨le_rfl, fun _ _ => rfl, fun _ _ => rfl, rfl⟩
  case cons x xs item items content contents he _ ih =>
    obtain ⟨hm, hx⟩ := List.nodup_cons.mp hx
    obtain ⟨hn, hns⟩ := List.forall_mem_cons.mp hn
    have hk := kind_of_encode he
    have ha := receiveObject_accepts hP hk hi
    obtain ⟨hv, hvs⟩ : _ ∧ Intact P xs items contents := by
      cases hv
      case cons hv hvs => exact ⟨hv, hvs⟩
    obtain ⟨hh, hs⟩ := receiveObject_value hP hk hv hi hn
    set s' := (receiveObject P x s).fst
    have hf := ih hvs (receiveObject_incoming hP.receiveOk hk hi) hx fun y hy => by
      have hne : y.fst ≠ x.fst := fun h => hm <| h ▸ List.mem_map_of_mem hy
      rw [hs, Message.setHolder_holder_of_ne hne]
      exact hns y hy
    rw [receiveObjects_cons_of_accepts ha]
    have hlt : s.fst.heap.next < s'.fst.heap.next := by
      rw [hh]
      exact Nat.lt_succ_self _
    exact {
      next      := hlt.le.trans hf.next
      kept a hl := by
        rw [hf.kept a (hl.trans hlt), hh, Heap.content, Heap.write_objects_of_ne hl.ne,
          Heap.alloc_objects_of_ne hl.ne]
        rfl
      holders i hi := by
        obtain ⟨hix, hi⟩ := List.ne_and_not_mem_of_not_mem_cons hi
        rw [hf.holders i hi, hs, Message.setHolder_holder_of_ne hix]
      objects   := by
        rw [List.map_cons, List.map_cons, hf.objects, hf.holders _ hm, hs,
          Message.setHolder_holder_self, Holder.setAllocated, Option.map_some, hf.kept _ hlt, hh,
          Heap.content, Heap.write_objects_self (by simp [Heap.alloc_objects_self])]
        rfl
    }

end Values

section Fields

theorem indices_sublist {α β : Type*} {f : α → Option β} {fields : List (α × ℕ)} :
    ((fields.filterMap fun (field, i) => (f field).map (i, ·)).map Prod.fst).Sublist
      (fields.map Prod.snd) := by
  induction fields
  case nil => simp
  case cons hd tl hi =>
    obtain ⟨field, i⟩ := hd
    cases h : f field
    case none   => simpa [h] using hi.cons i
    case some _ => simpa [h] using hi

theorem mem_indices {α β : Type*} {f : α → Option β} {fields : List α} {i : ℕ}
    (h : i ∈ (fields.zipIdx.filterMap fun (field, i) => (f field).map (i, ·)).map Prod.fst) :
    ∃ field, fields[i]? = some field ∧ (f field).isSome := by
  obtain ⟨_, hm, hi⟩ := List.mem_map.mp h
  obtain ⟨⟨field, j⟩, hz, hm⟩ := List.mem_filterMap.mp hm
  obtain ⟨b, hf, rfl⟩ := Option.map_eq_some_iff.mp hm
  obtain rfl : j = i := hi
  exact ⟨field, List.mem_zipIdx_iff_getElem?.mp hz, by rw [hf]; rfl⟩

-- The type of a field begins with at most one of the two.
theorem external?_of_vtk? {field : FieldDescriptor} (h : field.vtk?.isSome) :
    field.external? = none := by
  rcases ht : field.type with name | _
  case other => simp [FieldDescriptor.external?, ht]
  case message =>
    have hv : startsWith "vtk." name := by
      by_contra hv
      simp [FieldDescriptor.vtk?, ht, hv] at h
    have he : startsWith "external." name = false := by
      simp only [startsWith] at hv ⊢
      cases hn : name.toList
      case nil => rfl
      case cons c cs =>
        rw [hn] at hv
        have hc : 'v' = c := by simpa using (List.isPrefixOf_iff_prefix.mp hv).head
        simp [← hc, List.isPrefixOf]
    simp [FieldDescriptor.external?, ht, he]

theorem nodup_payloadFields : (d.payloadFields.map Prod.fst).Nodup := by
  have hz : (d.fields.zipIdx.map Prod.snd).Nodup := by
    rw [List.zipIdx_map_snd]
    exact List.nodup_range'
  rw [Descriptor.payloadFields, List.map_append]
  refine List.nodup_append.mpr ⟨hz.sublist indices_sublist, hz.sublist indices_sublist, ?_⟩
  rintro i hv _ he rfl
  obtain ⟨field, hf, hv⟩ := mem_indices hv
  obtain ⟨_, hf', he⟩ := mem_indices he
  obtain rfl := Option.some.inj <| hf.symm.trans hf'
  rw [external?_of_vtk? hv] at he
  contradiction

theorem nodup_present {c : Content} : ((present d c).map Prod.fst).Nodup :=
  nodup_payloadFields.sublist <| List.filter_sublist.map _

end Fields

end Payload
end ProtoCall
