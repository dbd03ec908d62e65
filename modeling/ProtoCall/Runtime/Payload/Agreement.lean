import ProtoCall.Examples.Salutation
import ProtoCall.Library.Framing
import ProtoCall.Runtime.Payload.Receive
import ProtoCall.Runtime.Payload.Simulation

namespace ProtoCall

def Item.kind? : Item → Option PayloadKind
  | envelope _ => none
  | payload p  => some p.kind

namespace Payload

open RpcGenerator

variable {P : Platform} {d : Descriptor} {msg : Message} {p q : Process} {v ch : Ident}
  {rest : List Item} {xs : List (ℕ × Carrier)} {s : Target}

-- A machine whose pointers all lead to `msg`.
def start (msg : Message) (p : Process) : Machine where
  process  := p
  args     := {}
  messages := fun _ => msg

-- What the generated send code leaves behind.
def afterSend (P : Platform) (v ch : Ident) (d : Descriptor) (msg : Message) (p : Process) :
    Process :=
  (Stmt.exec P (.seq (generateSentVtkBlock v ch d) (generateSentExternalBlock v ch d)) <|
    start msg p).fst.process

-- What the generated receive code leaves behind.
def afterReceive (P : Platform) (v ch : Ident) (d : Descriptor) (msg : Message) (p : Process) :
    Process :=
  (Stmt.exec P (.seq (generateReceiveVtkBlock v ch d) (generateReceiveExternalBlock v ch d)) <|
    start msg p).fst.process

theorem afterSend_eq : afterSend P v ch d msg p = (send P msg d p).fst := by
  obtain ⟨⟨_, h⟩, _⟩ := sentBlocks_simulate (.refl (start msg p))
  exact congrArg Machine.process h

theorem afterReceive_eq (hv : v ∉ receiveVars) :
    afterReceive P v ch d msg p =
      (receiveObjects P (present d msg.toContent) (p, msg)).fst.fst := by
  obtain ⟨⟨_, _, _, h⟩, _⟩ := receiveBlocks_simulate hv (.refl (start msg p) v)
  exact (congrArg Machine.process h).trans <| congrArg (·.fst.fst) receive_eq

-- A process `q` that has a message from the wire, and these items ahead of it, asks for just these,
-- and takes them.
structure Agrees (P : Platform) (v ch : Ident) (d : Descriptor) (msg : Message) (q : Process)
    (items : List PayloadItem) (rest : List Item) : Prop where
  reads    : (afterReceive P v ch d (.parsed msg.toContent) q).channel.link.reads =
    q.channel.link.reads ++ items.map (·.kind)
  incoming : (afterReceive P v ch d (.parsed msg.toContent) q).channel.link.incoming = rest

section Send

-- The items that are sent if nothing fails: those of the fields that have an object.
def items (P : Platform) (heap : Heap) (msg : Message) (d : Descriptor) : List PayloadItem :=
  (attempts P heap msg d).reduceOption

theorem encode_isSome (hP : P.Reliable) {carrier : Carrier} {content : Bytes} :
    (P.encode carrier content).isSome := by
  cases carrier
  case vtk          => rfl
  case external cls => simp [Platform.encode, Platform.voidData, hP.serialize]

theorem kind_of_encode {carrier : Carrier} {content : Bytes} {item : PayloadItem}
    (h : P.encode carrier content = some item) : item.kind = carrier.kind := by
  cases carrier
  case vtk      => cases h; rfl
  case external =>
    obtain ⟨_, _, rfl⟩ := Option.map_eq_some_iff.mp h
    rfl

theorem isSome_of_mem_attempts (hP : P.Reliable) {heap : Heap} {a : Option PayloadItem}
    (h : a ∈ attempts P heap msg d) : a.isSome := by
  obtain ⟨⟨i, carrier⟩, _, h⟩ := List.mem_filterMap.mp h
  obtain ⟨_, _, rfl⟩ := Option.map_eq_some_iff.mp <| (ite_eq_iff.mp h).resolve_right (by simp) |>.right
  exact encode_isSome hP

theorem delivers_of_isSome (hs : ∀ n, P.sendOk n) {as : List (Option PayloadItem)} {n : ℕ}
    (h : ∀ a ∈ as, a.isSome) : Delivers P n as := by
  induction as generalizing n
  case nil => trivial
  case cons a as hi =>
    exact ⟨h a (List.mem_cons_self ..), hs n, hi fun b hb => h b <| List.mem_cons_of_mem _ hb⟩

theorem afterSend_outgoing (hP : P.Reliable) :
    (afterSend P v ch d msg p).channel.link.outgoing =
      p.channel.link.outgoing ++ (items P p.heap msg d).map .payload := by
  have hd : Delivers P p.channel.link.sends (attempts P p.heap msg d) :=
    delivers_of_isSome hP.sendOk fun _ => isSome_of_mem_attempts hP
  rw [afterSend_eq, send_eq, attempts_of_delivers hd]
  rfl

theorem items_kind (hP : P.Reliable) (heap : Heap) : (items P heap msg d).map (·.kind) =
    ((present d msg.toContent).filter fun x => (msg.holder x.fst).object.isSome).map (·.snd.kind)
    := by
  simp only [items, attempts, present]
  induction d.payloadFields
  case nil => rfl
  case cons x xs hi =>
    obtain ⟨i, carrier⟩ := x
    by_cases hh : msg.has i <;> cases ho : (msg.holder i).object
    case pos.some a =>
      have hs : (P.encode carrier <| heap.content a).isSome := encode_isSome hP
      obtain ⟨item, he⟩ := Option.isSome_iff_exists.mp hs
      simpa [hh, ho, he, List.reduceOption_cons_of_some, kind_of_encode he] using hi
    all_goals simpa [hh, ho] using hi

end Send

section Receive

theorem receivePayload_link (hr : ∀ n, P.receiveOk n) {l : Link} {k : PayloadKind} :
    (l.receivePayload P k).snd.reads = l.reads ++ [k] ∧
      (((l.receivePayload P k).fst.isSome ∧ ∃ item, item.kind? = some k ∧
        l.incoming = item :: (l.receivePayload P k).snd.incoming) ∨
      ((l.receivePayload P k).fst = none ∧ (l.receivePayload P k).snd.incoming = l.incoming ∧
        ∀ item rest, l.incoming = item :: rest → item.kind? ≠ some k)) := by
  simp only [Link.receivePayload, hr, ↓reduceIte]
  rcases hi : l.incoming with _ | ⟨e | item, rest⟩
  case nil => simp
  case cons.envelope => simp [Item.kind?]
  case cons.payload =>
    by_cases hk : item.kind = k <;> simp [hk, Item.kind?]

theorem accepts_iff (hP : P.Reliable) {x : ℕ × Carrier} :
    Accepts P x s ↔ (s.fst.channel.link.receivePayload P x.snd.kind).fst.isSome := by
  obtain ⟨i, type | cls⟩ := x <;>
    simp [Accepts, Platform.decode, hP.deserialize, Option.isSome_iff_exists]

theorem receiveObjects_read (hP : P.Reliable) :
    (receiveObjects P xs s).fst.fst.channel.link.reads = s.fst.channel.link.reads ++
        (Framing.read Item.kind? (xs.map (·.snd.kind)) s.fst.channel.link.incoming).fst ∧
      (receiveObjects P xs s).fst.fst.channel.link.incoming =
        (Framing.read Item.kind? (xs.map (·.snd.kind)) s.fst.channel.link.incoming).snd := by
  induction xs generalizing s
  case nil => simp [receiveObjects, Command.block, Command.skip, Framing.read]
  case cons x xs hi =>
    have hl := receiveObject_link (P := P) (x := x) (s := s)
    obtain ⟨hr, ⟨ha, item, hk, hc⟩ | ⟨ha, hc, hk⟩⟩ :=
      receivePayload_link hP.receiveOk (l := s.fst.channel.link) (k := x.snd.kind)
    all_goals rw [← hl] at hr hc
    case inl =>
      rw [receiveObjects_cons_of_accepts ((accepts_iff hP).mpr ha), hc, List.map_cons,
        Framing.read_cons_of_kind hk]
      exact ⟨by rw [hi.left, hr, List.append_assoc]; rfl, hi.right⟩
    case inr =>
      have ha : ¬Accepts P x s := mt (accepts_iff hP).mp (by simp [ha])
      rw [receiveObjects_cons_of_not_accepts ha, hr, hc, List.map_cons]
      cases hq : s.fst.channel.link.incoming
      case nil => exact ⟨rfl, rfl⟩
      case cons item rest =>
        rw [Framing.read_cons_of_ne (hk item rest hq)]
        exact ⟨rfl, rfl⟩

theorem afterReceive_read (ch : Ident) (d : Descriptor) (msg : Message) (q : Process)
    (hP : P.Reliable) (hv : v ∉ receiveVars) :
    (afterReceive P v ch d msg q).channel.link.reads = q.channel.link.reads ++
        (Framing.read Item.kind? ((present d msg.toContent).map (·.snd.kind))
          q.channel.link.incoming).fst ∧
      (afterReceive P v ch d msg q).channel.link.incoming =
        (Framing.read Item.kind? ((present d msg.toContent).map (·.snd.kind))
          q.channel.link.incoming).snd := by
  rw [afterReceive_eq hv]
  exact receiveObjects_read hP

end Receive

theorem filter_kind_iff {xs : List (ℕ × Carrier)} {f : ℕ × Carrier → Bool} :
    xs.map (·.snd.kind) = (xs.filter f).map (·.snd.kind) ↔ ∀ x ∈ xs, f x where
  mp h := by
    have hl := congrArg List.length h
    simp only [List.length_map] at hl
    exact List.filter_eq_self.mp <| List.filter_sublist.eq_of_length hl.symm
  mpr h := by rw [List.filter_eq_self.mpr h]

theorem agrees_iff {w c : Ident} {S : List PayloadItem} (hP : P.Reliable) (hw : w ∉ receiveVars)
    (hs : (afterSend P v c d msg p).channel.link.outgoing =
      p.channel.link.outgoing ++ S.map .payload)
    (hq : q.channel.link.incoming = S.map .payload ++ rest) :
    Agrees P w ch d msg q S rest ↔
      ∀ x ∈ present d msg.toContent, (msg.holder x.fst).object.isSome := by
  have hi : S = items P p.heap msg d := by
    rw [afterSend_outgoing hP, List.append_cancel_left_eq] at hs
    exact (List.map_injective_iff.mpr (fun _ _ h => Item.payload.inj h) hs).symm
  have hk : (S.map Item.payload).map Item.kind? = (S.map (·.kind)).map some := by
    simp [Function.comp_def, Item.kind?]
  have hr := afterReceive_read ch d (.parsed msg.toContent) q hP hw
  rw [Message.parsed_toContent, hq] at hr
  rw [← filter_kind_iff, ← items_kind hP p.heap, ← hi]
  constructor
  case mp =>
    rintro ⟨hreads, hincoming⟩
    rw [hr.left, List.append_cancel_left_eq] at hreads
    rw [hr.right] at hincoming
    exact Framing.eq_of_read hk <| Prod.ext hreads hincoming
  case mpr =>
    intro he
    have ha : Framing.read _ _ (_ ++ rest) = _ := Framing.read_append (he ▸ hk)
    exact {
      reads    := by rw [hr.left, ha, he]
      incoming := by rw [hr.right, ha]
    }

-- A `RequestVTK` whose first field is present.
def requestVTK (object : Option ℕ) : Message where
  type   := Salutation.requestVTK
  fields := [⟨true, []⟩]
  holder := fun _ => { object }

theorem agrees_requestVTK :
    Agrees Salutation.platform "request" "replyChannel" Salutation.requestVTK (requestVTK (some 0))
        { channel.link.incoming := [.payload ⟨.vtkDataObject, []⟩] } [⟨.vtkDataObject, []⟩] [] ↔
      ∀ x ∈ present Salutation.requestVTK (requestVTK (some 0)).toContent,
        ((requestVTK (some 0)).holder x.fst).object.isSome :=
  agrees_iff (v := "input") (c := "m_channel") (p := {}) Salutation.platform_reliable (by decide)
    (by decide +kernel) rfl

-- The field is present, but its holder has no object: nothing is sent, and one object is asked for.
theorem not_agrees_requestVTK :
    (afterSend Salutation.platform "input" "m_channel" Salutation.requestVTK (requestVTK none)
      {}).channel.link.outgoing = [] ∧
    ¬Agrees Salutation.platform "request" "replyChannel" Salutation.requestVTK (requestVTK none) {}
      [] [] :=
  ⟨by decide +kernel, fun h => absurd h.reads (by decide +kernel)⟩

end Payload
end ProtoCall
