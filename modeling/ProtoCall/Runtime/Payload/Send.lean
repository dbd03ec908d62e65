import Mathlib.Data.List.ReduceOption
import ProtoCall.Runtime.Payload.Basic

namespace ProtoCall

theorem appended_trans {α : Type*} {q : α → Prop} {xs ys zs : List α}
    (h : ∃ as, ys = xs ++ as ∧ ∀ a ∈ as, q a) (h' : ∃ as, zs = ys ++ as ∧ ∀ a ∈ as, q a) :
    ∃ as, zs = xs ++ as ∧ ∀ a ∈ as, q a := by
  obtain ⟨as, rfl, ha⟩ := h
  obtain ⟨as', rfl, ha'⟩ := h'
  refine ⟨as ++ as', List.append_assoc .., fun a hm => ?_⟩
  exact (List.mem_append.mp hm).elim (ha a) (ha' a)

-- What code that only sends or receives payloads may change.
structure Process.Transfers (p p' : Process) : Prop where
  callbacks : p'.channel.responseCallbacks = p.channel.responseCallbacks
  requestId : p'.channel.currentRequestId = p.channel.currentRequestId
  manager   : p'.manager = p.manager
  responses : p'.responses = p.responses
  next      : p'.next = p.next
  trace     : ∃ es, p'.trace = p.trace ++ es ∧ ∀ e ∈ es, ∃ a, e = .deleteObject a

namespace Process.Transfers

variable {P : Platform} {p p' p'' : Process}

theorem refl : Transfers p p where
  callbacks := rfl
  requestId := rfl
  manager   := rfl
  responses := rfl
  next      := rfl
  trace     := ⟨[], by simp⟩

theorem trans (h : Transfers p p') (h' : Transfers p' p'') : Transfers p p'' where
  callbacks := h'.callbacks.trans h.callbacks
  requestId := h'.requestId.trans h.requestId
  manager   := h'.manager.trans h.manager
  responses := h'.responses.trans h.responses
  next      := h'.next.trans h.next
  trace     := appended_trans h.trace h'.trace

instance : Std.Refl Transfers := ⟨fun _ => refl⟩

instance : IsTrans Process Transfers := ⟨fun _ _ _ => trans⟩

theorem withLink {l : Link} : Transfers p (p.withLink l) := { refl with }

theorem setErrorString {text : String} : Transfers p (p.setErrorString text) := { refl with }

theorem withHeap {heap : Heap} : Transfers p { p with heap } := { refl with }

theorem deleteObject {a : ℕ} : Transfers p (p.log (.deleteObject a)) :=
  { refl with trace := ⟨[.deleteObject a], rfl, by simp⟩ }

theorem send {item : Item} : Transfers p (p.send P item).snd := withLink

theorem receivePayload {kind : PayloadKind} : Transfers p (p.receivePayload P kind).snd := withLink

end Process.Transfers

namespace Payload

variable {P : Platform} {p : Process} {msg : Message} {d : Descriptor}

-- What the generated code tries to send for a message: `none` where a serializer fails.
def attempts (P : Platform) (heap : Heap) (msg : Message) (d : Descriptor) :
    List (Option PayloadItem) :=
  d.payloadFields.filterMap fun (i, carrier) =>
    if msg.has i then (msg.holder i).object.map fun a => P.encode carrier <| heap.content a
    else none

def attempt (P : Platform) : Option PayloadItem → Command Process Exit
  | none      => fun p => (p.setErrorString "Serialization failed", some .ret)
  | some item => fun p =>
    let (ok, p) := p.send P (.payload item)
    (p, if ok then none else some .ret)

theorem attempt_heap {a : Option PayloadItem} : (attempt P a p).fst.heap = p.heap := by
  cases a <;> rfl

theorem attempt_transfers {a : Option PayloadItem} : p.Transfers (attempt P a p).fst := by
  cases a
  case none => exact .setErrorString
  case some => exact .send

theorem attempt_snd_eq_none_iff {item : PayloadItem} :
    (attempt P (some item) p).snd = none ↔ P.sendOk p.channel.link.sends := by
  cases h : P.sendOk p.channel.link.sends <;> simp [attempt, Process.send, Link.send, h]

theorem sendObject_eq {carrier : Carrier} {a : ℕ} :
    sendObject P carrier a p = attempt P (P.encode carrier <| p.heap.content a) p := by
  simp only [sendObject, attempt]
  cases P.encode carrier (p.heap.content a) <;> rfl

theorem send_eq : send P msg d p = Command.block ((attempts P p.heap msg d).map (attempt P)) p := by
  simp only [send, attempts, List.map_filterMap, ← Command.block_getD]
  let R (q q' : Process) : Prop := q = q' ∧ q.heap = p.heap
  suffices h : ∀ x, Command.Simulates R (sendField P msg x) _ by
    obtain ⟨⟨hs, _⟩, he⟩ :=
      (Command.Simulates.block fun x (_ : x ∈ d.payloadFields) => h x) ⟨rfl, rfl⟩
    exact Prod.ext hs he
  rintro ⟨i, carrier⟩ q _ ⟨rfl, hh⟩
  by_cases hi : msg.has i <;> cases ho : (msg.holder i).object <;>
    simp only [sendField, hi, ho, ↓reduceIte, Bool.false_eq_true, Option.elim_none,
      Option.elim_some, Option.map_none, Option.map_some, Option.getD_none, Option.getD_some]
  case pos.some a =>
    rw [sendObject_eq, hh]
    exact ⟨⟨rfl, attempt_heap.trans hh⟩, rfl⟩
  all_goals exact ⟨⟨rfl, hh⟩, trivial⟩

theorem send_transfers : p.Transfers (send P msg d p).fst := by
  rw [send_eq]
  exact Command.Keeps.block (R := Process.Transfers) (fun _ _ _ => attempt_transfers) p

-- From the n-th on, all attempts go through.
def Delivers (P : Platform) : ℕ → List (Option PayloadItem) → Prop
  | _, []      => True
  | n, a :: as => a.isSome ∧ P.sendOk n ∧ Delivers P (n + 1) as

variable {as : List (Option PayloadItem)}

theorem attempts_of_delivers (h : Delivers P p.channel.link.sends as) :
    Command.block (as.map (attempt P)) p = (p.withLink { p.channel.link with
      outgoing := p.channel.link.outgoing ++ as.reduceOption.map .payload
      sends    := p.channel.link.sends + as.length
    }, none) := by
  induction as generalizing p
  case nil => simp [Command.block, Command.skip, Process.withLink, List.reduceOption_nil]
  case cons a as hi =>
    obtain ⟨ha, ho, h⟩ := h
    obtain ⟨item, rfl⟩ := Option.isSome_iff_exists.mp ha
    rw [List.map_cons, Command.block_cons,
      Command.seq_of_none (by simp [attempt, Process.send, Link.send, ho]; rfl), hi h]
    simp [Process.withLink, List.reduceOption_cons_of_some, Nat.add_assoc, Nat.add_comm 1]

theorem attempts_of_not_delivers (h : ¬Delivers P p.channel.link.sends as) :
    (Command.block (as.map (attempt P)) p).snd = some .ret := by
  induction as generalizing p
  case nil => exact absurd trivial h
  case cons a as hi =>
    rw [List.map_cons, Command.block_cons]
    cases a
    case none => rfl
    case some item =>
      by_cases ho : P.sendOk p.channel.link.sends
      case neg => simp [Command.seq, attempt, Process.send, Link.send, ho]
      case pos =>
        rw [Command.seq_of_none (by simp [attempt, Process.send, Link.send, ho]; rfl)]
        exact hi fun hd => h ⟨rfl, ho, hd⟩

end Payload
end ProtoCall
