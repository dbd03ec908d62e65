import ProtoCall.Examples.External
import ProtoCall.Runtime.Payload.Agreement
import ProtoCall.Runtime.Payload.RoundTrip

namespace ProtoCall

def Event.deletedObject? : Event → Option ℕ
  | deleteObject a => some a
  | _              => none

namespace Payload

open RpcGenerator

-- What the generated receive code makes of a process and of the message that `v` points to, and how
-- it is left.
def run (P : Platform) (v ch : Ident) (d : Descriptor) (s : Target) : Target × Option Exit :=
  let blocks := .seq (generateReceiveVtkBlock v ch d) (generateReceiveExternalBlock v ch d)
  let (m, exit) := Stmt.exec P blocks <| start s.snd s.fst
  ((m.process, m.message v), exit)

-- No holder points to an object that does not exist.
def Live (s : Target) : Prop :=
  ∀ i a, (s.snd.holder i).object = some a → (s.fst.heap.objects a).isSome

-- The objects that have been deleted between `s` and `s'`.
def deletions (s s' : Target) : List ℕ :=
  (s'.fst.trace.drop s.fst.trace.length).filterMap Event.deletedObject?

-- What code that receives objects has allocated is what the allocator has handed out since.
structure GivesBack (s s' : Target) : Prop where
  deletes : ∀ a, a ∈ deletions s s' ↔ s.fst.heap.next ≤ a ∧ a < s'.fst.heap.next ∧
    ∀ i, (s'.snd.holder i).object ≠ some a
  once    : (deletions s s').Nodup
  spares  : ∀ i a, (s.snd.holder i).object = some a → a ∉ deletions s s'
  live    : Live s'

-- Why receiving ends early: the object of a field does not come, or its deserializer refuses what
-- has come.
inductive Failure
  | lost (x : ℕ × Carrier)
  | refused (x : ℕ × Carrier)
  deriving DecidableEq, Repr

-- What the link and the deserializers answer when they are asked field by field. `contents` are
-- those of the objects that the holders have.
def failure? (P : Platform) (holder : ℕ → Holder) :
    List (ℕ × Carrier) → Link → (ℕ → Bytes) → Option Failure
  | [], _, _ => none
  | x :: xs, l, contents =>
    let object := (holder x.fst).object
    match l.receivePayload P x.snd.kind with
    | (none, _)       => some <| .lost x
    | (some bytes, l) =>
      match P.decode x.snd bytes <| object.elim [] contents with
      | (false, _)      => some <| .refused x
      | (true, content) =>
        failure? P holder xs l <| object.elim contents (Function.update contents · content)

-- The cases in which the code on a failing field's way out fits the holder of the field: a VTK
-- object is deleted, wherever it is from, and one that a deserializer has refused never is.
def Failure.Harmless (msg : Message) : Failure → Prop
  | lost (i, .vtk _)      => (msg.holder i).object = none
  | lost (_, .external _) => True
  | refused (i, _)        => (msg.holder i).object.isSome

def Failure.field : Failure → ℕ × Carrier
  | lost x | refused x => x

-- This is how receiving the field from `s` on goes wrong.
def Failure.At (P : Platform) (s : Target) : Failure → Prop
  | lost x    => (s.fst.channel.link.receivePayload P x.snd.kind).fst = none
  | refused x => ∃ bytes, (s.fst.channel.link.receivePayload P x.snd.kind).fst = some bytes ∧
    (P.decode x.snd bytes <| old x.fst s).fst = false

variable {P : Platform} {v ch : Ident} {d : Descriptor} {s s' s₁ : Target} {x : ℕ × Carrier}
  {xs : List (ℕ × Carrier)} {i a : ℕ} {bytes content : Bytes} {carrier : Carrier}

theorem run_eq (hv : v ∉ receiveVars) : run P v ch d s = receive P d s := by
  have hs : Command.Simulates (ReceivesFrom (start s.snd s.fst) v)
    (.seq ((generateReceiveVtkBlock v ch d).exec P) ((generateReceiveExternalBlock v ch d).exec P))
    (receive P d) := receiveBlocks_simulate hv
  obtain ⟨⟨root, scratch, hr, hm⟩, he⟩ := hs (.refl (start s.snd s.fst) v)
  simp only [run, Stmt.exec, hm, he, Machine.message, hr v hv, Function.update_self]
  rfl

section Obtain

theorem obtain_object {j : ℕ} :
    ((hand i (obtain i s).fst (obtain i s).snd.fst s.snd).holder j).object =
      if j = i then some (obtain i s).fst else (s.snd.holder j).object := by
  rcases h : (s.snd.holder i).object with _ | a <;> simp only [obtain, h, hand]
  case none =>
    by_cases hj : j = i
    case pos => simp [hj, Holder.setAllocated]
    case neg => simp [hj, Message.setHolder_holder_of_ne hj]
  case some =>
    by_cases hj : j = i
    case pos => simp [hj, h]
    case neg => simp [hj]

theorem obtain_fst (h : (s.snd.holder i).object = some a) : (obtain i s).fst = a := by
  simp [obtain, h]

theorem le_obtain_next : s.fst.heap.next ≤ (obtain i s).snd.snd.heap.next := by
  rcases h : (s.snd.holder i).object with _ | a <;> simp [obtain, h, Heap.alloc]

theorem obtain_live_of_live (hl : (s.fst.heap.objects a).isSome) :
    ((obtain i s).snd.snd.heap.objects a).isSome := by
  rcases h : (s.snd.holder i).object with _ | b <;> simp only [obtain, h]
  case some => exact hl
  case none =>
    rw [Heap.alloc_objects_of_ne <| (Heap.lt_next_of_isSome hl).ne]
    exact hl

namespace Live

theorem lt_next (hl : Live s) (h : (s.snd.holder i).object = some a) : a < s.fst.heap.next :=
  Heap.lt_next_of_isSome <| hl i a h

theorem obtain_live (hl : Live s) :
    ((obtain i s).snd.snd.heap.objects (obtain i s).fst).isSome := by
  rcases h : (s.snd.holder i).object with _ | a
  case none => simp [obtain, h, Heap.alloc_objects_self]
  case some =>
    rw [obtain_fst h]
    exact obtain_live_of_live <| hl i a h

theorem lt_obtain_next_iff (hl : Live s) :
    a < (obtain i s).snd.snd.heap.next ↔ a < s.fst.heap.next ∨ a = (obtain i s).fst := by
  rcases h : (s.snd.holder i).object with _ | b
  case none =>
    simp only [obtain, h]
    exact Nat.lt_succ_iff_lt_or_eq
  case some =>
    have hb := hl.lt_next h
    simp only [obtain, h]
    constructor
    case mp => exact .inl
    case mpr =>
      rintro (ha | rfl)
      case inl => exact ha
      case inr => exact hb

-- The object that has been received into is live, and so are those that were there before.
theorem fill {p : Process} (hl : Live s)
    (hp : p.heap = (obtain i s).snd.snd.heap.write (obtain i s).fst content) :
    Live (p, hand i (obtain i s).fst (obtain i s).snd.fst s.snd) := by
  intro j a hj
  rw [hp, Heap.write_isSome]
  rw [obtain_object] at hj
  split at hj
  case isTrue  => exact Option.some.inj hj ▸ hl.obtain_live
  case isFalse => exact obtain_live_of_live <| hl j a hj

-- Of the objects that have been there before, it is only the holder's that is written to.
theorem content_fill (hl : Live s) (ha : a < s.fst.heap.next) :
    ((obtain i s).snd.snd.heap.write (obtain i s).fst content).content a =
      if (s.snd.holder i).object = some a then content else s.fst.heap.content a := by
  rcases h : (s.snd.holder i).object with _ | b <;> simp only [obtain, h, Heap.content]
  case none => simp [Heap.write_objects_of_ne ha.ne, Heap.alloc_objects_of_ne ha.ne]
  case some =>
    by_cases hb : a = b
    case pos => simp [hb, Heap.write_objects_self <| hl i b h]
    case neg => simp [Heap.write_objects_of_ne hb, Ne.symm hb]

end Live
end Obtain

-- Receiving has come from `s` to `s₁` without a failure: a holder has each object that has been
-- allocated on the way.
structure Handed (s s₁ : Target) : Prop where
  next   : s.fst.heap.next ≤ s₁.fst.heap.next
  trace  : s₁.fst.trace = s.fst.trace
  handed : ∀ a, s.fst.heap.next ≤ a → a < s₁.fst.heap.next → ∃ i, (s₁.snd.holder i).object = some a
  live   : Live s₁

namespace Handed

theorem refl (hl : Live s) : Handed s s where
  next           := le_refl _
  trace          := rfl
  handed _ h h'  := absurd h' h.not_gt
  live           := hl

theorem receiveObject (h : Handed s s₁) (ha : Accepts P x s₁) :
    Handed s (receiveObject P x s₁).fst := by
  have hd := receiveObject_disposal P x s₁
  have hr := receiveObject_of_accepts ha
  generalize Payload.receiveObject P x s₁ = r at hd hr
  cases hd <;> try contradiction
  case filled p bytes content _ _ heap trace _ =>
    constructor
    case trace => exact trace.trans h.trace
    case live  => exact h.live.fill heap
    case next =>
      rw [heap]
      exact h.next.trans le_obtain_next
    case handed =>
      intro a hle hlt
      rw [heap] at hlt
      rcases h.live.lt_obtain_next_iff.mp hlt with hlt | rfl
      case inr => exact ⟨x.fst, by simp [obtain_object]⟩
      case inl =>
        obtain ⟨i, hi⟩ := h.handed a hle hlt
        refine ⟨i, ?_⟩
        rw [obtain_object]
        split
        case isTrue hx => rw [obtain_fst (hx ▸ hi)]
        case isFalse   => exact hi

end Handed

section Follow

variable {holder : ℕ → Holder} {l l' : Link} {contents : ℕ → Bytes}

theorem failure?_of_lost (h : l.receivePayload P x.snd.kind = (none, l')) :
    failure? P holder (x :: xs) l contents = some (.lost x) := by
  simp [failure?, h]

theorem failure?_of_refused (h : l.receivePayload P x.snd.kind = (some bytes, l'))
    (hd : P.decode x.snd bytes ((holder x.fst).object.elim [] contents) = (false, content)) :
    failure? P holder (x :: xs) l contents = some (.refused x) := by
  simp [failure?, h, hd]

theorem failure?_of_accepted (h : l.receivePayload P x.snd.kind = (some bytes, l'))
    (hd : P.decode x.snd bytes ((holder x.fst).object.elim [] contents) = (true, content)) :
    failure? P holder (x :: xs) l contents = failure? P holder xs l'
      ((holder x.fst).object.elim contents (Function.update contents · content)) := by
  simp [failure?, h, hd]

-- Receiving has come from `s` to `s₁` when `failure?` has come to these arguments.
structure Follows (s : Target) (xs : List (ℕ × Carrier)) (l : Link) (contents : ℕ → Bytes)
    (s₁ : Target) : Prop where
  link     : s₁.fst.channel.link = l
  holders  : ∀ x ∈ xs, (s₁.snd.holder x.fst).object = (s.snd.holder x.fst).object
  contents : ∀ i a, (s.snd.holder i).object = some a → s₁.fst.heap.content a = contents a

namespace Follows

theorem refl : Follows s xs s.fst.channel.link s.fst.heap.content s where
  link           := rfl
  holders _ _    := rfl
  contents _ _ _ := rfl

theorem head (h : Follows s (x :: xs) l contents s₁) :
    (s₁.snd.holder x.fst).object = (s.snd.holder x.fst).object :=
  h.holders x <| List.mem_cons_self ..

theorem old (h : Follows s (x :: xs) l contents s₁) :
    old x.fst s₁ = (s.snd.holder x.fst).object.elim [] contents := by
  rw [Payload.old, h.head]
  cases ho : (s.snd.holder x.fst).object
  case none => rfl
  case some => exact h.contents _ _ ho

theorem receiveObject (h : Follows s (x :: xs) l contents s₁) (hh : Handed s s₁) (hl : Live s)
    (hn : ((x :: xs).map Prod.fst).Nodup) (hp : l.receivePayload P x.snd.kind = (some bytes, l'))
    (hd : P.decode x.snd bytes ((s.snd.holder x.fst).object.elim [] contents) = (true, content)) :
    Follows s xs l' ((s.snd.holder x.fst).object.elim contents (Function.update contents · content))
      (receiveObject P x s₁).fst := by
  have hr := receiveObject_disposal P x s₁
  have ha : Accepts P x s₁ := ⟨bytes, by rw [h.link, hp], by rw [h.old, hd]⟩
  have he := receiveObject_of_accepts ha
  generalize Payload.receiveObject P x s₁ = r at hr he
  cases hr <;> try contradiction
  case filled p bytes' content' item decode heap _ _ =>
    rw [h.link, hp] at item
    obtain ⟨rfl, rfl⟩ := Prod.ext_iff.mp item |>.imp Option.some.inj id
    rw [h.old, hd] at decode
    obtain rfl : content = content' := congrArg Prod.snd decode
    constructor
    case link => rfl
    case holders =>
      intro y hy
      have hy' : y.fst ≠ x.fst := by
        rintro he
        exact (List.nodup_cons.mp hn).left <| he ▸ List.mem_map_of_mem hy
      rw [obtain_object, if_neg hy']
      exact h.holders y <| List.mem_cons_of_mem _ hy
    case contents =>
      intro i a hi
      rw [heap, hh.live.content_fill <| (hl.lt_next hi).trans_le hh.next, h.head, h.contents i a hi]
      cases (s.snd.holder x.fst).object
      case none => rfl
      case some => simp [Function.update_apply, eq_comm]

end Follows

-- How receiving the objects of fields ends after `failure?` has been asked about them.
inductive Ends (P : Platform) (s : Target) : Option Failure → Target × Option Exit → Prop
  | complete {s' : Target} : Ends P s none (s', none)
  | failed {f : Failure} {s₁ : Target} (handed : Handed s s₁)
      (holder : (s₁.snd.holder f.field.fst).object = (s.snd.holder f.field.fst).object)
      (fails : f.At P s₁) : Ends P s (some f) ((receiveObject P f.field s₁).fst, some .ret)

theorem receiveObjects_ends (hl : Live s) (hn : (xs.map Prod.fst).Nodup) (hh : Handed s s₁)
    (hf : Follows s xs l contents s₁) :
    Ends P s (failure? P s.snd.holder xs l contents) (receiveObjects P xs s₁) := by
  induction xs generalizing s₁ l contents
  case nil => exact .complete
  case cons x xs hi =>
    rcases hp : l.receivePayload P x.snd.kind with ⟨_ | bytes, l'⟩
    case none =>
      have hb : (s₁.fst.channel.link.receivePayload P x.snd.kind).fst = none := by rw [hf.link, hp]
      have ha : ¬Accepts P x s₁ := fun ⟨_, h, _⟩ => nomatch hb.symm.trans h
      rw [failure?_of_lost hp, receiveObjects_cons_of_not_accepts ha]
      exact .failed (f := .lost x) hh hf.head hb
    case some =>
      have hb : (s₁.fst.channel.link.receivePayload P x.snd.kind).fst = some bytes := by
        rw [hf.link, hp]
      rcases hd : P.decode x.snd bytes <| (s.snd.holder x.fst).object.elim [] contents
        with ⟨_ | _, content⟩
      case false =>
        have hd' : (P.decode x.snd bytes <| old x.fst s₁).fst = false := by rw [hf.old, hd]
        have ha : ¬Accepts P x s₁ := by
          rintro ⟨_, h, ha⟩
          rw [← Option.some.inj <| hb.symm.trans h, hd'] at ha
          contradiction
        rw [failure?_of_refused hp hd, receiveObjects_cons_of_not_accepts ha]
        exact .failed (f := .refused x) hh hf.head ⟨bytes, hb, hd'⟩
      case true =>
        have ha : Accepts P x s₁ := ⟨bytes, hb, by rw [hf.old, hd]⟩
        rw [failure?_of_accepted hp hd, receiveObjects_cons_of_accepts ha]
        exact hi (List.nodup_cons.mp hn).right (hh.receiveObject ha)
          (hf.receiveObject hh hl hn hp hd)

end Follow

section Failing

variable {p : Process}

theorem deletions_of_same (h : s'.fst.trace = s.fst.trace) : deletions s s' = [] := by
  simp [deletions, h]

theorem deletions_of_delete (h : s'.fst.trace = s.fst.trace ++ [.deleteObject a]) :
    deletions s s' = [a] := by
  simp [deletions, h, Event.deletedObject?]

namespace Handed

-- Nothing is given back where nothing has been allocated for the field.
theorem givesBack (h : Handed s s₁) (ht : p.trace = s₁.fst.trace)
    (hn : p.heap.next = s₁.fst.heap.next)
    (ho : ∀ a, (p.heap.objects a).isSome = (s₁.fst.heap.objects a).isSome) :
    GivesBack s (p, s₁.snd) := by
  have hd : deletions s (p, s₁.snd) = [] := deletions_of_same <| ht.trans h.trace
  constructor
  case deletes =>
    intro a
    simp only [hd, List.not_mem_nil, false_iff, hn]
    rintro ⟨hle, hlt, ha⟩
    obtain ⟨i, hi⟩ := h.handed a hle hlt
    exact ha i hi
  case once   => simp [hd]
  case spares => simp [hd]
  case live   => exact fun i a hi => ho a ▸ h.live i a hi

-- What has been allocated for the field is deleted, and no holder has it.
theorem givesBack_delete (h : Handed s s₁) (hl : Live s)
    (ht : p.trace = s₁.fst.trace ++ [.deleteObject s₁.fst.heap.next])
    (hp : p.heap = s₁.fst.heap.alloc.delete s₁.fst.heap.next) : GivesBack s (p, s₁.snd) := by
  have hd : deletions s (p, s₁.snd) = [s₁.fst.heap.next] := deletions_of_delete <| h.trace ▸ ht
  constructor
  case deletes =>
    intro a
    simp only [hd, List.mem_singleton, hp]
    constructor
    case mp =>
      rintro rfl
      exact ⟨h.next, Nat.lt_succ_self _, fun j hj => (h.live.lt_next hj).ne rfl⟩
    case mpr =>
      rintro ⟨hle, hlt, ha⟩
      rcases Nat.lt_succ_iff_lt_or_eq.mp hlt with hlt | rfl
      case inr => rfl
      case inl =>
        obtain ⟨j, hj⟩ := h.handed a hle hlt
        exact absurd hj <| ha j
  case once => simp [hd]
  case spares =>
    intro j a hj
    have ha := (hl.lt_next hj).trans_le h.next
    simp [hd, ha.ne]
  case live =>
    intro j a hj
    have ha := (h.live.lt_next hj).ne
    rw [hp]
    simpa [Heap.delete, ha, Heap.alloc_objects_of_ne ha] using h.live j a hj

theorem givesBack_delete_iff (h : Handed s s₁) (hl : Live s)
    (ht : p.trace = s₁.fst.trace ++ [.deleteObject (obtain i s₁).fst])
    (hp : p.heap = (obtain i s₁).snd.snd.heap.delete (obtain i s₁).fst)
    (hi : (s₁.snd.holder i).object = (s.snd.holder i).object) :
    GivesBack s (p, s₁.snd) ↔ (s.snd.holder i).object = none := by
  constructor
  case mp =>
    intro hg
    by_contra hn
    obtain ⟨a, ha⟩ := Option.ne_none_iff_exists'.mp hn
    have hs := hg.spares i a ha
    have hd : deletions s (p, s₁.snd) = [(obtain i s₁).fst] := deletions_of_delete <| h.trace ▸ ht
    simp [hd, obtain_fst (hi.trans ha)] at hs
  case mpr =>
    intro hn
    simp only [obtain, hi.trans hn] at ht hp
    exact h.givesBack_delete hl ht hp

theorem givesBack_abandon_iff (h : Handed s s₁) (ht : p.trace = s₁.fst.trace)
    (hp : p.heap = (obtain i s₁).snd.snd.heap.write (obtain i s₁).fst content)
    (hi : (s₁.snd.holder i).object = (s.snd.holder i).object) :
    GivesBack s (p, s₁.snd) ↔ (s.snd.holder i).object.isSome := by
  rw [← hi]
  constructor
  case mp =>
    intro hg
    by_contra hn
    have hn := Option.not_isSome_iff_eq_none.mp hn
    simp only [obtain, hn] at hp
    -- The new object is the next one, and no holder has it.
    have hd := (hg.deletes s₁.fst.heap.next).mpr
      ⟨h.next, by simp [hp, Heap.write, Heap.alloc], fun j hj => (h.live.lt_next hj).ne rfl⟩
    have he : deletions s (p, s₁.snd) = [] := deletions_of_same <| ht.trans h.trace
    simp [he] at hd
  case mpr =>
    intro hs
    obtain ⟨a, ha⟩ := Option.isSome_iff_exists.mp hs
    simp only [obtain, ha] at hp
    refine h.givesBack ht (by rw [hp]; rfl) fun b => ?_
    rw [hp, Heap.write_isSome]

end Handed

theorem Failure.At.receiveObject_givesBack_iff {f : Failure} (ha : f.At P s₁) (h : Handed s s₁)
    (hl : Live s) (hi : (s₁.snd.holder f.field.fst).object = (s.snd.holder f.field.fst).object) :
    GivesBack s (receiveObject P f.field s₁).fst ↔ f.Harmless s.snd := by
  have hd := receiveObject_disposal P f.field s₁
  generalize receiveObject P f.field s₁ = r at hd
  cases f
  case lost x =>
    obtain ⟨i, carrier⟩ := x
    cases hd
    case filled item _ _ _ _ | abandoned item _ _ _ _ =>
      exact nomatch ha.symm.trans <| congrArg Prod.fst item
    case deleted vtk _ heap trace _ =>
      obtain rfl : carrier = _ := vtk
      exact h.givesBack_delete_iff hl trace heap hi
    case untouched external _ heap trace _ =>
      obtain rfl : carrier = _ := external
      have hg := h.givesBack trace (congrArg Heap.next heap) fun a => by rw [heap]
      exact iff_of_true hg trivial
  case refused x =>
    obtain ⟨bytes, hb, hr⟩ := ha
    cases hd
    case deleted _ item _ _ _ | untouched _ item _ _ _ =>
      exact nomatch hb.symm.trans <| congrArg Prod.fst item
    case filled item decode _ _ _ =>
      obtain rfl := Option.some.inj <| hb.symm.trans <| congrArg Prod.fst item
      exact nomatch hr.symm.trans <| congrArg Prod.fst decode
    case abandoned _ _ heap trace _ => exact h.givesBack_abandon_iff trace heap hi

end Failing

-- For any prior state of the holders and any run that ends early, wherever that is.
theorem givesBack_iff (P : Platform) (ch : Ident) (d : Descriptor) (hv : v ∉ receiveVars)
    (hl : Live s) :
    ((run P v ch d s).snd.isSome → GivesBack s (run P v ch d s).fst) ↔
      ∀ f ∈ failure? P s.snd.holder (present d s.snd.toContent) s.fst.channel.link
        s.fst.heap.content, f.Harmless s.snd := by
  rw [run_eq hv, receive_eq]
  have he : Ends P s _ (receiveObjects P (present d s.snd.toContent) s) :=
    receiveObjects_ends hl nodup_present (.refl hl) .refl
  generalize failure? P s.snd.holder _ _ _ = f? at he
  generalize receiveObjects P _ s = r at he
  cases he
  case complete => simp
  case failed f s₁ handed holder fails =>
    simpa using fails.receiveObject_givesBack_iff handed hl holder

def receiveRequestVTK : Command Target Exit :=
  run Salutation.platform "request" "replyChannel" Salutation.requestVTK

-- Nothing comes for the first field, whose holder has no object.
theorem givesBack_requestVTK :
    GivesBack ({}, requestVTK none) (receiveRequestVTK ({}, requestVTK none)).fst := by
  have hl : Live ({}, requestVTK none) := by rintro _ _ ⟨⟩
  refine (givesBack_iff _ _ _ (by decide) hl).mpr ?_ (by decide +kernel)
  have hf : failure? Salutation.platform (requestVTK none).holder
      (present Salutation.requestVTK (requestVTK none).toContent) {} Heap.empty.content =
      some (.lost (0, .vtk "vtkTable")) := by decide +kernel
  intro f h
  obtain rfl : _ = f := Option.some.inj <| hf.symm.trans h
  rfl

-- The caller has set an object, and nothing comes for it.
def lostTable : Target := ({ heap := Heap.empty.alloc }, requestVTK (some 0))

def refusing : Platform where
  __ := Salutation.platform
  deserialize _ _ old := (false, old)

def receiveTestMesage : Command Target Exit :=
  run refusing "request" "replyChannel" External.testMesage

-- What comes for the field, whose holder has no object, is refused.
def refusedBar : Target :=
  ({ channel.link.incoming := [.payload ⟨.voidData, []⟩] },
    { External.message with holder := fun _ => {} })

theorem receiveTestMesage_holder (i : ℕ) :
    (receiveTestMesage refusedBar).fst.snd.holder i = {} := by
  have hp : External.testMesage.payloadFields = [(0, .external "Foo::Bar")] := by decide +kernel
  rw [receiveTestMesage, run_eq (by decide), receive, hp]
  rfl

-- The object of the caller's is deleted, and one that a deserializer has refused stays behind.
theorem not_givesBack :
    (Live lostTable ∧ (receiveRequestVTK lostTable).snd.isSome ∧
      ¬GivesBack lostTable (receiveRequestVTK lostTable).fst) ∧
    (Live refusedBar ∧ (receiveTestMesage refusedBar).snd.isSome ∧
      ¬GivesBack refusedBar (receiveTestMesage refusedBar).fst) := by
  constructor
  case left =>
    refine ⟨?_, by decide +kernel, fun h => ?_⟩
    case refine_1 =>
      rintro _ _ ⟨⟩
      rfl
    case refine_2 => exact h.spares 0 0 rfl (by decide +kernel)
  case right =>
    refine ⟨fun _ _ => nofun, by decide +kernel, fun h => ?_⟩
    have hd := (h.deletes 0).mpr
      ⟨Nat.le_refl _, by decide +kernel, fun i => by simp [receiveTestMesage_holder]⟩
    revert hd
    decide +kernel

end Payload
end ProtoCall
