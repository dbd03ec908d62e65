import ProtoCall.Runtime.Message

namespace ProtoCall.Holder

-- The setters of a wrapper message, which it passes on to its holder.
inductive Call
  | set (object : Option ℕ)
  | setAllocated (object : Option ℕ)
  deriving DecidableEq

def Call.object : Call → Option ℕ
  | set object | setAllocated object => object

-- Whether the old object was owned does not matter, and neither does whether the new one is: `owns`
-- stays what it was.
def set (holder : Holder) (object : Option ℕ) : Holder :=
  { holder with object }

def get (holder : Holder) : Option ℕ := holder.object

def call (holder : Holder) : Call → Holder
  | .set object          => holder.set object
  | .setAllocated object => setAllocated object

-- The objects that the destructor deletes.
def destroy (holder : Holder) : List ℕ :=
  if holder.owns then holder.object.toList else []

-- The holder of a wrapper message after its setters have been called.
def run (calls : List Call) : Holder := calls.foldl call {}

-- `NULL` before anything has been given.
def lastGiven (calls : List Call) : Option ℕ := calls.getLast?.bind (·.object)

-- Objects are only deleted at the end, by the destructor.
structure RespectsOwnership (calls : List Call) : Prop where
  get     : ∀ pre, pre <+: calls → (run pre).get = lastGiven pre
  deleted : ∀ a, .setAllocated (some a) ∈ calls → (run calls).destroy.count a = 1
  kept    : ∀ a, .setAllocated (some a) ∉ calls → a ∉ (run calls).destroy

-- If ownership of anything has been given, it is ownership of the last object, and of no other.
def OwnsLast (calls : List Call) : Prop :=
  (∃ object, .setAllocated object ∈ calls) →
    (∀ a, .setAllocated (some a) ∈ calls → lastGiven calls = some a) ∧
      ∀ a, lastGiven calls = some a → .setAllocated (some a) ∈ calls

variable {calls : List Call} {c : Call} {a : ℕ}

theorem run_concat : run (calls ++ [c]) = (run calls).call c := by
  simp [run]

theorem run_object : (run calls).object = lastGiven calls := by
  induction calls using List.reverseRecOn
  case nil => rfl
  case append_singleton calls c _ =>
    rw [run_concat, lastGiven, List.getLast?_concat]
    cases c <;> rfl

theorem run_owns : (run calls).owns ↔ ∃ object, .setAllocated object ∈ calls := by
  induction calls using List.reverseRecOn
  case nil => simp [run]
  case append_singleton calls c hi =>
    rw [run_concat]
    cases c
    case set object          => simpa [call, set] using hi
    case setAllocated object => simp [call, setAllocated]

theorem mem_destroy : a ∈ (run calls).destroy ↔
    (∃ object, .setAllocated object ∈ calls) ∧ lastGiven calls = some a := by
  rw [← run_owns, ← run_object, destroy]
  split <;> simp_all

theorem count_destroy_eq_one_iff : (run calls).destroy.count a = 1 ↔ a ∈ (run calls).destroy := by
  refine ⟨fun h => List.count_pos_iff.mp <| h ▸ Nat.one_pos, fun h => ?_⟩
  refine List.count_eq_one_of_mem ?_ h
  rw [destroy]
  split
  case isTrue  => cases (run calls).object <;> simp
  case isFalse => exact .nil

theorem respectsOwnership_iff : RespectsOwnership calls ↔ OwnsLast calls where
  mp h := by
    intro ho
    constructor
    · intro a ha
      exact (mem_destroy.mp <| count_destroy_eq_one_iff.mp <| h.deleted a ha).right
    · intro a ha
      by_contra hn
      exact h.kept a hn <| mem_destroy.mpr ⟨ho, ha⟩
  mpr h := {
    get     := fun _ _ => run_object
    deleted := fun a ha =>
      count_destroy_eq_one_iff.mpr <| mem_destroy.mpr ⟨⟨_, ha⟩, (h ⟨_, ha⟩).left a ha⟩
    kept    := fun a hn hd => by
      obtain ⟨ho, hl⟩ := mem_destroy.mp hd
      exact hn <| (h ho).right a hl
  }

-- The first object is never deleted, and the second one is, whose owner is somebody else.
theorem not_respectsOwnership : ¬RespectsOwnership [.setAllocated (some 0), .set (some 1)] := by
  intro h
  exact absurd (h.deleted 0 (by decide)) (by decide)

end ProtoCall.Holder
