import Mathlib.Data.List.Basic
import Mathlib.Order.Defs.Unbundled

-- Commands over a state `σ` that either fall through to what comes next (`none`) or leave the body
-- they stand in with an exit value of type `ε`.
abbrev Command (σ ε : Type*) := σ → σ × Option ε

namespace Command

variable {σ τ ε α : Type*}

def skip : Command σ ε :=
  fun s => (s, none)

def seq (c d : Command σ ε) : Command σ ε := fun s =>
  match c s with
  | (s', none)   => d s'
  | (s', some e) => (s', some e)

def block : List (Command σ ε) → Command σ ε
  | []      => skip
  | c :: cs => seq c (block cs)

section

variable {c d : Command σ ε} {cs : List (Command σ ε)} {s s' : σ} {e : ε}

theorem seq_of_none (h : c s = (s', none)) : seq c d s = d s' := by
  simp [seq, h]

theorem seq_of_some (h : c s = (s', some e)) : seq c d s = (s', some e) := by
  simp [seq, h]

theorem seq_skip : seq c skip = c := by
  funext s
  rcases h : c s with ⟨s', _ | e⟩ <;> simp [seq, h, skip]

theorem skip_seq : seq skip c = c := rfl

theorem seq_assoc {c' : Command σ ε} : seq (seq c d) c' = seq c (seq d c') := by
  funext s
  rcases h : c s with ⟨s', _ | e⟩ <;> simp [seq, h]

theorem block_nil : block ([] : List (Command σ ε)) = skip := rfl

theorem block_cons : block (c :: cs) = seq c (block cs) := rfl

theorem block_append {ds : List (Command σ ε)} :
    block (cs ++ ds) = seq (block cs) (block ds) := by
  induction cs
  case nil => rfl
  case cons c cs hi => simp only [List.cons_append, block_cons, hi, seq_assoc]

theorem block_getD {f : α → Option (Command σ ε)} {xs : List α} :
    block (xs.map fun x => (f x).getD skip) = block (xs.filterMap f) := by
  induction xs
  case nil => rfl
  case cons x xs hi => cases h : f x <;> simp [block_cons, h, hi, skip_seq]

end

-- `c` does to its state, as far as `R` relates it to the state of `d`, what `d` does, and leaves by
-- the same exit.
def Simulates (R : σ → τ → Prop) (c : Command σ ε) (d : Command τ ε) : Prop :=
  ∀ ⦃s t⦄, R s t → R (c s).fst (d t).fst ∧ (c s).snd = (d t).snd

namespace Simulates

variable {R : σ → τ → Prop} {c c' : Command σ ε} {d d' : Command τ ε}

theorem skip : Simulates R (skip : Command σ ε) skip :=
  fun _ _ h => ⟨h, rfl⟩

theorem seq (h : Simulates R c d) (h' : Simulates R c' d') :
    Simulates R (Command.seq c c') (Command.seq d d') := by
  intro s t hr
  obtain ⟨hr, he⟩ := h hr
  rcases hc : c s with ⟨s', _ | e⟩ <;> rcases hd : d t with ⟨t', _ | e'⟩ <;>
    simp only [hc, hd, reduceCtorEq, Option.some.injEq] at hr he
  case none.none => simpa only [seq_of_none hc, seq_of_none hd] using h' hr
  case some.some => simpa only [seq_of_some hc, seq_of_some hd, he] using ⟨hr, trivial⟩

theorem block {f : α → Command σ ε} {g : α → Command τ ε} {xs : List α}
    (h : ∀ x ∈ xs, Simulates R (f x) (g x)) :
    Simulates R (Command.block (xs.map f)) (Command.block (xs.map g)) := by
  induction xs
  case nil => exact skip
  case cons x xs hi =>
    exact (h x <| List.mem_cons_self ..).seq <| hi fun y hy => h y <| List.mem_cons_of_mem _ hy

end Simulates

-- Wherever `c` starts and however it is left, its end is related to its start.
def Keeps (R : σ → σ → Prop) (c : Command σ ε) : Prop :=
  ∀ s, R s (c s).fst

namespace Keeps

variable {R : σ → σ → Prop} {c d : Command σ ε}

theorem skip [Std.Refl R] : Keeps R (skip : Command σ ε) :=
  Std.Refl.refl

theorem seq [IsTrans σ R] (h : Keeps R c) (h' : Keeps R d) : Keeps R (Command.seq c d) := by
  intro s
  have h := h s
  rcases hc : c s with ⟨s', _ | e⟩ <;> rw [hc] at h
  case none =>
    rw [seq_of_none hc]
    exact IsTrans.trans _ _ _ h (h' s')
  case some =>
    rw [seq_of_some hc]
    exact h

theorem block [Std.Refl R] [IsTrans σ R] {f : α → Command σ ε} {xs : List α}
    (h : ∀ x ∈ xs, Keeps R (f x)) : Keeps R (Command.block (xs.map f)) := by
  induction xs
  case nil => exact skip
  case cons x xs hi =>
    exact (h x <| List.mem_cons_self ..).seq <| hi fun y hy => h y <| List.mem_cons_of_mem _ hy

end Keeps
end Command
