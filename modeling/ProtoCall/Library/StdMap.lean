import Mathlib.Data.Finmap

-- The part of `std::map` that differs from Mathlib's finite maps: `insert` leaves an entry that is
-- already there alone, and `operator[]` creates the entry it does not find.
namespace StdMap

variable {κ ν : Type*} [DecidableEq κ] {m : Finmap fun _ : κ => ν} {k k' : κ} {v : ν}

def insertNew (m : Finmap fun _ : κ => ν) (k : κ) (v : ν) : Finmap fun _ : κ => ν :=
  match m.lookup k with
  | some _ => m
  | none   => m.insert k v

theorem insertNew_of_mem {v' : ν} (h : m.lookup k = some v') : insertNew m k v = m := by
  simp [insertNew, h]

theorem insertNew_of_not_mem (h : m.lookup k = none) : insertNew m k v = m.insert k v := by
  simp [insertNew, h]

theorem insertNew_eq_self_iff : insertNew m k v = m ↔ (m.lookup k).isSome where
  mp h := by
    cases hk : m.lookup k
    case some => rfl
    case none =>
      rw [insertNew_of_not_mem hk] at h
      rw [← h, Finmap.lookup_insert] at hk
      contradiction
  mpr h := by
    obtain ⟨_, h⟩ := Option.isSome_iff_exists.mp h
    exact insertNew_of_mem h

theorem lookup_insertNew :
    (insertNew m k v).lookup k' = (m.lookup k').or (if k' = k then some v else none) := by
  cases hk : m.lookup k
  case some =>
    rw [insertNew_of_mem hk]
    by_cases he : k' = k
    case pos => subst he; simp [hk]
    case neg => simp [he]
  case none =>
    rw [insertNew_of_not_mem hk]
    by_cases he : k' = k
    case pos => subst he; simp [hk]
    case neg => simp [Finmap.lookup_insert_of_ne _ he, he]

theorem lookup_erase_eq_some :
    (m.erase k).lookup k' = some v ↔ k' ≠ k ∧ m.lookup k' = some v := by
  by_cases he : k' = k
  case pos => subst he; simp
  case neg => simp [Finmap.lookup_erase_ne he, he]

-- What is found after an insertion has just been inserted, or it has been there before.
theorem of_lookup_insert {v' : ν} (h : (m.insert k v).lookup k' = some v') :
    k' = k ∧ v' = v ∨ m.lookup k' = some v' := by
  by_cases he : k' = k
  case pos =>
    rw [he, Finmap.lookup_insert] at h
    exact .inl ⟨he, (Option.some.inj h).symm⟩
  case neg =>
    rw [Finmap.lookup_insert_of_ne _ he] at h
    exact .inr h

-- Inserting one value under a list of keys, from the front.
def insertKeys (m : Finmap fun _ : κ => ν) (ks : List κ) (v : ν) : Finmap fun _ : κ => ν :=
  ks.foldl (insertNew · · v) m

theorem lookup_insertKeys {ks : List κ} :
    (insertKeys m ks v).lookup k = (m.lookup k).or (if k ∈ ks then some v else none) := by
  induction ks generalizing m
  case nil => simp [insertKeys]
  case cons hd tl hi =>
    have hi := hi (m := insertNew m hd v)
    simp only [insertKeys, List.foldl_cons] at hi ⊢
    rw [hi, lookup_insertNew, Option.or_assoc]
    congr 1
    by_cases h : k = hd <;> simp [h]

-- The number of entries with a value that satisfies `q`.
def count (q : ν → Prop) [DecidablePred q] (m : Finmap fun _ : κ => ν) : ℕ :=
  m.entries.countP (q ·.snd)

section Count

variable {q : ν → Prop} [DecidablePred q]

omit [DecidableEq κ] in
theorem count_empty : count q (∅ : Finmap fun _ : κ => ν) = 0 := rfl

theorem count_insert (h : m.lookup k = none) :
    count q (m.insert k v) = count q m + if q v then 1 else 0 := by
  rw [count, Finmap.entries_insert_of_notMem (Finmap.lookup_eq_none.mp h), Multiset.countP_cons]
  rfl

theorem count_insertNew_le : count q (insertNew m k v) ≤ count q m + if q v then 1 else 0 := by
  cases h : m.lookup k
  case none   => rw [insertNew_of_not_mem h, count_insert h]
  case some _ => rw [insertNew_of_mem h]; omega

theorem count_erase (h : m.lookup k = some v) :
    count q m = count q (m.erase k) + if q v then 1 else 0 := by
  have he : (m.erase k).insert k v = m := by
    apply Finmap.ext_lookup
    intro k'
    by_cases hk : k' = k
    case pos => rw [hk, Finmap.lookup_insert, h]
    case neg => rw [Finmap.lookup_insert_of_ne _ hk, Finmap.lookup_erase_ne hk]
  rw [← count_insert (Finmap.lookup_erase k m), he]

-- Entries that are found under different keys are different entries.
theorem countP_le_count {xs : List (κ × ν)} (hn : (xs.map Prod.fst).Nodup)
    (hm : ∀ x ∈ xs, m.lookup x.fst = some x.snd) : xs.countP (q ·.snd) ≤ count q m := by
  induction xs generalizing m
  case nil => simp
  case cons x xs hi =>
    obtain ⟨hx, hn⟩ := List.nodup_cons.mp hn
    obtain ⟨hl, hm⟩ := List.forall_mem_cons.mp hm
    have hi := hi (m := m.erase x.fst) hn fun y hy => by
      have hne : y.fst ≠ x.fst := fun he => hx <| he ▸ List.mem_map_of_mem hy
      rw [Finmap.lookup_erase_ne hne, hm y hy]
    rw [List.countP_cons, count_erase hl]
    simpa using hi

end Count

variable [Inhabited ν]

-- `m[k]`, with the map it leaves behind.
def subscript (m : Finmap fun _ : κ => ν) (k : κ) : ν × Finmap fun _ : κ => ν :=
  match m.lookup k with
  | some v => (v, m)
  | none   => (default, m.insert k default)

theorem subscript_fst : (subscript m k).1 = (m.lookup k).getD default := by
  cases h : m.lookup k <;> simp [subscript, h]

theorem subscript_snd : (subscript m k).2 = insertNew m k default := by
  cases h : m.lookup k <;> simp [subscript, insertNew, h]

end StdMap
