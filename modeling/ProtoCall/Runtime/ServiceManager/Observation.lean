import ProtoCall.Examples.Salutation

namespace ProtoCall.ServiceManager

open ServiceDispatcher

inductive Op (δ : Type*)
  | registerService (dispatcher : δ)
  | lookup (methodId : ℤ)

variable {δ : Type*} [ServiceDispatcher δ] {mgr mgr' : ServiceManager δ} {ops : List (Op δ)}

def run (mgr : ServiceManager δ) : List (Op δ) → ServiceManager δ
  | []                        => mgr
  | .registerService d :: ops => (mgr.registerService d).run ops
  | .lookup id :: ops         => (mgr.lookupServiceDispatcher id).2.run ops

-- What the lookups of a sequence answer, in order.
def results (mgr : ServiceManager δ) : List (Op δ) → List (Option δ)
  | []                        => []
  | .registerService d :: ops => (mgr.registerService d).results ops
  | .lookup id :: ops         =>
    (mgr.lookupServiceDispatcher id).1 :: (mgr.lookupServiceDispatcher id).2.results ops

-- A sequence whose lookups are marked: those with mark `false` are the ones to delete. Marks on
-- registrations mean nothing.
abbrev Marked (δ : Type*) := List (Op δ × Bool)

def Marked.kept : Marked δ → List (Op δ)
  | []                             => []
  | (.lookup _, false) :: marked   => Marked.kept marked
  | (op, _) :: marked              => op :: Marked.kept marked

-- What the lookups that stay answer in the sequence that still has all of them.
def keptResults (mgr : ServiceManager δ) : Marked δ → List (Option δ)
  | []                                => []
  | (.registerService d, _) :: marked => (mgr.registerService d).keptResults marked
  | (.lookup id, false) :: marked     => (mgr.lookupServiceDispatcher id).2.keptResults marked
  | (.lookup id, true) :: marked      =>
    (mgr.lookupServiceDispatcher id).1 :: (mgr.lookupServiceDispatcher id).2.keptResults marked

def Unclaimed (id : ℤ) (ops : List (Op δ)) : Prop :=
  ∀ d, .registerService d ∈ ops → id ∉ implements d

structure LookupIsObserver (ops : List (Op δ)) : Prop where
  deletion     : ∀ marked : Marked δ, marked.map Prod.fst = ops →
    keptResults {} marked = results {} marked.kept
  registration : ∀ pre d post, ops = pre ++ .registerService d :: post →
    ∀ id ∈ implements d, Unclaimed id pre →
      ((run {} (pre ++ [.registerService d])).lookupServiceDispatcher id).1 = some d

-- No id is looked up while nobody has claimed it and claimed by a later registration.
def NoEarlyLookup (ops : List (Op δ)) : Prop :=
  ∀ pre id post, ops = pre ++ .lookup id :: post → Unclaimed id pre → Unclaimed id post

theorem run_append {ops' : List (Op δ)} : run mgr (ops ++ ops') = run (run mgr ops) ops' := by
  induction ops generalizing mgr
  case nil => rfl
  case cons op _ hi => cases op <;> exact hi

theorem Unclaimed.append {id : ℤ} {ops' : List (Op δ)} :
    Unclaimed id (ops ++ ops') ↔ Unclaimed id ops ∧ Unclaimed id ops' := by
  simp only [Unclaimed, List.mem_append]
  grind

theorem Unclaimed.lookup_cons {id id' : ℤ} :
    Unclaimed id (.lookup id' :: ops) ↔ Unclaimed id ops := by
  simp [Unclaimed]

theorem Unclaimed.registerService_cons {id : ℤ} {d : δ} :
    Unclaimed id (.registerService d :: ops) ↔ id ∉ implements d ∧ Unclaimed id ops := by
  simp [Unclaimed]

theorem exists_first_claim {id : ℤ} (h : ¬Unclaimed id ops) :
    ∃ pre d post, ops = pre ++ .registerService d :: post ∧ id ∈ implements d ∧
      Unclaimed id pre := by
  induction ops
  case nil => exact absurd (fun _ h => nomatch h) h
  case cons op ops hi =>
    cases op
    case lookup id' =>
      obtain ⟨pre, d, post, he, hd, hp⟩ := hi <| mt Unclaimed.lookup_cons.mpr h
      exact ⟨.lookup id' :: pre, d, post, by simp [he], hd, Unclaimed.lookup_cons.mpr hp⟩
    case registerService d' =>
      by_cases hd : id ∈ implements d'
      case pos => exact ⟨[], d', ops, rfl, hd, fun _ h => nomatch h⟩
      case neg =>
        have hn : ¬Unclaimed id ops := fun hu => h <| Unclaimed.registerService_cons.mpr ⟨hd, hu⟩
        obtain ⟨pre, d, post, he, hm, hp⟩ := hi hn
        refine ⟨.registerService d' :: pre, d, post, by simp [he], hm, ?_⟩
        exact Unclaimed.registerService_cons.mpr ⟨hd, hp⟩

-- The entry that the first operation to touch an id creates: nobody overwrites it.
def firstTouch (id : ℤ) : List (Op δ) → Option (Option δ)
  | []                        => none
  | .registerService d :: ops => if id ∈ implements d then some (some d) else firstTouch id ops
  | .lookup id' :: ops        => if id = id' then some none else firstTouch id ops

theorem lookup_run {id : ℤ} :
    (mgr.run ops).dispatcherMap.lookup id =
      (mgr.dispatcherMap.lookup id).or (firstTouch id ops) := by
  induction ops generalizing mgr
  case nil => simp [run, firstTouch]
  case cons op ops hi =>
    cases op
    case registerService d =>
      rw [run, hi, lookup_registerService, Option.or_assoc, firstTouch]
      split <;> simp
    case lookup id' =>
      rw [run, hi, lookup_lookupServiceDispatcher, Option.or_assoc, firstTouch]
      split <;> simp

theorem lookup_run_init {id : ℤ} :
    (run {} ops).dispatcherMap.lookup id = firstTouch id ops := by
  simp [lookup_run]

theorem firstTouch_append {id : ℤ} {ops' : List (Op δ)} :
    firstTouch id (ops ++ ops') = (firstTouch id ops).or (firstTouch id ops') := by
  induction ops
  case nil => rfl
  case cons op ops hi => cases op <;> simp only [List.cons_append, firstTouch, hi] <;> split <;> rfl

theorem firstTouch_eq_none_iff {id : ℤ} :
    firstTouch id ops = none ↔ Unclaimed id ops ∧ .lookup id ∉ ops := by
  induction ops
  case nil => simp [firstTouch, Unclaimed]
  case cons op ops hi =>
    cases op
    case registerService d =>
      rw [firstTouch, Unclaimed.registerService_cons]
      split <;> simp [*]
    case lookup id' =>
      rw [firstTouch, Unclaimed.lookup_cons]
      split <;> simp [*]

theorem firstTouch_of_mem {id : ℤ} (hu : Unclaimed id ops) (hm : .lookup id ∈ ops) :
    firstTouch id ops = some none := by
  induction ops
  case nil => contradiction
  case cons op ops hi =>
    cases op
    case registerService d =>
      obtain ⟨hd, hu⟩ := Unclaimed.registerService_cons.mp hu
      simp_all [firstTouch]
    case lookup id' =>
      by_cases he : id = id'
      case pos => simp [firstTouch, he]
      case neg => simp_all [firstTouch, Unclaimed.lookup_cons]

theorem NoEarlyLookup.not_mem {id : ℤ} {pre post : List (Op δ)} {d : δ}
    (h : NoEarlyLookup (pre ++ .registerService d :: post)) (hd : id ∈ implements d)
    (hu : Unclaimed id pre) : .lookup id ∉ pre := by
  intro hm
  obtain ⟨pre₁, pre₂, rfl⟩ := List.append_of_mem hm
  have hp := (Unclaimed.append.mp hu).left
  have hl := h pre₁ id (pre₂ ++ .registerService d :: post) (by simp) hp
  exact (Unclaimed.append.mp hl).right d (List.mem_cons_self ..) hd

theorem NoEarlyLookup.registration {pre post : List (Op δ)} {d : δ} {id : ℤ}
    (h : NoEarlyLookup (pre ++ .registerService d :: post)) (hd : id ∈ implements d)
    (hu : Unclaimed id pre) :
    ((run {} (pre ++ [.registerService d])).lookupServiceDispatcher id).1 = some d := by
  have hn := firstTouch_eq_none_iff.mpr ⟨hu, h.not_mem hd hu⟩
  simp [lookupServiceDispatcher_fst, resolve, lookup_run_init, firstTouch_append, hn, firstTouch,
    hd]

-- The manager that still saw the deleted lookups and the one that did not: they differ only in
-- `NULL` entries, under ids that nobody is going to claim.
def Agree (later : List (Op δ)) (mgr mgr' : ServiceManager δ) : Prop :=
  ∀ id, mgr.resolve id = mgr'.resolve id ∧
    (mgr.dispatcherMap.lookup id = mgr'.dispatcherMap.lookup id ∨ Unclaimed id later)

theorem Agree.registerService {later : List (Op δ)} {d : δ}
    (h : Agree (.registerService d :: later) mgr mgr') :
    Agree later (mgr.registerService d) (mgr'.registerService d) := by
  intro id
  obtain ⟨hr, he | hu⟩ := h id
  case inl => simp [resolve, lookup_registerService, he]
  case inr =>
    obtain ⟨hd, hu⟩ := Unclaimed.registerService_cons.mp hu
    simpa [resolve, lookup_registerService, hd, hu] using hr

theorem Agree.lookup {later : List (Op δ)} {id : ℤ} (h : Agree (.lookup id :: later) mgr mgr') :
    Agree later (mgr.lookupServiceDispatcher id).2 (mgr'.lookupServiceDispatcher id).2 := by
  intro id'
  obtain ⟨hr, he | hu⟩ := h id'
  all_goals refine ⟨by simp only [resolve_lookupServiceDispatcher, hr], ?_⟩
  case inl => simp only [lookup_lookupServiceDispatcher, he, true_or]
  case inr => exact .inr <| Unclaimed.lookup_cons.mp hu

-- Here is the one place where an early lookup does harm: the entry that it creates is missing on
-- the other side, which is only safe as long as no later registration wants it.
theorem Agree.deleted {later : List (Op δ)} {id : ℤ} (h : Agree (.lookup id :: later) mgr mgr')
    (hl : mgr.dispatcherMap.lookup id = none → Unclaimed id later) :
    Agree later (mgr.lookupServiceDispatcher id).2 mgr' := by
  intro id'
  obtain ⟨hr, hc⟩ := h id'
  refine ⟨by rw [resolve_lookupServiceDispatcher, hr], ?_⟩
  cases hc
  case inr hu => exact .inr <| Unclaimed.lookup_cons.mp hu
  case inl he =>
    by_cases hi : id' = id
    case neg => exact .inl <| by simp [lookup_lookupServiceDispatcher, hi, he]
    case pos =>
      subst hi
      cases hm : mgr.dispatcherMap.lookup id'
      case none   => exact .inr <| hl hm
      case some _ => exact .inl <| by simp [lookup_lookupServiceDispatcher, hm, ← he]

theorem NoEarlyLookup.keptResults_eq (pre : List (Op δ)) {marked : Marked δ}
    (h : NoEarlyLookup (pre ++ marked.map Prod.fst))
    (ha : Agree (marked.map Prod.fst) (run {} pre) mgr') :
    keptResults (run {} pre) marked = results mgr' marked.kept := by
  -- Along the marked sequence, `pre` is the part that has run, with its deleted lookups.
  induction marked generalizing pre mgr'
  case nil => rfl
  case cons hd marked hi =>
    have hi' {mgr'} := @hi mgr' (pre ++ [hd.1])
    simp only [List.map_cons, List.append_assoc, List.cons_append, List.nil_append, run_append]
      at h hi'
    match hd with
    | (.registerService d, _) => exact hi' h ha.registerService
    | (.lookup id, true) =>
      have he : (lookupServiceDispatcher (run {} pre) id).1 = (mgr'.lookupServiceDispatcher id).1 := by
        simp only [lookupServiceDispatcher_fst, (ha id).left]
      exact congrArg₂ List.cons he <| hi' h ha.lookup
    | (.lookup id, false) =>
      refine hi' h <| ha.deleted fun hl => h pre id _ rfl ?_
      rw [lookup_run_init] at hl
      exact (firstTouch_eq_none_iff.mp hl).left

theorem lookupIsObserver_iff : LookupIsObserver ops ↔ NoEarlyLookup ops where
  mp h pre id post he hu := by
    by_contra hc
    obtain ⟨pre', d, post', rfl, hd, hp⟩ := exists_first_claim hc
    have hu' : Unclaimed id (pre ++ .lookup id :: pre') := by
      simp only [Unclaimed.append, Unclaimed.lookup_cons, hu, hp, and_self]
    have hr := h.registration (pre ++ .lookup id :: pre') d post' (by simp [he]) id hd hu'
    have ht := firstTouch_of_mem hu' (by simp)
    rw [lookupServiceDispatcher_fst, resolve, lookup_run_init, firstTouch_append, ht] at hr
    contradiction
  mpr h := {
    deletion     := fun marked he =>
      NoEarlyLookup.keptResults_eq [] (he ▸ h) fun _ => ⟨rfl, .inl rfl⟩
    registration := fun _ _ _ he _ hd hu => (he ▸ h).registration hd hu
  }

-- A request for `sayHello` that comes before its service is registered.
theorem not_lookupIsObserver :
    ¬LookupIsObserver [.lookup Salutation.sayHello.id, .registerService (Salutation.dispatcher 0)] := by
  intro h
  have h := h.registration [.lookup Salutation.sayHello.id] (Salutation.dispatcher 0) [] rfl
    Salutation.sayHello.id (by decide +kernel) (fun _ h => by simp at h)
  exact absurd h (by decide +kernel)

end ProtoCall.ServiceManager
