import ProtoCall.Library.StdMap

namespace ProtoCall

-- The virtual methods of `ServiceDispatcher` that the service manager calls.
class ServiceDispatcher (δ : Type*) where
  implements : δ → List ℤ

-- `std::map<int, ServiceDispatcher *>`: `none` is the `NULL` that `operator[]` creates.
abbrev DispatcherMap (δ : Type*) := Finmap fun _ : ℤ => Option δ

structure ServiceManager (δ : Type*) where
  dispatcherMap : DispatcherMap δ := ∅

namespace ServiceManager

open ServiceDispatcher StdMap

variable {δ : Type*} [ServiceDispatcher δ] {mgr : ServiceManager δ} {d : δ} {id id' : ℤ}

def registerService (mgr : ServiceManager δ) (dispatcher : δ) : ServiceManager δ where
  dispatcherMap := insertKeys mgr.dispatcherMap (implements dispatcher) (some dispatcher)

def lookupServiceDispatcher (mgr : ServiceManager δ) (methodId : ℤ) :
    Option δ × ServiceManager δ :=
  let (dispatcher, dispatcherMap) := subscript mgr.dispatcherMap methodId
  (dispatcher, { dispatcherMap })

-- The dispatcher that a lookup of `id` answers with.
def resolve (mgr : ServiceManager δ) (id : ℤ) : Option δ :=
  (mgr.dispatcherMap.lookup id).join

theorem lookup_registerService :
    (mgr.registerService d).dispatcherMap.lookup id =
      (mgr.dispatcherMap.lookup id).or (if id ∈ implements d then some (some d) else none) :=
  lookup_insertKeys

omit [ServiceDispatcher δ] in
theorem lookupServiceDispatcher_fst : (mgr.lookupServiceDispatcher id).1 = mgr.resolve id := by
  simp only [lookupServiceDispatcher, subscript_fst, resolve]
  cases mgr.dispatcherMap.lookup id <;> rfl

omit [ServiceDispatcher δ] in
theorem lookup_lookupServiceDispatcher :
    (mgr.lookupServiceDispatcher id).2.dispatcherMap.lookup id' =
      (mgr.dispatcherMap.lookup id').or (if id' = id then some none else none) := by
  simp only [lookupServiceDispatcher, subscript_snd]
  exact lookup_insertNew

omit [ServiceDispatcher δ] in
theorem resolve_lookupServiceDispatcher :
    (mgr.lookupServiceDispatcher id).2.resolve id' = mgr.resolve id' := by
  simp only [resolve, lookup_lookupServiceDispatcher]
  cases mgr.dispatcherMap.lookup id' <;> by_cases h : id' = id <;> simp [h]

end ServiceManager
end ProtoCall
