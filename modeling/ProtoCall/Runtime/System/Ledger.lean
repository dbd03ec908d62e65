import ProtoCall.Runtime.System.Basic

namespace ProtoCall

-- What is known of the pending calls of a client: each of them waits under one of `ids`, which have
-- been given out in their order. Different calls have different numbers, and different response
-- objects if these are their own.
structure Ledger (own : Prop) (p : Process) (calls : ℕ) (ids : List UInt64) : Prop where
  waits   : ∀ id entry, p.channel.responseCallbacks.lookup id = some entry → id ∈ ids
  issued  : ∃ n ≤ calls, p.channel.currentRequestId = .ofNat n ∧
    ∀ id entry, p.channel.responseCallbacks.lookup id = some entry → ∃ k < n, id = .ofNat k
  bound   : ∀ id entry, p.channel.responseCallbacks.lookup id = some entry → entry.done < calls
  dones   : ∀ id id' entry entry', p.channel.responseCallbacks.lookup id = some entry →
    p.channel.responseCallbacks.lookup id' = some entry' → entry.done = entry'.done → id = id'
  outputs : ∀ id entry r, p.channel.responseCallbacks.lookup id = some entry →
    entry.response = some r → r < p.next
  apart   : own → ∀ id id' entry entry' r, p.channel.responseCallbacks.lookup id = some entry →
    p.channel.responseCallbacks.lookup id' = some entry' → entry.response = some r →
    entry'.response = some r → id = id'

-- The client waits under this id for the response to the call of `method` with this number.
def Awaits (own : Prop) (service : ServiceDescriptor) (p : Process) (method : MethodDescriptor)
    (id : UInt64) (call : ℕ) : Prop :=
  ∃ entry r, p.channel.responseCallbacks.lookup id = some entry ∧ entry.done = call ∧
    entry.handler.service = service ∧ entry.response = some r ∧
    (p.responses r).type = method.outputType ∧ (own → p.responses r = .new method.outputType)

variable {own : Prop} {service : ServiceDescriptor} {p p' : Process} {method : MethodDescriptor}
  {id : UInt64} {calls calls' call : ℕ} {ids ids' : List UInt64}

-- The entry under `id` is left alone, and so is its response object if it is its own.
def Spares (own : Prop) (p p' : Process) (id : UInt64) : Prop :=
  ∀ entry, p.channel.responseCallbacks.lookup id = some entry →
    p'.channel.responseCallbacks.lookup id = some entry ∧
    ∀ r, entry.response = some r → (p'.responses r).type = (p.responses r).type ∧
      (own → p'.responses r = p.responses r)

theorem Spares.of_eq (hc : p'.channel.responseCallbacks = p.channel.responseCallbacks)
    (hr : p'.responses = p.responses) : Spares own p p' id :=
  fun _ hl => ⟨hc ▸ hl, fun _ _ => ⟨hr ▸ rfl, fun _ => hr ▸ rfl⟩⟩

theorem Awaits.spares (h : Awaits own service p method id call) (hs : Spares own p p' id) :
    Awaits own service p' method id call := by
  obtain ⟨entry, r, hl, hd, hh, hr, ht, hn⟩ := h
  obtain ⟨hl', hr'⟩ := hs entry hl
  obtain ⟨ht', hn'⟩ := hr' r hr
  exact ⟨entry, r, hl', hd, hh, hr, ht'.trans ht, fun ho => (hn' ho).trans (hn ho)⟩

namespace Ledger

theorem empty (h : p.channel.responseCallbacks = ∅) (hq : p.channel.currentRequestId = 0) :
    Ledger own p calls ids where
  waits   := by simp [h]
  issued  := ⟨0, Nat.zero_le _, hq, by simp [h]⟩
  bound   := by simp [h]
  dones   := by simp [h]
  outputs := by simp [h]
  apart   := by simp [h]

-- An id is not given out twice in 2^64 calls.
theorem lookup_currentRequestId (h : Ledger own p calls ids) (hc : calls < 2 ^ 64) :
    p.channel.responseCallbacks.lookup p.channel.currentRequestId = none := by
  obtain ⟨n, hn, hq, hi⟩ := h.issued
  cases hl : p.channel.responseCallbacks.lookup p.channel.currentRequestId
  case none => rfl
  case some entry =>
    obtain ⟨k, hk, he⟩ := hi _ _ hl
    have ht := congrArg UInt64.toNat <| hq.symm.trans he
    rw [UInt64.toNat_ofNat_of_lt' (hn.trans_lt hc),
      UInt64.toNat_ofNat_of_lt' ((hk.trans_le hn).trans hc)] at ht
    exact absurd ht hk.ne'

theorem mono (h : Ledger own p calls ids)
    (hc : p'.channel.responseCallbacks = p.channel.responseCallbacks)
    (hq : p'.channel.currentRequestId = p.channel.currentRequestId) (hn : p.next ≤ p'.next)
    (hk : calls ≤ calls') (hi : ids ⊆ ids') : Ledger own p' calls' ids' where
  waits id entry hl       := hi <| h.waits id entry (hc ▸ hl)
  issued                  := by
    obtain ⟨n, hn, he, hl⟩ := h.issued
    exact ⟨n, hn.trans hk, hq.trans he, hc ▸ hl⟩
  bound id entry hl       := (h.bound id entry (hc ▸ hl)).trans_le hk
  dones                   := hc ▸ h.dones
  outputs id entry r hl e := (h.outputs id entry r (hc ▸ hl) e).trans_le hn
  apart                   := hc ▸ h.apart

theorem erase (h : Ledger own p calls ids)
    (hc : p'.channel.responseCallbacks = p.channel.responseCallbacks.erase id)
    (hq : p'.channel.currentRequestId = p.channel.currentRequestId) (hn : p.next ≤ p'.next)
    (hi : ∀ id' ∈ ids, id' ≠ id → id' ∈ ids') : Ledger own p' calls ids' := by
  have hl {id' : UInt64} {entry : ResponseCallbackEntry}
      (hl : p'.channel.responseCallbacks.lookup id' = some entry) :
      id' ≠ id ∧ p.channel.responseCallbacks.lookup id' = some entry :=
    StdMap.lookup_erase_eq_some.mp (hc ▸ hl)
  exact {
    waits id' entry he          := hi id' (h.waits id' entry (hl he).right) (hl he).left
    issued                      := by
      obtain ⟨n, hn, he, hi⟩ := h.issued
      exact ⟨n, hn, hq.trans he, fun id' entry hl' => hi id' entry (hl hl').right⟩
    bound id' entry he          := h.bound id' entry (hl he).right
    dones i j e e' hi hj        := h.dones i j e e' (hl hi).right (hl hj).right
    outputs id' entry r he hr   := (h.outputs id' entry r (hl he).right hr).trans_le hn
    apart ho i j e e' r hi hj   := h.apart ho i j e e' r (hl hi).right (hl hj).right
  }

-- A new entry with the next number, under the next id.
theorem insert {entry : ResponseCallbackEntry} {r : Ref} (h : Ledger own p calls ids)
    (hu : id = p.channel.currentRequestId)
    (hc : p'.channel.responseCallbacks = p.channel.responseCallbacks.insert id entry)
    (hq : p'.channel.currentRequestId = p.channel.currentRequestId + 1)
    (hd : entry.done = calls) (hr : entry.response = some r) (hp : r < p.next)
    (ha : own → ∀ id entry, p.channel.responseCallbacks.lookup id = some entry →
      entry.response ≠ some r)
    (hn : p.next ≤ p'.next) (hi : id :: ids ⊆ ids') : Ledger own p' (calls + 1) ids' := by
  have hl {id' : UInt64} {entry' : ResponseCallbackEntry}
      (hl : p'.channel.responseCallbacks.lookup id' = some entry') :
      id' = id ∧ entry' = entry ∨ p.channel.responseCallbacks.lookup id' = some entry' :=
    StdMap.of_lookup_insert (hc ▸ hl)
  exact {
    waits id' entry' he := by
      obtain ⟨rfl, -⟩ | he := hl he
      case inl => exact hi <| List.mem_cons_self ..
      case inr => exact hi <| List.mem_cons_of_mem _ <| h.waits _ _ he
    issued := by
      obtain ⟨n, hn, he, hi⟩ := h.issued
      refine ⟨n + 1, Nat.succ_le_succ hn, ?_, fun id' entry' hl' => ?_⟩
      · rw [hq, he, UInt64.ofNat_add]
        rfl
      · obtain ⟨rfl, -⟩ | hl' := hl hl'
        case inl => exact ⟨n, Nat.lt_succ_self n, hu.trans he⟩
        case inr =>
          obtain ⟨k, hk, he⟩ := hi id' entry' hl'
          exact ⟨k, Nat.lt_succ_of_lt hk, he⟩
    bound id' entry' he := by
      obtain ⟨-, rfl⟩ | he := hl he
      case inl => exact hd ▸ Nat.lt_succ_self _
      case inr => exact Nat.lt_succ_of_lt <| h.bound _ _ he
    dones i j e e' h₁ h₂ he := by
      obtain ⟨rfl, rfl⟩ | h₁ := hl h₁ <;> obtain ⟨rfl, rfl⟩ | h₂ := hl h₂
      case inl.inl => rfl
      case inl.inr => exact absurd (he ▸ hd) (h.bound _ _ h₂).ne
      case inr.inl => exact absurd (he.trans hd) (h.bound _ _ h₁).ne
      case inr.inr => exact h.dones i j e e' h₁ h₂ he
    outputs id' entry' r' he hr' := by
      obtain ⟨-, rfl⟩ | he := hl he
      case inl => exact Option.some.inj (hr.symm.trans hr') ▸ hp.trans_le hn
      case inr => exact (h.outputs _ _ _ he hr').trans_le hn
    apart ho i j e e' r' h₁ h₂ he he' := by
      obtain ⟨rfl, rfl⟩ | h₁ := hl h₁ <;> obtain ⟨rfl, rfl⟩ | h₂ := hl h₂
      case inl.inl => rfl
      case inl.inr =>
        obtain rfl := Option.some.inj <| hr.symm.trans he
        exact absurd he' (ha ho _ _ h₂)
      case inr.inl =>
        obtain rfl := Option.some.inj <| hr.symm.trans he'
        exact absurd he (ha ho _ _ h₁)
      case inr.inr => exact h.apart ho i j e e' r' h₁ h₂ he he'
  }

end Ledger
end ProtoCall
