import ProtoCall.Examples.Salutation
import ProtoCall.Runtime.Client.Basic

namespace ProtoCall

-- A closure is run at most once for each time that it has been registered.
structure Process.CompletesOnce (p : Process) : Prop where
  run           : ∀ done, p.trace.count (.run done) ≤ p.trace.count (.register done)
  erase         : ∀ handler, p.trace.count (.erase handler) ≤ 1
  deleteHandler : ∀ handler, p.trace.count (.deleteHandler handler) ≤ 1

namespace Client

-- The next message is another response to a call whose callback has not returned yet.
structure Reenters (P : Platform) (c : Client) (message : Envelope) : Prop where
  received : (c.process.channel.link.receiveMessage P).fst = some message
  request  : message.request = none
  data     : (EnvelopePtr.mk c.process.next message).response.data.isSome
  id       : (EnvelopePtr.mk c.process.next message).responseId ∈ c.running.map (·.id)

def Heeds (P : Platform) (c : Client) (a : Action) : Prop :=
  c.Allowed a ∧ (a = .receive → ∀ message, ¬c.Reenters P message)

def Untouched (trace : List Event) (handler : ℕ) : Prop :=
  .erase handler ∉ trace ∧ .deleteHandler handler ∉ trace

def owed (p : Process) (done : Closure) : ℕ :=
  StdMap.count (·.done = done) p.channel.responseCallbacks

-- As long as no callback's call is answered again, what is still running is still pending, and
-- every handler of a pending call has yet to be deleted.
structure Orderly (c : Client) : Prop where
  running  : ∀ a ∈ c.running, c.process.channel.responseCallbacks.lookup a.id = some a.entry
  distinct : (c.running.map (·.id)).Nodup
  handlers : ∀ id id' entry entry', c.process.channel.responseCallbacks.lookup id = some entry →
    c.process.channel.responseCallbacks.lookup id' = some entry' →
    entry.handler.addr = entry'.handler.addr → id = id'
  live     : ∀ id entry, c.process.channel.responseCallbacks.lookup id = some entry →
    entry.handler.addr < c.process.next ∧ Untouched c.process.trace entry.handler.addr
  unused   : ∀ handler, c.process.next ≤ handler → Untouched c.process.trace handler
  once     : ∀ handler, c.process.trace.count (.erase handler) ≤ 1 ∧
    c.process.trace.count (.deleteHandler handler) ≤ 1
  closures : ∀ done, c.process.trace.count (.run done) + owed c.process done ≤
    c.process.trace.count (.register done) + c.running.countP (·.entry.done = done)

namespace Orderly

variable {P : Platform} {c : Client} {p p' : Process} {running : List Activation} {a : Activation}

theorem initial (h : c.Initial) : c.Orderly where
  running  := by simp [h.running]
  distinct := by simp [h.running]
  handlers := by simp [h.callbacks]
  live     := by simp [h.callbacks]
  unused   := by simp [h.trace, Untouched]
  once     := by simp [h.trace]
  closures := by simp [h.trace, h.callbacks, owed, StdMap.count_empty]

-- The closures still owed are at least those of the callbacks that are running.
theorem completesOnce (h : c.Orderly) : c.process.CompletesOnce where
  run done := by
    have hn : ((c.running.map fun a => (a.id, a.entry)).map Prod.fst).Nodup := by
      simpa [Function.comp_def] using h.distinct
    have hc := StdMap.countP_le_count (q := (·.done = done)) hn (by simpa using h.running)
    rw [List.countP_map] at hc
    have ho := h.closures done
    have hc : c.running.countP (·.entry.done = done) ≤ owed c.process done := hc
    omega
  erase handler         := (h.once handler).left
  deleteHandler handler := (h.once handler).right

theorem steady (h : Orderly ⟨p, running⟩) (hs : p.Steady p') : Orderly ⟨p', running⟩ := by
  obtain ⟨es, he, hq⟩ := hs.trace
  have hn {e : Event} (h : e.steady = false) : p'.trace.count e = p.trace.count e := by
    have hm : e ∉ es := fun hm => by simp [hq e hm] at h
    rw [he, List.count_append, List.count_eq_zero_of_not_mem hm, Nat.add_zero]
  have hu {handler : ℕ} (h : Untouched p.trace handler) : Untouched p'.trace handler := by
    simp only [Untouched, ← List.count_eq_zero] at h ⊢
    rwa [hn rfl, hn rfl]
  exact {
    running  := by simpa only [hs.callbacks] using h.running
    distinct := h.distinct
    handlers := by simpa only [hs.callbacks] using h.handlers
    live     := by
      intro id entry hl
      obtain ⟨ha, hl⟩ := h.live id entry <| by simpa only [hs.callbacks] using hl
      exact ⟨ha.trans_le hs.next, hu hl⟩
    unused handler hl := hu <| h.unused handler <| hs.next.trans hl
    once handler := by
      rw [hn rfl, hn rfl]
      exact h.once handler
    closures done := by
      simp only [hn (e := .run done) rfl, hn (e := .register done) rfl, owed, hs.callbacks]
      exact h.closures done
  }

theorem register {service : ServiceDescriptor} {output : Option Ref} {done : Closure}
    (h : Orderly ⟨p, running⟩) : Orderly ⟨p.register service output done, running⟩ := by
  set id := p.channel.currentRequestId
  set entry : ResponseCallbackEntry := { done, response := output, handler := ⟨p.next, service⟩ }
  -- An id that is still pending keeps its entry.
  have hl {id' : UInt64} {entry' : ResponseCallbackEntry}
      (hl : (p.register service output done).channel.responseCallbacks.lookup id' = some entry') :
      p.channel.responseCallbacks.lookup id' = some entry' ∨
        p.channel.responseCallbacks.lookup id' = none ∧ id' = id ∧ entry' = entry := by
    have hl := StdMap.lookup_insertNew (m := p.channel.responseCallbacks) ▸ hl
    cases ho : p.channel.responseCallbacks.lookup id' <;> grind
  have hu {handler : ℕ} (h : Untouched p.trace handler) :
      Untouched (p.register service output done).trace handler := by
    simpa [Process.register, Process.log, Untouched] using h
  exact {
    running a hm := by
      have hr := h.running a hm
      exact StdMap.lookup_insertNew.trans <| by rw [hr, Option.some_or]
    distinct := h.distinct
    handlers id₁ id₂ e₁ e₂ h₁ h₂ he := by
      obtain h₁ | ⟨_, rfl, rfl⟩ := hl h₁ <;> obtain h₂ | ⟨_, rfl, rfl⟩ := hl h₂
      case inl.inl => exact h.handlers _ _ _ _ h₁ h₂ he
      case inl.inr => exact absurd he (h.live _ _ h₁).left.ne
      case inr.inl => exact absurd he.symm (h.live _ _ h₂).left.ne
      case inr.inr => rfl
    live id' e he := by
      obtain he | ⟨_, rfl, rfl⟩ := hl he
      case inl => exact ⟨Nat.lt_succ_of_lt (h.live _ _ he).left, hu (h.live _ _ he).right⟩
      case inr => exact ⟨Nat.lt_succ_self _, hu <| h.unused _ le_rfl⟩
    unused handler hn := hu <| h.unused handler <| Nat.le_of_succ_le hn
    once handler := by simpa [Process.register, Process.log] using h.once handler
    closures c := by
      have hr : (p.register service output done).trace.count (.run c) = p.trace.count (.run c) := by
        simp [Process.register, Process.log]
      have hg : (p.register service output done).trace.count (.register c) =
          p.trace.count (.register c) + if done = c then 1 else 0 := by
        simp [Process.register, Process.log, List.count_cons]
      have ho : owed (p.register service output done) c ≤ owed p c + if done = c then 1 else 0 :=
        StdMap.count_insertNew_le
      have hc := h.closures c
      simp only [hr, hg] at hc ⊢
      omega
  }

theorem proxyCall {service : ServiceDescriptor} {method : MethodDescriptor}
    {input : Option Message} {output : Option Ref} {done : Closure} (h : Orderly ⟨p, running⟩) :
    Orderly ⟨(p.proxyCall P service method input output done).fst, running⟩ := by
  have hp : Orderly ⟨(p.prepare service method output done).snd, running⟩ := by
    rw [Process.prepare]
    split
    case isTrue  => exact h.register
    case isFalse => exact h
  rw [Process.proxyCall_eq]
  exact hp.steady <| .of_transfers Process.submit_transfers

theorem run {entry : ResponseCallbackEntry} {id : UInt64} {envelope : EnvelopePtr}
    (h : Orderly ⟨p, running⟩) (hl : p.channel.responseCallbacks.lookup id = some entry)
    (hn : id ∉ running.map (·.id)) :
    Orderly ⟨p.log (.run entry.done), ⟨id, entry, envelope⟩ :: running⟩ where
  running  := List.forall_mem_cons.mpr ⟨hl, h.running⟩
  distinct := List.nodup_cons.mpr ⟨hn, h.distinct⟩
  handlers := h.handlers
  live     := by simpa [Process.log, Untouched] using h.live
  unused   := by simpa [Process.log, Untouched] using h.unused
  once     := by simpa [Process.log] using h.once
  closures done := by
    have hc := h.closures done
    have ho : owed (p.log (.run entry.done)) done = owed p done := rfl
    have hr : (p.log (.run entry.done)).trace.count (.run done) =
        p.trace.count (.run done) + if entry.done = done then 1 else 0 := by
      simp [Process.log, List.count_cons]
    have hg : (p.log (.run entry.done)).trace.count (.register done) =
        p.trace.count (.register done) := by
      simp [Process.log]
    simp only [ho, hr, hg, List.countP_cons, decide_eq_true_eq] at hc ⊢
    omega

-- A pending call may be counted among those that are running.
theorem push (h : Orderly ⟨p, running⟩)
    (hl : p.channel.responseCallbacks.lookup a.id = some a.entry)
    (hn : a.id ∉ running.map (·.id)) : Orderly ⟨p, a :: running⟩ where
  running       := List.forall_mem_cons.mpr ⟨hl, h.running⟩
  distinct      := List.nodup_cons.mpr ⟨hn, h.distinct⟩
  handlers      := h.handlers
  live          := h.live
  unused        := h.unused
  once          := h.once
  closures done := (h.closures done).trans <| by simp [List.countP_cons]

theorem finish (h : Orderly ⟨p, a :: running⟩) : Orderly ⟨p.finish a, running⟩ := by
  obtain ⟨hp, hr⟩ := List.forall_mem_cons.mp h.running
  obtain ⟨ha, hd⟩ := List.nodup_cons.mp h.distinct
  obtain ⟨hh, hu⟩ := h.live _ _ hp
  have hl {id : UInt64} {entry : ResponseCallbackEntry}
      (hl : (p.finish a).channel.responseCallbacks.lookup id = some entry) :
      id ≠ a.id ∧ p.channel.responseCallbacks.lookup id = some entry :=
    StdMap.lookup_erase_eq_some.mp hl
  have hs {handler : ℕ} (h : Untouched p.trace handler) (hn : handler ≠ a.entry.handler.addr) :
      Untouched (p.finish a).trace handler := by
    simpa [Process.finish, Process.log, Untouched, hn] using h
  exact {
    running b hb := by
      have hn : b.id ≠ a.id := fun he => ha <| List.mem_map.mpr ⟨b, hb, he⟩
      exact (Finmap.lookup_erase_ne hn).trans (hr b hb)
    distinct := hd
    handlers id₁ id₂ e₁ e₂ h₁ h₂ := h.handlers _ _ _ _ (hl h₁).right (hl h₂).right
    live id entry he := by
      obtain ⟨hi, he⟩ := hl he
      obtain ⟨hn, ht⟩ := h.live _ _ he
      exact ⟨hn, hs ht fun ha => hi <| h.handlers _ _ _ _ he hp ha⟩
    unused handler hn := hs (h.unused handler hn) (hh.trans_le hn).ne'
    -- Up to now, the handler has not been deleted.
    once handler := by
      by_cases hn : handler = a.entry.handler.addr
      case pos =>
        have h₁ := List.count_eq_zero.mpr hu.left
        have h₂ := List.count_eq_zero.mpr hu.right
        simp [Process.finish, Process.log, hn, h₁, h₂]
      case neg => simpa [Process.finish, Process.log, Ne.symm hn] using h.once handler
    closures done := by
      have hc := h.closures done
      have ho : owed p done = owed (p.finish a) done + if a.entry.done = done then 1 else 0 :=
        StdMap.count_erase hp
      have hr : (p.finish a).trace.count (.run done) = p.trace.count (.run done) := by
        simp [Process.finish, Process.log]
      have hg : (p.finish a).trace.count (.register done) = p.trace.count (.register done) := by
        simp [Process.finish, Process.log]
      simp only [ho, hr, hg, List.countP_cons, decide_eq_true_eq] at hc ⊢
      omega
  }

theorem handleResponse {envelope : EnvelopePtr} {outcome : Outcome}
    (h : Orderly ⟨p, running⟩)
    (hn : envelope.response.data.isSome → envelope.responseId ∉ running.map (·.id))
    (hr : p.handleResponse P envelope = (p', outcome)) :
    Orderly ⟨p', outcome.running running⟩ := by
  have hs := hr ▸ Process.handleResponse_settles P envelope p
  cases hs
  case steady hs ho =>
    cases outcome
    case callback a => exact absurd rfl (ho a)
    all_goals exact h.steady hs
  case dropped ha hs => exact ((h.steady hs).push (hs.callbacks ▸ ha.pending) (hn ha.data)).finish
  case completed ha hs => exact (h.steady hs).run (hs.callbacks ▸ ha.pending) (hn ha.data)

theorem receive {c' : Client} (h : c.Orderly) (hh : ∀ message, ¬c.Reenters P message)
    (hn : c.next P .receive = some c') : c'.Orderly := by
  obtain ⟨p, running⟩ := c
  have hs : ∀ q outcome, p.receive P = (q, outcome) →
      Orderly ⟨q, outcome.running running⟩ := by
    intro q outcome hr
    rcases hm : (p.channel.link.receiveMessage P).fst with _ | message
    case none =>
      obtain ⟨rfl, rfl⟩ := Prod.mk.inj <| (Process.receive_of_none hm).symm.trans hr
      exact h.steady <| .trans .opened <| .log rfl
    case some =>
      rw [Process.receive_of_some hm, Process.handleMessage] at hr
      have ho := h.steady (Process.Steady.opened (P := P))
      split at hr
      case isTrue =>
        have hs : (p.opened P).Steady ((p.opened P).handleRequest P ⟨p.next, message⟩).fst :=
          .handleRequest
        rw [hr] at hs
        cases outcome
        case callback => exact absurd (congrArg Prod.snd hr) Process.handleRequest_outcome
        all_goals exact ho.steady hs
      case isFalse hq =>
        have hq := Option.not_isSome_iff_eq_none.mp hq
        split at hr
        case isTrue => exact ho.handleResponse (fun hd hi => hh message ⟨hm, hq, hd, hi⟩) hr
        case isFalse =>
          obtain ⟨rfl, rfl⟩ := Prod.mk.inj hr
          exact ho.steady <| .of_transfers .setErrorString
  simp only [next] at hn
  rcases hr : p.receive P with ⟨q, outcome⟩
  have hs := hs q outcome hr
  rw [hr] at hn
  cases outcome
  case aborted => contradiction
  all_goals exact Option.some.inj hn ▸ hs

theorem next {c' : Client} {action : Action} (h : c.Orderly) (hh : c.Heeds P action)
    (hn : c.next P action = some c') : c'.Orderly := by
  cases action
  case call => exact Option.some.inj hn ▸ h.proxyCall
  case receive => exact h.receive (hh.right rfl) hn
  case environment => exact Option.some.inj hn ▸ h.steady hh.left
  case resume =>
    obtain ⟨p, _ | ⟨a, running⟩⟩ := c
    case nil => contradiction
    case cons =>
      obtain ⟨q, hq, rfl⟩ := Option.map_eq_some_iff.mp hn
      exact (Process.resume_eq_some_iff.mp hq).right ▸ h.finish

end Orderly

theorem completesOnce_of_heeds {P : Platform} {c : Client}
    (h : Transition.Reachable Initial (Heeds P) (next P) c) : c.process.CompletesOnce :=
  (h.invariant (fun _ => Orderly.initial) fun _ _ _ => Orderly.next).completesOnce

-- `sayHello` is going to be called, and its response is going to be received twice.
def twice : Client where
  process.next := 1
  process.responses _ := .new Salutation.response
  process.channel.link.incoming := List.replicate 2 <| .envelope {
    response := some {
      id         := some 0
      extensions := [(Salutation.sayHello.id, ⟨Salutation.response, [⟨true, []⟩]⟩)]
    }
  }

def sayHello : Action :=
  .call Salutation.service Salutation.sayHello (some <| .new Salutation.request) (some 0) 7

theorem initial_twice : twice.Initial where
  callbacks := rfl
  trace     := rfl
  running   := rfl

theorem allowed_sayHello : twice.Allowed sayHello := by
  intro r hr
  obtain rfl := Option.some.inj hr
  exact ⟨Nat.zero_lt_one, by decide +kernel, rfl⟩

theorem heeds_of_running {P : Platform} {c : Client} (h : c.running = []) : c.Heeds P .receive :=
  ⟨trivial, fun _ _ hr => by simpa [h] using hr.id⟩

-- The callback returns, and the second response is still to come.
theorem completesOnce_twice : ∃ c, Transition.run (next Salutation.platform) twice
    [sayHello, .receive, .resume] = some c ∧ c.process.CompletesOnce := by
  have hr : (Transition.run (next Salutation.platform) twice [sayHello, .receive, .resume]).isSome :=
    by decide +kernel
  obtain ⟨c, hc⟩ := Option.isSome_iff_exists.mp hr
  refine ⟨c, hc, completesOnce_of_heeds <| .run (.start initial_twice) ?_ hc⟩
  refine ⟨⟨allowed_sayHello, nofun⟩, fun c' hc' => ?_⟩
  obtain rfl := Option.some.inj hc'
  exact ⟨heeds_of_running rfl, fun _ _ => ⟨⟨trivial, nofun⟩, fun _ _ => trivial⟩⟩

theorem not_completesOnce : ¬∀ c, Transition.Reachable Initial Allowed (next Salutation.platform) c →
    c.process.CompletesOnce := by
  intro h
  have hr : (Transition.run (next Salutation.platform) twice [sayHello, .receive, .receive]).map
      (fun c => (c.process.trace.count (.run 7), c.process.trace.count (.register 7))) =
      some (2, 1) := by decide +kernel
  obtain ⟨c, hc, hn⟩ := Option.map_eq_some_iff.mp hr
  have ha : Transition.AllAllowed Allowed (next Salutation.platform) twice
      [sayHello, .receive, .receive] :=
    ⟨allowed_sayHello, fun _ _ => ⟨trivial, fun _ _ => ⟨trivial, fun _ _ => trivial⟩⟩⟩
  have ho := (h c <| .run (.start initial_twice) ha hc).run 7
  obtain ⟨h₂, h₁⟩ := Prod.mk.inj hn
  omega

end Client
end ProtoCall
