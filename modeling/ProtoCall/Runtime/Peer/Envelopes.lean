import Mathlib.Data.Finset.Basic
import ProtoCall.Examples.Salutation
import ProtoCall.Runtime.Peer.Reentry

namespace ProtoCall

def Event.live (live : Finset ℕ) : Event → Finset ℕ
  | newEnvelope a    => insert a live
  | deleteEnvelope a => live.erase a
  | _                => live

-- The envelopes that have been allocated and not been released.
def live (trace : List Event) : Finset ℕ := trace.foldl Event.live ∅

-- Events that envelopes have nothing to do with.
def Event.aside : Event → Bool
  | newEnvelope _ | deleteEnvelope _ => false
  | _                                => true

theorem Event.aside_of_quiet {e : Event} (h : e.quiet) : e.aside := by
  cases e <;> simp_all [quiet, aside]

-- What has become of the envelopes. Each is at a place of its own, and is either alive or has been
-- released once.
structure Accounts (next : ℕ) (trace : List Event) : Prop where
  fresh  : ∀ a, .newEnvelope a ∈ trace → a < next
  unique : ∀ a, trace.count (.newEnvelope a) ≤ 1
  once   : ∀ a, trace.count (.deleteEnvelope a) + (if a ∈ live trace then 1 else 0) =
    trace.count (.newEnvelope a)

namespace Accounts

variable {n n' a : ℕ} {trace es : List Event}

theorem live_concat {e : Event} : live (trace ++ [e]) = e.live (live trace) := by
  simp [live]

theorem live_append (h : ∀ e ∈ es, e.aside) : live (trace ++ es) = live trace := by
  induction es generalizing trace
  case nil => rw [List.append_nil]
  case cons e es hi =>
    obtain ⟨he, hs⟩ := List.forall_mem_cons.mp h
    rw [List.append_cons, hi hs, live_concat]
    cases e <;> first | rfl | contradiction

theorem empty : Accounts n [] where
  fresh _ h := nomatch h
  unique _  := Nat.zero_le _
  once _    := rfl

theorem lt_of_live (h : Accounts n trace) (ha : a ∈ live trace) : a < n := by
  have ho := h.once a
  rw [if_pos ha] at ho
  exact h.fresh a <| List.count_pos_iff.mp <| by omega

theorem count_append {e : Event} (h : ∀ e ∈ es, e.aside) (he : e.aside = false) :
    (trace ++ es).count e = trace.count e := by
  have hn : e ∉ es := fun hm => by simp [h e hm] at he
  rw [List.count_append, List.count_eq_zero_of_not_mem hn, Nat.add_zero]

theorem append (h : Accounts n trace) (hn : n ≤ n') (hs : ∀ e ∈ es, e.aside) :
    Accounts n' (trace ++ es) where
  fresh a hm := by
    obtain hm | hm := List.mem_append.mp hm
    case inl => exact (h.fresh a hm).trans_le hn
    case inr => exact nomatch hs _ hm
  unique a   := by rw [count_append hs rfl]; exact h.unique a
  once a     := by rw [count_append hs rfl, count_append hs rfl, live_append hs]; exact h.once a

theorem alloc (h : Accounts n trace) : Accounts (n + 1) (trace ++ [.newEnvelope n]) where
  fresh a hm := by
    obtain hm | hm := List.mem_append.mp hm
    case inl => exact (h.fresh a hm).trans (Nat.lt_succ_self n)
    case inr =>
      obtain rfl := Event.newEnvelope.inj <| List.mem_singleton.mp hm
      exact Nat.lt_succ_self a
  unique a   := by
    by_cases ha : a = n
    case neg => simpa [List.count_singleton, Ne.symm ha] using h.unique a
    case pos =>
      subst ha
      have hz : trace.count (.newEnvelope a) = 0 :=
        List.count_eq_zero_of_not_mem fun hm => (h.fresh a hm).ne rfl
      simp [hz]
  once a     := by
    have ho := h.once a
    rw [live_concat, Event.live]
    by_cases ha : a = n
    case neg => simpa [List.count_singleton, ha, Ne.symm ha] using ho
    case pos =>
      rw [if_neg fun hm => (h.lt_of_live hm).ne ha] at ho
      simpa [ha] using ho

theorem release (h : Accounts n trace) (ha : a ∈ live trace) :
    Accounts n (trace ++ [.deleteEnvelope a]) where
  fresh b hm := h.fresh b <| by simpa using hm
  unique b   := by simpa [List.count_singleton] using h.unique b
  once b     := by
    have ho := h.once b
    rw [live_concat, Event.live]
    by_cases hb : b = a
    case neg => simpa [List.count_singleton, hb, Ne.symm hb] using ho
    case pos =>
      subst hb
      rw [if_pos ha] at ho
      simpa [List.count_singleton] using ho

end Accounts

-- What code may change that neither allocates nor releases an envelope.
structure Process.Spares (p p' : Process) : Prop where
  next  : p.next ≤ p'.next
  trace : ∃ es, p'.trace = p.trace ++ es ∧ ∀ e ∈ es, e.aside

namespace Process.Spares

variable {p p' p'' : Process}

theorem of_quiet (h : p.Quiet p') : Spares p p' where
  next  := h.next
  trace := by
    obtain ⟨es, he, hq⟩ := h.trace
    exact ⟨es, he, fun e hm => Event.aside_of_quiet <| hq e hm⟩

theorem trans (h : Spares p p') (h' : Spares p' p'') : Spares p p'' where
  next  := h.next.trans h'.next
  trace := appended_trans h.trace h'.trace

theorem dispatch {d : Dispatcher} {number : ℤ} : Spares p (p.log (.dispatch d number)) :=
  ⟨le_rfl, [.dispatch d number], rfl, by simp [Event.aside]⟩

theorem accounts (h : Spares p p') (ha : Accounts p.next p.trace) : Accounts p'.next p'.trace := by
  obtain ⟨es, he, hs⟩ := h.trace
  exact he ▸ ha.append h.next hs

theorem live_eq (h : Spares p p') : live p'.trace = live p.trace := by
  obtain ⟨es, he, hs⟩ := h.trace
  rw [he, Accounts.live_append hs]

end Process.Spares

namespace Process

variable {P : Platform} {p : Process}

theorem opened_accounts (h : Accounts p.next p.trace) :
    Accounts (p.opened P).next (p.opened P).trace :=
  h.alloc

-- The envelope of a response is released at the very end.
theorem finish_eq {a : Activation} :
    ∃ q, p.Spares q ∧ p.finish a = q.log (.deleteEnvelope a.envelope.addr) := by
  let q : Process := { p with channel.responseCallbacks := p.channel.responseCallbacks.erase a.id }
    |>.log (.erase a.entry.handler.addr) |>.log (.deleteHandler a.entry.handler.addr)
  refine ⟨q, ⟨le_rfl, [.erase a.entry.handler.addr, .deleteHandler a.entry.handler.addr], ?_, ?_⟩,
    rfl⟩
  · simp [q, log]
  · simp [Event.aside]

theorem live_opened : live (p.opened P).trace = insert p.next (live p.trace) :=
  Accounts.live_concat

end Process

namespace Peer

variable {P : Platform} {s t : Peer} {a : Action}

-- The envelope that is received next will be released: it cannot be received, it can be answered, or
-- it settles a call that is waited for, unless the callback of that call is running already.
def Releases (P : Platform) (s : Peer) : Prop :=
  (s.process.channel.link.receiveMessage P).fst = none ∨
    ∃ message, (s.process.channel.link.receiveMessage P).fst = some message ∧
      if message.request.isSome then
        ∃ d method content number, method.voidOutput = false ∧ (s.process.opened P).Accepts P
          (EnvelopePtr.mk s.process.next message).request d method content number
      else
        ∃ response entry, message.response = some response ∧
          s.process.Matches response entry ∧ response.idValue.toUInt64 ∉ s.running.map (·.id)

theorem Releases.accepts {message : Envelope} (h : s.Releases P)
    (hm : (s.process.channel.link.receiveMessage P).fst = some message)
    (hq : message.request.isSome) :
    ∃ d method content number, method.voidOutput = false ∧ (s.process.opened P).Accepts P
      (EnvelopePtr.mk s.process.next message).request d method content number := by
  rcases h with hn | ⟨message', hm', h⟩
  case inl => exact nomatch hn.symm.trans hm
  case inr =>
    obtain rfl := Option.some.inj <| hm'.symm.trans hm
    exact (if_pos hq).mp h

theorem Releases.matches {message : Envelope} (h : s.Releases P)
    (hm : (s.process.channel.link.receiveMessage P).fst = some message)
    (hq : message.request = none) : ∃ response entry, message.response = some response ∧
      s.process.Matches response entry ∧ response.idValue.toUInt64 ∉ s.running.map (·.id) := by
  rcases h with hn | ⟨message', hm', h⟩
  case inl => exact nomatch hn.symm.trans hm
  case inr =>
    obtain rfl := Option.some.inj <| hm'.symm.trans hm
    simpa only [hq, Option.isSome_none, Bool.false_eq_true, ↓reduceIte] using h

-- Who is still going to release an envelope: the closures of invoked methods that have not been run,
-- and the calls of `receive` that have not returned.
def owners (s : Peer) : List ℕ :=
  s.held.map (·.envelope) ++ s.running.map (·.envelope.addr)

def Heeds (P : Platform) (s : Peer) (a : Action) : Prop :=
  Allowed s a ∧ (a = .receive → s.Releases P)

structure Initial (s : Peer) : Prop where
  callbacks : s.process.channel.responseCallbacks = ∅
  trace     : s.process.trace = []
  running   : s.running = []
  held      : s.held = []

-- Each envelope that is alive has one owner, who can release it.
structure Accountable (s : Peer) : Prop where
  accounts : Accounts s.process.next s.process.trace
  owned    : ∀ a, a ∈ live s.process.trace ↔ a ∈ s.owners
  distinct : s.owners.Nodup
  held     : ∀ c ∈ s.held, ∃ info, c.done = .reply info ∧
    (c.dispatcher.service.replying? info.methodId).isSome ∧
    info.requestMessageEnvelope.addr = c.envelope

namespace Accountable

theorem initial (h : s.Initial) : Accountable s where
  accounts := h.trace ▸ .empty
  owned    := by simp [h.trace, owners, h.held, h.running, live]
  distinct := by simp [owners, h.held, h.running]
  held     := by simp [h.held]

theorem withProcess {process : Process} (h : Accountable s) (hs : s.process.Spares process) :
    Accountable { s with process } where
  accounts := hs.accounts h.accounts
  owned    := hs.live_eq ▸ h.owned
  distinct := h.distinct
  held     := h.held

-- A new envelope has found its owner.
theorem acquire {process : Process} (h : Accountable s)
    (hq : (s.process.opened P).Spares process) (ht : t.process = process)
    (ho : t.owners.Perm (s.process.next :: s.owners))
    (hh : ∀ c ∈ t.held, c ∈ s.held ∨ ∃ info, c.done = .reply info ∧
      (c.dispatcher.service.replying? info.methodId).isSome ∧
      info.requestMessageEnvelope.addr = c.envelope) : Accountable t where
  accounts := ht ▸ hq.accounts (Process.opened_accounts h.accounts)
  owned a  := by
    rw [ht, hq.live_eq, Process.live_opened, ho.mem_iff, Finset.mem_insert, List.mem_cons, h.owned]
  distinct := by
    refine ho.nodup_iff.mpr <| List.nodup_cons.mpr ⟨fun hm => ?_, h.distinct⟩
    exact (h.accounts.lt_of_live <| (h.owned _).mpr hm).ne rfl
  held c hm := (hh c hm).elim (h.held c) id

-- An owner has released its envelope.
theorem release {process : Process} {a : ℕ} (h : Accountable s) (hq : s.process.Spares process)
    (ht : t.process = process.log (.deleteEnvelope a)) (ho : s.owners.Perm (a :: t.owners))
    (hh : ∀ c ∈ t.held, c ∈ s.held) : Accountable t where
  accounts  := by
    have ha : a ∈ live process.trace :=
      hq.live_eq ▸ (h.owned a).mpr (ho.mem_iff.mpr <| List.mem_cons_self ..)
    exact ht ▸ (hq.accounts h.accounts).release ha
  owned b   := by
    obtain ⟨hn, -⟩ := List.nodup_cons.mp <| ho.nodup_iff.mp h.distinct
    have hl : live t.process.trace = (live s.process.trace).erase a := by
      rw [ht, ← hq.live_eq]
      exact Accounts.live_concat
    rw [hl, Finset.mem_erase, h.owned, ho.mem_iff, List.mem_cons]
    grind
  distinct  := (List.nodup_cons.mp <| ho.nodup_iff.mp h.distinct).right
  held c hm := h.held c (hh c hm)

-- An envelope that is released before `receive` returns.
theorem pass {process : Process} (h : Accountable s) (hq : (s.process.opened P).Spares process) :
    Accountable { s with process := process.log (.deleteEnvelope s.process.next) } where
  accounts  := by
    refine (hq.accounts <| Process.opened_accounts h.accounts).release ?_
    rw [hq.live_eq, Process.live_opened]
    exact Finset.mem_insert_self ..
  owned b   := by
    have hn : s.process.next ∉ live s.process.trace := fun hm => (h.accounts.lt_of_live hm).ne rfl
    have hl : live (process.log (.deleteEnvelope s.process.next)).trace = live s.process.trace := by
      apply Accounts.live_concat.trans
      rw [hq.live_eq, Process.live_opened]
      exact Finset.erase_insert hn
    exact hl ▸ h.owned b
  distinct  := h.distinct
  held      := h.held

theorem resume (h : Accountable s) (hn : s.resume = some t) : Accountable t := by
  obtain ⟨a, running, hr, -, rfl⟩ := resume_eq_some_iff.mp hn
  obtain ⟨q, hq, he⟩ := s.process.finish_eq (a := a)
  refine h.release hq he ?_ fun _ => id
  simp only [owners, hr, List.map_cons]
  exact List.perm_middle

theorem reply {n : ℕ} (h : Accountable s) (hn : s.reply P n = some t) : Accountable t := by
  have hr := reply_replies hn
  have held {n : ℕ} {c : Pending} {info : ReplyInfo} (hc : s.held[n]? = some c)
      (hd : c.done = .reply info) : (c.dispatcher.service.replying? info.methodId).isSome ∧
        info.requestMessageEnvelope.addr = c.envelope := by
    obtain ⟨info', hd', hs, ha⟩ := h.held c (List.mem_of_getElem? hc)
    obtain rfl := DoneClosure.reply.inj <| hd.symm.trans hd'
    exact ⟨hs, ha⟩
  cases hr
  case nothing hc hd =>
    obtain ⟨_, hd', -⟩ := h.held _ (List.mem_of_getElem? hc)
    exact nomatch hd.symm.trans hd'
  case unlisted hc hd hr _ =>
    have hs := (held hc hd).left
    simp [hr] at hs
  case replied c info process hc hd _ hq =>
    refine h.release (.of_quiet hq) rfl ?_ fun _ hm => List.mem_of_mem_eraseIdx hm
    have ha := (held hc hd).right
    obtain ⟨hl, rfl⟩ := List.getElem?_eq_some_iff.mp hc
    rw [ha]
    exact ((List.getElem_cons_eraseIdx_perm hl).symm.map (·.envelope)).append_right _

theorem receive (h : Accountable s) (hr : s.Releases P) (hn : s.receive P = some t) :
    Accountable t := by
  have hc := receive_receives hn
  clear hn
  cases hc
  case returned rc ht =>
    cases ht
    case nothing => exact h.pass <| .of_quiet .refl
    case rejected hm hq hu _ =>
      obtain ⟨response, entry, hs, he, -⟩ := hr.matches hm hq
      exact absurd he (hu response entry hs)
    case settled message response a q hm hq hs hp hi ha hq' =>
      obtain ⟨q', hs, he⟩ := Process.finish_eq (p := q) (a := a)
      rw [he, ha]
      exact h.pass <| (Process.Spares.of_quiet hq').trans hs
    case request hm hq ht =>
      obtain ⟨d, method, content, number, _, ha⟩ := hr.accepts hm hq
      cases ht
      case rejected hu _ => exact nomatch ha.resolved.symm.trans <| hu number content ha.data
      case lost hu _     => exact absurd ha (hu d method content number)
  case callback ht =>
    cases ht
    case request hr => cases hr
    case callback hq _ _ ha =>
      refine h.acquire (.of_quiet hq) rfl ?_ fun _ => .inl
      simp only [owners, List.map_cons, ha]
      exact List.perm_middle
  case invoked message d method content number process done hm hq ha hs hd =>
    obtain ⟨d', method', content', number', hv, ha'⟩ := hr.accepts hm hq
    obtain ⟨rfl, rfl, rfl⟩ := ha'.unique ha.data ha.resolved
    obtain rfl := Option.some.inj <| ha.listed.symm.trans ha'.listed
    obtain ⟨out, rfl⟩ : ∃ out, done = .reply ⟨method.id, ⟨s.process.next, message⟩, out⟩ := by
      simpa [Process.Closes, hv] using hd
    refine h.acquire (.trans .dispatch <| .of_quiet hs) rfl ?_ ?_
    · simp only [owners, List.map_append, List.map_cons, List.map_nil, List.append_assoc]
      exact List.perm_middle
    · intro c hm
      obtain hm | hm := List.mem_append.mp hm
      case inl => exact .inl hm
      case inr =>
        obtain rfl := List.mem_singleton.mp hm
        have hm' := ServiceDescriptor.mem_of_method? ha.listed
        exact .inr ⟨_, rfl, ServiceDescriptor.isSome_replying?_of_mem hm' hv, rfl⟩

theorem next (h : Accountable s) (ha : Heeds P s a) (hn : next P s a = some t) : Accountable t := by
  cases a
  case registerService => exact Option.some.inj hn ▸ h.withProcess ⟨le_rfl, [], by simp⟩
  case call => exact Option.some.inj hn ▸ h.withProcess (.of_quiet .proxyCall)
  case work => exact Option.some.inj hn ▸ h.withProcess (.of_quiet <| .of_works ha.left)
  case receive => exact h.receive (ha.right rfl) hn
  case resume => exact h.resume hn
  case reply => exact h.reply hn

end Accountable

end Peer
end ProtoCall
