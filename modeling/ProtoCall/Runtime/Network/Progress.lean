import ProtoCall.Library.Fairness
import ProtoCall.Runtime.Network.Isolation
import ProtoCall.Runtime.System.Progress

namespace ProtoCall

open Transition

namespace System

variable {own : Prop} {P : Platform} {service : ServiceDescriptor} {s s' : System}
  {queries : List Query} {answers : List Answer} {a : Action} {call : ℕ}

structure Grows (s s' : System) : Prop where
  log         : s.log <+: s'.log
  invocations : s.invocations ≤ s'.invocations

theorem Grows.of_eq (hl : s'.log = s.log) (hi : s'.invocations = s.invocations) : Grows s s' where
  log         := hl ▸ List.prefix_refl _
  invocations := hi.ge

theorem grows (h : s.next P service a = some s') : Grows s s' := by
  cases a <;> simp only [System.next] at h
  case call => exact Option.some.inj h ▸ ⟨List.prefix_append .., le_rfl⟩
  case work => exact Option.some.inj h ▸ .of_eq rfl rfl
  case serve =>
    rw [serve] at h
    split at h
    case h_1 => contradiction
    case h_2 => exact Option.some.inj h ▸ ⟨List.prefix_append .., Nat.le_succ _⟩
    case h_3 => exact Option.some.inj h ▸ .of_eq rfl rfl
  case reply n =>
    rw [reply] at h
    split at h
    case h_1 => contradiction
    case h_2 => exact Option.some.inj h ▸ .of_eq rfl rfl
    case h_3 => exact Option.some.inj h ▸ ⟨List.prefix_append .., le_rfl⟩
  case receive =>
    rw [receive] at h
    split at h
    case h_1 => contradiction
    case h_2 => exact Option.some.inj h ▸ ⟨List.prefix_append .., le_rfl⟩
    case h_3 => exact Option.some.inj h ▸ .of_eq rfl rfl
  case resume =>
    obtain ⟨_, _, _, _, rfl⟩ := resume_eq_some_iff.mp h
    exact .of_eq rfl rfl

section Steps

variable (hP : P.Reliable) (hn : service.ids.Nodup)
include hP hn

-- A request that waits is the next one to be served.
theorem Progresses.serve_invocations (h : Progresses own P service s queries answers)
    (hs : s.serve P = some s') (hl : s.invocations < s.calls) :
    s'.invocations = s.invocations + 1 := by
  cases queries
  case nil =>
    have hc := h.left.calls
    simp only [List.length_nil] at hc
    omega
  case cons q queries =>
    obtain ⟨p', invocation, he, -⟩ := h.left.receive_query hP hn
    simp only [serve, he, Option.some.injEq] at hs
    rw [← hs]

-- ... and a response that waits is the next one to complete a call.
theorem Progresses.receive_completions (h : Progresses own P service s queries answers)
    (hs : s.receive P = some s') (hl : (completions s.log).length < (replies s.log).length) :
    (completions s'.log).length = (completions s.log).length + 1 := by
  cases answers
  case nil =>
    rw [h.right.order] at hl
    simp at hl
  case cons a answers =>
    obtain ⟨entry, r, hl', -, hh, hr, ht, -⟩ := (h.left.answer a <| List.mem_cons_self ..).awaits
    obtain ⟨p', he, -⟩ := h.left.receive_answer hP hn hh hl' hr ht
    simp only [receive, he, Option.some.injEq] at hs
    simp [← hs]

end Steps

theorem serve_of_nil (hi : s.server.channel.link.incoming = []) (hs : s.serve P = some s') :
    s'.held = s.held ∧ s'.server.channel.link.incoming = [] := by
  have hl := Process.receiveMessage_nil (P := P) hi
  have he := Process.receive_of_none (congrArg Prod.fst hl)
  simp only [System.serve, he, Option.some.injEq] at hs
  subst hs
  refine ⟨rfl, ?_⟩
  change (s.server.channel.link.receiveMessage P).snd.incoming = []
  rw [hl]
  exact hi

theorem receive_server (hs : s.receive P = some s') :
    s'.held = s.held ∧ s'.server = s.server := by
  rw [receive] at hs
  split at hs
  case h_1 => contradiction
  case h_2 => exact Option.some.inj hs ▸ ⟨rfl, rfl⟩
  case h_3 => exact Option.some.inj hs ▸ ⟨rfl, rfl⟩

end System

namespace Network

variable {ι : Type*} [DecidableEq ι] {P : Platform} {services : ι → ServiceDescriptor}
  {n n' : Network ι} {states : ℕ → Network ι} {actions : ℕ → ι × System.Action}

-- The server looks at this line again and again, the service runs each of its closures some time,
-- and the client goes on receiving.
structure Fair (i : ι) (states : ℕ → Network ι) (actions : ℕ → ι × System.Action) : Prop where
  serve   : ∀ t, Eventually (actions · = (i, .serve)) t
  receive : ∀ t, Eventually (actions · = (i, .receive)) t
  reply   : ∀ t call info, (call, .reply info) ∈ ((states t).view i).held →
    Eventually (fun t => ∃ k, actions t = (i, .reply k) ∧
      ((states t).view i).held[k]? = some (call, .reply info)) t

abbrev Run (P : Platform) (services : ι → ServiceDescriptor) (states : ℕ → Network ι)
    (actions : ℕ → ι × System.Action) : Prop :=
  Behavior (Initial services) (Each fun i => System.Proper P (services i)) (next P services) states
    actions

namespace Run

variable {i : ι} {t t' call : ℕ} {method : MethodDescriptor} {input : Option Value}

theorem step_cases (h : Run P services states actions) (i : ι) (t : ℕ) :
    (∃ a, actions t = (i, a) ∧
      ((states t).view i).next P (services i) a = some ((states (t + 1)).view i)) ∨
    ∃ server, (states (t + 1)).view i = ((states t).view i).besides server := by
  obtain ⟨s, hs, he⟩ := Option.map_eq_some_iff.mp <| h.step t
  by_cases hi : (actions t).fst = i
  case pos =>
    refine .inl ⟨(actions t).snd, Prod.ext hi rfl, ?_⟩
    rw [← he, ← hi, view_put_self, hs]
  case neg =>
    refine .inr ⟨s.server, ?_⟩
    rw [← he, view_put_of_ne (Ne.symm hi)]

theorem step_of_eq {a : System.Action} (h : Run P services states actions)
    (ha : actions t = (i, a)) :
    ((states t).view i).next P (services i) a = some ((states (t + 1)).view i) := by
  obtain ⟨s, hs, he⟩ := Option.map_eq_some_iff.mp <| h.step t
  rw [ha] at hs he
  rw [← he, view_put_self, hs]

theorem grows (h : Run P services states actions) :
    ((states t).view i).Grows ((states (t + 1)).view i) := by
  rcases h.step_cases i t with ⟨a, -, hs⟩ | ⟨server, he⟩
  case inl => exact System.grows hs
  case inr => exact he ▸ .of_eq rfl rfl

theorem log_subset (h : Run P services states actions) (ht : t ≤ t') :
    ((states t).view i).log ⊆ ((states t').view i).log :=
  stable (p := fun t' => ((states t).view i).log ⊆ ((states t').view i).log)
    (fun _ hs _ hm => h.grows.log.subset <| hs hm) ht (List.Subset.refl _)

section Phases

variable (hP : P.Inverse) (hn : ∀ i, (services i).ids.Nodup)
include hP hn

theorem progresses (h : Run P services states actions) (t : ℕ) (i : ι) :
    ∃ queries answers,
      ((states t).view i).Progresses True P (services i) queries answers := by
  refine forall_view
    (I := fun i s => ∃ queries answers, s.Progresses True P (services i) queries answers)
    (fun n hi i => ?_) (fun i s a s' hi ha hs => ?_) (fun i s server hi hk => ?_) (h.reachable t) i
  case refine_1 =>
    obtain ⟨client, -, hl⟩ := hi.line i
    refine ⟨[], [], hi.consistent i, ?_⟩
    simp only [view, hl]
    exact .empty
  case refine_2 =>
    obtain ⟨queries, answers, hc⟩ := hi
    have hd := hc.left.drains_of_proper ha
    exact ⟨hc.next hP.toReliable (fun _ => hP) (hn i) hd (fun _ => ha.sized) hs,
      hc.left.keeps hP.toReliable (hn i) hd.left hs⟩
  case refine_3 =>
    obtain ⟨queries, answers, hc⟩ := hi
    exact ⟨_, _, hc.left.besides hk, hc.right⟩

-- The request gets to the service.
theorem eventually_invoked (h : Run P services states actions) (hf : Fair i states actions)
    (hc : .called call method input ∈ ((states t).view i).log) :
    Eventually (fun t => ∃ input, .invoked call method input ∈ ((states t).view i).log) t := by
  have hi : Eventually (fun t => call < ((states t).view i).invocations) t := by
    refine eventually_of_variant (f := fun t => call + 1 - ((states t).view i).invocations)
      (fun t' ht _ => ?_) (fun t' ht => ?_)
    case refine_1 =>
      have hg := (h.grows (t := t') (i := i)).invocations
      omega
    case refine_2 =>
      obtain ⟨t'', ht', ha⟩ := hf.serve t'
      refine ⟨t'', ht', or_iff_not_imp_left.mpr fun hl => ?_⟩
      obtain ⟨queries, answers, hp⟩ := h.progresses hP hn t'' i
      have hcalls := hp.left.log.called _ _ _ <| h.log_subset (ht.trans ht') hc
      have hs := hp.serve_invocations hP.toReliable (hn i) (h.step_of_eq ha) (by omega)
      omega
  refine hi.mono fun t' ht hl => ?_
  obtain ⟨queries, answers, hp⟩ := h.progresses hP hn t' i
  obtain ⟨method', input', hm⟩ := hp.right.invoked call hl
  have hl := hp.left.log.correlates trivial
  obtain ⟨pre, post, he⟩ := List.append_of_mem hm
  have hm' := (hl pre _ post he).left
  have ⟨he', _⟩ := hl.called_inj (h.log_subset ht hc) <| he ▸ List.mem_append_left _ hm'
  exact ⟨input', he' ▸ hm⟩

-- ... and the service replies.
theorem eventually_replied (h : Run P services states actions) (hf : Fair i states actions)
    (hc : .invoked call method input ∈ ((states t).view i).log) (ho : method.voidOutput = false) :
    Eventually (fun t => call ∈ replies ((states t).view i).log) t := by
  obtain ⟨queries, answers, hp⟩ := h.progresses hP hn t i
  rcases hp.right.served call method input hc ho with hm | ⟨info, hh⟩
  case inl => exact ⟨t, le_rfl, hm⟩
  case inr =>
    obtain ⟨t', ht, k, ha, hk⟩ := hf.reply t call info hh
    refine ⟨t' + 1, Nat.le_succ_of_le ht, ?_⟩
    have hs := h.step_of_eq ha
    simp only [System.next, System.reply, hk, Option.some.injEq] at hs
    simp [← hs]

-- ... which completes the call when it is its turn.
theorem eventually_completed (h : Run P services states actions) (hf : Fair i states actions)
    (hc : call ∈ replies ((states t).view i).log) :
    Eventually (fun t => call ∈ completions ((states t).view i).log) t := by
  obtain ⟨k, hk, he⟩ := List.mem_iff_getElem.mp hc
  have hg (t : ℕ) : replies ((states t).view i).log <+: replies ((states (t + 1)).view i).log ∧
      completions ((states t).view i).log <+: completions ((states (t + 1)).view i).log := by
    obtain ⟨log, hl⟩ := (h.grows (t := t) (i := i)).log
    rw [← hl, replies_append, completions_append]
    exact ⟨List.prefix_append .., List.prefix_append ..⟩
  have hreplies {t' : ℕ} (ht : t ≤ t') :
      replies ((states t).view i).log <+: replies ((states t').view i).log :=
    stable (p := fun t' => replies ((states t).view i).log <+: replies ((states t').view i).log)
      (fun t' hs => hs.trans (hg t').left) ht (List.prefix_refl _)
  have hl : Eventually (fun t => k < (completions ((states t).view i).log).length) t := by
    refine eventually_of_variant
      (f := fun t => k + 1 - (completions ((states t).view i).log).length)
      (fun t' ht _ => ?_) (fun t' ht => ?_)
    case refine_1 =>
      have hg := (hg t').right.length_le
      omega
    case refine_2 =>
      obtain ⟨t'', ht', ha⟩ := hf.receive t'
      refine ⟨t'', ht', or_iff_not_imp_left.mpr fun hl => ?_⟩
      obtain ⟨queries, answers, hp⟩ := h.progresses hP hn t'' i
      have hlt := hk.trans_le (hreplies <| ht.trans ht').length_le
      have hs := hp.receive_completions hP.toReliable (hn i) (h.step_of_eq ha) (by omega)
      omega
  refine hl.mono fun t' ht hl => ?_
  obtain ⟨queries, answers, hp⟩ := h.progresses hP hn t' i
  have hc := (hreplies ht).getElem hk
  simp only [hp.right.order, List.getElem_append_left hl, he] at hc
  exact hc ▸ List.getElem_mem _

-- If the server is fair to a client, each of its calls is completed, whatever the others do.
theorem eventually_completes (h : Run P services states actions) (hf : Fair i states actions)
    (hc : .called call method input ∈ ((states t).view i).log) (ho : method.voidOutput = false) :
    Eventually (fun t => ∃ output error,
      .completed call output error ∈ ((states t).view i).log) t := by
  refine (h.eventually_invoked hP hn hf hc).trans fun t' _ ⟨input, hi⟩ => ?_
  refine (h.eventually_replied hP hn hf hi ho).trans fun t'' _ hm => ?_
  exact (h.eventually_completed hP hn hf hm).mono fun _ _ => mem_completions.mp

end Phases
end Run
end Network

namespace Network.Run

-- The server only has time for one of two clients, and goes on looking for its requests for ever.
def actions : ℕ → Bool × System.Action
  | 0     => (true, System.test)
  | 1     => (false, System.test)
  | 2     => (false, .serve)
  | 3     => (false, .reply 0)
  | t + 4 => (false, if t % 2 = 0 then .receive else .serve)

def states : ℕ → Network Bool
  | 0     => testing [5]
  | t + 1 => ((states t).next Salutation.platform (fun _ => External.service) (actions t)).getD
    (states t)

theorem allowed_actions (t : ℕ) :
    Each (fun _ => System.Proper Salutation.platform External.service) (states t) (actions t) := by
  rcases t with _ | _ | _ | _ | t
  · exact .of_client System.proper_test rfl rfl rfl rfl rfl
  · exact .of_client System.proper_test rfl rfl rfl rfl rfl
  · exact System.proper_of_ready rfl
  · exact System.proper_of_ready <| by decide +kernel
  · refine System.proper_of_ready ?_
    rw [actions]
    split <;> rfl

theorem reachable_states (t : ℕ) : Reachable (Initial fun _ => External.service)
    (Each fun _ => System.Proper Salutation.platform External.service)
    (next Salutation.platform fun _ => External.service) (states t) := by
  induction t
  case zero => exact .start initial_testing
  case succ t hi =>
    rw [states]
    rcases hn : (states t).next Salutation.platform (fun _ => External.service) (actions t) with _ | n
    case none => exact hi
    case some => exact .step hi (allowed_actions t) hn

theorem run_states : Run Salutation.platform (fun _ => External.service) states actions where
  start   := initial_testing
  allowed := allowed_actions
  step t  := by
    suffices h : ((states t).next Salutation.platform (fun _ => External.service)
        (actions t)).isSome by
      obtain ⟨n, hn⟩ := Option.isSome_iff_exists.mp h
      rw [states, hn, Option.getD_some]
    rcases t with _ | _ | _ | _ | t
    · rfl
    · rfl
    · decide +kernel
    · decide +kernel
    · obtain ⟨_, _, hc⟩ := consistent System.inverse_platform (fun _ => by decide +kernel)
        (reachable_states (t + 4)) false
      have ha := hc.advances Salutation.platform_reliable (by decide +kernel)
      obtain ⟨_, hs, -⟩ := ha.serve
      obtain ⟨_, hr, -⟩ := ha.receive
      rw [actions]
      split
      · simp [Network.next, System.next, hr]
      · simp [Network.next, System.next, hs]

theorem held_states {t : ℕ} (ht : 4 ≤ t) : ((states t).view false).held = [] ∧
    ((states t).view false).server.channel.link.incoming = [] := by
  induction ht
  case refl =>
    have h : (((states 4).view false).held.isEmpty &&
      ((states 4).view false).server.channel.link.incoming.isEmpty) = true := by decide +kernel
    simpa using h
  case step t ht hi =>
    obtain ⟨k, rfl⟩ := Nat.exists_eq_add_of_le' ht
    have hs := run_states.step_of_eq (t := k + 4) rfl
    split at hs
    case isTrue =>
      obtain ⟨hh, hs⟩ := System.receive_server hs
      exact ⟨hh.trans hi.left, hs ▸ hi.right⟩
    case isFalse =>
      obtain ⟨hh, hs⟩ := System.serve_of_nil hi.right hs
      exact ⟨hh.trans hi.left, hs⟩

theorem fair_states : Fair false states actions where
  serve t   := ⟨2 * t + 5, by omega, by simp [actions]⟩
  receive t := ⟨2 * t + 4, by omega, by simp [actions]⟩
  reply t _ _ hm := by
    have h₀ : ∀ t < 3, ((states t).view false).held.isEmpty := by decide +kernel
    have h₁ : ((states 3).view false).held.length = 1 := by decide +kernel
    rcases Nat.lt_trichotomy t 3 with ht | rfl | ht
    case inl =>
      have h := h₀ t ht
      rw [List.isEmpty_iff] at h
      rw [h] at hm
      contradiction
    case inr.inl =>
      obtain ⟨entry, he⟩ := List.length_eq_one_iff.mp h₁
      rw [he] at hm
      refine ⟨3, le_rfl, 0, rfl, ?_⟩
      rw [he, ← List.mem_singleton.mp hm]
      rfl
    case inr.inr =>
      rw [(held_states ht).left] at hm
      contradiction

theorem eventually_completes_states : ∃ t output error,
    .completed 0 output error ∈ ((states t).view false).log := by
  have hc : .called 0 External.test (some ⟨External.message.toContent, [some [5]]⟩) ∈
      ((states 2).view false).log := by decide +kernel
  obtain ⟨t, -, output, error, hm⟩ := run_states.eventually_completes System.inverse_platform
    (fun _ => by decide +kernel) fair_states hc (by decide +kernel)
  exact ⟨t, output, error, hm⟩

end Network.Run
end ProtoCall
