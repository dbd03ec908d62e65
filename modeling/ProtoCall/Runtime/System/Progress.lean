import ProtoCall.Runtime.System.Correlation

namespace ProtoCall

-- The calls that have been replied to, in the order of the replies.
def replies (log : List Note) : List ℕ :=
  log.filterMap fun
    | .replied call _ _ => some call
    | _                 => none

def completions (log : List Note) : List ℕ :=
  log.filterMap fun
    | .completed call _ _ => some call
    | _                   => none

section Logs

variable {log log' : List Note} {call : ℕ} {method method' : MethodDescriptor}
  {input input' : Option Value} {output : Value} {error : ErrorHolder}

@[simp] theorem replies_append : replies (log ++ log') = replies log ++ replies log' :=
  List.filterMap_append

@[simp] theorem completions_append :
    completions (log ++ log') = completions log ++ completions log' :=
  List.filterMap_append

@[simp] theorem replies_called : replies [.called call method input] = [] := rfl

@[simp] theorem replies_invoked : replies [.invoked call method input] = [] := rfl

@[simp] theorem replies_replied : replies [.replied call output error] = [call] := rfl

@[simp] theorem replies_completed : replies [.completed call output error] = [] := rfl

@[simp] theorem completions_called : completions [.called call method input] = [] := rfl

@[simp] theorem completions_invoked : completions [.invoked call method input] = [] := rfl

@[simp] theorem completions_replied : completions [.replied call output error] = [] := rfl

@[simp] theorem completions_completed : completions [.completed call output error] = [call] := rfl

theorem mem_completions :
    call ∈ completions log ↔ ∃ output error, .completed call output error ∈ log := by
  rw [completions, List.mem_filterMap]
  constructor
  case mp =>
    rintro ⟨_ | _ | _ | ⟨call', output, error⟩, hm, he⟩
    case completed => exact ⟨output, error, Option.some.inj he ▸ hm⟩
    all_goals contradiction
  case mpr =>
    rintro ⟨output, error, hm⟩
    exact ⟨_, hm, rfl⟩

-- A number stands for one call.
theorem Correlates.called_inj (h : Correlates log) (hc : .called call method input ∈ log)
    (hc' : .called call method' input' ∈ log) : method = method' ∧ input = input' := by
  obtain ⟨pre, post, rfl⟩ := List.append_of_mem hc
  rcases List.mem_append.mp hc' with hm | hm
  case inl => exact absurd hm <| h pre _ post rfl method' input'
  case inr =>
    rcases List.mem_cons.mp hm with he | hm
    case inl =>
      obtain ⟨-, rfl, rfl⟩ := Note.called.inj he
      exact ⟨rfl, rfl⟩
    case inr =>
      obtain ⟨mid, post, rfl⟩ := List.append_of_mem hm
      have hn := h (pre ++ .called call method input :: mid) (.called call method' input') post
        (by simp)
      exact absurd (List.mem_append_right _ <| List.mem_cons_self ..) <| hn method input

end Logs

namespace System

variable {own : Prop} {P : Platform} {service : ServiceDescriptor} {s s' : System}
  {queries : List Query} {answers : List Answer} {a : Action}

-- No invocation gets lost between the service and the client, and no response overtakes another.
structure Live (held : List (ℕ × DoneClosure)) (invocations : ℕ) (log : List Note)
    (answers : List Answer) : Prop where
  invoked : ∀ call < invocations, ∃ method input, .invoked call method input ∈ log
  served  : ∀ call method input, .invoked call method input ∈ log → method.voidOutput = false →
    call ∈ replies log ∨ ∃ info, (call, .reply info) ∈ held
  order   : replies log = completions log ++ answers.map (·.call)

namespace Live

variable {held : List (ℕ × DoneClosure)} {invocations k : ℕ} {log : List Note} {a : Answer}
  {method : MethodDescriptor} {input : Option Value} {output : Value} {error : ErrorHolder}

theorem empty : Live [] 0 [] [] where
  invoked := nofun
  served  := nofun
  order   := rfl

theorem call (h : Live held invocations log answers) :
    Live held invocations (log ++ [.called k method input]) answers where
  invoked call hl      := by
    obtain ⟨method, input, hm⟩ := h.invoked call hl
    exact ⟨method, input, List.mem_append_left _ hm⟩
  served call m i hm hv := by simpa using h.served call m i (by simpa using hm) hv
  order                 := by simpa using h.order

theorem invoke {done : DoneClosure} (h : Live held invocations log answers)
    (hd : method.voidOutput = false → ∃ info, done = .reply info) :
    Live (held ++ [(invocations, done)]) (invocations + 1)
      (log ++ [.invoked invocations method input]) answers where
  invoked call hl       := by
    by_cases he : call = invocations
    case pos => exact ⟨method, input, by simp [he]⟩
    case neg =>
      obtain ⟨method, input, hm⟩ := h.invoked call (by omega)
      exact ⟨method, input, List.mem_append_left _ hm⟩
  served call m i hm hv := by
    rcases List.mem_append.mp hm with hm | hm
    case inl =>
      rcases h.served call m i hm hv with hr | ⟨info, hh⟩
      case inl => exact .inl <| by simpa using hr
      case inr => exact .inr ⟨info, List.mem_append_left _ hh⟩
    case inr =>
      obtain ⟨rfl, rfl, -⟩ := Note.invoked.inj <| List.mem_singleton.mp hm
      obtain ⟨info, rfl⟩ := hd hv
      exact .inr ⟨info, List.mem_append_right _ <| List.mem_singleton_self _⟩
  order                 := by simpa using h.order

theorem reply {n : ℕ} {info : ReplyInfo} (h : Live held invocations log answers)
    (hh : held[n]? = some (k, .reply info)) (ha : a.call = k) :
    Live (held.eraseIdx n) invocations (log ++ [.replied k output error]) (answers ++ [a]) where
  invoked call hl         := by
    obtain ⟨method, input, hm⟩ := h.invoked call hl
    exact ⟨method, input, List.mem_append_left _ hm⟩
  served call' m i hm hv := by
    rcases h.served call' m i (by simpa using hm) hv with hr | ⟨info', hh'⟩
    case inl => exact .inl <| by simp [hr]
    case inr =>
      obtain ⟨m, hk⟩ := List.getElem?_of_mem hh'
      by_cases he : m = n
      case pos =>
        obtain ⟨rfl, -⟩ := Prod.mk.inj <| Option.some.inj <| hk.symm.trans <| he ▸ hh
        exact .inl <| by simp
      case neg => exact .inr ⟨info', List.mem_eraseIdx_iff_getElem?.mpr ⟨m, he, hk⟩⟩
  order                  := by simp [h.order, ha]

theorem drop {n : ℕ} (h : Live held invocations log answers)
    (hh : held[n]? = some (k, .doNothing)) : Live (held.eraseIdx n) invocations log answers where
  invoked               := h.invoked
  order                 := h.order
  served call' m i hm hv := by
    refine (h.served call' m i hm hv).imp_right fun ⟨info, hh'⟩ => ?_
    obtain ⟨m, hk⟩ := List.getElem?_of_mem hh'
    refine ⟨info, List.mem_eraseIdx_iff_getElem?.mpr ⟨m, ?_, hk⟩⟩
    rintro rfl
    cases hk.symm.trans hh

theorem complete (h : Live held invocations log (a :: answers)) :
    Live held invocations (log ++ [.completed a.call output error]) answers where
  invoked call hl       := by
    obtain ⟨method, input, hm⟩ := h.invoked call hl
    exact ⟨method, input, List.mem_append_left _ hm⟩
  served call m i hm hv := by simpa using h.served call m i (by simpa using hm) hv
  order                 := by simpa using h.order

end Live

-- Both kinds of what is known.
def Progresses (own : Prop) (P : Platform) (service : ServiceDescriptor) (s : System)
    (queries : List Query) (answers : List Answer) : Prop :=
  Consistent own P service s queries answers ∧ Live s.held s.invocations s.log answers

namespace Progresses

theorem initial (h : Initial service s) : Progresses own P service s [] [] :=
  ⟨.initial h, by rw [h.held, h.invocations, h.log]; exact .empty⟩

-- The answer that is sent is to the call that the closure has been made for.
theorem call_of_answered {n call : ℕ} {info : ReplyInfo} {a : Answer}
    (h : Consistent own P service s queries answers) (hP : P.Reliable)
    (ha : Allowed own service s (.reply n)) (hh : s.held[n]? = some (call, .reply info))
    (hs : s.reply P service n = some s')
    (h' : Consistent own P service s' queries (answers ++ [a])) : a.call = call := by
  obtain ⟨method, hheld⟩ := h.held call info <| List.mem_of_getElem? hh
  have hfull := ha call info hh
  rw [hheld.type] at hfull
  obtain ⟨b, hb, hr⟩ := Process.reply_replies (p := s.server) call hP hheld.listed
    ⟨hheld.type, hfull⟩
  simp only [reply, hh, Option.some.injEq] at hs
  subst hs
  have hi : a.items = b.items := by
    have hi := h'.toClient
    have ho := hr.outgoing
    rw [h.server, List.nil_append] at ho
    rw [List.flatMap_append, List.flatMap_singleton, ← h.toClient] at hi
    exact (List.append_cancel_left <| (congrArg (_ ++ ·) ho).symm.trans hi).symm
  have hid : a.id = b.id := by
    have he := Item.envelope.inj (List.cons.inj hi).left
    calc a.id
      _ = (EnvelopePtr.mk 0 a.envelope).responseId := responseId_envelope.symm
      _ = (EnvelopePtr.mk 0 b.envelope).responseId := by rw [he]
      _ = b.id                                     := responseId_envelope
  obtain ⟨entry, r, hl, hd, -⟩ := (h'.answer a <| List.mem_append_right _ <|
    List.mem_singleton_self _).awaits
  obtain ⟨entry', r', hl', hd', -⟩ := hheld.awaits
  rw [← hr.id, ← hid] at hl'
  obtain rfl : entry = entry' := Option.some.inj <| hl.symm.trans hl'
  exact hd.symm.trans hd'

theorem next (h : Progresses own P service s queries answers) (hP : P.Reliable)
    (hI : own → P.Inverse) (hn : service.ids.Nodup) (ha : s.Drains own service a)
    (hz : own → s.Sized P a) (hs : s.next P service a = some s') :
    ∃ queries answers, Progresses own P service s' queries answers := by
  obtain ⟨hc, hl⟩ := h
  obtain ⟨ha, hd⟩ := ha
  cases a
  case call =>
    obtain ⟨q, hq⟩ := hc.call hP hI ha hz hd.left hd.right
    obtain rfl := Option.some.inj hs
    exact ⟨_, _, hq, hl.call⟩
  case serve =>
    cases queries
    case nil =>
      have hl' := Process.receiveMessage_nil (P := P) hc.toServer
      have he := Process.receive_of_none (congrArg Prod.fst hl')
      have hs' := hs
      simp only [System.next, System.serve, he, Option.some.injEq] at hs'
      refine ⟨_, _, hc.serve_nil hs, ?_⟩
      rw [← hs']
      exact hl
    case cons q queries =>
      obtain ⟨p', invocation, he, hi⟩ := hc.receive_query hP hn
      have hs' := hs
      simp only [System.next, System.serve, he, Option.some.injEq] at hs'
      refine ⟨_, _, hc.serve_cons hP hn hs, ?_⟩
      rw [← hs']
      refine hl.invoke fun hv => ?_
      obtain ⟨r, -, -, hr⟩ := hi.reply <| hi.method ▸ hv
      exact ⟨_, hr⟩
  case reply n =>
    have hs' := hs
    simp only [System.next, reply] at hs'
    rcases hh : s.held[n]? with _ | ⟨call, info | _⟩ <;> simp only [hh] at hs'
    case none => contradiction
    case reply =>
      obtain ⟨a, ha'⟩ := hc.answered hP hI ha hz hh hs
      obtain rfl := Option.some.inj hs'
      exact ⟨_, _, ha', hl.reply hh <| call_of_answered hc hP ha hh hs ha'⟩
    case doNothing =>
      obtain rfl := Option.some.inj hs'
      exact ⟨_, _, hc.drop hh, hl.drop hh⟩
  case receive =>
    cases answers
    case nil =>
      have hl' := Process.receiveMessage_nil (P := P) hc.toClient
      have he := Process.receive_of_none (congrArg Prod.fst hl')
      have hs' := hs
      simp only [System.next, System.receive, he, Option.some.injEq] at hs'
      refine ⟨_, _, hc.receive_nil hs, ?_⟩
      rw [← hs']
      exact hl
    case cons a answers =>
      obtain ⟨entry, r, hl', hd, hh, hr, ht, -⟩ := (hc.answer a <| List.mem_cons_self ..).awaits
      obtain ⟨p', he, -⟩ := hc.receive_answer hP hn hh hl' hr ht
      have hs' := hs
      simp only [System.next, System.receive, he, Option.some.injEq] at hs'
      refine ⟨_, _, hc.receive_cons hP hn hs, ?_⟩
      rw [← hs']
      simp only [hd]
      exact hl.complete
  case resume =>
    obtain ⟨a, running, hr, -, rfl⟩ := resume_eq_some_iff.mp hs
    exact ⟨_, _, hc.resume hs, hl⟩
  case work   =>
    obtain rfl := Option.some.inj hs
    exact ⟨_, _, hc.work ha.left ha.right, hl⟩

end Progresses

end System
end ProtoCall
