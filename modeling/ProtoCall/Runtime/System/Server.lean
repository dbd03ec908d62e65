import ProtoCall.Runtime.System.Invariant

namespace ProtoCall.System

variable {own : Prop} {P : Platform} {service : ServiceDescriptor} {s s' : System}
  {queries : List Query} {answers : List Answer}

section Serve

theorem Consistent.serve_nil (h : Consistent own P service s [] answers) (hs : s.serve P = some s') :
    Consistent own P service s' [] answers := by
  have hl := Process.receiveMessage_nil (P := P) h.toServer
  have he : s.server.receive P = (((s.server.opened P).log (.deleteEnvelope s.server.next)),
    .returned false) := Process.receive_of_none (congrArg Prod.fst hl)
  simp only [serve, he, Option.some.injEq] at hs
  subst hs
  exact h.withServer (congrArg (·.snd.incoming) hl) (congrArg (·.snd.outgoing) hl) rfl
    (Nat.le_succ _) fun _ _ => rfl

-- The request becomes an invocation, which is given a closure if it is waited for.
theorem heldId_done {q : Query} {p p' : Process} {rest : List Item} {invocation : Invocation}
    {n : ℕ} (hi : Process.Invokes P q p rest p' invocation) (hv : q.id = none ↔ q.method.voidOutput) :
    heldId (n, invocation.done) = q.id := by
  by_cases ho : q.method.voidOutput
  case pos => rw [hi.nothing ho, hv.mpr ho, heldId]
  case neg =>
    obtain ⟨r, -, -, hr⟩ := hi.reply <| by simpa using ho
    obtain ⟨id, hid⟩ := Option.ne_none_iff_exists'.mp <| mt hv.mp ho
    rw [hr, heldId, hid]
    simp [EnvelopePtr.request, Query.envelope, Request.idValue, hid]

theorem heldOk_done {q : Query} {client p p' : Process} {log : List Note} {rest : List Item}
    {invocation : Invocation} {n : ℕ} {info : ReplyInfo}
    (hi : Process.Invokes P q p rest p' invocation) (hq : QueryOk own P service client log q)
    (hn : service.ids.Nodup) (hd : invocation.done = .reply info) (hc : q.call = n) :
    HeldOk own service client p' n info q.method := by
  have ho : q.method.voidOutput = false := by
    by_contra ho
    have hv := hi.nothing <| by simpa using ho
    exact nomatch hv.symm.trans hd
  have hh : heldId (n, .reply info) = q.id := hd ▸ heldId_done hi hq.void
  obtain ⟨r, hr, hnew, hrep⟩ := hi.reply ho
  obtain rfl := DoneClosure.reply.inj <| hrep.symm.trans hd
  exact {
    listed := ServiceDescriptor.replying?_id hn hq.method ho
    object := hr
    type   := congrArg (fun m : Message => m.type) hnew
    awaits := hc ▸ hq.awaits _ hh.symm
  }

theorem waiting_serve {q : Query} {held : ℕ × DoneClosure} (h : heldId held = q.id) :
    (waiting s (q :: queries) answers).Perm
      (waiting { s with held := s.held ++ [held] } queries answers) := by
  apply List.perm_iff_count.mpr
  intro _
  cases hq : q.id <;>
    simp only [waiting, List.filterMap_append, List.filterMap_cons, h, hq, List.filterMap_nil,
      List.count_append, List.count_cons, List.count_nil]
  all_goals omega

theorem Consistent.receive_query {q : Query}
    (h : Consistent own P service s (q :: queries) answers) (hP : P.Reliable)
    (hn : service.ids.Nodup) : ∃ p' invocation, s.server.receive P = (p', .invoked invocation) ∧
      Process.Invokes P q s.server (queries.flatMap Query.items) p' invocation := by
  obtain ⟨d, rfl, hd⟩ := h.claimed
  have hq := h.query q <| List.mem_cons_self ..
  exact Process.receive_query hP hn hq.method hq.formed
    (hd.resolve <| List.mem_map_of_mem hq.method) h.toServer

theorem Consistent.serve_cons {q : Query} (h : Consistent own P service s (q :: queries) answers)
    (hP : P.Reliable) (hn : service.ids.Nodup) (hs : s.serve P = some s') :
    Consistent own P service s' queries answers := by
  obtain ⟨d, rfl, hd⟩ := h.claimed
  obtain ⟨hq, hqs⟩ := List.forall_mem_cons.mp h.query
  obtain ⟨p', invocation, he, hi⟩ := h.receive_query hP hn
  have ⟨hc, hcs⟩ : q.call = s.invocations ∧
      queries.map (·.call) = List.range' (s.invocations + 1) queries.length := by
    have hr := h.numbers
    rw [List.length_cons, List.range'_succ, List.map_cons] at hr
    exact List.cons.inj hr
  have hp : (waiting s (q :: queries) answers).Perm
      (waiting { s with held := s.held ++ [(s.invocations, invocation.done)] } queries answers) :=
    waiting_serve <| heldId_done hi hq.void
  simp only [serve, he, Option.some.injEq] at hs
  subst hs
  exact {
    toServer := hi.incoming
    toClient := h.toClient
    client   := h.client
    server   := hi.outgoing.trans h.server
    claimed  := ⟨d, rfl, hi.manager ▸ hd.lookup⟩
    numbers  := hcs
    calls    := by
      have hl := h.calls
      rw [List.length_cons] at hl
      change s.invocations + 1 + queries.length = s.calls
      omega
    query q' hm   := (hqs q' hm).spares (fun _ _ => .of_eq rfl rfl)
      (List.subset_append_left ..)
    held call info hm := by
      obtain hm | hm := List.mem_append.mp hm
      case inl =>
        obtain ⟨method, hh⟩ := h.held call info hm
        refine ⟨method, hh.spares (.of_eq rfl rfl) (fun r hr => ?_) hi.next.le⟩
        exact congrArg (fun m : Message => m.type) <| hi.responses r hr
      case inr =>
        obtain ⟨rfl, hd⟩ := Prod.mk.inj <| List.mem_singleton.mp hm
        exact ⟨q.method, heldOk_done hi hq hn hd.symm hc⟩
    answer a hm   := (h.answer a hm).spares (.of_eq rfl rfl)
      (List.subset_append_left ..)
    running  := h.running
    distinct := hp.nodup_iff.mp h.distinct
    ledger   := h.ledger.mono rfl rfl le_rfl le_rfl hp.subset
    log      := h.log.invoke fun ho => by
      rw [hi.method, hi.input (hq.intact ho), ← hc]
      exact hq.logged
  }

end Serve

section Reply

variable {n : ℕ}

theorem waiting_erase {held : ℕ × DoneClosure} (h : s.held[n]? = some held) :
    (waiting s queries answers).Perm ((heldId held).toList ++
      waiting { s with held := s.held.eraseIdx n } queries answers) := by
  obtain ⟨hn, rfl⟩ := List.getElem?_eq_some_iff.mp h
  have hp := (List.getElem_cons_eraseIdx_perm hn).symm.filterMap heldId
  apply List.perm_iff_count.mpr
  intro id
  have hc := hp.count_eq id
  cases hi : heldId s.held[n] <;>
    simp only [waiting, List.filterMap_cons, hi, List.count_append, List.count_cons,
      Option.toList_none, Option.toList_some, List.count_nil] at hc ⊢
  all_goals omega

-- A closure for a method that does not reply.
theorem Consistent.drop {call : ℕ} (h : Consistent own P service s queries answers)
    (hh : s.held[n]? = some (call, .doNothing)) :
    Consistent own P service { s with held := s.held.eraseIdx n } queries answers :=
  have hp : (waiting s queries answers).Perm _ := waiting_erase hh
  {
    h with
    held call info hm := h.held call info <| List.mem_of_mem_eraseIdx hm
    distinct          := hp.nodup_iff.mp h.distinct
    ledger            := h.ledger.mono rfl rfl le_rfl le_rfl hp.subset
    log               := { h.log with }
  }

theorem output_of_replies {a : Answer} {method : MethodDescriptor} {info : ReplyInfo}
    {p p' : Process} (ha : Process.Replies P method info p p' a)
    (ht : (p.responses info.response).type = method.outputType) :
    a.output = (p.responses info.response).value p.heap := by
  rw [Answer.output, ha.content, ha.objects, Message.value, ht]

-- The id of the closure becomes that of the answer.
theorem waiting_reply {call : ℕ} {info : ReplyInfo} {a : Answer}
    (hh : s.held[n]? = some (call, .reply info))
    (ha : a.id = info.requestMessageEnvelope.request.idValue.toUInt64) :
    (waiting s queries answers).Perm
      (waiting { s with held := s.held.eraseIdx n } queries (answers ++ [a])) := by
  apply (waiting_erase hh).trans
  apply List.perm_iff_count.mpr
  intro _
  simp only [waiting, heldId, ha, Option.toList_some, List.map_append, List.map_singleton,
    List.count_append]
  omega

theorem answerOk_of_replies {call : ℕ} {info : ReplyInfo} {method : MethodDescriptor} {a : Answer}
    {client server p' : Process} {log : List Note} (hI : own → P.Inverse)
    (hz : own → Payload.Sized P server.heap (server.responses info.response) method.outputType)
    (hh : HeldOk own service client server call info method) (hcall : a.call = call)
    (hr : Process.Replies P method info server p' a) :
    AnswerOk own P service client (log ++ [.replied call
      ((server.responses info.response).value server.heap) (server.responses info.response).error])
      a where
  method := hr.callee ▸ ServiceDescriptor.mem_of_replying? hh.listed
  formed := hr.formed
  intact := fun ho => hr.intact (hI ho) (hz ho)
  awaits := by
    rw [hr.callee, hr.id, hcall]
    exact hh.awaits
  logged := by
    rw [hcall, output_of_replies hr hh.type, hr.error]
    exact List.mem_append_right _ (List.mem_singleton_self _)

theorem Consistent.answered {call : ℕ} {info : ReplyInfo}
    (h : Consistent own P service s queries answers) (hP : P.Reliable)
    (hI : own → P.Inverse) (ha : Allowed own service s (.reply n))
    (hz : own → s.Sized P (.reply n)) (hh : s.held[n]? = some (call, .reply info))
    (hs : s.reply P service n = some s') :
    ∃ a, Consistent own P service s' queries (answers ++ [a]) := by
  obtain ⟨method, hheld⟩ := h.held call info <| List.mem_of_getElem? hh
  have hfull := ha call info hh
  rw [hheld.type] at hfull
  obtain ⟨a, hcall, hr⟩ := Process.reply_replies (p := s.server) call hP hheld.listed
    ⟨hheld.type, hfull⟩
  simp only [reply, hh, Option.some.injEq] at hs
  subst hs
  have hp : (waiting s queries answers).Perm _ := waiting_reply hh hr.id
  have hok : AnswerOk own P service s.client (s.log ++ _) a :=
    answerOk_of_replies hI (fun ho => hheld.type ▸ hz ho call info hh) hheld hcall hr
  refine ⟨a, ?_⟩
  exact {
    toServer := hr.incoming.trans h.toServer
    toClient := by
      have ho := hr.outgoing
      rw [h.server, List.nil_append] at ho
      rw [List.flatMap_append, List.flatMap_singleton, ← ho, ← h.toClient]
      rfl
    client   := h.client
    server   := rfl
    claimed  := by
      obtain ⟨d, hd, hc⟩ := h.claimed
      exact ⟨d, hd, hr.manager ▸ hc⟩
    numbers  := h.numbers
    calls    := h.calls
    query    := fun q hm =>
      (h.query q hm).spares (fun _ _ => .of_eq rfl rfl) (List.subset_append_left ..)
    held     := by
      intro call info hm
      obtain ⟨method, hh⟩ := h.held call info <| List.mem_of_mem_eraseIdx hm
      refine ⟨method, hh.spares (.of_eq rfl rfl) (fun r _ => ?_) hr.next.ge⟩
      exact congrArg (fun f : Ref → Message => (f r).type) hr.responses
    answer   := by
      intro b hm
      obtain hm | hm := List.mem_append.mp hm
      case inl => exact (h.answer b hm).spares (.of_eq rfl rfl) (List.subset_append_left ..)
      case inr =>
        obtain rfl := List.mem_singleton.mp hm
        exact hok.spares (.of_eq rfl rfl) (List.Subset.refl _)
    running  := h.running
    distinct := hp.nodup_iff.mp h.distinct
    ledger   := h.ledger.mono rfl rfl le_rfl le_rfl hp.subset
    log      := h.log.reply rfl
  }

end Reply

end ProtoCall.System
