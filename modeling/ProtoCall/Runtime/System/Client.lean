import ProtoCall.Runtime.System.Invariant

namespace ProtoCall.System

variable {own : Prop} {P : Platform} {service : ServiceDescriptor} {s s' : System}
  {queries : List Query} {answers : List Answer}

section Call

open StdMap

variable {method : MethodDescriptor} {input : Option Message} {output : Option Ref} {done : Closure}
  {p : Process} {calls : ℕ} {ids ids' : List UInt64} {id : UInt64}

-- A call leaves the pending ones alone, also one with the same id.
theorem spares_proxyCall :
    Spares own p (p.proxyCall P service method input output done).fst id := by
  intro entry hl
  refine ⟨?_, fun r _ => ?_⟩
  · rw [Process.proxyCall_responseCallbacks, Process.prepare_responseCallbacks]
    split
    · rw [lookup_insertNew, hl, Option.some_or]
    · exact hl
  · rw [Process.proxyCall_responses]
    exact ⟨rfl, fun _ => rfl⟩

theorem lookup_proxyCall {entry : ResponseCallbackEntry}
    (h : (p.proxyCall P service method input output done).fst.channel.responseCallbacks.lookup id =
      some entry) :
    p.channel.responseCallbacks.lookup id = some entry ∨ entry.done = done := by
  rw [Process.proxyCall_responseCallbacks, Process.prepare_responseCallbacks] at h
  split at h
  case isFalse => exact .inl h
  case isTrue =>
    rw [lookup_insertNew, Option.or_eq_some_iff] at h
    obtain h | ⟨-, h⟩ := h
    case inl => exact .inl h
    case inr =>
      split at h
      case isTrue  => exact .inr <| Option.some.inj h ▸ rfl
      case isFalse => contradiction

section Drainable

variable (hv : method.voidOutput → method.voidInput)
  (hf : p.channel.responseCallbacks.lookup p.channel.currentRequestId = none)
include hv

theorem registers_eq : method.registers = !method.voidOutput := by
  rw [MethodDescriptor.registers]
  cases ho : method.voidOutput
  case false => simp
  case true  => simp [hv ho]

theorem responseCallbacks_of_voidOutput (h : method.voidOutput) :
    (p.proxyCall P service method input output done).fst.channel.responseCallbacks =
      p.channel.responseCallbacks := by
  rw [Process.proxyCall_responseCallbacks, Process.prepare_responseCallbacks, registers_eq hv, h]
  rfl

include hf

theorem responseCallbacks_of_not_voidOutput (h : method.voidOutput = false) :
    (p.proxyCall P service method input output done).fst.channel.responseCallbacks =
      p.channel.responseCallbacks.insert p.channel.currentRequestId
        { done, response := output, handler := ⟨p.next, service⟩ } := by
  rw [Process.proxyCall_responseCallbacks, Process.prepare_responseCallbacks, registers_eq hv, h]
  exact insertNew_of_not_mem hf

theorem awaits_proxyCall (h : method.voidOutput = false) (ho : Offers own p method output) :
    Awaits own service (p.proxyCall P service method input output done).fst method
      p.channel.currentRequestId done := by
  obtain ⟨r, rfl⟩ := Option.isSome_iff_exists.mp <| ho.given.trans <| by rw [h]; rfl
  have ht : (p.proxyCall P service method input (some r) done).fst.channel.responseCallbacks = _ :=
    responseCallbacks_of_not_voidOutput hv hf h
  refine ⟨_, r, ht ▸ Finmap.lookup_insert _, rfl, rfl, rfl, ?_⟩
  rw [Process.proxyCall_responses]
  exact ⟨(ho.typed r rfl).right, fun hw => ho.new hw r rfl⟩

omit hf

theorem ledger_proxyCall (h : Ledger own p done ids) (ho : Offers own p method output)
    (hf : method.voidOutput = false →
      p.channel.responseCallbacks.lookup p.channel.currentRequestId = none)
    (hi : ids ⊆ ids') (hc : method.voidOutput = false → p.channel.currentRequestId ∈ ids') :
    Ledger own (p.proxyCall P service method input output done).fst (done + 1) ids' := by
  have hq : (p.proxyCall P service method input output done).fst.channel.currentRequestId = _ :=
    Process.proxyCall_currentRequestId
  rw [registers_eq hv] at hq
  cases hm : method.voidOutput <;> rw [hm] at hq
  case true =>
    exact h.mono (responseCallbacks_of_voidOutput hv hm) hq Process.proxyCall_next (Nat.le_succ _) hi
  case false =>
    obtain ⟨r, rfl⟩ := Option.isSome_iff_exists.mp <| ho.given.trans <| by rw [hm]; rfl
    exact h.insert rfl (responseCallbacks_of_not_voidOutput hv (hf hm) hm) hq rfl rfl
      (ho.typed r rfl).left (fun hw => ho.apart hw r rfl) Process.proxyCall_next <|
      List.cons_subset.mpr ⟨hc hm, hi⟩

end Drainable

-- The request carries what the method is called with.
theorem input_of_asks {q : Query} {p' : Process} (hi : input.isSome = !method.voidInput)
    (hf : Process.Fits method.inputType (input.getD <| .new method.inputType))
    (ha : Process.Asks P method (input.getD <| .new method.inputType) p p' q) :
    q.input = input.map (·.value p.heap) := by
  rw [Query.input, ha.callee, ha.content, ha.objects]
  cases hin : input
  case none =>
    have hv : method.voidInput := by simpa [hin] using hi
    simp [hv]
  case some msg =>
    have hv : method.voidInput = false := by simpa [hin] using hi
    have ht : msg.type = method.inputType := by simpa [hin] using hf.type
    simp [hv, Message.value, ht]

theorem waiting_call {q : Query} :
    (waiting s (queries ++ [q]) answers).Perm (q.id.toList ++ waiting s queries answers) := by
  apply List.perm_iff_count.mpr
  intro _
  cases hq : q.id <;>
    simp only [waiting, List.filterMap_append, List.filterMap_cons, hq, List.filterMap_nil,
      Option.toList_none, Option.toList_some, List.count_append, List.count_nil]
  all_goals omega

theorem id_of_asks {q : Query} {msg : Message} {p' : Process}
    (hv : method.voidOutput → method.voidInput) (hq : Process.Asks P method msg p p' q) :
    q.id = if method.voidOutput then none else some p.channel.currentRequestId := by
  rw [hq.id, registers_eq hv]
  cases method.voidOutput <;> rfl

theorem queryOk_call {q : Query} (hI : own → P.Inverse)
    (ha : Allowed own service s (.call method input output))
    (hz : own → s.Sized P (.call method input output)) (hv : method.voidOutput → method.voidInput)
    (hf : method.voidOutput = false →
      s.client.channel.responseCallbacks.lookup s.client.channel.currentRequestId = none)
    (hcall : q.call = s.calls)
    (hq : Process.Asks P method (input.getD <| .new method.inputType) s.client
      (s.client.proxyCall P service method input output s.calls).fst q) :
    QueryOk own P service (s.call P service method input output).client
      (s.call P service method input output).log q := by
  obtain ⟨hm, hi, hfit, hoff⟩ := ha
  have hid := id_of_asks hv hq
  have hlog : Note.called q.call q.method q.input =
      .called s.calls method (input.map (·.value s.client.heap)) := by
    rw [hcall, hq.callee, input_of_asks hi hfit hq]
  exact {
    method := hq.callee ▸ hm
    formed := hq.formed
    intact := fun ho => hq.intact (hI ho) (hz ho)
    void   := by
      rw [hid, hq.callee]
      cases method.voidOutput <;> simp
    awaits := by
      intro id he
      cases ho : method.voidOutput <;> simp only [ho, ↓reduceIte, hid] at he
      case true => contradiction
      case false =>
        obtain rfl := Option.some.inj he
        rw [hq.callee, hcall]
        exact awaits_proxyCall hv (hf ho) ho hoff
    logged := hlog ▸ List.mem_append_right _ (List.mem_singleton_self _)
  }

-- The new id is not one that the client is waiting under.
theorem Consistent.waiting_nodup {q : Query} (h : Consistent own P service s queries answers)
    (hf : method.voidOutput = false →
      s.client.channel.responseCallbacks.lookup s.client.channel.currentRequestId = none)
    (hid : q.id = if method.voidOutput then none else some s.client.channel.currentRequestId) :
    (waiting s (queries ++ [q]) answers).Nodup := by
  refine waiting_call.nodup_iff.mpr <| List.nodup_append.mpr ⟨?_, h.distinct, ?_⟩
  · cases q.id <;> simp
  · rintro id hm _ hw rfl
    have ⟨ho, he⟩ : method.voidOutput = false ∧ id = s.client.channel.currentRequestId := by
      rw [hid] at hm
      cases ho : method.voidOutput
      case true  => simp [ho] at hm
      case false => simpa [ho] using hm
    have hl := h.lookup_isSome hw
    rw [he, hf ho] at hl
    contradiction

theorem Consistent.ledger_call {q : Query} (h : Consistent own P service s queries answers)
    (hoff : Offers own s.client method output) (hv : method.voidOutput → method.voidInput)
    (hf : method.voidOutput = false →
      s.client.channel.responseCallbacks.lookup s.client.channel.currentRequestId = none)
    (hid : q.id = if method.voidOutput then none else some s.client.channel.currentRequestId) :
    Ledger own (s.client.proxyCall P service method input output s.calls).fst (s.calls + 1)
      (s.waiting (queries ++ [q]) answers) := by
  have hp : (waiting s (queries ++ [q]) answers).Perm _ := waiting_call
  refine ledger_proxyCall hv h.ledger hoff hf (fun _ hm => ?_) (fun ho => ?_)
  · exact hp.mem_iff.mpr <| List.mem_append_right _ hm
  · apply hp.mem_iff.mpr
    apply List.mem_append_left _
    simp [hid, ho]

theorem Consistent.call (h : Consistent own P service s queries answers) (hP : P.Reliable)
    (hI : own → P.Inverse) (ha : Allowed own service s (.call method input output))
    (hz : own → s.Sized P (.call method input output))
    (hv : method.voidOutput → method.voidInput)
    (hf : method.voidOutput = false →
      s.client.channel.responseCallbacks.lookup s.client.channel.currentRequestId = none) :
    ∃ q, Consistent own P service (s.call P service method input output) (queries ++ [q])
      answers := by
  have hin : method.voidInput → input = none := fun h => by simpa [h] using ha.right.left
  obtain ⟨q, hcall, hq⟩ : ∃ q, q.call = s.calls ∧ Process.Asks P method _ s.client
      (s.client.proxyCall P service method input output s.calls).fst q :=
    Process.proxyCall_asks s.calls hP ha.right.right.left hin
  have hid := id_of_asks hv hq
  have hsp (id : UInt64) : Spares own s.client (s.call P service method input output).client id :=
    spares_proxyCall
  refine ⟨q, ?_⟩
  exact {
    toServer := by
      have ho := hq.outgoing
      rw [h.client, List.nil_append] at ho
      rw [List.flatMap_append, List.flatMap_singleton, ← ho, ← h.toServer]
      rfl
    toClient := hq.incoming.trans h.toClient
    client   := rfl
    server   := h.server
    claimed  := h.claimed
    numbers  := by
      rw [List.map_append, h.numbers, List.length_append, List.length_singleton,
        List.range'_concat, Nat.one_mul, List.map_singleton, hcall, ← h.calls]
      rfl
    calls    := by
      rw [List.length_append, ← Nat.add_assoc]
      exact congrArg (· + 1) h.calls
    query    := by
      intro q' hm
      obtain hm | hm := List.mem_append.mp hm
      case inl => exact (h.query q' hm).spares (fun id _ => hsp id) (List.subset_append_left ..)
      case inr =>
        obtain rfl := List.mem_singleton.mp hm
        exact queryOk_call hI ha hz hv hf hcall hq
    held     := by
      intro call info hm
      obtain ⟨method, hh⟩ := h.held call info hm
      exact ⟨method, hh.spares (hsp _) (fun _ _ => rfl) le_rfl⟩
    answer   := fun a hm => (h.answer a hm).spares (hsp _) (List.subset_append_left ..)
    running  := fun a hm => (hsp a.id a.entry <| h.running a hm).left
    distinct := h.waiting_nodup hf hid
    ledger   := (h.ledger_call ha.right.right.right hv hf hid).mono rfl rfl le_rfl le_rfl
      (List.Subset.refl _)
    log      := h.log.call fun _ _ => lookup_proxyCall
  }

end Call

section Receive

theorem Consistent.receive_nil (h : Consistent own P service s queries [])
    (hs : s.receive P = some s') : Consistent own P service s' queries [] := by
  have hl := Process.receiveMessage_nil (P := P) h.toClient
  have he : s.client.receive P = (((s.client.opened P).log (.deleteEnvelope s.client.next)),
    .returned false) := Process.receive_of_none (congrArg Prod.fst hl)
  simp only [receive, he, Option.some.injEq] at hs
  subst hs
  exact h.withClient (congrArg (·.snd.incoming) hl) (congrArg (·.snd.outgoing) hl) rfl rfl
    (Nat.le_succ _) fun _ => .of_eq rfl rfl

theorem waiting_receive {a : Answer} :
    (waiting s queries (a :: answers)).Perm (a.id :: waiting s queries answers) := by
  apply List.perm_iff_count.mpr
  intro _
  simp only [waiting, List.map_cons, List.count_append, List.count_cons]
  omega

theorem waiting_running {a : Activation} :
    (waiting { s with running := a :: s.running } queries answers).Perm
      (a.id :: waiting s queries answers) := by
  apply List.perm_iff_count.mpr
  intro _
  simp only [waiting, List.map_cons, List.count_append, List.count_cons]
  omega

-- Another call has another object.
theorem spares_of_answers {a : Answer} {p p' : Process} {r : Ref} {rest : List Item}
    {calls : ℕ} {ids : List UInt64} {id : UInt64} {entry : ResponseCallbackEntry}
    (ha : Process.Answers P a p r rest p') (hl : Ledger own p calls ids)
    (he : p.channel.responseCallbacks.lookup a.id = some entry) (hr : entry.response = some r)
    (hn : id ≠ a.id) : Spares own p p' id := by
  intro entry' he'
  refine ⟨ha.callbacks ▸ he', fun r' hr' => ⟨ha.types r', fun ho => ha.responses r' ?_⟩⟩
  rintro rfl
  exact hn <| hl.apart ho _ _ _ _ _ he' he hr' hr

theorem Consistent.receive_answer {a : Answer} {entry : ResponseCallbackEntry} {r : Ref}
    (h : Consistent own P service s queries (a :: answers)) (hP : P.Reliable)
    (hn : service.ids.Nodup) (hh : entry.handler.service = service)
    (hl : s.client.channel.responseCallbacks.lookup a.id = some entry)
    (hr : entry.response = some r) (ht : (s.client.responses r).type = a.method.outputType) :
    ∃ p', s.client.receive P = (p', .callback ⟨a.id, entry, ⟨s.client.next, a.envelope⟩⟩) ∧
      Process.Answers P a s.client r (answers.flatMap Answer.items) p' := by
  have ha := h.answer a <| List.mem_cons_self ..
  exact Process.receive_answer hP (hh ▸ hn) (hh ▸ ha.method) ha.formed hl hr ht h.toClient

theorem Consistent.receive_cons {a : Answer} (h : Consistent own P service s queries (a :: answers))
    (hP : P.Reliable) (hn : service.ids.Nodup) (hs : s.receive P = some s') :
    Consistent own P service s' queries answers := by
  obtain ⟨ha, has⟩ := List.forall_mem_cons.mp h.answer
  obtain ⟨entry, r, hl, hd, hh, hr, ht, hnew⟩ := ha.awaits
  obtain ⟨p', he, hans⟩ := h.receive_answer hP hn hh hl hr ht
  simp only [receive, he, Option.some.injEq] at hs
  subst hs
  have hp : (waiting s queries (a :: answers)).Perm _ := waiting_receive
  obtain ⟨hna, hnd⟩ := List.nodup_cons.mp <| hp.nodup_iff.mp h.distinct
  have hp' := hp.trans <| (waiting_running (a := ⟨a.id, entry, ⟨s.client.next, a.envelope⟩⟩)).symm
  have hsp {id : UInt64} (hi : id ∈ s.waiting queries answers) : Spares own s.client p' id :=
    spares_of_answers hans h.ledger hl hr fun he => hna <| he ▸ hi
  exact {
    toServer := h.toServer
    toClient := hans.incoming
    client   := hans.outgoing.trans h.client
    server   := h.server
    claimed  := h.claimed
    numbers  := h.numbers
    calls    := h.calls
    query    := fun q hm => (h.query q hm).spares (fun id hq => hsp <| mem_waiting_of_query hm hq)
      (List.subset_append_left ..)
    held     := by
      intro call info hm
      obtain ⟨method, hh⟩ := h.held call info hm
      exact ⟨method, hh.spares (hsp <| mem_waiting_of_held hm) (fun _ _ => rfl) le_rfl⟩
    answer   := fun a hm => (has a hm).spares (hsp <| mem_waiting_of_answer hm)
      (List.subset_append_left ..)
    running  := by
      intro b hm
      obtain rfl | hm := List.mem_cons.mp hm
      case inl => exact hans.callbacks ▸ hl
      case inr => exact hans.callbacks ▸ h.running b hm
    distinct := hp'.nodup_iff.mp h.distinct
    ledger   := h.ledger.mono hans.callbacks hans.requestId hans.next.le le_rfl hp'.subset
    log      := by
      refine h.log.complete hl (fun hm => hna <| mem_waiting_of_running hm) (h.ledger.bound _ _ hl)
        (fun id entry' hl' hd => h.ledger.dones _ _ _ _ hl hl' hd) (fun ho => ?_) hans.callbacks
      rw [hr, Option.elim_some, hans.value (ha.intact ho) (hnew ho), hans.error, hd]
      exact ha.logged
  }

end Receive

section Resume

theorem finish_spares {p : Process} {a : Activation} {id : UInt64} (h : id ≠ a.id) :
    Spares own p (p.finish a) id :=
  fun _ hl => ⟨(Finmap.lookup_erase_ne h).trans hl, fun _ _ => ⟨rfl, fun _ => rfl⟩⟩

theorem Consistent.resume (h : Consistent own P service s queries answers) (hs : s.resume = some s') :
    Consistent own P service s' queries answers := by
  obtain ⟨a, running, hr, -, rfl⟩ := resume_eq_some_iff.mp hs
  set s' : System := { s with client := s.client.finish a, running }
  have hp : (s.waiting queries answers).Perm (a.id :: s'.waiting queries answers) := by
    apply List.perm_iff_count.mpr
    intro _
    simp only [waiting, s', hr, List.map_cons, List.count_append, List.count_cons]
    omega
  obtain ⟨hna, hnd⟩ := List.nodup_cons.mp <| hp.nodup_iff.mp h.distinct
  have hsp {id : UInt64} (hi : id ∈ s'.waiting queries answers) : Spares own s.client s'.client id :=
    finish_spares fun he => hna <| he ▸ hi
  exact {
    toServer := h.toServer
    toClient := h.toClient
    client   := h.client
    server   := h.server
    claimed  := h.claimed
    numbers  := h.numbers
    calls    := h.calls
    query    := fun q hm => (h.query q hm).spares (fun id hq => hsp <| mem_waiting_of_query hm hq)
      (List.Subset.refl _)
    held     := by
      intro call info hm
      obtain ⟨method, hh⟩ := h.held call info hm
      exact ⟨method, hh.spares (hsp <| mem_waiting_of_held hm) (fun _ _ => rfl) le_rfl⟩
    answer   := fun a hm => (h.answer a hm).spares (hsp <| mem_waiting_of_answer hm)
      (List.Subset.refl _)
    running  := by
      intro b hm
      have hl := h.running b <| hr ▸ List.mem_cons_of_mem a hm
      exact (hsp (mem_waiting_of_running <| List.mem_map_of_mem hm) b.entry hl).left
    distinct := hnd
    ledger   := h.ledger.erase rfl rfl le_rfl fun id hi hne =>
      (List.mem_cons.mp <| hp.subset hi).resolve_left hne
    log      := LogOk.resume (hr ▸ h.log) rfl
  }

-- The innermost callback can return: its entry has not been erased in the meantime.
def Resumes (s : System) : Prop := s.running ≠ [] → s.resume.isSome

theorem Consistent.resumes (h : Consistent own P service s queries answers) : s.Resumes := by
  intro hr
  obtain ⟨a, running, hr⟩ := List.exists_cons_of_ne_nil hr
  have hl := h.running a <| hr ▸ List.mem_cons_self ..
  exact Option.isSome_iff_exists.mpr ⟨_, resume_eq_some_iff.mpr ⟨a, running, hr, hl, rfl⟩⟩

end Resume

theorem Consistent.work {client server : Process} (h : Consistent own P service s queries answers)
    (hc : Works own s.client client) (hs : Works own s.server server) :
    Consistent own P service { s with client, server } queries answers := by
  have hcp := hc.process
  have hsp := hs.process
  have h' : Consistent own P service { s with client } queries answers := by
    refine h.withClient ?_ ?_ ?_ ?_ hc.next fun id entry hl => ⟨?_, fun r hr => ?_⟩
    case refine_6 =>
      exact ⟨hc.types r <| h.ledger.outputs id entry r hl hr, fun ho => hc.waiting ho id entry r hl hr⟩
    all_goals rw [hcp]
    exact hl
  refine h'.withServer ?_ ?_ ?_ hs.next hs.types
  all_goals rw [hsp]

end ProtoCall.System
