import ProtoCall.Runtime.Network.Containment
import ProtoCall.Runtime.Outage.Process

namespace ProtoCall

-- What can be received at one end is what has been sent at the other, up to where that link broke.
def Link.Carries (Q R : Platform) (items : List Item) (l m : Link) : Prop :=
  R.receiveOk m.receives → m.incoming <+: items ∧ (Q.sendOk l.sends → m.incoming = items)

namespace Link.Carries

variable {P Q R : Platform} {l l' m m' : Link} {items msg rest : List Item}

theorem congr (h : Carries Q R items l m) (hs : l'.sends = l.sends)
    (hr : m'.receives = m.receives) (hi : m'.incoming = m.incoming) : Carries Q R items l' m' := by
  rw [Carries, hs, hr, hi]
  exact h

-- Something is sent, and arrives.
theorem send (h : Carries Q R items l m) (hQ : Q.Breaks P) (ht : Takes Q msg l l')
    (ho : l.outgoing = []) {sends : Link} (hs : sends.sends = l'.sends)
    (hr : m'.receives = m.receives) (hi : m'.incoming = m.incoming ++ l'.outgoing) :
    Carries Q R (items ++ msg) sends m' := by
  intro hrec
  obtain ⟨hp, he⟩ := h <| hr ▸ hrec
  obtain ⟨sent, hsent, hpre, hall, hnone⟩ := ht.outgoing
  rw [hi, hs, hsent, ho, List.nil_append]
  by_cases hl : Q.sendOk l.sends
  case pos =>
    rw [he hl]
    exact ⟨(List.prefix_append_right_inj _).mpr hpre, fun hl' => congrArg _ <| hall hl'⟩
  case neg =>
    rw [hnone hl, List.append_nil]
    exact ⟨hp.trans <| List.prefix_append .., fun hl' => absurd (hQ.sends_of_le ht.sends hl') hl⟩

theorem receive (h : Carries Q R (msg ++ rest) l m) (hR : R.Breaks P) (hl : Listens m m')
    (hi : m.incoming = msg ++ m'.incoming) : Carries Q R rest l m' := by
  intro hrec
  obtain ⟨hp, he⟩ := h <| hR.receives_of_le hl.receives hrec
  rw [hi] at hp he
  exact ⟨(List.prefix_append_right_inj _).mp hp, fun hs => List.append_cancel_left <| he hs⟩

theorem unread (h : Carries Q R items l m) (hR : R.Breaks P) (hl : Listens m m')
    (hi : m'.incoming = m.incoming) : Carries Q R items l m' :=
  fun hrec => hi ▸ h (hR.receives_of_le hl.receives hrec)

-- What follows a message that was not received as a whole cannot be received either.
theorem miss (hm : Misses R msg m m') (h : Carries Q R (msg ++ rest) l m) (hR : R.Breaks P)
    (hl : Listens m m') : Carries Q R items l m' := by
  intro hrec
  obtain ⟨hi, hn⟩ := hm.resolve_left <| not_not.mpr hrec
  obtain ⟨-, he⟩ := h <| hR.receives_of_le hl.receives hrec
  rw [hi]
  exact ⟨List.nil_prefix, fun hs => absurd (he hs ▸ List.prefix_append ..) hn⟩

theorem broken_of_misses (h : Carries Q R (msg ++ rest) l m) (hR : R.Breaks P)
    (hl : Listens m m') (hm : Misses R msg m m') :
    ¬Q.sendOk l.sends ∨ ¬R.receiveOk m'.receives := by
  refine or_iff_not_imp_right.mpr fun hrec hs => ?_
  obtain ⟨-, hn⟩ := hm.resolve_left hrec
  obtain ⟨-, he⟩ := h <| hR.receives_of_le hl.receives <| not_not.mp hrec
  exact hn <| he hs ▸ List.prefix_append ..

end Link.Carries

namespace System

-- The steps of a client and a server that each have a platform of their own.
def nextOver (C S : Platform) (service : ServiceDescriptor) (s : System) : Action → Option System
  | .call method input output => some <| s.call C service method input output
  | .serve                    => s.serve S
  | .reply n                  => s.reply S service n
  | .receive                  => s.receive C
  | .resume                   => s.resume
  | .work client server       => some { s with client, server }

theorem nextOver_self {P : Platform} {service : ServiceDescriptor} {s : System} {a : Action} :
    s.nextOver P P service a = s.next P service a := by
  cases a <;> rfl

-- If everything that has been sent was still on its way, then the calls would be in order.
structure Weathers (C S P : Platform) (service : ServiceDescriptor) (s : System)
    (queries : List Query) (answers : List Answer) : Prop where
  calls    : (s.only queries answers).Consistent True P service queries answers
  toServer : Link.Carries C S (queries.flatMap Query.items) s.client.channel.link
    s.server.channel.link
  toClient : Link.Carries S C (answers.flatMap Answer.items) s.server.channel.link
    s.client.channel.link

-- Nothing that arrives stops the process, and it is handled unless the connection has broken.
structure Endures (C S : Platform) (s : System) : Prop where
  serve   : ∃ s', s.serve S = some s' ∧ (s.server.channel.link.incoming ≠ [] →
    (∃ method input, s'.log = s.log ++ [.invoked s.invocations method input]) ∨
      ¬C.sendOk s.client.channel.link.sends ∨ ¬S.receiveOk s'.server.channel.link.receives)
  receive : ∃ s', s.receive C = some s' ∧ (s.client.channel.link.incoming ≠ [] →
    (∃ call output error, s'.log = s.log ++ [.completed call output error]) ∨
      ¬S.sendOk s.server.channel.link.sends ∨ ¬C.receiveOk s'.client.channel.link.receives)

variable {C S P : Platform} {service : ServiceDescriptor} {s s' : System}
  {queries : List Query} {answers : List Answer} {a : Answer} {n : ℕ}

-- A call that its response has got lost for.
theorem Consistent.forget {entry : ResponseCallbackEntry} {r : Ref} {p : Process}
    (h : Consistent True P service s queries (a :: answers))
    (hl : s.client.channel.responseCallbacks.lookup a.id = some entry)
    (hr : entry.response = some r) (hf : s.client.Forgets a.id r p)
    (hi : p.channel.link.incoming = answers.flatMap Answer.items)
    (ho : p.channel.link.outgoing = s.client.channel.link.outgoing) :
    Consistent True P service { s with client := p } queries answers := by
  obtain ⟨-, has⟩ := List.forall_mem_cons.mp h.answer
  have hp : (waiting s queries (a :: answers)).Perm _ := waiting_receive
  obtain ⟨hna, hnd⟩ := List.nodup_cons.mp <| hp.nodup_iff.mp h.distinct
  have hsp {id : UInt64} (hm : id ∈ s.waiting queries answers) : Spares True s.client p id := by
    have hne : id ≠ a.id := fun he => hna <| he ▸ hm
    intro entry' hl'
    refine ⟨hf.callbacks ▸ (Finmap.lookup_erase_ne hne).trans hl', fun r' hr' => ⟨hf.types r', ?_⟩⟩
    intro ho
    refine hf.responses r' ?_
    rintro rfl
    exact hne <| h.ledger.apart ho _ _ _ _ _ hl' hl hr' hr
  exact {
    toServer := h.toServer
    toClient := hi
    client   := ho.trans h.client
    server   := h.server
    claimed  := h.claimed
    numbers  := h.numbers
    calls    := h.calls
    query    := fun q hm => (h.query q hm).spares (fun id hq => hsp <| mem_waiting_of_query hm hq)
      (List.Subset.refl _)
    held     := by
      intro call info hm
      obtain ⟨method, hh⟩ := h.held call info hm
      exact ⟨method, hh.spares (hsp <| mem_waiting_of_held hm) (fun _ _ => rfl) le_rfl⟩
    answer   := fun b hm => (has b hm).spares (hsp <| mem_waiting_of_answer hm)
      (List.Subset.refl _)
    running  := fun b hm => (hsp (mem_waiting_of_running <| List.mem_map_of_mem hm) b.entry <|
      h.running b hm).left
    distinct := hnd
    ledger   := h.ledger.erase hf.callbacks hf.requestId hf.next fun id hm hne =>
      (List.mem_cons.mp <| hp.subset hm).resolve_left hne
    log      := { h.log with
      unfinished := fun id entry' hl' hn => by
        obtain ⟨-, hl'⟩ := StdMap.lookup_erase_eq_some.mp (hf.callbacks ▸ hl')
        exact h.log.unfinished id entry' hl' hn
    }
  }

section Call

variable {method : MethodDescriptor} {input : Option Message} {output : Option Ref}

-- Whether a request can be sent makes no difference to the client.
theorem call_retains : (s.call P service method input output).client.Retains
    (s.call C service method input output).client := by
  have ht {Q : Platform} : (s.client.prepare service method output s.calls).snd.Transfers
      (s.client.proxyCall Q service method input output s.calls).fst := by
    rw [Process.proxyCall_eq]
    exact Process.submit_transfers
  exact {
    callbacks     := ht.callbacks.trans ht.callbacks.symm
    requestId     := ht.requestId.trans ht.requestId.symm
    next          := (ht.next.trans ht.next.symm).le
    responses _ _ := congrFun (ht.responses.trans ht.responses.symm) _
  }

theorem Weathers.call (h : Weathers C S P service s queries answers) (hC : C.Breaks P)
    (hP : P.Inverse) (hp : s.Proper P service (.call method input output)) :
    ∃ q, Weathers C S P service (s.call C service method input output) (queries ++ [q])
      answers := by
  obtain ⟨ha, hd⟩ := h.calls.drains_of_proper
    (a := .call method input output) (hp.of_client rfl rfl rfl rfl rfl)
  obtain ⟨q, hq⟩ := h.calls.call hP.toReliable (fun _ => hP) ha (fun _ => hp.sized) hd.left hd.right
  rw [System.only, System.call_facing hP.toReliable] at hq
  have hx : queries.flatMap Query.items ++ _ = (queries ++ [q]).flatMap Query.items := hq.toServer
  rw [List.flatMap_append, List.flatMap_singleton] at hx
  have hout : (s.client.proxyCall P service method input output s.calls).fst.channel.link.outgoing =
      s.client.channel.link.outgoing ++ q.items := by
    rw [List.append_cancel_left hx, show s.client.channel.link.outgoing = [] from h.calls.client]
    rfl
  have ht : Link.Takes C q.items s.client.channel.link
      (s.client.proxyCall C service method input output s.calls).fst.channel.link :=
    Process.proxyCall_takes hC hP.toReliable hout
  refine ⟨q, ?_, ?_, ?_⟩
  case refine_1 =>
    refine hq.aside call_retains.facing (.of_eq rfl rfl rfl) ?_ rfl ?_ rfl
    case refine_1 => rfl
    case refine_2 => exact hq.toServer.symm
  case refine_2 =>
    rw [List.flatMap_append, List.flatMap_singleton]
    exact h.toServer.send hC ht h.calls.client rfl rfl rfl
  case refine_3 => exact h.toClient.congr rfl ht.receives ht.incoming

end Call

section Serve

theorem serve_of_returned {rc : Bool} (h : (s.server.receive S).snd = .returned rc) :
    s.serve S = some { s with server := (s.server.receive S).fst } := by
  rw [serve]
  split
  case h_1 hr => cases (congrArg Prod.snd hr).symm.trans h
  case h_2 hr => cases (congrArg Prod.snd hr).symm.trans h
  case h_3 hr => rw [hr]

theorem serve_congr (h : s.server.receive P = s.server.receive S) : s.serve P = s.serve S := by
  rw [System.serve, h, System.serve]

theorem server_of_serve (hs : s.serve P = some s') : s'.server = (s.server.receive P).fst := by
  rw [System.serve] at hs
  split at hs
  case h_1 => contradiction
  case h_2 he =>
    cases hs
    rw [he]
  case h_3 he =>
    cases hs
    rw [he]

theorem Weathers.keep {server : Process} (h : Weathers C S P service s queries answers)
    (hk : s.server.Keeps server) (hl : Link.Listens s.server.channel.link server.channel.link)
    (hc : Link.Carries C S (queries.flatMap Query.items) s.client.channel.link
      server.channel.link) :
    Weathers C S P service { s with server } queries answers where
  calls    := h.calls.aside .refl hk.facing rfl rfl rfl hl.outgoing
  toServer := hc
  toClient := h.toClient.congr hl.sends rfl rfl

theorem Weathers.serve (h : Weathers C S P service s queries answers) (hS : S.Breaks P)
    (hP : P.Reliable) (hn : service.ids.Nodup) : ∃ s' queries, s.serve S = some s' ∧
      Weathers C S P service s' queries answers ∧ (s.server.channel.link.incoming ≠ [] →
        (∃ method input, s'.log = s.log ++ [.invoked s.invocations method input]) ∨
          ¬C.sendOk s.client.channel.link.sends ∨ ¬S.receiveOk s'.server.channel.link.receives) := by
  have hl : Link.Listens s.server.channel.link (s.server.receive S).fst.channel.link :=
    Process.receive_listens
  have hk : s.server.Keeps (s.server.receive S).fst := .receive
  by_cases hu : ¬S.receiveOk s.server.channel.link.receives ∨ s.server.channel.link.incoming = []
  case pos =>
    have hs := serve_of_returned <| congrArg Prod.snd <| Process.receive_of_unread hu
    refine ⟨_, _, hs, h.keep hk hl ?_, fun hne => .inr <| .inr fun hr => ?_⟩
    case refine_1 => exact h.toServer.unread hS hl <| Process.incoming_of_unread hu
    case refine_2 => exact hu.elim (· <| hS.receives_of_le hl.receives hr) hne
  case neg =>
    obtain ⟨hrec, hne⟩ := not_or.mp hu
    obtain ⟨hp, -⟩ := h.toServer <| not_not.mp hrec
    rcases queries with _ | ⟨q, queries⟩
    case nil => exact absurd (List.prefix_nil.mp hp) hne
    obtain ⟨d, rfl, hd⟩ := h.calls.claimed
    have hq := h.calls.query q <| List.mem_cons_self ..
    have hr : s.server.manager.resolve q.method.id = some d :=
      hd.resolve <| List.mem_map_of_mem hq.method
    obtain ⟨t, hi, -, he⟩ | hdrop := Process.receive_query_or hS hP hn hq.method hq.formed hr hp
    case inl =>
      obtain ⟨s', -, -, hs, hlog, -, hc, hin, hown⟩ := h.calls.serve_only hP hn hi
      have hs' : s'.server = (s.server.receive S).fst := (server_of_serve hs).trans <| he ▸ rfl
      rw [serve_congr he.symm] at hs
      rw [← hs'] at hl
      refine ⟨s', queries, hs, ⟨hown, ?_, ?_⟩, fun _ => .inl hlog⟩
      case refine_1 =>
        rw [hc]
        exact h.toServer.receive hS hl <| hin.symm ▸ hi
      case refine_2 =>
        rw [hc]
        exact h.toClient.congr hl.sends rfl rfl
    case inr =>
      obtain ⟨rc, hrc⟩ := hdrop.outcome
      refine ⟨_, _, serve_of_returned hrc, h.keep hk hl ?_, fun _ => .inr ?_⟩
      case refine_1 => exact .miss hdrop.link h.toServer hS hl
      case refine_2 => exact h.toServer.broken_of_misses hS hl hdrop.link

end Serve

section Receive

-- The client receives something that no callback is run for.
theorem receive_of_returned {rc : Bool} (h : (s.client.receive C).snd = .returned rc) :
    s.receive C = some { s with client := (s.client.receive C).fst } := by
  rw [receive]
  split
  case h_1 hr => cases (congrArg Prod.snd hr).symm.trans h
  case h_2 hr => cases (congrArg Prod.snd hr).symm.trans h
  case h_3 hr => rw [hr]

theorem receive_congr (h : s.client.receive P = s.client.receive C) :
    s.receive P = s.receive C := by
  rw [System.receive, h, System.receive]

theorem client_of_receive (hs : s.receive P = some s') :
    s'.client = (s.client.receive P).fst := by
  rw [System.receive] at hs
  split at hs
  case h_1 => contradiction
  case h_2 he =>
    cases hs
    rw [he]
  case h_3 he =>
    cases hs
    rw [he]

theorem Weathers.retain {client : Process} (h : Weathers C S P service s queries answers)
    (hr : s.client.Retains client) (hl : Link.Listens s.client.channel.link client.channel.link)
    (hc : Link.Carries S C (answers.flatMap Answer.items) s.server.channel.link
      client.channel.link) :
    Weathers C S P service { s with client } queries answers where
  calls    := h.calls.aside hr.facing (.of_eq rfl rfl rfl) rfl hl.outgoing rfl rfl
  toServer := h.toServer.congr hl.sends rfl rfl
  toClient := hc

theorem Weathers.forget {client : Process} {entry : ResponseCallbackEntry} {r : Ref}
    (h : Weathers C S P service s queries (a :: answers))
    (he : s.client.channel.responseCallbacks.lookup a.id = some entry)
    (hr : entry.response = some r) (hf : s.client.Forgets a.id r client)
    (hl : Link.Listens s.client.channel.link client.channel.link)
    (hc : Link.Carries S C (answers.flatMap Answer.items) s.server.channel.link
      client.channel.link) :
    Weathers C S P service { s with client } queries answers where
  calls    := h.calls.forget he hr hf.facing rfl hl.outgoing
  toServer := h.toServer.congr hl.sends rfl rfl
  toClient := hc

theorem Weathers.receive (h : Weathers C S P service s queries answers) (hC : C.Breaks P)
    (hP : P.Reliable) (hn : service.ids.Nodup) : ∃ s' answers, s.receive C = some s' ∧
      Weathers C S P service s' queries answers ∧ (s.client.channel.link.incoming ≠ [] →
        (∃ call output error, s'.log = s.log ++ [.completed call output error]) ∨
          ¬S.sendOk s.server.channel.link.sends ∨ ¬C.receiveOk s'.client.channel.link.receives) := by
  have hl : Link.Listens s.client.channel.link (s.client.receive C).fst.channel.link :=
    Process.receive_listens
  by_cases hu : ¬C.receiveOk s.client.channel.link.receives ∨ s.client.channel.link.incoming = []
  case pos =>
    have hs := receive_of_returned <| congrArg Prod.snd <| Process.receive_of_unread hu
    have hu' := Process.retains_of_unread hu
    refine ⟨_, _, hs, h.retain hu' hl ?_, fun hne => .inr <| .inr fun hr => ?_⟩
    case refine_1 => exact h.toClient.unread hC hl <| Process.incoming_of_unread hu
    case refine_2 => exact hu.elim (· <| hC.receives_of_le hl.receives hr) hne
  case neg =>
    obtain ⟨hrec, hne⟩ := not_or.mp hu
    obtain ⟨hp, -⟩ := h.toClient <| not_not.mp hrec
    rcases answers with _ | ⟨a, answers⟩
    case nil => exact absurd (List.prefix_nil.mp hp) hne
    have ha := h.calls.answer a <| List.mem_cons_self ..
    obtain ⟨entry, r, hlook, -, hh, hr, ht, -⟩ := ha.awaits
    have hlook : s.client.channel.responseCallbacks.lookup a.id = some entry := hlook
    have ht : (s.client.responses r).type = a.method.outputType := ht
    obtain ⟨t, hi, -, he⟩ | ⟨hdrop, hp'⟩ := Process.receive_answer_or hC hP (hh ▸ hn)
      (hh ▸ ha.method) ha.formed hlook hr ht hp
    case inl =>
      obtain ⟨s', -, -, hs, hlog, -, hserv, hin, hown⟩ := h.calls.receive_only hP hn hi
      have hs' : s'.client = (s.client.receive C).fst := (client_of_receive hs).trans <| he ▸ rfl
      rw [receive_congr he.symm] at hs
      rw [← hs'] at hl
      refine ⟨s', answers, hs, ⟨hown, ?_, ?_⟩, fun _ => .inl hlog⟩
      case refine_1 =>
        rw [hserv]
        exact h.toServer.congr hl.sends rfl rfl
      case refine_2 =>
        rw [hserv]
        exact h.toClient.receive hC hl <| hin.symm ▸ hi
    case inr =>
      obtain ⟨rc, hrc⟩ := hdrop.outcome
      have hs := receive_of_returned hrc
      have hb := h.toClient.broken_of_misses hC hl hdrop.link
      obtain hp' | hp' := hp'
      case inl =>
        have hw := h.retain hp' hl <| .miss hdrop.link h.toClient hC hl
        exact ⟨_, _, hs, hw, fun _ => .inr hb⟩
      case inr =>
        have hw := h.forget hlook hr hp' hl <| .miss hdrop.link h.toClient hC hl
        exact ⟨_, _, hs, hw, fun _ => .inr hb⟩

end Receive

section Reply

variable {call : ℕ} {info : ReplyInfo}

-- Whether a response can be sent makes no difference to the server.
theorem reply_keeps {p : Process} {method : MethodDescriptor}
    (h : service.replying? info.methodId = some method) :
    (p.reply P service info).fst.Keeps (p.reply S service info).fst := by
  have ht {Q : Platform} : p.Transfers (Process.submit Q (p.responses info.response)
      method.outputType (method.responseEnvelope info (p.responses info.response)) p).fst :=
    Process.submit_transfers
  rw [Process.reply_eq h, Process.reply_eq h]
  exact .of_eq (ht.next.trans ht.next.symm) (ht.responses.trans ht.responses.symm) <|
    ht.manager.trans ht.manager.symm

theorem Weathers.answered (h : Weathers C S P service s queries answers) (hS : S.Breaks P)
    (hP : P.Inverse) (ha : Allowed True service s (.reply n)) (hz : s.Sized P (.reply n))
    (hh : s.held[n]? = some (call, .reply info)) (hs : s.reply S service n = some s') :
    ∃ a, Weathers C S P service s' queries (answers ++ [a]) := by
  obtain ⟨method, hheld⟩ := h.calls.held call info <| List.mem_of_getElem? hh
  have hf : (s.only queries answers).reply P service n = _ :=
    reply_facing hP.toReliable hheld.listed hh
  obtain ⟨a, hc⟩ := h.calls.answered hP.toReliable (fun _ => hP) ha (fun _ => hz) hh <|
    hf.trans <| by simp only [reply, hh]; rfl
  have hy : answers.flatMap Answer.items ++ _ = (answers ++ [a]).flatMap Answer.items := hc.toClient
  rw [List.flatMap_append, List.flatMap_singleton] at hy
  have hout : (s.server.reply P service info).fst.channel.link.outgoing =
      s.server.channel.link.outgoing ++ a.items := by
    rw [List.append_cancel_left hy, show s.server.channel.link.outgoing = [] from h.calls.server]
    rfl
  have htakes := Process.reply_takes hS hP.toReliable hheld.listed hout
  simp only [reply, hh, Option.some.injEq] at hs
  subst hs
  refine ⟨a, ?_, ?_, ?_⟩
  case refine_1 =>
    have hk : (s.server.reply P service info).fst.Keeps (s.server.reply S service info).fst :=
      reply_keeps hheld.listed
    refine hc.aside ⟨rfl, rfl, le_rfl, fun _ _ => rfl⟩ ⟨hk.next, hk.types, hk.claimed⟩ ?_ rfl ?_ rfl
    case refine_1 => exact hc.toClient.symm
    case refine_2 => rfl
  case refine_2 => exact h.toServer.congr rfl htakes.receives htakes.incoming
  case refine_3 =>
    rw [List.flatMap_append, List.flatMap_singleton]
    exact h.toClient.send hS htakes h.calls.server rfl rfl rfl

theorem Weathers.reply (h : Weathers C S P service s queries answers) (hS : S.Breaks P)
    (hP : P.Inverse) (ha : Allowed True service s (.reply n)) (hz : s.Sized P (.reply n))
    (hs : s.reply S service n = some s') :
    ∃ answers, Weathers C S P service s' queries answers := by
  rcases hh : s.held[n]? with _ | ⟨call, info | _⟩
  case none => simp [System.reply, hh] at hs
  case some.reply =>
    obtain ⟨a, hw⟩ := h.answered hS hP ha hz hh hs
    exact ⟨_, hw⟩
  case some.doNothing =>
    simp only [System.reply, hh, Option.some.injEq] at hs
    subst hs
    exact ⟨_, h.calls.drop hh, h.toServer, h.toClient⟩

end Reply

theorem Weathers.resume (h : Weathers C S P service s queries answers) (hs : s.resume = some s') :
    Weathers C S P service s' queries answers := by
  have hown := h.calls.resume <| resume_only.trans <| by rw [hs]; rfl
  obtain ⟨a, running, -, -, rfl⟩ := resume_eq_some_iff.mp hs
  exact ⟨hown, h.toServer, h.toClient⟩

theorem Weathers.work {client server : Process} (h : Weathers C S P service s queries answers)
    (hc : Works True s.client client) (hs : Works True s.server server) :
    Weathers C S P service { s with client, server } queries answers where
  calls    := h.calls.work hc.facing hs.facing
  toServer := by
    rw [hc.process, hs.process]
    exact h.toServer
  toClient := by
    rw [hc.process, hs.process]
    exact h.toClient

-- What was in order stays in order, whatever breaks.
theorem Weathers.next {a : Action} (h : Weathers C S P service s queries answers)
    (hC : C.Breaks P) (hS : S.Breaks P) (hP : P.Inverse) (hn : service.ids.Nodup)
    (hp : s.Proper P service a) (hs : s.nextOver C S service a = some s') :
    ∃ queries answers, Weathers C S P service s' queries answers := by
  cases a
  case call =>
    obtain ⟨q, hw⟩ := h.call hC hP hp
    exact ⟨_, _, Option.some.inj hs ▸ hw⟩
  case serve =>
    obtain ⟨s', queries, he, hw, -⟩ := h.serve hS hP.toReliable hn
    cases he.symm.trans hs
    exact ⟨_, _, hw⟩
  case reply =>
    obtain ⟨answers, hw⟩ := h.reply hS hP hp.counted.left hp.sized hs
    exact ⟨_, _, hw⟩
  case receive =>
    obtain ⟨s', answers, he, hw, -⟩ := h.receive hC hP.toReliable hn
    cases he.symm.trans hs
    exact ⟨_, _, hw⟩
  case resume => exact ⟨_, _, h.resume hs⟩
  case work   => exact ⟨_, _, Option.some.inj hs ▸ h.work hp.counted.left.left hp.counted.left.right⟩

theorem Weathers.endures (h : Weathers C S P service s queries answers) (hC : C.Breaks P)
    (hS : S.Breaks P) (hP : P.Reliable) (hn : service.ids.Nodup) : s.Endures C S where
  serve   := by
    obtain ⟨s', _, hs, -, hi⟩ := h.serve hS hP hn
    exact ⟨s', hs, hi⟩
  receive := by
    obtain ⟨s', _, hs, -, hi⟩ := h.receive hC hP hn
    exact ⟨s', hs, hi⟩

end System
end ProtoCall
