import ProtoCall.Runtime.Duplex.Frames
import ProtoCall.Runtime.Network.Isolation

-- What a step of the calls in one direction leaves alone, and what it does when the calls in the
-- other direction use the same connection.
namespace ProtoCall

-- What a process keeps for its own calls while it does something for the other end.
structure Process.Retains (p p' : Process) : Prop where
  callbacks : p'.channel.responseCallbacks = p.channel.responseCallbacks
  requestId : p'.channel.currentRequestId = p.channel.currentRequestId
  next      : p.next ≤ p'.next
  responses : ∀ r < p.next, p'.responses r = p.responses r

namespace Process

variable {P : Platform} {p p' : Process} {q : Query} {a : Answer} {d : Dispatcher} {r : Ref}
  {rest incoming incoming' : List Item}

theorem requestId_receive_query (hP : P.Reliable) (hn : d.service.ids.Nodup)
    (hm : q.method ∈ d.service.methods) (hq : q.WellFormed P)
    (hr : p.manager.resolve q.method.id = some d)
    (hi : p.channel.link.incoming = q.items ++ rest) :
    (p.receive P).fst.channel.currentRequestId = p.channel.currentRequestId := by
  have hl := receiveMessage_envelope hP.receiveOk hi
  have ho : (p.opened P).channel.link.incoming = q.payload.map .payload ++ rest :=
    congrArg (·.snd.incoming) hl
  obtain ⟨p₁, request, ha, ht, -⟩ :=
    arrived_query (p := (p.opened P).dispatching d q.method.id) hP hq ho
  rw [receive_query_of_arrived hP.receiveOk hn hm hr hi ha, invocation]
  split <;> exact ht.requestId

theorem incoming_proxyCall {service : ServiceDescriptor} {method : MethodDescriptor}
    {input : Option Message} {output : Option Ref} {done : Closure} (hP : P.Reliable) :
    (p.proxyCall P service method input output done).fst.channel.link.incoming =
      p.channel.link.incoming := by
  simp only [proxyCall_eq, submit_eq hP, withLink, prepare_link]

theorem requestId_reply {service : ServiceDescriptor} {method : MethodDescriptor} {info : ReplyInfo}
    (hm : service.replying? info.methodId = some method) :
    (p.reply P service info).fst.channel.currentRequestId = p.channel.currentRequestId := by
  rw [reply_eq hm]
  exact submit_transfers.requestId

theorem manager_receive_answer {entry : ResponseCallbackEntry} (hP : P.Reliable)
    (hn : entry.handler.service.ids.Nodup) (hm : a.method ∈ entry.handler.service.methods)
    (ha : a.WellFormed P) (hl : p.channel.responseCallbacks.lookup a.id = some entry)
    (he : entry.response = some r) (hr : (p.responses r).type = a.method.outputType)
    (hi : p.channel.link.incoming = a.items ++ rest) : (p.receive P).fst.manager = p.manager := by
  rw [receive_answer_eq hP hn hm ha hl he hr hi]
  exact received_receives.left.manager

theorem facing_of_eq (h : p.channel.link.incoming = incoming) : p.facing incoming = p := by
  rw [← h]
  rfl

namespace Retains

theorem refl : p.Retains p where
  callbacks     := rfl
  requestId     := rfl
  next          := le_rfl
  responses _ _ := rfl

theorem facing (h : p.Retains p') : (p.facing incoming).Retains (p'.facing incoming') where
  callbacks := h.callbacks
  requestId := h.requestId
  next      := h.next
  responses := h.responses

end Retains

theorem Keeps.facing (h : p.Keeps p') : (p.facing incoming).Keeps (p'.facing incoming') where
  next    := h.next
  types   := h.types
  claimed := h.claimed

theorem resume_facing {a : Activation} :
    (p.facing incoming).resume a = (p.resume a).map (·.facing incoming) := by
  by_cases hl : p.channel.responseCallbacks.lookup a.id = some a.entry
  case pos =>
    have hr  : p.resume a = _ := if_pos hl
    have hr' : (p.facing incoming).resume a = _ := if_pos hl
    rw [hr, hr']
    rfl
  case neg =>
    have hr  : p.resume a = _ := if_neg hl
    have hr' : (p.facing incoming).resume a = _ := if_neg hl
    rw [hr, hr']
    rfl

end Process

namespace System

variable {own : Prop} {P : Platform} {service : ServiceDescriptor} {s s' : System}
  {queries : List Query} {answers : List Answer} {toServer toClient : List Item}
  {method : MethodDescriptor} {input : Option Message} {output : Option Ref} {n : ℕ}

-- The same client and server, with something else on its way to either of them.
def facing (s : System) (toServer toClient : List Item) : System :=
  { s with client := s.client.facing toClient, server := s.server.facing toServer }

-- What the calls in the other direction have to know of a step.
structure Passes (s s' : System) : Prop where
  client : s.client.Keeps s'.client
  server : s.server.Retains s'.server

theorem call_facing (hP : P.Reliable) :
    (s.facing toServer toClient).call P service method input output =
      (s.call P service method input output).facing
        (toServer ++ (s.client.proxyCall P service method input output
          s.calls).fst.channel.link.outgoing) toClient := by
  have hf : (s.client.facing toClient).proxyCall P service method input output s.calls = _ :=
    Process.proxyCall_facing hP
  simp only [call, facing, hf]
  rfl

theorem call_passes : s.Passes (s.call P service method input output) where
  client := {
    next        := Process.proxyCall_next
    types r _   := congrArg (fun f : Ref → Message => (f r).type) Process.proxyCall_responses
    claimed d h := by
      have hm : (s.client.proxyCall P service method input output s.calls).fst.manager =
          s.client.manager := by
        rw [Process.proxyCall_eq, Process.submit_transfers.manager, Process.prepare]
        split <;> rfl
      exact hm ▸ h
  }
  server := {
    callbacks     := rfl
    requestId     := rfl
    next          := le_rfl
    responses _ _ := rfl
  }

variable {client server : Process}

-- A step in the other direction, which neither adds nor removes anything here.
theorem Consistent.aside (h : Consistent own P service s queries answers)
    (hc : s.client.Retains client) (hs : s.server.Keeps server)
    (hci : client.channel.link.incoming = s.client.channel.link.incoming)
    (hco : client.channel.link.outgoing = s.client.channel.link.outgoing)
    (hsi : server.channel.link.incoming = s.server.channel.link.incoming)
    (hso : server.channel.link.outgoing = s.server.channel.link.outgoing) :
    Consistent own P service { s with client, server } queries answers := by
  have hsp (id : UInt64) : Spares own s.client client id := by
    refine fun entry hl => ⟨hc.callbacks ▸ hl, fun r hr => ?_⟩
    have he := hc.responses r <| h.ledger.outputs id entry r hl hr
    exact ⟨he ▸ rfl, fun _ => he⟩
  have h' := h.withClient hci hco hc.callbacks hc.requestId hc.next hsp
  exact (h'.besides ⟨hs.next, hs.types, hs.claimed⟩).withServer hsi hso rfl le_rfl fun _ _ => rfl

namespace Works

variable {p p' : Process} {incoming : List Item}

theorem refl : Works own p p where
  process         := rfl
  next            := le_rfl
  types _ _       := rfl
  waiting _ _ _ _ := fun _ _ => rfl

theorem facing (h : Works own p p') : Works own (p.facing incoming) (p'.facing incoming) where
  process := by
    rw [h.process]
    rfl
  next    := h.next
  types   := h.types
  waiting := h.waiting

end Works

-- Of all that is on its way, the requests and the responses of these calls.
def only (s : System) (queries : List Query) (answers : List Answer) : System :=
  s.facing (queries.flatMap Query.items) (answers.flatMap Answer.items)

theorem resume_only {queries : List Query} {answers : List Answer} :
    (s.only queries answers).resume = s.resume.map (·.only queries answers) := by
  simp only [System.resume, only, facing]
  rcases s.running with _ | ⟨a, running⟩
  case nil  => rfl
  case cons =>
    simp only [Process.resume_facing, Option.map_map]
    rfl

theorem Resumes.of_only {queries : List Query} {answers : List Answer}
    (h : (s.only queries answers).Resumes) : s.Resumes := fun hr => by
  simpa [resume_only] using h hr

theorem serve_facing {rest : List Item} (h : (s.server.facing toServer).receive P =
      ((s.server.receive P).fst.facing rest, (s.server.receive P).snd)) :
    (s.facing toServer toClient).serve P = (s.serve P).map (·.facing rest toClient) := by
  simp only [serve, facing, h]
  rcases s.server.receive P with ⟨_, _ | _ | _ | _⟩ <;> rfl

theorem receive_facing {t : List Item} (h : (s.client.facing toClient).receive P =
      ((s.client.receive P).fst.facing t, (s.client.receive P).snd)) :
    (s.facing toServer toClient).receive P = (s.receive P).map (·.facing toServer t) := by
  simp only [receive, facing, h]
  rcases s.client.receive P with ⟨_, _ | _ | _ | _⟩ <;> rfl

section Serve

variable {q : Query} {rest : List Item}

-- The server gets to a request of this client's.
theorem Consistent.serve_only (h : Consistent own P service (s.only (q :: queries) answers)
    (q :: queries) answers) (hP : P.Reliable) (hn : service.ids.Nodup)
    (hi : s.server.channel.link.incoming = q.items ++ rest) :
    ∃ s' invocation, (s.server.receive P).snd = .invoked invocation ∧ s.serve P = some s' ∧
      (∃ method input, s'.log = s.log ++ [.invoked s.invocations method input]) ∧ s.Passes s' ∧
      s'.client = s.client ∧ s'.server.channel.link.incoming = rest ∧
      Consistent own P service (s'.only queries answers) queries answers := by
  obtain ⟨d, rfl, hd⟩ := h.claimed
  have hq := h.query q <| List.mem_cons_self ..
  have hr : s.server.manager.resolve q.method.id = some d :=
    hd.resolve <| List.mem_map_of_mem hq.method
  obtain ⟨p', invocation, he, hinv⟩ := Process.receive_query hP hn hq.method hq.formed hr hi
  have hf := Process.receive_query_facing (t := queries.flatMap Query.items) hP hn hq.method
    hq.formed hr hi
  have hid := Process.requestId_receive_query hP hn hq.method hq.formed hr hi
  have hs : s.serve P = some { s with
      server      := p'
      held        := s.held ++ [(s.invocations, invocation.done)]
      invocations := s.invocations + 1
      log         := s.log ++
        [.invoked s.invocations invocation.method (invocation.input.map (·.value p'.heap))]
    } := by
    simp only [serve, he]
  refine ⟨_, invocation, congrArg Prod.snd he, hs, ⟨_, _, rfl⟩, ⟨?_, ?_⟩, rfl,
    hinv.incoming, ?_⟩
  case refine_1 => exact .of_eq rfl rfl rfl
  case refine_2 =>
    exact {
      callbacks := hinv.callbacks
      requestId := (congrArg (·.fst.channel.currentRequestId) he).symm.trans hid
      next      := hinv.next.le
      responses := hinv.responses
    }
  case refine_3 => exact h.serve_cons hP hn <| (serve_facing hf).trans <| by rw [hs]; rfl

end Serve

section Receive

variable {a : Answer} {rest : List Item}

theorem Consistent.receive_only_nil (h : Consistent own P service (s.only queries []) queries [])
    (hi : s.client.channel.link.incoming = []) :
    ∃ s', (s.client.receive P).snd = .returned false ∧ s.receive P = some s' ∧ s.Passes s' ∧
      s'.server = s.server ∧ s'.client.channel.link.incoming = [] ∧
      Consistent own P service (s'.only queries []) queries [] := by
  have hl := Process.receiveMessage_nil (P := P) hi
  have he := Process.receive_of_none (congrArg Prod.fst hl)
  have hin : (s.client.opened P).channel.link.incoming = [] :=
    (congrArg (·.snd.incoming) hl).trans hi
  have hs : s.receive P =
      some { s with client := (s.client.opened P).log (.deleteEnvelope s.client.next) } := by
    simp only [receive, he]
  refine ⟨_, congrArg Prod.snd he, hs, ⟨?_, .refl⟩, rfl, hin, ?_⟩
  case refine_1 =>
    exact { next := Nat.le_succ _, types := fun _ _ => rfl, claimed := fun _ hd => hd }
  case refine_2 =>
    refine h.receive_nil <| (receive_facing (t := []) ?_).trans <| by rw [hs]; rfl
    rw [List.flatMap_nil, Process.facing_of_eq hi, he]
    exact congrArg (fun p : Process => (p.log _, _)) (Process.facing_of_eq hin).symm

theorem Consistent.receive_only (h : Consistent own P service (s.only queries (a :: answers))
    queries (a :: answers)) (hP : P.Reliable) (hn : service.ids.Nodup)
    (hi : s.client.channel.link.incoming = a.items ++ rest) :
    ∃ s' activation, (s.client.receive P).snd = .callback activation ∧ s.receive P = some s' ∧
      (∃ call output error, s'.log = s.log ++ [.completed call output error]) ∧ s.Passes s' ∧
      s'.server = s.server ∧ s'.client.channel.link.incoming = rest ∧
      Consistent own P service (s'.only queries answers) queries answers := by
  have ha := h.answer a <| List.mem_cons_self ..
  obtain ⟨entry, r, hl, hd, hh, hr, ht, -⟩ := ha.awaits
  have hl : s.client.channel.responseCallbacks.lookup a.id = some entry := hl
  have ht : (s.client.responses r).type = a.method.outputType := ht
  have hn' : entry.handler.service.ids.Nodup := hh ▸ hn
  have hm : a.method ∈ entry.handler.service.methods := hh ▸ ha.method
  obtain ⟨p', he, hans⟩ := Process.receive_answer hP hn' hm ha.formed hl hr ht hi
  have hf := Process.receive_answer_facing (t := answers.flatMap Answer.items) hP hn' hm
    ha.formed hl hr ht hi
  have hmgr := Process.manager_receive_answer hP hn' hm ha.formed hl hr ht hi
  have hs : s.receive P = some { s with
      client  := p'
      running := ⟨a.id, entry, ⟨s.client.next, a.envelope⟩⟩ :: s.running
      log     := s.log ++ [.completed entry.done ((p'.responses r).value p'.heap)
        (p'.responses r).error]
    } := by
    simp only [receive, he, hr, Option.elim_some]
  refine ⟨_, _, congrArg Prod.snd he, hs, ⟨_, _, _, rfl⟩, ⟨?_, .refl⟩, rfl, hans.incoming, ?_⟩
  case refine_1 =>
    exact {
      next        := hans.next.le
      types r _   := hans.types r
      claimed _ h := (congrArg (·.fst.manager) he).symm.trans hmgr ▸ h
    }
  case refine_2 => exact h.receive_cons hP hn <| (receive_facing hf).trans <| by rw [hs]; rfl

end Receive

section Reply

variable {call : ℕ} {info : ReplyInfo}

theorem reply_facing (hP : P.Reliable) (hm : service.replying? info.methodId = some method)
    (hh : s.held[n]? = some (call, .reply info)) :
    (s.facing toServer toClient).reply P service n = (s.reply P service n).map (·.facing toServer <|
      toClient ++ (s.server.reply P service info).fst.channel.link.outgoing) := by
  have hf : (s.server.facing toServer).reply P service info = _ := Process.reply_facing hP hm
  simp only [reply, facing, hh, hf]
  rfl

-- The service runs a closure for one of these calls.
theorem Consistent.reply_only (h : Consistent own P service (s.only queries answers) queries answers)
    (hP : P.Reliable) (hI : own → P.Inverse) (ha : Allowed own service s (.reply n))
    (hz : own → s.Sized P (.reply n)) (hh : s.held[n]? = some (call, .reply info))
    (hs : s.reply P service n = some s') :
    ∃ a : Answer, s.Passes s' ∧ s'.server.channel.link.incoming = s.server.channel.link.incoming ∧
      s'.client.channel.link.incoming = s.client.channel.link.incoming ++ a.items ∧
      Consistent own P service (s'.only queries (answers ++ [a])) queries (answers ++ [a]) := by
  obtain ⟨method, hheld⟩ := h.held call info <| List.mem_of_getElem? hh
  have hfull := ha call info hh
  have ht : (s.server.responses info.response).type = method.outputType := hheld.type
  rw [ht] at hfull
  obtain ⟨_, -, hr⟩ := Process.reply_replies (p := s.server) call hP hheld.listed ⟨ht, hfull⟩
  have hf : (s.only queries answers).reply P service n = _ := reply_facing hP hheld.listed hh
  obtain ⟨a, hc⟩ := h.answered hP hI ha hz hh <| hf.trans <| by rw [hs]; rfl
  have hy : answers.flatMap Answer.items ++ _ = (answers ++ [a]).flatMap Answer.items := hc.toClient
  simp only [reply, hh, Option.some.injEq] at hs
  subst hs
  refine ⟨a, ⟨.of_eq rfl rfl rfl, ?_⟩, hr.incoming, ?_, ?_⟩
  case refine_1 =>
    exact {
      callbacks     := hr.callbacks
      requestId     := Process.requestId_reply hheld.listed
      next          := hr.next.ge
      responses _ _ := congrFun hr.responses _
    }
  case refine_2 =>
    rw [List.flatMap_append, List.flatMap_singleton] at hy
    exact congrArg (s.client.channel.link.incoming ++ ·) <| List.append_cancel_left hy
  case refine_3 =>
    rw [hy] at hc
    exact hc

end Reply

end System

end ProtoCall
