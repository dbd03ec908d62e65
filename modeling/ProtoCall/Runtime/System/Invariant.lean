import ProtoCall.Runtime.System.Ledger

namespace ProtoCall

def Query.input (q : Query) : Option Value :=
  if q.method.voidInput then none else some ⟨q.content, q.objects.map some⟩

def Answer.output (a : Answer) : Value where
  content := a.content
  objects := a.objects.map some

-- What has to have happened before.
def Note.Justified (pre : List Note) : Note → Prop
  | called call _ _               => ∀ method input, called call method input ∉ pre
  | invoked call method input     => called call method input ∈ pre ∧
    ∀ method' input', invoked call method' input' ∉ pre
  | replied _ _ _                 => True
  | completed call output error   => replied call output error ∈ pre ∧
    ∀ output' error', completed call output' error' ∉ pre

def Correlates (log : List Note) : Prop :=
  ∀ pre note post, log = pre ++ note :: post → note.Justified pre

theorem Correlates.nil : Correlates [] :=
  fun _ _ _ h => by simp at h

theorem Correlates.concat {log : List Note} {note : Note} (h : Correlates log)
    (hn : note.Justified log) : Correlates (log ++ [note]) := by
  intro pre note' post he
  obtain rfl | ⟨post, last, rfl⟩ := List.eq_nil_or_concat post
  case inl =>
    obtain ⟨rfl, hl⟩ := List.append_inj' he rfl
    exact List.singleton_injective hl ▸ hn
  case inr =>
    rw [List.concat_eq_append, ← List.cons_append, ← List.append_assoc] at he
    exact h pre note' post (List.append_inj' he rfl).left

namespace System

variable {own : Prop} {P : Platform} {service : ServiceDescriptor} {s s' : System}
  {queries : List Query} {answers : List Answer}

def heldId : ℕ × DoneClosure → Option UInt64
  | (_, .reply info) => some info.requestMessageEnvelope.request.idValue.toUInt64
  | (_, .doNothing)  => none

-- The ids that the client waits under, by where their calls have got to.
def waiting (s : System) (queries : List Query) (answers : List Answer) : List UInt64 :=
  queries.filterMap (·.id) ++ s.held.filterMap heldId ++ answers.map (·.id) ++ s.running.map (·.id)

-- Requests and responses on their way, and closures that have not been run, belong to calls that
-- the client is waiting for.
structure QueryOk (own : Prop) (P : Platform) (service : ServiceDescriptor) (client : Process)
    (log : List Note) (q : Query) : Prop where
  method : q.method ∈ service.methods
  formed : q.WellFormed P
  intact : own → q.Intact P
  void   : q.id = none ↔ q.method.voidOutput
  awaits : ∀ id, q.id = some id → Awaits own service client q.method id q.call
  logged : .called q.call q.method q.input ∈ log

structure HeldOk (own : Prop) (service : ServiceDescriptor) (client server : Process) (call : ℕ)
    (info : ReplyInfo) (method : MethodDescriptor) : Prop where
  listed : service.replying? info.methodId = some method
  object : info.response < server.next
  type   : (server.responses info.response).type = method.outputType
  awaits : Awaits own service client method info.requestMessageEnvelope.request.idValue.toUInt64 call

structure AnswerOk (own : Prop) (P : Platform) (service : ServiceDescriptor) (client : Process)
    (log : List Note) (a : Answer) : Prop where
  method : a.method ∈ service.methods
  formed : a.WellFormed P
  intact : own → a.Intact P
  awaits : Awaits own service client a.method a.id a.call
  logged : .replied a.call a.output a.error ∈ log

-- The log goes with the counters, and a pending call has not been completed unless its callback is
-- running.
structure LogOk (own : Prop) (client : Process) (running : List Activation)
    (calls invocations : ℕ) (log : List Note) : Prop where
  called     : ∀ call method input, .called call method input ∈ log → call < calls
  invoked    : ∀ call method input, .invoked call method input ∈ log → call < invocations
  completed  : ∀ call output error, .completed call output error ∈ log → call < calls
  unfinished : ∀ id entry, client.channel.responseCallbacks.lookup id = some entry →
    id ∉ running.map (·.id) → ∀ output error, .completed entry.done output error ∉ log
  correlates : own → Correlates log

-- With `own`, all that is known of the calls' response objects, and that the log is correct.
structure Consistent (own : Prop) (P : Platform) (service : ServiceDescriptor) (s : System)
    (queries : List Query) (answers : List Answer) : Prop where
  toServer : s.server.channel.link.incoming = queries.flatMap Query.items
  toClient : s.client.channel.link.incoming = answers.flatMap Answer.items
  client   : s.client.channel.link.outgoing = []
  server   : s.server.channel.link.outgoing = []
  claimed  : ∃ d, d.service = service ∧ s.server.manager.Claimed d
  numbers  : queries.map (·.call) = List.range' s.invocations queries.length
  calls    : s.invocations + queries.length = s.calls
  query    : ∀ q ∈ queries, QueryOk own P service s.client s.log q
  held     : ∀ call info, (call, .reply info) ∈ s.held →
    ∃ method, HeldOk own service s.client s.server call info method
  answer   : ∀ a ∈ answers, AnswerOk own P service s.client s.log a
  running  : ∀ a ∈ s.running, s.client.channel.responseCallbacks.lookup a.id = some a.entry
  distinct : (s.waiting queries answers).Nodup
  ledger   : Ledger own s.client s.calls (s.waiting queries answers)
  log      : LogOk own s.client s.running s.calls s.invocations s.log

namespace LogOk

variable {client client' : Process} {running : List Activation} {calls invocations : ℕ}
  {log : List Note} {method : MethodDescriptor} {input : Option Value} {a : Activation}

theorem call (h : LogOk own client running calls invocations log)
    (hc : ∀ id entry, client'.channel.responseCallbacks.lookup id = some entry →
      client.channel.responseCallbacks.lookup id = some entry ∨ entry.done = calls) :
    LogOk own client' running (calls + 1) invocations (log ++ [.called calls method input]) where
  called call m i hm     := by
    obtain hm | hm := List.mem_append.mp hm
    case inl => exact Nat.lt_succ_of_lt <| h.called call m i hm
    case inr =>
      obtain ⟨rfl, _, _⟩ := Note.called.inj <| List.mem_singleton.mp hm
      exact Nat.lt_succ_self _
  invoked call m i hm    := h.invoked call m i <| by simpa using hm
  completed call o e hm  := Nat.lt_succ_of_lt <| h.completed call o e <| by simpa using hm
  unfinished id entry hl hn o e hm := by
    have hm : .completed entry.done o e ∈ log := by simpa using hm
    obtain hl | hd := hc id entry hl
    case inl => exact h.unfinished id entry hl hn o e hm
    case inr => exact (h.completed _ o e hm).ne hd
  correlates ho          := (h.correlates ho).concat fun m i hm => (h.called _ m i hm).ne rfl

theorem invoke (h : LogOk own client running calls invocations log)
    (hc : own → .called invocations method input ∈ log) :
    LogOk own client running calls (invocations + 1)
      (log ++ [.invoked invocations method input]) where
  called call m i hm     := h.called call m i <| by simpa using hm
  invoked call m i hm    := by
    obtain hm | hm := List.mem_append.mp hm
    case inl => exact Nat.lt_succ_of_lt <| h.invoked call m i hm
    case inr =>
      obtain ⟨rfl, _, _⟩ := Note.invoked.inj <| List.mem_singleton.mp hm
      exact Nat.lt_succ_self _
  completed call o e hm  := h.completed call o e <| by simpa using hm
  unfinished id entry hl hn o e hm := h.unfinished id entry hl hn o e <| by simpa using hm
  correlates ho          := (h.correlates ho).concat
    ⟨hc ho, fun m i hm => (h.invoked _ m i hm).ne rfl⟩

theorem reply {call : ℕ} {output : Value} {error : ErrorHolder}
    (h : LogOk own client running calls invocations log)
    (hc : client'.channel.responseCallbacks = client.channel.responseCallbacks) :
    LogOk own client' running calls invocations (log ++ [.replied call output error]) where
  called call m i hm     := h.called call m i <| by simpa using hm
  invoked call m i hm    := h.invoked call m i <| by simpa using hm
  completed call o e hm  := h.completed call o e <| by simpa using hm
  unfinished id entry hl hn o e hm :=
    h.unfinished id entry (hc ▸ hl) hn o e <| by simpa using hm
  correlates ho          := (h.correlates ho).concat trivial

-- The callback of a call that has not been completed is started.
theorem complete {output : Value} {error : ErrorHolder}
    (h : LogOk own client running calls invocations log)
    (hl : client.channel.responseCallbacks.lookup a.id = some a.entry)
    (hn : a.id ∉ running.map (·.id)) (hb : a.entry.done < calls)
    (hd : ∀ id entry, client.channel.responseCallbacks.lookup id = some entry →
      a.entry.done = entry.done → a.id = id)
    (hr : own → .replied a.entry.done output error ∈ log)
    (hc : client'.channel.responseCallbacks = client.channel.responseCallbacks) :
    LogOk own client' (a :: running) calls invocations
      (log ++ [.completed a.entry.done output error]) where
  called call m i hm     := h.called call m i <| by simpa using hm
  invoked call m i hm    := h.invoked call m i <| by simpa using hm
  completed call o e hm  := by
    obtain hm | hm := List.mem_append.mp hm
    case inl => exact h.completed call o e hm
    case inr =>
      obtain ⟨rfl, _, _⟩ := Note.completed.inj <| List.mem_singleton.mp hm
      exact hb
  unfinished id entry hl' hn' o e hm := by
    obtain ⟨ha, hn'⟩ := not_or.mp <| mt List.mem_cons.mpr hn'
    obtain hm | hm := List.mem_append.mp hm
    case inl => exact h.unfinished id entry (hc ▸ hl') hn' o e hm
    case inr =>
      have he := (Note.completed.inj <| List.mem_singleton.mp hm).left
      exact ha (hd id entry (hc ▸ hl') he.symm).symm
  correlates ho          := (h.correlates ho).concat ⟨hr ho, h.unfinished a.id a.entry hl hn⟩

theorem resume (h : LogOk own client (a :: running) calls invocations log)
    (hc : client'.channel.responseCallbacks = client.channel.responseCallbacks.erase a.id) :
    LogOk own client' running calls invocations log where
  called     := h.called
  invoked    := h.invoked
  completed  := h.completed
  correlates := h.correlates
  unfinished id entry hl hn := by
    obtain ⟨he, hl⟩ := StdMap.lookup_erase_eq_some.mp (hc ▸ hl)
    exact h.unfinished id entry hl fun hm => (List.mem_cons.mp hm).elim he hn

end LogOk

section Spares

variable {client client' server server' : Process} {log log' : List Note}

theorem QueryOk.spares {q : Query} (h : QueryOk own P service client log q)
    (hs : ∀ id, q.id = some id → Spares own client client' id) (hl : log ⊆ log') :
    QueryOk own P service client' log' q where
  method       := h.method
  formed       := h.formed
  intact       := h.intact
  void         := h.void
  awaits id he := (h.awaits id he).spares <| hs id he
  logged       := hl h.logged

theorem HeldOk.spares {call : ℕ} {info : ReplyInfo} {method : MethodDescriptor}
    (h : HeldOk own service client server call info method)
    (hs : Spares own client client' info.requestMessageEnvelope.request.idValue.toUInt64)
    (hr : ∀ r < server.next, (server'.responses r).type = (server.responses r).type)
    (hn : server.next ≤ server'.next) : HeldOk own service client' server' call info method where
  listed := h.listed
  object := h.object.trans_le hn
  type   := (hr _ h.object).trans h.type
  awaits := h.awaits.spares hs

theorem AnswerOk.spares {a : Answer} (h : AnswerOk own P service client log a)
    (hs : Spares own client client' a.id) (hl : log ⊆ log') :
    AnswerOk own P service client' log' a where
  method := h.method
  formed := h.formed
  intact := h.intact
  awaits := h.awaits.spares hs
  logged := hl h.logged

end Spares

section Waiting

variable {id : UInt64}

theorem mem_waiting_of_query {q : Query} (hm : q ∈ queries) (hq : q.id = some id) :
    id ∈ s.waiting queries answers :=
  List.mem_append_left _ <| List.mem_append_left _ <| List.mem_append_left _ <|
    List.mem_filterMap.mpr ⟨q, hm, hq⟩

theorem mem_waiting_of_held {call : ℕ} {info : ReplyInfo} (hm : (call, .reply info) ∈ s.held) :
    info.requestMessageEnvelope.request.idValue.toUInt64 ∈ s.waiting queries answers :=
  List.mem_append_left _ <| List.mem_append_left _ <| List.mem_append_right _ <|
    List.mem_filterMap.mpr ⟨_, hm, rfl⟩

theorem mem_waiting_of_answer {a : Answer} (hm : a ∈ answers) :
    a.id ∈ s.waiting queries answers :=
  List.mem_append_left _ <| List.mem_append_right _ <| List.mem_map_of_mem hm

theorem mem_waiting_of_running (hm : id ∈ s.running.map (·.id)) :
    id ∈ s.waiting queries answers :=
  List.mem_append_right _ hm

end Waiting

namespace Consistent

-- The client waits under each of the ids.
theorem lookup_isSome {id : UInt64} (h : Consistent own P service s queries answers)
    (hi : id ∈ s.waiting queries answers) :
    (s.client.channel.responseCallbacks.lookup id).isSome := by
  have hs {method : MethodDescriptor} {call : ℕ} (h : Awaits own service s.client method id call) :
      (s.client.channel.responseCallbacks.lookup id).isSome := by
    obtain ⟨entry, _, hl, _⟩ := h
    exact Option.isSome_iff_exists.mpr ⟨entry, hl⟩
  simp only [waiting, List.mem_append, List.mem_filterMap, List.mem_map] at hi
  obtain ((⟨q, hm, hq⟩ | ⟨⟨call, done⟩, hm, hd⟩) | ⟨a, hm, rfl⟩) | ⟨a, hm, rfl⟩ := hi
  case inl.inl.inl => exact hs <| (h.query q hm).awaits id hq
  case inl.inl.inr =>
    cases done
    case doNothing => contradiction
    case reply info =>
      obtain rfl := Option.some.inj hd
      obtain ⟨_, hh⟩ := h.held call info hm
      exact hs hh.awaits
  case inl.inr => exact hs (h.answer a hm).awaits
  case inr     => exact Option.isSome_iff_exists.mpr ⟨_, h.running a hm⟩

theorem withClient {client : Process} (h : Consistent own P service s queries answers)
    (hi : client.channel.link.incoming = s.client.channel.link.incoming)
    (ho : client.channel.link.outgoing = s.client.channel.link.outgoing)
    (hc : client.channel.responseCallbacks = s.client.channel.responseCallbacks)
    (hq : client.channel.currentRequestId = s.client.channel.currentRequestId)
    (hn : s.client.next ≤ client.next)
    (hs : ∀ id, Spares own s.client client id) :
    Consistent own P service { s with client } queries answers where
  toServer          := h.toServer
  toClient          := hi.trans h.toClient
  client            := ho.trans h.client
  server            := h.server
  claimed           := h.claimed
  numbers           := h.numbers
  calls             := h.calls
  query q hm        := (h.query q hm).spares (fun id _ => hs id) (List.Subset.refl _)
  answer a hm       := (h.answer a hm).spares (hs _) (List.Subset.refl _)
  running a hm      := (hs a.id a.entry <| h.running a hm).left
  distinct          := h.distinct
  ledger            := h.ledger.mono hc hq hn le_rfl (List.Subset.refl _)
  log               := { h.log with unfinished := hc ▸ h.log.unfinished }
  held call info hm := by
    obtain ⟨method, hh⟩ := h.held call info hm
    exact ⟨method, hh.spares (hs _) (fun _ _ => rfl) le_rfl⟩

theorem withServer {server : Process} (h : Consistent own P service s queries answers)
    (hi : server.channel.link.incoming = s.server.channel.link.incoming)
    (ho : server.channel.link.outgoing = s.server.channel.link.outgoing)
    (hm : server.manager = s.server.manager) (hn : s.server.next ≤ server.next)
    (hr : ∀ r < s.server.next, (server.responses r).type = (s.server.responses r).type) :
    Consistent own P service { s with server } queries answers where
  toServer          := hi.trans h.toServer
  toClient          := h.toClient
  client            := h.client
  server            := ho.trans h.server
  claimed           := hm ▸ h.claimed
  numbers           := h.numbers
  calls             := h.calls
  query             := h.query
  answer            := h.answer
  running           := h.running
  distinct          := h.distinct
  ledger            := h.ledger
  log               := h.log
  held call info hm := by
    obtain ⟨method, hh⟩ := h.held call info hm
    exact ⟨method, hh.spares (.of_eq rfl rfl) hr hn⟩

end Consistent

end System
end ProtoCall
