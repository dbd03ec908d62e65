import ProtoCall.Examples.Salutation
import ProtoCall.Plugin.Tables
import ProtoCall.Runtime.Peer.Requests

namespace ProtoCall

open RpcGenerator

namespace Process

variable {P : Platform} {p : Process} {d : Dispatcher} {id : ℤ}

-- A request is only dispatched to the dispatcher that the service manager knows for its method.
theorem handleRequest_dispatched {envelope : EnvelopePtr}
    (h : (d, id) ∈ dispatches (p.handleRequest P envelope).fst.trace) :
    (d, id) ∈ dispatches p.trace ∨ p.manager.resolve id = some d := by
  have dispatched {d' : Dispatcher} {number : ℤ} {q : Process}
      (hq : (p.log (.dispatch d' number)).Quiet q) (hr : p.manager.resolve number = some d')
      (hm : (d, id) ∈ dispatches q.trace) :
      (d, id) ∈ dispatches p.trace ∨ p.manager.resolve id = some d := by
    rw [hq.dispatches_eq] at hm
    simp only [log, dispatches, List.filterMap_append, List.mem_append] at hm
    apply hm.imp_right
    intro hm
    obtain ⟨rfl, rfl⟩ := by simpa using hm
    exact hr
  have hh := handleRequest_handles P envelope p
  generalize p.handleRequest P envelope = result at hh h
  cases hh
  case empty                => exact .inl h
  case noMessage            => exact .inl h
  case noDispatcher         => exact .inl h
  case unlisted hr _ ht _ _ => exact dispatched (Quiet.dispatching.trans <| .of_transfers ht) hr h
  case lost hr _ _          =>
    exact dispatched (Quiet.dispatching.trans <| .of_transfers arrived_receives.left) hr h
  case invoked hr _ ha =>
    have hq := Quiet.dispatching.trans <| .of_transfers (ha ▸ arrived_receives).left
    exact dispatched (hq.trans .invocation) hr h

theorem finish_dispatches {a : Activation} :
    dispatches (p.finish a).trace = dispatches p.trace := by
  simp [finish, log, dispatches]

theorem handleResponse_dispatches {envelope : EnvelopePtr} :
    dispatches (p.handleResponse P envelope).fst.trace = dispatches p.trace := by
  have hh := handleResponse_handles P envelope p
  generalize p.handleResponse P envelope = result at hh
  cases hh
  case unlisted  => exact finish_dispatches
  case lost      => exact finish_dispatches.trans Quiet.deliver.dispatches_eq
  case completed => exact (Quiet.deliver.trans <| .log rfl).dispatches_eq
  all_goals rfl

theorem receive_dispatched (h : (d, id) ∈ dispatches (p.receive P).fst.trace) :
    (d, id) ∈ dispatches p.trace ∨ p.manager.resolve id = some d := by
  have ho : dispatches (p.opened P).trace = dispatches p.trace := by
    simp [opened, log, withLink, dispatches]
  rcases hm : (p.channel.link.receiveMessage P).fst with _ | message
  case none =>
    rw [receive_of_none hm] at h
    exact .inl <| by simpa [log, dispatches, opened, withLink] using h
  case some =>
    rw [receive_of_some hm, handleMessage] at h
    split at h
    case isTrue => exact ho ▸ handleRequest_dispatched h
    case isFalse =>
      refine .inl <| ho ▸ ?_
      split at h
      case isTrue  => exact handleResponse_dispatches ▸ h
      case isFalse => exact h

end Process

namespace Peer

variable {P : Platform} {s t : Peer} {a : Action}

-- Nothing has been registered, and nothing has been received.
structure Fresh (s : Peer) : Prop where
  manager : s.process.manager = {}
  trace   : s.process.trace = []
  running : s.running = []
  held    : s.held = []

-- No `switch` runs its `default`: not the one of `dispatch` whatever is received next, and not the
-- one of `reply` whichever closure is run next.
structure DefaultsUnreached (P : Platform) (s : Peer) : Prop where
  dispatch : ∀ d id, (d, id) ∈ dispatches (s.process.receive P).fst.trace →
    id ∈ (generateDispatchMethodBody d.service).labels
  reply    : ∀ c ∈ s.held, ∀ info, c.done = .reply info →
    info.methodId ∈ (generateRelyMethod c.dispatcher.service).labels

-- Dispatchers are known under the ids of their methods, and are called and replied to under these.
structure Listed (s : Peer) : Prop where
  entries : ∀ id d, s.process.manager.resolve id = some d → id ∈ d.service.ids
  calls   : ∀ d id, (d, id) ∈ dispatches s.process.trace → id ∈ d.service.ids
  held    : ∀ c ∈ s.held, ∀ info, c.done = .reply info →
    ∃ m ∈ c.dispatcher.service.replying, m.id = info.methodId

namespace Listed

theorem fresh (h : s.Fresh) : Listed s where
  entries id d hr := by
    rw [h.manager] at hr
    exact nomatch hr
  calls d id hm   := by simp [h.trace, dispatches] at hm
  held c hm       := by simp [h.held] at hm

theorem withProcess {process : Process} (h : Listed s) (hq : s.process.Quiet process) :
    Listed { s with process } where
  entries id d hr := h.entries id d <| hq.resolve ▸ hr
  calls d id hm   := h.calls d id <| hq.dispatches_eq ▸ hm
  held            := h.held

theorem registerService {d : Dispatcher} (h : Listed s) :
    Listed { s with process.manager := s.process.manager.registerService d } where
  calls           := h.calls
  held            := h.held
  entries id d' hr := by
    rw [ServiceManager.resolve, ServiceManager.lookup_registerService] at hr
    rcases hl : s.process.manager.dispatcherMap.lookup id with _ | e <;> rw [hl] at hr
    case some => exact h.entries id d' <| by rw [ServiceManager.resolve, hl]; exact hr
    case none =>
      by_cases hi : id ∈ ServiceDispatcher.implements d
      case neg => simp [hi] at hr
      case pos =>
        obtain rfl : d = d' := by simpa [hi] using hr
        exact hi

theorem receive (h : Listed s) (hn : s.receive P = some t) : Listed t where
  entries id d hr := h.entries id d <| receive_resolve hn ▸ hr
  calls d id hm   := by
    rw [receive_process hn] at hm
    exact (Process.receive_dispatched hm).elim (h.calls d id) (h.entries id d)
  held            := by
    have hc := receive_receives hn
    clear hn
    cases hc
    case returned => exact h.held
    case callback => exact h.held
    case invoked message d method content number process done hm hq ha hs hd =>
      intro c hc info hi
      obtain hc | hc := List.mem_append.mp hc
      case inl => exact h.held c hc info hi
      case inr =>
        obtain rfl := List.mem_singleton.mp hc
        obtain rfl : done = .reply info := hi
        have hv : method.voidOutput = false := by
          by_contra hv
          simp [Process.Closes, hv] at hd
        obtain ⟨out, he⟩ : ∃ out, DoneClosure.reply info = .reply ⟨method.id, _, out⟩ := by
          simpa [Process.Closes, hv] using hd
        obtain rfl := DoneClosure.reply.inj he
        have hm' := ServiceDescriptor.mem_of_method? ha.listed
        exact ⟨method, List.mem_filter.mpr ⟨hm', by simp [hv]⟩, rfl⟩

theorem reply {n : ℕ} (h : Listed s) (hn : s.reply P n = some t) : Listed t := by
  have hr := reply_replies hn
  clear hn
  cases hr
  case nothing => exact { h with held := fun c hm => h.held c <| List.mem_of_mem_eraseIdx hm }
  case replied hq =>
    have h := h.withProcess hq
    refine { entries := h.entries, calls := fun d id hm => h.calls d id ?_, held := ?_ }
    · simpa [Process.log, dispatches] using hm
    · exact fun c hm => h.held c <| List.mem_of_mem_eraseIdx hm
  case unlisted hq =>
    have h := h.withProcess hq
    exact { h with held := fun c hm => h.held c <| List.mem_of_mem_eraseIdx hm }

theorem resume (h : Listed s) (hn : s.resume = some t) : Listed t := by
  obtain ⟨_, _, _, _, rfl⟩ := resume_eq_some_iff.mp hn
  refine { entries := h.entries, calls := fun d id hm => h.calls d id ?_, held := h.held }
  rwa [Process.finish_dispatches] at hm

theorem next (h : Listed s) (ha : Allowed s a) (hn : next P s a = some t) : Listed t := by
  cases a
  case registerService => exact Option.some.inj hn ▸ h.registerService
  case call            => exact Option.some.inj hn ▸ h.withProcess .proxyCall
  case work            => exact Option.some.inj hn ▸ h.withProcess (.of_works ha)
  case receive         => exact h.receive hn
  case resume          => exact h.resume hn
  case reply           => exact h.reply hn

theorem defaultsUnreached (h : Listed s) : DefaultsUnreached P s where
  dispatch d id hm := by
    have hi := (Process.receive_dispatched hm).elim (h.calls d id) (h.entries id d)
    rw [Switch.labels, generateDispatchMethodBody, List.map_map]
    exact hi
  reply c hm info hd := by
    obtain ⟨m, hm, he⟩ := h.held c hm info hd
    rw [labels_reply, ← he]
    exact List.mem_map_of_mem hm

end Listed

theorem tablesAgree_and_defaultsUnreached (service : ServiceDescriptor) (hn : service.ids.Nodup)
    (hv : service.OnlyVoid) : TablesAgree service ∧ ∀ P s,
      Transition.Reachable Fresh Allowed (Peer.next P) s → DefaultsUnreached P s :=
  ⟨tablesAgree service hn hv, fun _ _ h =>
    (h.invariant (fun _ => Listed.fresh) fun _ _ _ => Listed.next).defaultsUnreached⟩

theorem tablesAgree_salutation : TablesAgree Salutation.service ∧ ∀ P s,
    Transition.Reachable Fresh Allowed (Peer.next P) s → DefaultsUnreached P s :=
  tablesAgree_and_defaultsUnreached Salutation.service (by decide +kernel) (by decide +kernel)

end Peer
end ProtoCall
