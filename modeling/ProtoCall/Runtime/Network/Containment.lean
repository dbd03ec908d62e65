import ProtoCall.Runtime.Network.Isolation
import ProtoCall.Runtime.Peer.Basic

namespace ProtoCall

open Transition

namespace Process

variable {P : Platform} {p p' q : Process} {envelope : EnvelopePtr} {d : Dispatcher}

namespace Keeps

theorem trans (h : p.Keeps p') (h' : p'.Keeps q) : p.Keeps q where
  next        := h.next.trans h'.next
  types r hr  := (h'.types r <| hr.trans_le h.next).trans <| h.types r hr
  claimed d c := h'.claimed d <| h.claimed d c

theorem refl : p.Keeps p := .of_eq rfl rfl rfl

theorem of_transfers (h : p.Transfers p') : p.Keeps p' := .of_eq h.next h.responses h.manager

theorem lookup {id : ℤ} :
    p.Keeps { p with manager := (p.manager.lookupServiceDispatcher id).snd } where
  next        := Nat.le_refl _
  types _ _   := rfl
  claimed _ c := c.lookup

theorem register : p.Keeps { p with manager := p.manager.registerService d } where
  next        := Nat.le_refl _
  types _ _   := rfl
  claimed _ c := c.registerService

theorem proxyCall {service : ServiceDescriptor} {method : MethodDescriptor}
    {input : Option Message} {output : Option Ref} {done : Closure} :
    p.Keeps (p.proxyCall P service method input output done).fst where
  next        := proxyCall_next
  types _ _   := congrArg Content.type <| congrArg Message.toContent <| congrFun proxyCall_responses _
  claimed _ c := by
    rw [proxyCall_eq, submit_transfers.manager, prepare]
    split <;> exact c

theorem invocation {method : MethodDescriptor} {request : Message} :
    p.Keeps (p.invocation method envelope request).fst := by
  rw [Process.invocation]
  split
  case isTrue  => exact refl
  case isFalse =>
    exact {
      next        := Nat.le_succ _
      types r hr  := by simp only [Function.update_of_ne hr.ne]
      claimed _ c := c
    }

-- A response is copied into an object of its own type only.
theorem deliver {method : MethodDescriptor} {content : Content} {error : ErrorHolder} {r : Ref}
    (h : (p.responses r).type = content.type) : p.Keeps (p.deliver P method content error r) where
  next        := received_receives.left.next.ge
  types r' _  := by
    by_cases he : r' = r
    case pos => rw [he, deliver_responses_self, h]
    case neg => rw [deliver_responses_of_ne he]
  claimed d c := by
    have hm : (p.deliver P method content error r).manager = p.manager :=
      received_receives.left.manager
    exact hm ▸ c

theorem dispatching {number : ℤ} : p.Keeps (p.dispatching d number) :=
  lookup.trans <| .of_eq rfl rfl rfl

theorem handleRequest : p.Keeps (p.handleRequest P envelope).fst := by
  have h := handleRequest_handles P envelope p
  generalize p.handleRequest P envelope = result at h
  cases h
  case empty            => exact .of_eq rfl rfl rfl
  case noMessage        => exact lookup
  case noDispatcher     => exact lookup.trans <| .of_eq rfl rfl rfl
  case unlisted ht _ _  => exact dispatching.trans <| of_transfers ht
  case lost             => exact dispatching.trans <| of_transfers arrived_receives.left
  case invoked _ _ _ ha =>
    have ht := of_transfers (ha ▸ arrived_receives).left
    exact dispatching.trans <| ht.trans invocation

theorem handleResponse : p.Keeps (p.handleResponse P envelope).fst := by
  have h := handleResponse_handles P envelope p
  generalize p.handleResponse P envelope = result at h
  cases h
  case lost ht _      => exact (deliver ht).trans <| .of_eq rfl rfl rfl
  case completed ht _ => exact (deliver ht).trans <| .of_eq rfl rfl rfl
  all_goals exact .of_eq rfl rfl rfl

-- Whatever it is that is received.
theorem receive : p.Keeps (p.receive P).fst := by
  have ho : p.Keeps (p.opened P) := {
    next        := Nat.le_succ _
    types _ _   := rfl
    claimed _ c := c
  }
  rcases h : (p.channel.link.receiveMessage P).fst with _ | message
  case none =>
    rw [receive_of_none h]
    exact ho.trans <| .of_eq rfl rfl rfl
  case some =>
    rw [receive_of_some h, handleMessage]
    split
    case isTrue => exact ho.trans handleRequest
    case isFalse =>
      split
      case isTrue  => exact ho.trans handleResponse
      case isFalse => exact ho.trans <| .of_eq rfl rfl rfl

theorem reply {service : ServiceDescriptor} {info : ReplyInfo} :
    p.Keeps (p.reply P service info).fst := by
  rcases h : service.replying? info.methodId with _ | method
  case none =>
    simp only [Process.reply, RpcGenerator.select_reply_of_none h]
    simp only [RpcGenerator.generateRelyMethod, Stmt.exec, ↓reduceIte]
    split
    case isTrue  => exact of_transfers .setErrorString
    case isFalse => exact .of_eq rfl rfl rfl
  case some =>
    rw [reply_eq h]
    exact (of_transfers submit_transfers).trans <| .of_eq rfl rfl rfl

end Keeps
end Process

-- The types of messages do not change, whatever an application does with them.
def Peer.Admits (s : Peer) : Action → Prop
  | .work p => Works s.process p ∧
    ∀ r < s.process.next, (p.responses r).type = (s.process.responses r).type
  | _       => True

theorem Peer.keeps_of_next {P : Platform} {s t : Peer} {a : Action} (ha : s.Admits a)
    (hs : s.next P a = some t) : s.process.Keeps t.process := by
  cases a <;> simp only [Peer.next] at hs
  case registerService => exact Option.some.inj hs ▸ .register
  case call            => exact Option.some.inj hs ▸ .proxyCall
  case work            =>
    cases hs
    exact {
      next        := ha.left.next
      types       := ha.right
      claimed _ c := by
        rw [ha.left.process]
        exact c
    }
  case receive =>
    have hk : s.process.Keeps (s.process.receive P).fst := .receive
    rw [Peer.receive] at hs
    split at hs
    case h_1 => contradiction
    case h_2 he =>
      obtain ⟨_, -, rfl⟩ := Option.map_eq_some_iff.mp hs
      rwa [he] at hk
    case h_3 he =>
      cases hs
      rwa [he] at hk
    case h_4 he =>
      cases hs
      rwa [he] at hk
  case resume =>
    obtain ⟨_, _, _, _, rfl⟩ := Peer.resume_eq_some_iff.mp hs
    exact .of_eq rfl rfl rfl
  case reply n =>
    obtain ⟨c, -, hs⟩ := Option.bind_eq_some_iff.mp hs
    split at hs
    case h_1 => exact Option.some.inj hs ▸ .refl
    case h_2 info _ =>
      have hk : s.process.Keeps (s.process.reply P c.dispatcher.service info).fst := .reply
      split at hs
      case h_1 => contradiction
      case h_2 he =>
        cases hs
        rwa [he] at hk

namespace Network

-- Somebody who is connected to the server, but need not be one of its clients. There is a channel
-- for them, with what is at the server's end of it.
structure Stranger where
  channel : RpcChannel := {}
  running : List Activation := []
  held    : List Pending := []

structure Exposed (ι κ : Type*) where
  network  : Network ι := {}
  stranger : κ → Stranger := fun _ => {}

namespace Exposed

variable {ι κ : Type*}

-- The server, as far as it can be got at by a stranger.
def peer (x : Exposed ι κ) (k : κ) : Peer where
  process := { x.network.server with channel := (x.stranger k).channel }
  running := (x.stranger k).running
  held    := (x.stranger k).held

def put [DecidableEq κ] (x : Exposed ι κ) (k : κ) (s : Peer) : Exposed ι κ where
  network  := { x.network with server := s.process }
  stranger := Function.update x.stranger k {
    channel := s.process.channel
    running := s.running
    held    := s.held
  }

-- What the strangers are connected by need not work.
def next [DecidableEq ι] [DecidableEq κ] (P : Platform) (Q : κ → Platform)
    (services : ι → ServiceDescriptor) (x : Exposed ι κ) :
    (ι × System.Action) ⊕ (κ × Peer.Action) → Option (Exposed ι κ)
  | .inl a      => (x.network.next P services a).map fun network => { x with network }
  | .inr (k, a) => ((x.peer k).next (Q k) a).map (x.put k)

-- The clients do as they should. The strangers can put anything on their lines and take anything
-- from there, and the server's application does with them what it likes.
def Allowed (P : Platform) (services : ι → ServiceDescriptor) (x : Exposed ι κ) :
    (ι × System.Action) ⊕ (κ × Peer.Action) → Prop
  | .inl a      => Each (fun i => System.Proper P (services i)) x.network a
  | .inr (k, a) => (x.peer k).Admits a

variable {P : Platform} {Q : κ → Platform} {services : ι → ServiceDescriptor} {x : Exposed ι κ}

-- Short of stopping the process, there is nothing that strangers can do to the clients.
theorem contains [DecidableEq ι] [DecidableEq κ] (hP : P.Inverse)
    (hn : ∀ i, (services i).ids.Nodup)
    (h : Reachable (fun x => Initial services x.network) (Allowed P services) (next P Q services) x)
    (i : ι) : Correlates (x.network.view i).log ∧ (x.network.view i).Advances P ∧
      (x.network.view i).Resumes ∧ (x.network.view i).Drained := by
  have hI : ∀ i, ∃ queries answers,
      (x.network.view i).Consistent True P (services i) queries answers := by
    refine h.invariant (I := fun x => ∀ i, ∃ queries answers,
      (x.network.view i).Consistent True P (services i) queries answers)
      (fun x hi i => ⟨_, _, hi.consistent i⟩) fun x a x' hi ha hs i => ?_
    rcases a with a | ⟨k, a⟩ <;> obtain ⟨_, hs', rfl⟩ := Option.map_eq_some_iff.mp hs
    case inl => exact consistent_next hP hn hi ha hs' i
    case inr =>
      have hk := Peer.keeps_of_next ha hs'
      obtain ⟨queries, answers, hc⟩ := hi i
      exact ⟨_, _, hc.besides ⟨hk.next, hk.types, hk.claimed⟩⟩
  obtain ⟨queries, answers, hc⟩ := hI i
  exact ⟨hc.log.correlates trivial, hc.advances hP.toReliable (hn i), hc.resumes, hc.drained⟩

-- It can be tested whether an action is allowed that needs no objects.
def ready (P : Platform) (x : Exposed ι κ) : (ι × System.Action) ⊕ (κ × Peer.Action) → Bool
  | .inl (i, a)       => (x.network.view i).ready P a
  | .inr (_, .work _) => false
  | .inr _            => true

theorem allowed_of_ready {a : (ι × System.Action) ⊕ (κ × Peer.Action)} (h : x.ready P a) :
    x.Allowed P services a := by
  rcases a with ⟨i, a⟩ | ⟨k, a⟩
  case inl => exact System.proper_of_ready (s := x.network.view i) h
  case inr => cases a <;> trivial

-- Something that is not even a message, a response that nobody waits for, a request for a method
-- that there is not, and one without the object that belongs to it.
def junk : List Item := [
  .payload ⟨.voidData, [1]⟩,
  .envelope { response := some { id := some 0, extensions := [(7, External.message.toContent)] } },
  .envelope { request := some { extensions := [(7, External.message.toContent)] } },
  .envelope {
    request := some { extensions := [(External.test.id, External.message.toContent)] }
  }
]

def intruded : Exposed Bool Unit where
  network := testing [5]

def intrusion : Peer.Action :=
  .work { (testing [5] : Network Bool).server with channel.link.incoming := junk }

-- The two clients call at the same time as the stranger does all that.
def intrusions : List ((Bool × System.Action) ⊕ (Unit × Peer.Action)) :=
  .inr ((), intrusion) :: .inl (false, System.test) :: .inl (true, System.test) ::
    .inr ((), .receive) :: .inl (true, .serve) :: .inr ((), .receive) :: .inl (false, .serve) ::
    .inr ((), .receive) :: .inl (false, .reply 0) :: .inr ((), .receive) :: .inl (true, .reply 0) ::
    .inr ((), .receive) :: [.inl (true, .receive), .inl (false, .receive)]

theorem allowed_intrusions : AllAllowed (Allowed Salutation.platform fun _ => External.service)
    (next Salutation.platform (fun _ => Salutation.platform) fun _ => External.service) intruded
    intrusions := by
  refine ⟨⟨⟨rfl, Nat.le_refl _⟩, fun _ _ => rfl⟩, ?_⟩
  rintro _ ⟨⟩
  refine ⟨.of_client System.proper_test rfl rfl rfl rfl rfl, ?_⟩
  rintro _ ⟨⟩
  refine ⟨.of_client System.proper_test rfl rfl rfl rfl rfl, ?_⟩
  rintro _ ⟨⟩
  refine AllAllowed.mono (fun _ _ => allowed_of_ready) ?_
  decide +kernel

theorem contains_intrusions : ∃ x,
    run (next Salutation.platform (fun _ => Salutation.platform) fun _ => External.service) intruded
      intrusions = some x ∧
    ∀ i, (x.network.view i).log.length = 4 ∧ Correlates (x.network.view i).log := by
  have hr : (run (next Salutation.platform (fun _ => Salutation.platform) fun _ => External.service)
      intruded intrusions).map (fun x =>
        ((x.network.view false).log.length, (x.network.view true).log.length)) = some (4, 4) := by
    decide +kernel
  obtain ⟨x, hs, hl⟩ := Option.map_eq_some_iff.mp hr
  obtain ⟨hl, hl'⟩ := Prod.mk.inj hl
  refine ⟨x, hs, fun i => ⟨by cases i; exacts [hl, hl'], ?_⟩⟩
  refine (contains System.inverse_platform (fun _ => ?_)
    (.run (.start initial_testing) allowed_intrusions hs) i).left
  decide +kernel

end Exposed
end Network
end ProtoCall
