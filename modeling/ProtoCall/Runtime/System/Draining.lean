import ProtoCall.Runtime.System.Client
import ProtoCall.Runtime.System.Server

namespace ProtoCall.System

open Transition

variable {own : Prop} {P : Platform} {service : ServiceDescriptor} {s s' : System}
  {queries : List Query} {answers : List Answer} {a : Action}

-- No call of a method with an input but no output, and none that waits under an id that is still
-- pending.
def Drainable (s : System) : Action → Prop
  | .call method _ _ => (method.voidOutput → method.voidInput) ∧ (method.voidOutput = false →
    s.client.channel.responseCallbacks.lookup s.client.channel.currentRequestId = none)
  | _                => True

def Drains (own : Prop) (service : ServiceDescriptor) (s : System) (a : Action) : Prop :=
  Allowed own service s a ∧ s.Drainable a

namespace Consistent

theorem initial (h : Initial service s) : Consistent own P service s [] [] where
  toServer := by rw [h.server]; rfl
  toClient := by rw [h.client]; rfl
  client   := by rw [h.client]
  server   := by rw [h.server]
  claimed  := by
    obtain ⟨addr, hm⟩ := h.manager
    exact ⟨⟨addr, service⟩, rfl, hm ▸ .registered⟩
  numbers  := rfl
  calls    := h.invocations.trans h.calls.symm
  query    := nofun
  held     := by simp [h.held]
  answer   := nofun
  running  := by simp [h.running]
  distinct := by simp [waiting, h.held, h.running]
  ledger   := .empty (by rw [h.client]) (by rw [h.client])
  log      := {
    called     := by simp [h.log]
    invoked    := by simp [h.log]
    completed  := by simp [h.log]
    unfinished := by simp [h.log]
    correlates := fun _ => h.log ▸ .nil
  }

theorem next (h : Consistent own P service s queries answers) (hP : P.Reliable)
    (hI : own → P.Inverse) (hn : service.ids.Nodup) (ha : s.Drains own service a)
    (hz : own → s.Sized P a) (hs : s.next P service a = some s') :
    ∃ queries answers, Consistent own P service s' queries answers := by
  obtain ⟨ha, hd⟩ := ha
  cases a
  case call =>
    obtain ⟨q, hq⟩ := h.call hP hI ha hz hd.left hd.right
    exact ⟨_, _, Option.some.inj hs ▸ hq⟩
  case serve =>
    cases queries
    case nil  => exact ⟨_, _, h.serve_nil hs⟩
    case cons => exact ⟨_, _, h.serve_cons hP hn hs⟩
  case reply n =>
    have hs' := hs
    simp only [System.next, reply] at hs'
    rcases hh : s.held[n]? with _ | ⟨call, info | _⟩ <;> simp only [hh] at hs'
    case none => contradiction
    case reply =>
      obtain ⟨a, ha⟩ := h.answered hP hI ha hz hh hs
      exact ⟨_, _, ha⟩
    case doNothing => exact ⟨_, _, Option.some.inj hs' ▸ h.drop hh⟩
  case receive =>
    cases answers
    case nil  => exact ⟨_, _, h.receive_nil hs⟩
    case cons => exact ⟨_, _, h.receive_cons hP hn hs⟩
  case resume => exact ⟨_, _, h.resume hs⟩
  case work   => exact ⟨_, _, Option.some.inj hs ▸ h.work ha.left ha.right⟩

theorem of_reachable (hP : P.Reliable) (hn : service.ids.Nodup)
    (h : Reachable (Initial service) (Drains False service) (System.next P service) s) :
    ∃ queries answers, Consistent False P service s queries answers :=
  h.invariant (I := fun s => ∃ queries answers, Consistent False P service s queries answers)
    (fun _ hi => ⟨[], [], .initial hi⟩)
    fun _ _ _ ⟨_, _, h⟩ ha hs => h.next hP False.elim hn ha False.elim hs

end Consistent

-- Nothing is on its way, and the service has run all of its closures.
structure Settled (s : System) : Prop where
  toServer : s.server.channel.link.incoming = []
  toClient : s.client.channel.link.incoming = []
  held     : s.held = []

-- What is still pending then belongs to callbacks that have not returned.
def Drained (s : System) : Prop :=
  s.Settled → ∀ id, (s.client.channel.responseCallbacks.lookup id).isSome →
    id ∈ s.running.map (·.id)

theorem Drained.empty (h : s.Drained) (hs : s.Settled) (hr : s.running = []) :
    s.client.channel.responseCallbacks = ∅ := by
  apply Finmap.ext_lookup
  intro id
  cases hl : s.client.channel.responseCallbacks.lookup id
  case none   => rw [Finmap.lookup_empty]
  case some _ =>
    have hm := h hs id <| by rw [hl]; rfl
    rw [hr] at hm
    contradiction

theorem Consistent.drained (h : Consistent own P service s queries answers) : s.Drained := by
  intro hs id hl
  obtain ⟨entry, hl⟩ := Option.isSome_iff_exists.mp hl
  have hq : queries = [] := by
    have ht := List.flatMap_eq_nil_iff.mp <| h.toServer.symm.trans hs.toServer
    exact List.eq_nil_iff_forall_not_mem.mpr fun q hm => nomatch ht q hm
  have ha : answers = [] := by
    have ht := List.flatMap_eq_nil_iff.mp <| h.toClient.symm.trans hs.toClient
    exact List.eq_nil_iff_forall_not_mem.mpr fun a hm => nomatch ht a hm
  have hw := h.ledger.waits id entry hl
  simpa [waiting, hq, ha, hs.held] using hw

-- A call adds an entry exactly if the dispatcher replies to it.
def Balanced (P : Platform) (service : ServiceDescriptor) (method : MethodDescriptor)
    (p : Process) : Prop :=
  ∀ input output done,
    (p.proxyCall P service method input output done).fst.channel.responseCallbacks ≠
      p.channel.responseCallbacks ↔ (service.replying? method.id).isSome

theorem balanced_iff {method : MethodDescriptor} {p : Process} (hn : service.ids.Nodup)
    (hm : method ∈ service.methods)
    (hf : p.channel.responseCallbacks.lookup p.channel.currentRequestId = none) :
    Balanced P service method p ↔ (method.voidOutput → method.voidInput) := by
  have hc (input : Option Message) (output : Option Ref) (done : Closure) :
      (p.proxyCall P service method input output done).fst.channel.responseCallbacks ≠
        p.channel.responseCallbacks ↔ method.registers := by
    rw [Process.proxyCall_responseCallbacks, Process.prepare_responseCallbacks]
    split
    case isTrue h  => simp [StdMap.insertNew_eq_self_iff, hf, h]
    case isFalse h => simp [h]
  simp only [Balanced, hc, ServiceDescriptor.isSome_replying?_id hn hm, MethodDescriptor.registers]
  cases method.voidInput <;> cases method.voidOutput <;> simp

theorem drains (hP : P.Reliable) (hn : service.ids.Nodup)
    (h : Reachable (Initial service) (Drains False service) (System.next P service) s) :
    s.Drained ∧ ∀ method ∈ service.methods,
      s.client.channel.responseCallbacks.lookup s.client.channel.currentRequestId = none →
      (Balanced P service method s.client ↔ (method.voidOutput → method.voidInput)) := by
  obtain ⟨_, _, hc⟩ := Consistent.of_reachable hP hn h
  exact ⟨hc.drained, fun _ => balanced_iff hn⟩

-- A client and a server that nothing has been sent between.
def salutation : System where
  client.next        := 1
  client.responses _ := .new Salutation.response
  server.manager     := .registerService {} (Salutation.dispatcher 0)

theorem initial_salutation : salutation.Initial Salutation.service where
  client      := rfl
  server      := rfl
  manager     := ⟨0, rfl⟩
  running     := rfl
  held        := rfl
  calls       := rfl
  invocations := rfl
  log         := rfl

-- Steps of a run that can be tested for being allowed.
def ready (P : Platform) (s : System) : Action → Bool
  | .reply n => s.held[n]?.all fun
    | (_, .reply info) =>
      let response := s.server.responses info.response
      decide <| Payload.Full response.type response ∧
        Payload.Sized P s.server.heap response response.type
    | (_, .doNothing)  => true
  | .serve | .receive | .resume => true
  | _ => false

theorem drains_of_ready (h : s.ready P a) : s.Drains own service a ∧ s.Sized P a := by
  cases a
  case call    => contradiction
  case work    => contradiction
  case serve   => exact ⟨⟨trivial, trivial⟩, trivial⟩
  case receive => exact ⟨⟨trivial, trivial⟩, trivial⟩
  case resume  => exact ⟨⟨trivial, trivial⟩, trivial⟩
  case reply n =>
    have hr (call : ℕ) (info : ReplyInfo) (hh : s.held[n]? = some (call, .reply info)) := by
      simpa [ready, hh] using h
    exact ⟨⟨fun call info hh => (hr call info hh).left, trivial⟩,
      fun call info hh => (hr call info hh).right⟩

theorem offers_none {p : Process} {method : MethodDescriptor} (h : method.voidOutput) :
    Offers own p method none where
  given := by rw [h]; rfl
  typed := nofun
  new   := nofun
  apart := nofun

-- `sayHello` is called, and is answered.
def sayHello : Action := .call Salutation.sayHello (some <| .new Salutation.request) (some 0)

def sayNotify : Action := .call Salutation.sayNotify (some <| .new Salutation.notification) none

theorem allowed_sayNotify : salutation.Allowed own Salutation.service sayNotify :=
  ⟨by decide +kernel, by decide +kernel, ⟨rfl, by decide +kernel⟩, offers_none <| by decide +kernel⟩

theorem drains_sayHello : salutation.Drains own Salutation.service sayHello := by
  refine ⟨⟨by decide +kernel, by decide +kernel, ⟨rfl, by decide +kernel⟩, ?_⟩, ?_, fun _ => rfl⟩
  · exact {
      given := by decide +kernel
      typed := by rintro _ ⟨⟩; exact ⟨by decide, rfl⟩
      new   := by rintro - _ ⟨⟩; rfl
      apart := nofun
    }
  · decide +kernel

theorem drains_hello : ∃ s, run (System.next Salutation.platform Salutation.service) salutation
    [sayHello, .serve, .reply 0, .receive, .resume] = some s ∧ s.Settled ∧ s.Drained := by
  have hr : (run (System.next Salutation.platform Salutation.service) salutation
      [sayHello, .serve, .reply 0, .receive, .resume]).map (fun s =>
        (s.server.channel.link.incoming.isEmpty, s.client.channel.link.incoming.isEmpty,
          s.held.isEmpty)) = some (true, true, true) := by decide +kernel
  have ha : AllAllowed (Drains False Salutation.service)
      (System.next Salutation.platform Salutation.service) salutation
      [sayHello, .serve, .reply 0, .receive, .resume] := by
    refine ⟨drains_sayHello, ?_⟩
    rintro _ ⟨⟩
    refine AllAllowed.mono (fun _ _ h => (drains_of_ready (P := Salutation.platform) h).left) ?_
    decide +kernel
  obtain ⟨s, hs, hn⟩ := Option.map_eq_some_iff.mp hr
  simp only [Prod.mk.injEq, List.isEmpty_iff] at hn
  obtain ⟨h₁, h₂, h₃⟩ := hn
  have hd := drains Salutation.platform_reliable (by decide +kernel) <|
    .run (.start initial_salutation) ha hs
  exact ⟨s, hs, ⟨h₁, h₂, h₃⟩, hd.left⟩

theorem not_drained :
    ¬∀ s, Reachable (Initial Salutation.service) (Allowed False Salutation.service)
      (System.next Salutation.platform Salutation.service) s → s.Settled → s.running = [] →
      s.client.channel.responseCallbacks = ∅ := by
  intro h
  have hr : (run (System.next Salutation.platform Salutation.service) salutation
      [sayNotify, .serve, .reply 0]).map (fun s => (s.server.channel.link.incoming.isEmpty,
        s.client.channel.link.incoming.isEmpty, s.held.isEmpty, s.running.isEmpty,
        (s.client.channel.responseCallbacks.lookup 0).isSome)) = some (true, true, true, true, true) :=
    by decide +kernel
  have ha : AllAllowed (Allowed False Salutation.service)
      (System.next Salutation.platform Salutation.service) salutation [sayNotify, .serve, .reply 0] := by
    refine ⟨allowed_sayNotify, ?_⟩
    rintro _ ⟨⟩
    refine AllAllowed.mono (fun _ _ h => (drains_of_ready (P := Salutation.platform) h).left.left) ?_
    decide +kernel
  obtain ⟨s, hs, hn⟩ := Option.map_eq_some_iff.mp hr
  simp only [Prod.mk.injEq, List.isEmpty_iff] at hn
  obtain ⟨h₁, h₂, h₃, h₄, h₅⟩ := hn
  have he := h s (.run (.start initial_salutation) ha hs) ⟨h₁, h₂, h₃⟩ h₄
  rw [he] at h₅
  contradiction

end ProtoCall.System
