import ProtoCall.Examples.External
import ProtoCall.Runtime.System.Draining

namespace ProtoCall.System

open Transition

variable {own : Prop} {P : Platform} {service : ServiceDescriptor} {s s' : System}
  {queries : List Query} {answers : List Answer} {a : Action}

-- Whatever arrives is handled: a request gets to the service, and a response to the callback.
structure Advances (P : Platform) (s : System) : Prop where
  serve   : ∃ s', s.serve P = some s' ∧ (s.server.channel.link.incoming ≠ [] →
    ∃ method input, s'.log = s.log ++ [.invoked s.invocations method input])
  receive : ∃ s', s.receive P = some s' ∧ (s.client.channel.link.incoming ≠ [] →
    ∃ call output error, s'.log = s.log ++ [.completed call output error])

theorem Consistent.advances (h : Consistent own P service s queries answers) (hP : P.Reliable)
    (hn : service.ids.Nodup) : s.Advances P where
  serve   := by
    cases queries
    case nil =>
      have hl := Process.receiveMessage_nil (P := P) h.toServer
      have he := Process.receive_of_none (congrArg Prod.fst hl)
      refine ⟨_, by simp only [System.serve, he]; rfl, fun hi => ?_⟩
      exact absurd h.toServer hi
    case cons q queries =>
      obtain ⟨p', invocation, he, -⟩ := h.receive_query hP hn
      exact ⟨_, by simp only [System.serve, he]; rfl, fun _ => ⟨_, _, rfl⟩⟩
  receive := by
    cases answers
    case nil =>
      have hl := Process.receiveMessage_nil (P := P) h.toClient
      have he := Process.receive_of_none (congrArg Prod.fst hl)
      refine ⟨_, by simp only [System.receive, he]; rfl, fun hi => ?_⟩
      exact absurd h.toClient hi
    case cons a answers =>
      obtain ⟨entry, r, hl, -, hh, hr, ht, -⟩ := (h.answer a <| List.mem_cons_self ..).awaits
      obtain ⟨p', he, -⟩ := h.receive_answer hP hn hh hl hr ht
      exact ⟨_, by simp only [System.receive, he]; rfl, fun _ => ⟨_, _, _, rfl⟩⟩

-- Each call has its own response object, and there are not too many calls for the ids.
def Counted (service : ServiceDescriptor) (s : System) (a : Action) : Prop :=
  Allowed True service s a ∧ ∀ method input output, a = .call method input output →
    s.calls < 2 ^ 64

theorem Consistent.drains_of_counted (h : Consistent own P service s queries answers)
    (hr : ∀ m ∈ service.methods, m.voidOutput = false) (ha : s.Counted service a) :
    s.Drains True service a := by
  refine ⟨ha.left, ?_⟩
  cases a
  case call method input output =>
    refine ⟨fun ho => ?_, fun _ => h.ledger.lookup_currentRequestId <| ha.right _ _ _ rfl⟩
    rw [hr method ha.left.left] at ho
    contradiction
  all_goals trivial

theorem correlates_of_sized (hP : P.Inverse) (hn : service.ids.Nodup)
    (hr : ∀ m ∈ service.methods, m.voidOutput = false)
    (h : Reachable (Initial service) (fun s a => s.Counted service a ∧ s.Sized P a)
      (System.next P service) s) : Correlates s.log ∧ s.Advances P := by
  have ⟨_, _, hc⟩ := h.invariant
    (I := fun s => ∃ queries answers, Consistent True P service s queries answers)
    (fun _ hi => ⟨[], [], .initial hi⟩) fun _ _ _ ⟨_, _, h⟩ ha hs =>
      h.next hP.toReliable (fun _ => hP) hn (h.drains_of_counted hr ha.left) (fun _ => ha.right) hs
  exact ⟨hc.log.correlates trivial, hc.advances hP.toReliable hn⟩

-- How a client calls that relies on all of this and does not leave anything behind: the entries of
-- methods that have an input but no output stay, so these are not called.
structure Proper (P : Platform) (service : ServiceDescriptor) (s : System) (a : Action) : Prop where
  counted  : s.Counted service a
  sized    : s.Sized P a
  balanced : ∀ method input output, a = .call method input output → method.voidOutput →
    method.voidInput

theorem Consistent.drains_of_proper (h : Consistent own P service s queries answers)
    (ha : s.Proper P service a) : s.Drains True service a := by
  refine ⟨ha.counted.left, ?_⟩
  cases a
  case call =>
    exact ⟨ha.balanced _ _ _ rfl,
      fun _ => h.ledger.lookup_currentRequestId <| ha.counted.right _ _ _ rfl⟩
  all_goals trivial

-- Whether a method may be called is up to the client.
theorem Proper.of_client {t : System} {method : MethodDescriptor} {input : Option Message}
    {output : Option Ref} (h : t.Proper P service (.call method input output))
    (hn : s.client.next = t.client.next) (hr : s.client.responses = t.client.responses)
    (hk : s.client.channel.responseCallbacks = t.client.channel.responseCallbacks)
    (hh : s.client.heap = t.client.heap) (hc : s.calls = t.calls) :
    s.Proper P service (.call method input output) := by
  obtain ⟨⟨⟨hm, hi, hf, ho⟩, hl⟩, hz, hv⟩ := h
  refine ⟨⟨⟨hm, hi, hf, ?_⟩, fun _ _ _ he => hc ▸ hl _ _ _ he⟩, ?_, hv⟩
  case refine_1 =>
    exact {
      given := ho.given
      typed := by
        rw [hn, hr]
        exact ho.typed
      new   := by
        rw [hr]
        exact ho.new
      apart := by
        rw [hk]
        exact ho.apart
    }
  case refine_2 =>
    rw [Sized, hh]
    exact hz

theorem inverse_platform : Salutation.platform.Inverse where
  toReliable := Salutation.platform_reliable
  inverse _ _ _ h := ⟨congrArg List.length (Option.some.inj h).symm, fun _ => by
    rw [← Option.some.inj h]
    rfl⟩

-- The client has an object of the external type.
def testing (bar : Bytes) : System where
  client.next        := 1
  client.responses _ := .new External.testMesage
  client.heap        := External.heap bar
  server.manager     := .registerService {} (External.dispatcher 0)

def test : Action := .call External.test (some External.message) (some 0)

theorem initial_testing {bar : Bytes} : (testing bar).Initial External.service where
  client      := rfl
  server      := rfl
  manager     := ⟨0, rfl⟩
  running     := rfl
  held        := rfl
  calls       := rfl
  invocations := rfl
  log         := rfl

theorem counted_test {bar : Bytes} : (testing bar).Counted External.service test := by
  refine ⟨⟨by decide +kernel, by decide +kernel, ⟨rfl, by decide +kernel⟩, ?_⟩, fun _ _ _ _ => ?_⟩
  · exact {
      given := by decide +kernel
      typed := by rintro _ ⟨⟩; exact ⟨Nat.zero_lt_one, rfl⟩
      new   := by rintro - _ ⟨⟩; rfl
      apart := nofun
    }
  · exact Nat.two_pow_pos 64

theorem counted_of_ready (h : s.ready P a) : s.Counted service a ∧ s.Sized P a := by
  obtain ⟨hd, hz⟩ := drains_of_ready h
  refine ⟨⟨hd.left, ?_⟩, hz⟩
  rintro _ _ _ rfl
  contradiction

theorem proper_test : (testing [5]).Proper Salutation.platform External.service test where
  counted        := counted_test
  sized          := by
    have hz : Payload.Sized Salutation.platform (External.heap [5]) External.message
        External.testMesage := by decide +kernel
    exact hz
  balanced _ _ _ := by
    rintro ⟨⟩
    decide +kernel

theorem proper_sayHello : salutation.Proper Salutation.platform Salutation.service sayHello where
  counted        := ⟨drains_sayHello.left, fun _ _ _ _ => Nat.two_pow_pos 64⟩
  sized          := by
    have hz : Payload.Sized Salutation.platform .empty (.new Salutation.request)
        Salutation.request := by decide +kernel
    exact hz
  balanced _ _ _ := by
    rintro ⟨⟩
    decide +kernel

theorem proper_of_ready (h : s.ready P a) : s.Proper P service a where
  counted        := (counted_of_ready h).left
  sized          := (@counted_of_ready P service s a h).right
  balanced _ _ _ := by
    rintro rfl
    contradiction

theorem correlates_test : ∃ s, run (System.next Salutation.platform External.service) (testing [5])
    [test, .serve, .reply 0, .receive] = some s ∧ s.log.length = 4 ∧ Correlates s.log := by
  have hr : (run (System.next Salutation.platform External.service) (testing [5])
      [test, .serve, .reply 0, .receive]).map (·.log.length) = some 4 := by decide +kernel
  have ha : AllAllowed
      (fun s a => s.Counted External.service a ∧ s.Sized Salutation.platform a)
      (System.next Salutation.platform External.service) (testing [5])
      [test, .serve, .reply 0, .receive] := by
    have hz : Payload.Sized Salutation.platform (External.heap [5]) External.message
        External.testMesage := by decide +kernel
    refine ⟨⟨counted_test, hz⟩, ?_⟩
    rintro _ ⟨⟩
    refine AllAllowed.mono (fun _ _ => counted_of_ready) ?_
    decide +kernel
  obtain ⟨s, hs, hl⟩ := Option.map_eq_some_iff.mp hr
  have hc := correlates_of_sized inverse_platform (by decide +kernel) (by decide +kernel) <|
    .run (.start initial_testing) ha hs
  exact ⟨s, hs, hl, hc.left⟩

theorem outgoing_test {bar : Bytes} :
    ((testing bar).client.proxyCall Salutation.platform External.service External.test
      (some External.message) (some 0) 0).fst.channel.link.outgoing = [
        .envelope <| External.test.requestEnvelope (some 0) External.message,
        .payload ⟨.voidData, RpcVoidData.written (RpcVoidData.new bar.length) bar⟩] := by
  rw [Process.proxyCall_eq]
  simp only [Process.submit_eq Salutation.platform_reliable]
  rfl

-- What is logged depends on nothing but the server.
theorem log_serve {t : System} (hs : s.server = t.server) (hi : s.invocations = t.invocations) :
    (s.serve P).map (·.log) = (t.serve P).map (s.log ++ ·.log.drop t.log.length) := by
  simp only [System.serve, hs, hi]
  rcases t.server.receive P with ⟨_, _ | _ | _ | _⟩ <;> simp

-- An `unsigned int` does not hold the size of this object, and nothing is left of it.
theorem log_test {bar : Bytes} (h : bar.length = 2 ^ 32) :
    (run (System.next Salutation.platform External.service) (testing bar) [test, .serve]).map (·.log) =
      some [.called 0 External.test (some ⟨External.message.toContent, [some bar]⟩),
        .invoked 0 External.test (some ⟨External.message.toContent, [some []]⟩)] := by
  set called : Bytes → System := fun bar =>
    (testing bar).call Salutation.platform External.service External.test (some External.message)
      (some 0)
  have hw : RpcVoidData.written (RpcVoidData.new bar.length) bar = [] := by
    simp [RpcVoidData.written, RpcVoidData.new, h]
  have hs : (called bar).server = (called []).server := by
    have ho := @outgoing_test bar
    rw [hw] at ho
    have ho := ho.trans (@outgoing_test []).symm
    exact congrArg (fun sent => (testing []).server.withLink { incoming := sent }) ho
  have hl : ((called []).serve Salutation.platform).map (·.log) =
      some [.called 0 External.test (some ⟨External.message.toContent, [some []]⟩),
        .invoked 0 External.test (some ⟨External.message.toContent, [some []]⟩)] := by
    decide +kernel
  have hr : run (System.next Salutation.platform External.service) (testing bar) [test, .serve] =
      (called bar).serve Salutation.platform := by
    change ((called bar).serve Salutation.platform).bind some = _
    cases (called bar).serve Salutation.platform <;> rfl
  obtain ⟨t, ht, hl⟩ := Option.map_eq_some_iff.mp hl
  rw [hr, log_serve hs rfl, ht, Option.map_some, hl]
  rfl

-- `bar` has 4 GiB.
theorem not_correlates :
    ¬∀ (P : Platform) (service : ServiceDescriptor) (s : System), P.Inverse → service.ids.Nodup →
      (∀ m ∈ service.methods, m.voidOutput = false) →
      Reachable (Initial service) (Counted service) (System.next P service) s →
      Correlates s.log := by
  intro h
  let bar : Bytes := List.replicate (2 ^ 32) 0
  have hb : bar.length = 2 ^ 32 := List.length_replicate
  generalize bar = bar at hb
  obtain ⟨s, hs, hl⟩ := Option.map_eq_some_iff.mp <| log_test hb
  have ha : AllAllowed (Counted External.service)
      (System.next Salutation.platform External.service) (testing bar) [test, .serve] :=
    ⟨counted_test, fun _ _ => ⟨⟨trivial, nofun⟩, fun _ _ => trivial⟩⟩
  have hc := h Salutation.platform External.service s inverse_platform (by decide +kernel)
    (by decide +kernel) <| .run (.start initial_testing) ha hs
  have hj := hc [_] _ [] hl
  have he := List.mem_singleton.mp hj.left
  have hn : bar = [] := by simpa using he
  rw [hn] at hb
  contradiction

end ProtoCall.System
