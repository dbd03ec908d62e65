import ProtoCall.Runtime.Duplex.Basic
import ProtoCall.Runtime.Duplex.Passing

namespace ProtoCall.Duplex

open Transition

-- A request or a response.
abbrev Sent := Query ⊕ Answer

namespace Sent

def items : Sent → List Item
  | .inl q => q.items
  | .inr a => a.items

variable {x y : List Sent} {q : Query} {a : Answer}

def queries (x : List Sent) : List Query := x.filterMap Sum.getLeft?

def answers (x : List Sent) : List Answer := x.filterMap Sum.getRight?

@[simp] theorem queries_append : queries (x ++ y) = queries x ++ queries y :=
  List.filterMap_append

@[simp] theorem answers_append : answers (x ++ y) = answers x ++ answers y :=
  List.filterMap_append

@[simp] theorem queries_nil : queries [] = [] := rfl

@[simp] theorem answers_nil : answers [] = [] := rfl

@[simp] theorem queries_inl : queries (.inl q :: x) = q :: queries x := rfl

@[simp] theorem queries_inr : queries (.inr a :: x) = queries x := rfl

@[simp] theorem answers_inl : answers (.inl q :: x) = answers x := rfl

@[simp] theorem answers_inr : answers (.inr a :: x) = a :: answers x := rfl

end Sent

open Sent

-- Each end finds its own calls as if nothing else went over the connection.
structure Coherent (P : Platform) (services : Bool → ServiceDescriptor) (d : Duplex) (b : Bool)
    (x y : List Sent) : Prop where
  toServer : (d.view b).server.channel.link.incoming = x.flatMap items
  toClient : (d.view b).client.channel.link.incoming = y.flatMap items
  calls    : ((d.view b).only (queries x) (answers y)).Consistent True P (services b)
    (queries x) (answers y)
  others   : ((d.view !b).only (queries y) (answers x)).Consistent True P (services !b)
    (queries y) (answers x)

variable {P : Platform} {services : Bool → ServiceDescriptor} {d d' : Duplex} {b : Bool}
  {x y x' y' : List Sent} {s' : System} {method : MethodDescriptor} {input : Option Message}
  {output : Option Ref} {n : ℕ}

-- Something that has arrived at this end gets to the service, or to a callback.
def Handles (d d' : Duplex) (b : Bool) : Prop :=
  (∃ call method input, (d'.view !b).log = (d.view !b).log ++ [.invoked call method input]) ∨
    ∃ call output error, (d'.view b).log = (d.view b).log ++ [.completed call output error]

def Advances (P : Platform) (d : Duplex) (b : Bool) : Prop :=
  ∃ d', d.receive P b = some d' ∧
    ((d.ends b).process.channel.link.incoming ≠ [] → d.Handles d' b)

theorem server_view_not : (d.view !b).server = (d.view b).client := by
  simp [view]

namespace Coherent

theorem symm (h : Coherent P services d b x y) : Coherent P services d (!b) y x where
  toServer := (congrArg (·.channel.link.incoming) server_view_not).trans h.toClient
  toClient := h.toServer
  calls    := h.others
  others   := (Bool.not_not b).symm ▸ h.calls

-- What one end does for its calls, or the other end for them, leaves the calls of the other end
-- alone.
theorem step (h : Coherent P services d b x y) (hp : (d.view b).Passes s')
    (hs : s'.server.channel.link.incoming = x'.flatMap items)
    (hc : s'.client.channel.link.incoming = y'.flatMap items)
    (hown : (s'.only (queries x') (answers y')).Consistent True P (services b) (queries x')
      (answers y'))
    (hq : queries y' = queries y) (ha : answers x' = answers x) :
    Coherent P services (d.put b s') b x' y' where
  toServer := by rwa [view_put_self]
  toClient := by rwa [view_put_self]
  calls    := by rwa [view_put_self]
  others   := by
    rw [view_put_not, hq, ha]
    have hk : ((d.view b).client.facing <| (queries y).flatMap Query.items).Keeps
      (s'.client.facing <| (queries y).flatMap Query.items) := hp.client.facing
    rw [← server_view_not] at hk
    refine h.others.aside hp.server.facing hk rfl ?_ rfl ?_
    case refine_1 => exact hown.server.trans h.others.client.symm
    case refine_2 => exact hown.client.trans h.others.server.symm

theorem call (h : Coherent P services d b x y) (hP : P.Inverse)
    (hp : (d.view b).Proper P (services b) (.call method input output)) :
    ∃ q, Coherent P services (d.put b <| (d.view b).call P (services b) method input output) b
      (x ++ [.inl q]) y := by
  obtain ⟨ha, hd⟩ := h.calls.drains_of_proper
    (a := .call method input output) (hp.of_client rfl rfl rfl rfl rfl)
  obtain ⟨q, hq⟩ := h.calls.call hP.toReliable (fun _ => hP) ha (fun _ => hp.sized) hd.left hd.right
  rw [System.only, System.call_facing hP.toReliable] at hq
  have hx : (queries x).flatMap Query.items ++ _ = (queries x ++ [q]).flatMap Query.items :=
    hq.toServer
  refine ⟨q, h.step System.call_passes ?_ ?_ ?_ rfl (by simp)⟩
  case refine_1 =>
    rw [List.flatMap_append, List.flatMap_singleton] at hx ⊢
    exact congrArg₂ (· ++ ·) h.toServer <| List.append_cancel_left hx
  case refine_2 => exact (Process.incoming_proxyCall hP.toReliable).trans h.toClient
  case refine_3 =>
    rw [hx] at hq
    simpa [System.only] using hq

theorem serve {q : Query} {rest : List Sent} (h : Coherent P services d b (.inl q :: rest) y)
    (hP : P.Reliable) (hn : (services b).ids.Nodup) :
    ∃ s' invocation, ((d.view b).server.receive P).snd = .invoked invocation ∧
      (d.view b).serve P = some s' ∧ (∃ method input,
        s'.log = (d.view b).log ++ [.invoked (d.view b).invocations method input]) ∧
      Coherent P services (d.put b s') b rest y := by
  obtain ⟨s', invocation, he, hs, hl, hp, hc, hi, hown⟩ := h.calls.serve_only hP hn h.toServer
  exact ⟨s', invocation, he, hs, hl, h.step hp hi (hc ▸ h.toClient) hown rfl rfl⟩

theorem receive_nil (h : Coherent P services d b x []) :
    ∃ s', ((d.view b).client.receive P).snd = .returned false ∧
      (d.view b).receive P = some s' ∧ Coherent P services (d.put b s') b x [] := by
  obtain ⟨s', he, hr, hp, hs, hi, hown⟩ := h.calls.receive_only_nil h.toClient
  exact ⟨s', he, hr, h.step hp (hs ▸ h.toServer) hi hown rfl rfl⟩

theorem receive_cons {a : Answer} {rest : List Sent} (h : Coherent P services d b x (.inr a :: rest))
    (hP : P.Reliable) (hn : (services b).ids.Nodup) :
    ∃ s' activation, ((d.view b).client.receive P).snd = .callback activation ∧
      (d.view b).receive P = some s' ∧ (∃ call output error,
        s'.log = (d.view b).log ++ [.completed call output error]) ∧
      Coherent P services (d.put b s') b x rest := by
  obtain ⟨s', activation, he, hr, hl, hp, hs, hi, hown⟩ := h.calls.receive_only hP hn h.toClient
  exact ⟨s', activation, he, hr, hl, h.step hp (hs ▸ h.toServer) hi hown rfl rfl⟩

theorem reply (h : Coherent P services d b x y) (hP : P.Inverse)
    (hp : (d.view b).Proper P (services b) (.reply n))
    (hs : (d.view b).reply P (services b) n = some s') :
    ∃ y, Coherent P services (d.put b s') b x y := by
  have hs' := hs
  simp only [System.reply] at hs'
  rcases hh : (d.view b).held[n]? with _ | ⟨call, info | _⟩ <;>
    simp only [hh, Option.some.injEq] at hs'
  case none => contradiction
  case reply =>
    obtain ⟨a, hpass, hsi, hci, hown⟩ :=
      h.calls.reply_only hP.toReliable (fun _ => hP) hp.counted.left (fun _ => hp.sized) hh hs
    refine ⟨y ++ [.inr a], h.step hpass (hsi.trans h.toServer) ?_ ?_ ?_ rfl⟩
    case refine_1 =>
      rw [List.flatMap_append, List.flatMap_singleton, hci, h.toClient]
      rfl
    case refine_2 => simpa using hown
    case refine_3 => simp
  case doNothing =>
    exact ⟨y, h.step (hs' ▸ ⟨.of_eq rfl rfl rfl, .refl⟩) (hs' ▸ h.toServer) (hs' ▸ h.toClient)
      (hs' ▸ h.calls.drop hh) rfl rfl⟩

theorem resume (h : Coherent P services d b x y) (hs : (d.view b).resume = some s') :
    Coherent P services (d.put b s') b x y := by
  have hown := h.calls.resume <| System.resume_only.trans <| by rw [hs]; rfl
  obtain ⟨a, running, -, -, rfl⟩ := System.resume_eq_some_iff.mp hs
  exact h.step ⟨.of_eq rfl rfl rfl, .refl⟩ h.toServer h.toClient hown rfl rfl

theorem work {p : Process} (h : Coherent P services d b x y)
    (hw : System.Works True (d.ends b).process p) :
    Coherent P services (d.put b { d.view b with client := p }) b x y := by
  have hown : (({ d.view b with client := p } : System).only (queries x) (answers y)).Consistent True
    P (services b) (queries x) (answers y) := h.calls.work hw.facing .refl
  refine h.step ⟨.of_works hw, .refl⟩ h.toServer ?_ hown rfl rfl
  rw [hw.process]
  exact h.toClient

theorem receive (h : Coherent P services d b x y) (hP : P.Reliable)
    (hn : ∀ b, (services b).ids.Nodup) :
    ∃ d', d.receive P b = some d' ∧ (y ≠ [] → d.Handles d' b) ∧
      ∃ c x y, Coherent P services d' c x y := by
  rcases y with _ | ⟨q | a, rest⟩
  case nil =>
    obtain ⟨s', he, hs, hc⟩ := h.receive_nil
    have he : ((d.ends b).process.receive P).snd = _ := he
    exact ⟨d.put b s', by simp only [Duplex.receive, he, hs, Option.map_some], nofun, _, _, _, hc⟩
  case cons.inl =>
    obtain ⟨s', invocation, he, hs, ⟨method, input, hl⟩, hc⟩ := h.symm.serve hP (hn _)
    rw [server_view_not] at he
    have he : ((d.ends b).process.receive P).snd = _ := he
    refine ⟨d.put (!b) s', by simp only [Duplex.receive, he, hs, Option.map_some],
      fun _ => .inl ⟨(d.view !b).invocations, method, input, ?_⟩, _, _, _, hc⟩
    rwa [view_put_self]
  case cons.inr =>
    obtain ⟨s', activation, he, hs, ⟨call, output, error, hl⟩, hc⟩ := h.receive_cons hP (hn b)
    have he : ((d.ends b).process.receive P).snd = _ := he
    refine ⟨d.put b s', by simp only [Duplex.receive, he, hs, Option.map_some],
      fun _ => .inr ⟨call, output, error, ?_⟩, _, _, _, hc⟩
    rwa [view_put_self]

theorem of_initial (h : Initial services d) : Coherent P services d b [] [] := by
  have hc (c : Bool) : ((d.view c).only [] []).Consistent True P (services c) [] [] := by
    refine .initial ⟨?_, ?_, ?_, h.running c, h.held _, h.calls c, h.invocations _, h.log c⟩
    all_goals simp only [System.only, System.facing, Process.facing, Process.withLink, view, h.channel]
    case refine_1 => rfl
    case refine_2 => rfl
    case refine_3 => simpa using h.manager !c
  exact {
    toServer := by simp [view, h.channel]
    toClient := by simp [view, h.channel]
    calls    := hc b
    others   := hc !b
  }

theorem both (h : Coherent P services d b x y) (c : Bool) : ∃ x y, Coherent P services d c x y := by
  obtain rfl | rfl := Bool.eq_or_eq_not c b
  case inl => exact ⟨x, y, h⟩
  case inr => exact ⟨y, x, h.symm⟩

theorem next {a : Bool × Action} (h : ∀ b, ∃ x y, Coherent P services d b x y) (hP : P.Inverse)
    (hn : ∀ b, (services b).ids.Nodup)
    (ha : d.Allowed P services a) (hs : d.next P services a = some d') :
    ∀ b, ∃ x y, Coherent P services d' b x y := by
  obtain ⟨b, a⟩ := a
  obtain ⟨x, y, hc⟩ := h b
  cases a
  case call =>
    obtain ⟨q, hq⟩ := hc.call hP ha
    exact Option.some.inj hs ▸ hq.both
  case receive =>
    obtain ⟨d₁, hd, -, _, _, _, h⟩ := hc.receive hP.toReliable hn
    obtain rfl : d₁ = d' := Option.some.inj <| hd.symm.trans hs
    exact h.both
  case reply n =>
    obtain ⟨s', hr, rfl⟩ := Option.map_eq_some_iff.mp hs
    obtain ⟨y, h⟩ := hc.symm.reply hP ha hr
    exact h.both
  case resume =>
    obtain ⟨s', hr, rfl⟩ := Option.map_eq_some_iff.mp hs
    exact (hc.resume hr).both
  case work => exact Option.some.inj hs ▸ (hc.work ha).both

theorem drained (h : Coherent P services d b x y) : (d.view b).Drained := by
  intro hs id hl
  have hx : x = [] := by
    have ht := List.flatMap_eq_nil_iff.mp <| h.toServer.symm.trans hs.toServer
    refine List.eq_nil_iff_forall_not_mem.mpr fun m hm => ?_
    cases m <;> exact nomatch ht _ hm
  have hy : y = [] := by
    have ht := List.flatMap_eq_nil_iff.mp <| h.toClient.symm.trans hs.toClient
    refine List.eq_nil_iff_forall_not_mem.mpr fun m hm => ?_
    cases m <;> exact nomatch ht _ hm
  subst hx hy
  exact h.calls.drained ⟨rfl, rfl, hs.held⟩ id hl

end Coherent

-- Both ends may call each other at the same time, and neither takes what it gets for something else:
-- a request is not taken for a response that is waited for, and not the other way round.
theorem interleaves (hP : P.Inverse) (hn : ∀ b, (services b).ids.Nodup)
    (h : Reachable (Initial services) (Allowed P services) (next P services) d) (b : Bool) :
    Correlates (d.view b).log ∧ d.Advances P b ∧ (d.view b).Resumes ∧ (d.view b).Drained := by
  obtain ⟨x, y, hc⟩ := h.invariant (I := fun d => ∀ b, ∃ x y, Coherent P services d b x y)
    (fun _ hi b => ⟨[], [], .of_initial hi⟩) (fun _ _ _ h => Coherent.next h hP hn) b
  obtain ⟨d', hd, hh, -⟩ := hc.receive hP.toReliable hn
  refine ⟨hc.calls.log.correlates trivial, ⟨d', hd, fun hi => hh ?_⟩, hc.calls.resumes.of_only, hc.drained⟩
  rintro rfl
  exact hi hc.toClient

-- Both ends have an object of the external type, and register the service.
def testing (bar : Bytes) : Duplex where
  ends _ := {
    process := { (System.testing bar).client with manager := (System.testing bar).server.manager }
  }

theorem initial_testing {bar : Bytes} : (testing bar).Initial fun _ => External.service where
  channel _     := rfl
  manager _     := ⟨0, rfl⟩
  running _     := rfl
  held _        := rfl
  calls _       := rfl
  invocations _ := rfl
  log _         := rfl

def test (b : Bool) : Bool × Action := (b, .call External.test (some External.message) (some 0))

-- Steps of a run that can be tested for being allowed.
def ready (P : Platform) (d : Duplex) : Bool × Action → Bool
  | (b, .reply n)                  => (d.view !b).ready P (.reply n)
  | (_, .receive) | (_, .resume)   => true
  | (_, .call ..) | (_, .work _)   => false

theorem allowed_of_ready {a : Bool × Action} (h : d.ready P a) : d.Allowed P services a := by
  obtain ⟨b, _ | _ | n | _ | _⟩ := a
  case call    => contradiction
  case work    => contradiction
  case receive => trivial
  case resume  => trivial
  case reply   => exact System.proper_of_ready h

-- Both ends call the method before either of them receives anything.
def tests : List (Bool × Action) :=
  [test false, test true, (false, .receive), (true, .receive), (true, .reply 0), (false, .reply 0),
    (false, .receive), (true, .receive)]

theorem allowed_tests : AllAllowed (Allowed Salutation.platform fun _ => External.service)
    (next Salutation.platform fun _ => External.service) (testing [5]) tests := by
  refine ⟨.of_client System.proper_test rfl rfl rfl rfl rfl, ?_⟩
  rintro _ ⟨⟩
  refine ⟨.of_client System.proper_test rfl rfl rfl rfl rfl, ?_⟩
  rintro _ ⟨⟩
  refine AllAllowed.mono (fun d a => allowed_of_ready (d := d) (a := a)) ?_
  decide +kernel

theorem interleaves_tests : ∃ d, run (next Salutation.platform fun _ => External.service)
    (testing [5]) tests = some d ∧ ∀ b, (d.view b).log.length = 4 ∧ Correlates (d.view b).log := by
  have hr : (run (next Salutation.platform fun _ => External.service) (testing [5]) tests).map
      (fun d => ((d.view false).log.length, (d.view true).log.length)) = some (4, 4) := by
    decide +kernel
  obtain ⟨d, hs, hl⟩ := Option.map_eq_some_iff.mp hr
  obtain ⟨hl, hl'⟩ := Prod.mk.inj hl
  refine ⟨d, hs, fun b => ⟨by cases b; exacts [hl, hl'], ?_⟩⟩
  refine (interleaves System.inverse_platform (fun _ => ?_)
    (.run (.start initial_testing) allowed_tests hs) b).left
  decide +kernel

end ProtoCall.Duplex
