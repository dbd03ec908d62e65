import ProtoCall.Runtime.Outage.Basic

namespace ProtoCall

open Transition

namespace System

variable {C S P : Platform} {service : ServiceDescriptor} {s s' : System} {a : Action}
  {queries : List Query} {answers : List Answer}

theorem keeps_of_nextOver (ha : Allowed True service s a)
    (hs : s.nextOver C S service a = some s') : s.server.Keeps s'.server := by
  cases a
  case call => exact Option.some.inj hs ▸ .of_eq rfl rfl rfl
  case work => exact Option.some.inj hs ▸ .of_works ha.right
  case serve =>
    rw [server_of_serve hs]
    exact .receive
  case reply n =>
    simp only [nextOver, System.reply] at hs
    split at hs
    case h_1 => contradiction
    case h_2 => exact Option.some.inj hs ▸ .of_eq rfl rfl rfl
    case h_3 info _ =>
      have hk : s.server.Keeps (s.server.reply S service info).fst := .reply
      exact Option.some.inj hs ▸ ⟨hk.next, hk.types, hk.claimed⟩
  case receive =>
    simp only [nextOver, System.receive] at hs
    split at hs
    case h_1 => contradiction
    all_goals exact Option.some.inj hs ▸ .refl
  case resume =>
    obtain ⟨_, _, _, _, rfl⟩ := resume_eq_some_iff.mp hs
    exact .refl

namespace Weathers

theorem of_consistent (h : s.Consistent True P service queries answers) :
    Weathers C S P service s queries answers where
  calls    := by
    rw [only, facing, Process.facing_of_eq h.toServer, Process.facing_of_eq h.toClient]
    exact h
  toServer := fun _ => ⟨h.toServer ▸ List.prefix_refl _, fun _ => h.toServer⟩
  toClient := fun _ => ⟨h.toClient ▸ List.prefix_refl _, fun _ => h.toClient⟩

theorem besides {server : Process} (h : Weathers C S P service s queries answers)
    (hk : s.server.Keeps (s.besides server).server) :
    Weathers C S P service (s.besides server) queries answers where
  calls    := h.calls.besides ⟨hk.next, hk.types, hk.claimed⟩
  toServer := h.toServer
  toClient := h.toClient

end Weathers
end System

namespace Network

variable {ι : Type*} [DecidableEq ι]

-- A step on one of the lines, each end of which has a platform of its own.
def nextOver (C S : ι → Platform) (services : ι → ServiceDescriptor) (n : Network ι)
    (a : ι × System.Action) : Option (Network ι) :=
  ((n.view a.fst).nextOver (C a.fst) (S a.fst) (services a.fst) a.snd).map (n.put a.fst)

variable {P : Platform} {C S : ι → Platform} {services : ι → ServiceDescriptor} {n n' : Network ι}

-- Wherever connections break, what has been called is served in its order, and completed by its own
-- responses, until one of them is reached that has got lost.
theorem outlasts (hP : P.Inverse) (hC : ∀ i, (C i).Breaks P) (hS : ∀ i, (S i).Breaks P)
    (hn : ∀ i, (services i).ids.Nodup)
    (h : Reachable (Initial services) (Each fun i => System.Proper P (services i))
      (nextOver C S services) n) (i : ι) :
    Correlates (n.view i).log ∧ (n.view i).Endures (C i) (S i) ∧ (n.view i).Resumes := by
  have hI : ∀ i, ∃ queries answers,
      (n.view i).Weathers (C i) (S i) P (services i) queries answers := by
    refine h.invariant (I := fun n => ∀ i, ∃ queries answers,
      (n.view i).Weathers (C i) (S i) P (services i) queries answers)
      (fun n hi i => ⟨_, _, .of_consistent <| hi.consistent i⟩) fun n ⟨i, a⟩ n' hi ha hs j => ?_
    obtain ⟨s, hstep, rfl⟩ := Option.map_eq_some_iff.mp hs
    by_cases he : j = i
    case pos =>
      subst he
      obtain ⟨queries, answers, hw⟩ := hi j
      rw [view_put_self]
      exact hw.next (hC j) (hS j) hP (hn j) ha hstep
    case neg =>
      obtain ⟨queries, answers, hw⟩ := hi j
      have hk := System.keeps_of_nextOver ha.counted.left hstep
      rw [view_put_of_ne he]
      exact ⟨_, _, hw.besides ⟨hk.next, hk.types, hk.claimed⟩⟩
  obtain ⟨queries, answers, hw⟩ := hI i
  exact ⟨hw.calls.log.correlates trivial, hw.endures (hC i) (hS i) hP.toReliable (hn i),
    hw.calls.resumes.of_only⟩

-- The link breaks after the first item that is sent over it.
def frail : Platform := { Salutation.platform with sendOk := fun n => n < 1 }

theorem breaks_frail : frail.Breaks Salutation.platform where
  sendOk m n hl := by
    simp only [frail, Bool.le_iff_imp, decide_eq_true_eq]
    omega
  receiveOk     := antitone_const
  size          := rfl
  serialize     := rfl
  deserialize   := rfl

theorem breaks_platform : Salutation.platform.Breaks Salutation.platform where
  sendOk      := antitone_const
  receiveOk   := antitone_const
  size        := rfl
  serialize   := rfl
  deserialize := rfl

def severed : Bool → Platform
  | false => frail
  | true  => Salutation.platform

-- One of the clients loses its connection between a request and the object that belongs to it.
def outage : List (Bool × System.Action) :=
  (false, System.test) :: (true, System.test) :: [(false, .serve), (false, .receive),
    (true, .serve), (false, .serve), (true, .reply 0), (true, .receive)]

theorem allowed_outage : AllAllowed
    (Each fun _ => System.Proper Salutation.platform External.service)
    (nextOver severed (fun _ => Salutation.platform) fun _ => External.service) (testing [5])
    outage := by
  refine ⟨.of_client System.proper_test rfl rfl rfl rfl rfl, ?_⟩
  rintro _ ⟨⟩
  refine ⟨.of_client System.proper_test rfl rfl rfl rfl rfl, ?_⟩
  rintro _ ⟨⟩
  refine AllAllowed.mono (fun n a => System.proper_of_ready (s := n.view a.fst) (a := a.snd)) ?_
  decide +kernel

theorem outlasts_outage : ∃ n,
    run (nextOver severed (fun _ => Salutation.platform) fun _ => External.service) (testing [5])
      outage = some n ∧ (n.view false).log.length = 1 ∧ (n.view true).log.length = 4 ∧
      ∀ i, Correlates (n.view i).log := by
  have hr : (run (nextOver severed (fun _ => Salutation.platform) fun _ => External.service)
      (testing [5]) outage).map (fun n =>
        ((n.view false).log.length, (n.view true).log.length)) = some (1, 4) := by
    decide +kernel
  obtain ⟨n, hs, hl⟩ := Option.map_eq_some_iff.mp hr
  obtain ⟨hl, hl'⟩ := Prod.mk.inj hl
  refine ⟨n, hs, hl, hl', fun i => ?_⟩
  have hb : ∀ i, (severed i).Breaks Salutation.platform := by
    intro i
    cases i
    case false => exact breaks_frail
    case true  => exact breaks_platform
  refine (outlasts System.inverse_platform hb (fun _ => breaks_platform) (fun _ => ?_)
    (.run (.start initial_testing) allowed_outage hs) i).left
  decide +kernel

end Network
end ProtoCall
