import ProtoCall.Runtime.Network.Basic

namespace ProtoCall

open Transition

-- What the other lines rely on when the server does something: their dispatchers stay where they
-- are, and so do the objects that there have been, with their types.
structure Process.Keeps (p p' : Process) : Prop where
  next    : p.next ≤ p'.next
  types   : ∀ r < p.next, (p'.responses r).type = (p.responses r).type
  claimed : ∀ d, p.manager.Claimed d → p'.manager.Claimed d

namespace Process.Keeps

variable {P : Platform} {p p' : Process} {q : Query} {rest : List Item} {invocation : Invocation}

theorem of_eq (hn : p'.next = p.next) (hr : p'.responses = p.responses)
    (hm : p'.manager = p.manager) : p.Keeps p' where
  next        := hn.ge
  types _ _   := hr ▸ rfl
  claimed _ h := hm ▸ h

theorem of_invokes (h : Invokes P q p rest p' invocation) : p.Keeps p' where
  next         := h.next.le
  types r hr   := congrArg (fun m : Message => m.type) <| h.responses r hr
  claimed _ hd := h.manager ▸ hd.lookup

theorem of_works {own : Prop} (h : System.Works own p p') : p.Keeps p' where
  next         := h.next
  types        := h.types
  claimed _ hd := by
    rw [h.process]
    exact hd

end Process.Keeps

namespace System.Consistent

variable {own : Prop} {P : Platform} {service : ServiceDescriptor} {s s' : System}
  {queries : List Query} {answers : List Answer} {a : Action} {server : Process}

-- Whatever is done on a line, the server keeps what the others rely on.
theorem keeps (h : Consistent own P service s queries answers) (hP : P.Reliable)
    (hn : service.ids.Nodup) (ha : Allowed own service s a)
    (hs : s.next P service a = some s') : s.server.Keeps s'.server := by
  cases a
  case call => exact Option.some.inj hs ▸ .of_eq rfl rfl rfl
  case resume =>
    obtain ⟨_, _, _, _, rfl⟩ := resume_eq_some_iff.mp hs
    exact .of_eq rfl rfl rfl
  case work => exact Option.some.inj hs ▸ .of_works ha.right
  case receive =>
    simp only [System.next, System.receive] at hs
    split at hs
    case h_1 => contradiction
    all_goals exact Option.some.inj hs ▸ .of_eq rfl rfl rfl
  case serve =>
    cases queries
    case nil =>
      have hl := Process.receiveMessage_nil (P := P) h.toServer
      have he := Process.receive_of_none (congrArg Prod.fst hl)
      simp only [System.next, System.serve, he, Option.some.injEq] at hs
      subst hs
      exact { next := Nat.le_succ _, types := fun _ _ => rfl, claimed := fun _ hd => hd }
    case cons q queries =>
      obtain ⟨p', invocation, he, hi⟩ := h.receive_query hP hn
      simp only [System.next, System.serve, he, Option.some.injEq] at hs
      subst hs
      exact .of_invokes hi
  case reply n =>
    simp only [System.next, System.reply] at hs
    rcases hh : s.held[n]? with _ | ⟨call, info | _⟩ <;>
      simp only [hh, Option.some.injEq] at hs
    case none => contradiction
    case doNothing => exact hs ▸ .of_eq rfl rfl rfl
    case reply =>
      obtain ⟨method, hheld⟩ := h.held call info <| List.mem_of_getElem? hh
      have hfull := ha call info hh
      rw [hheld.type] at hfull
      obtain ⟨_, -, hr⟩ := Process.reply_replies (p := s.server) call hP hheld.listed
        ⟨hheld.type, hfull⟩
      exact hs ▸ .of_eq hr.next hr.responses hr.manager

theorem besides (h : Consistent own P service s queries answers)
    (hk : s.server.Keeps (s.besides server).server) :
    Consistent own P service (s.besides server) queries answers where
  toServer          := h.toServer
  toClient          := h.toClient
  client            := h.client
  server            := h.server
  claimed           := by
    obtain ⟨d, hd, hc⟩ := h.claimed
    exact ⟨d, hd, hk.claimed d hc⟩
  numbers           := h.numbers
  calls             := h.calls
  query             := h.query
  answer            := h.answer
  running           := h.running
  distinct          := h.distinct
  ledger            := h.ledger
  log               := h.log
  held call info hm := by
    obtain ⟨method, hh⟩ := h.held call info hm
    exact ⟨method, hh.spares (.of_eq rfl rfl) hk.types hk.next⟩

end System.Consistent

namespace Network

variable {ι : Type*} {own : Prop} {P : Platform} {services : ι → ServiceDescriptor}
  {n n' : Network ι}

-- What a line knows is kept by its own steps, which keep what the others rely on, and by whatever
-- keeps what it relies on itself.
theorem forall_view_next [DecidableEq ι] {I : ι → System → Prop}
    {allowed : ι → System → System.Action → Prop} {a : ι × System.Action}
    (hown : ∀ i s a s', I i s → allowed i s a → s.next P (services i) a = some s' →
      I i s' ∧ s.server.Keeps s'.server)
    (hother : ∀ i s server, I i s → s.server.Keeps (s.besides server).server →
      I i (s.besides server))
    (h : ∀ i, I i (n.view i)) (ha : Each allowed n a) (hs : n.next P services a = some n') (j : ι) :
    I j (n'.view j) := by
  obtain ⟨i, a⟩ := a
  obtain ⟨s, hstep, rfl⟩ := Option.map_eq_some_iff.mp hs
  obtain ⟨hi, hk⟩ := hown i _ a s (h i) ha hstep
  by_cases he : j = i
  case pos =>
    subst he
    rwa [view_put_self]
  case neg =>
    rw [view_put_of_ne he]
    exact hother j _ _ (h j) ⟨hk.next, hk.types, hk.claimed⟩

theorem forall_view [DecidableEq ι] {I : ι → System → Prop}
    {allowed : ι → System → System.Action → Prop}
    (hinit : ∀ n, Initial services n → ∀ i, I i (n.view i))
    (hown : ∀ i s a s', I i s → allowed i s a → s.next P (services i) a = some s' →
      I i s' ∧ s.server.Keeps s'.server)
    (hother : ∀ i s server, I i s → s.server.Keeps (s.besides server).server →
      I i (s.besides server))
    (h : Reachable (Initial services) (Each allowed) (next P services) n) (i : ι) :
    I i (n.view i) :=
  h.invariant (I := fun n => ∀ i, I i (n.view i)) hinit
    (fun _ _ _ => forall_view_next hown hother) i

theorem claimed_foldl {mgr : ServiceManager Dispatcher} {d : Dispatcher} {ds : List Dispatcher}
    (hd : ds.Pairwise fun d d' => d.service.ids.Disjoint d'.service.ids)
    (hn : ∀ id ∈ d.service.ids, mgr.dispatcherMap.lookup id = none) (hm : d ∈ ds) :
    (ds.foldl .registerService mgr).Claimed d := by
  induction ds generalizing mgr
  case nil => contradiction
  case cons d' ds hi =>
    obtain ⟨hd', hd⟩ := List.pairwise_cons.mp hd
    have hl {id : ℤ} (hid : id ∈ d.service.ids) :
        (mgr.registerService d').dispatcherMap.lookup id =
          if id ∈ d'.service.ids then some (some d') else none := by
      rw [ServiceManager.lookup_registerService, hn id hid]
      rfl
    rcases List.mem_cons.mp hm with rfl | hm
    case inl =>
      have hc : (mgr.registerService d).Claimed d := fun id hid => (hl hid).trans <| if_pos hid
      rw [List.foldl_cons]
      exact List.foldlRecOn (motive := fun mgr => ServiceManager.Claimed mgr d) ds _ hc
        fun _ hc _ _ => hc.registerService
    case inr =>
      exact hi hd (fun id hid => (hl hid).trans <| if_neg fun h => hd' d hm h hid) hm

theorem Initial.consistent (h : Initial services n) (i : ι) :
    (n.view i).Consistent own P (services i) [] [] := by
  obtain ⟨client, hc, hl⟩ := h.line i
  obtain ⟨ds, hm, hd, hs⟩ := h.manager
  obtain ⟨d, hmem, hds⟩ := hs i
  exact {
    toServer := by simp [view, hl]
    toClient := by simp [view, hl, hc]
    client   := by simp [view, hl, hc]
    server   := by simp [view, hl]
    claimed  := ⟨d, hds, hm ▸ claimed_foldl hd (fun _ _ => rfl) hmem⟩
    numbers  := by simp [view, hl]
    calls    := by simp [view, hl]
    query    := nofun
    held     := by simp [view, hl]
    answer   := nofun
    running  := by simp [view, hl]
    distinct := by simp [System.waiting, view, hl]
    ledger   := .empty (by simp [view, hl, hc]) (by simp [view, hl, hc])
    log      := {
      called     := by simp [view, hl]
      invoked    := by simp [view, hl]
      completed  := by simp [view, hl]
      unfinished := by simp [view, hl]
      correlates := fun _ => by
        simp only [view, hl]
        exact .nil
    }
  }

section Run

variable [DecidableEq ι] (hP : P.Inverse) (hn : ∀ i, (services i).ids.Nodup)
include hP hn

theorem consistent_next {a : ι × System.Action}
    (h : ∀ i, ∃ queries answers, (n.view i).Consistent True P (services i) queries answers)
    (ha : Each (fun i => System.Proper P (services i)) n a)
    (hs : n.next P services a = some n') (i : ι) :
    ∃ queries answers, (n'.view i).Consistent True P (services i) queries answers := by
  refine forall_view_next
    (I := fun i s => ∃ queries answers, s.Consistent True P (services i) queries answers)
    (fun i s a s' hi ha hs => ?_) (fun i s server hi hk => ?_) h ha hs i
  case refine_1 =>
    obtain ⟨queries, answers, hc⟩ := hi
    exact ⟨hc.next hP.toReliable (fun _ => hP) (hn i) (hc.drains_of_proper ha)
      (fun _ => ha.sized) hs, hc.keeps hP.toReliable (hn i) ha.counted.left hs⟩
  case refine_2 =>
    obtain ⟨queries, answers, hc⟩ := hi
    exact ⟨_, _, hc.besides hk⟩

variable (h : Reachable (Initial services) (Each fun i => System.Proper P (services i))
  (next P services) n)
include h

theorem consistent (i : ι) :
    ∃ queries answers, (n.view i).Consistent True P (services i) queries answers :=
  h.invariant (I := fun n => ∀ i, ∃ queries answers,
    (n.view i).Consistent True P (services i) queries answers)
    (fun _ hi i => ⟨_, _, hi.consistent i⟩) (fun _ _ _ => consistent_next hP hn) i

-- In whatever order the clients call, and the server gets to it, each of them finds things as if it
-- was the only one.
theorem isolates (i : ι) :
    Correlates (n.view i).log ∧ (n.view i).Advances P ∧ (n.view i).Resumes ∧
      (n.view i).Drained := by
  obtain ⟨queries, answers, hc⟩ := consistent hP hn h i
  exact ⟨hc.log.correlates trivial, hc.advances hP.toReliable (hn i), hc.resumes, hc.drained⟩

end Run

-- The clients of one server, each with an object of the external type.
def testing (bar : Bytes) : Network ι where
  server := (System.testing bar).server
  line _ := { client := (System.testing bar).client }

theorem initial_testing {bar : Bytes} :
    (testing bar : Network ι).Initial fun _ => External.service where
  line _  := ⟨_, rfl, rfl⟩
  manager := ⟨[External.dispatcher 0], rfl, List.pairwise_singleton ..,
    fun _ => ⟨_, List.mem_singleton_self _, rfl⟩⟩

def serving : List (Bool × System.Action) :=
  [(true, .serve), (false, .serve), (false, .reply 0), (true, .reply 0), (true, .receive),
    (false, .receive)]

-- Two clients call the method at the same time.
def tests : List (Bool × System.Action) := (false, System.test) :: (true, System.test) :: serving

theorem allowed_tests : AllAllowed
    (Each fun _ => System.Proper Salutation.platform External.service)
    (next Salutation.platform fun _ => External.service) (testing [5]) tests := by
  refine ⟨.of_client System.proper_test rfl rfl rfl rfl rfl, ?_⟩
  rintro _ ⟨⟩
  refine ⟨.of_client System.proper_test rfl rfl rfl rfl rfl, ?_⟩
  rintro _ ⟨⟩
  refine AllAllowed.mono (fun n a => System.proper_of_ready (s := n.view a.fst) (a := a.snd)) ?_
  decide +kernel

-- A server with two services. The second one has a method that leaves its entry behind, which is not
-- called.
def offered : Bool → ServiceDescriptor
  | false => External.service
  | true  => Salutation.service

def offering : Network Bool where
  server.manager :=
    .registerService (.registerService {} (External.dispatcher 0)) (Salutation.dispatcher 1)
  line
    | false => { client := (System.testing [5]).client }
    | true  => { client := System.salutation.client }

theorem initial_offering : offering.Initial offered where
  line
    | false => ⟨_, rfl, rfl⟩
    | true  => ⟨_, rfl, rfl⟩
  manager := by
    refine ⟨[External.dispatcher 0, Salutation.dispatcher 1], rfl, ?_, ?_⟩
    case refine_1 =>
      have hd : ∀ id ∈ External.service.ids, id ∉ Salutation.service.ids := by decide +kernel
      exact List.pairwise_pair.mpr hd
    case refine_2 =>
      rintro (_ | _)
      case false => exact ⟨_, List.mem_cons_self .., rfl⟩
      case true  => exact ⟨_, List.mem_cons_of_mem _ <| List.mem_singleton_self _, rfl⟩

def greetings : List (Bool × System.Action) :=
  (false, System.test) :: (true, System.sayHello) :: serving

theorem allowed_greetings : AllAllowed
    (Each fun i => System.Proper Salutation.platform (offered i))
    (next Salutation.platform offered) offering greetings := by
  refine ⟨.of_client System.proper_test rfl rfl rfl rfl rfl, ?_⟩
  rintro _ ⟨⟩
  refine ⟨.of_client System.proper_sayHello rfl rfl rfl rfl rfl, ?_⟩
  rintro _ ⟨⟩
  refine AllAllowed.mono (fun n a => System.proper_of_ready (s := n.view a.fst) (a := a.snd)) ?_
  decide +kernel

theorem isolates_greetings : ∃ n,
    run (next Salutation.platform offered) offering greetings = some n ∧
      ∀ i, (n.view i).log.length = 4 ∧ Correlates (n.view i).log := by
  have hr : (run (next Salutation.platform offered) offering greetings).map
      (fun n => ((n.view false).log.length, (n.view true).log.length)) = some (4, 4) := by
    decide +kernel
  obtain ⟨n, hs, hl⟩ := Option.map_eq_some_iff.mp hr
  obtain ⟨hl, hl'⟩ := Prod.mk.inj hl
  refine ⟨n, hs, fun i => ⟨by cases i; exacts [hl, hl'], ?_⟩⟩
  refine (isolates System.inverse_platform (fun i => ?_)
    (.run (.start initial_offering) allowed_greetings hs) i).left
  cases i <;> decide +kernel

end Network
end ProtoCall
