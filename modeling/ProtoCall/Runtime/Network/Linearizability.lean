import ProtoCall.Library.Linearizability
import ProtoCall.Runtime.Network.Isolation

namespace ProtoCall

open Transition Linearizability

-- What a service is an object of: its operations are the methods with their inputs.
abbrev ServiceObject (σ : Type*) := Object σ (MethodDescriptor × Option Value) (Value × ErrorHolder)

-- The calls are known by the client that makes them and their number.
abbrev Moment (ι : Type*) :=
  Linearizability.Event (ι × ℕ) (MethodDescriptor × Option Value) (Value × ErrorHolder)

-- The clients do not see when the service runs a closure.
def Note.moment? {ι : Type*} (i : ι) : Note → Option (Moment ι)
  | called call method input     => some <| .call (i, call) (method, input)
  | invoked call method input    => some <| .take (i, call) (method, input)
  | replied _ _ _                => none
  | completed call output error  => some <| .answer (i, call) (output, error)

namespace System

-- What is noted when an action is taken.
inductive Noted (s : System) : Action → Note → Prop
  | called {method : MethodDescriptor} {input : Option Message} {output : Option Ref} :
    Noted s (.call method input output)
      (.called s.calls method <| input.map (·.value s.client.heap))
  | invoked {method : MethodDescriptor} {input : Option Value} :
    Noted s .serve (.invoked s.invocations method input)
  | replied {n call : ℕ} {info : ReplyInfo} (held : s.held[n]? = some (call, .reply info)) :
    Noted s (.reply n) (.replied call ((s.server.responses info.response).value s.server.heap)
      (s.server.responses info.response).error)
  | completed {call : ℕ} {output : Value} {error : ErrorHolder} :
    Noted s .receive (.completed call output error)

variable {P : Platform} {service : ServiceDescriptor} {s s' : System} {a : Action}

theorem log_of_next (hs : s.next P service a = some s') :
    s'.log = s.log ∨ ∃ note, s.Noted a note ∧ s'.log = s.log ++ [note] := by
  cases a <;> simp only [System.next] at hs
  case call => exact .inr ⟨_, .called, Option.some.inj hs ▸ rfl⟩
  case work => exact .inl <| Option.some.inj hs ▸ rfl
  case serve =>
    rw [serve] at hs
    split at hs
    case h_1 => contradiction
    case h_2 => cases hs; exact .inr ⟨_, .invoked, rfl⟩
    case h_3 => exact .inl <| Option.some.inj hs ▸ rfl
  case reply n =>
    rw [System.reply] at hs
    split at hs
    case h_1 => contradiction
    case h_2 => exact .inl <| Option.some.inj hs ▸ rfl
    case h_3 hh => exact .inr ⟨_, .replied hh, Option.some.inj hs ▸ rfl⟩
  case receive =>
    rw [receive] at hs
    split at hs
    case h_1 => contradiction
    case h_2 => cases hs; exact .inr ⟨_, .completed, rfl⟩
    case h_3 => exact .inl <| Option.some.inj hs ▸ rfl
  case resume =>
    obtain ⟨_, _, _, _, rfl⟩ := resume_eq_some_iff.mp hs
    exact .inl rfl

end System

namespace Network

-- A network, and what can be seen of the calls of all clients, in the order in which it happens.
structure Observed (ι : Type*) where
  network : Network ι := {}
  history : List (Moment ι) := []

namespace Observed

variable {ι σ : Type*}

def next [DecidableEq ι] (P : Platform) (services : ι → ServiceDescriptor) (x : Observed ι)
    (a : ι × System.Action) : Option (Observed ι) :=
  (x.network.next P services a).map fun network => {
    network
    history := x.history ++ ((network.view a.fst).log.drop
      (x.network.view a.fst).log.length).filterMap (Note.moment? a.fst)
  }

-- The service is one object for all of its clients: when it runs a closure, the response is the one
-- that the object had for the operation when the service was invoked with it.
def Performs (o : ServiceObject σ) (x : Observed ι) : ι × System.Action → Prop
  | (i, .reply n) => ∀ call info, (x.network.view i).held[n]? = some (call, .reply info) →
    ∃ op, ((i, call), op, ((x.network.server.responses info.response).value x.network.server.heap,
      (x.network.server.responses info.response).error)) ∈ o.play o.init (taken x.history)
  | _             => True

structure Initial (services : ι → ServiceDescriptor) (x : Observed ι) : Prop where
  network : x.network.Initial services
  history : x.history = []

-- What is in the history is in the logs of the lines, and what has been replied is what the object
-- has computed. The calls of a client are taken in the order in which it has made them.
structure Recorded (o : ServiceObject σ) (x : Observed ι) : Prop where
  logged  : ∀ i note e, note.moment? i = some e →
    (e ∈ x.history ↔ note ∈ (x.network.view i).log)
  replied : ∀ i call output error, .replied call output error ∈ (x.network.view i).log →
    ∃ op, ((i, call), op, (output, error)) ∈ o.play o.init (taken x.history)
  atomic  : Atomic o x.history
  inOrder : ((taken x.history).map Prod.fst).Pairwise fun id id' =>
    id.fst = id'.fst → id.snd < id'.snd

namespace Recorded

variable {o : ServiceObject σ} {x x' : Observed ι} {i j : ι} {note note' : Note} {e : Moment ι}

theorem moment?_inj (h : note.moment? i = some e) (h' : note'.moment? j = some e) :
    j = i ∧ note' = note := by
  cases note <;> cases note' <;> cases h <;> cases h' <;> exact ⟨rfl, rfl⟩

theorem initial {services : ι → ServiceDescriptor} (h : x.Initial services) : x.Recorded o where
  logged i _ _ _    := by
    obtain ⟨_, -, hl⟩ := h.network.line i
    simp [h.history, view, hl]
  replied i _ _ _ hm := by
    obtain ⟨_, -, hl⟩ := h.network.line i
    simp [view, hl] at hm
  atomic            := h.history ▸ .nil
  inOrder           := h.history ▸ .nil

theorem congr (h : x.Recorded o) (hh : x'.history = x.history)
    (hl : ∀ j, (x'.network.view j).log = (x.network.view j).log) : x'.Recorded o where
  logged i note e he := by rw [hh, hl, h.logged i note e he]
  replied i _ _ _ hm := by
    rw [hl] at hm
    exact hh ▸ h.replied i _ _ _ hm
  atomic             := hh ▸ h.atomic
  inOrder            := hh ▸ h.inOrder

-- Another note on one of the lines.
theorem append [DecidableEq ι] (h : x.Recorded o)
    (hh : x'.history = x.history ++ (note.moment? i).toList)
    (hl : ∀ j, (x'.network.view j).log =
      if j = i then (x.network.view i).log ++ [note] else (x.network.view j).log)
    (hj : ∀ e, note.moment? i = some e → e.Justified o x.history)
    (hr : ∀ call output error, note = .replied call output error →
      ∃ op, ((i, call), op, (output, error)) ∈ o.play o.init (taken x.history))
    (ho : ∀ call method input, note = .invoked call method input →
      ∀ id ∈ (taken x.history).map Prod.fst, id.fst = i → id.snd < call) : x'.Recorded o where
  logged j note' e he := by
    rw [hh, List.mem_append, Option.mem_toList, h.logged j note' e he, hl]
    split
    case isTrue hji =>
      subst hji
      rw [List.mem_append, List.mem_singleton]
      exact or_congr_right ⟨fun hn => (moment?_inj hn he).right, fun hn => hn ▸ he⟩
    case isFalse hji =>
      exact or_iff_left fun hn => hji (moment?_inj hn he).left
  replied j call output error hm := by
    rw [hh]
    rw [hl] at hm
    split at hm
    case isFalse => exact (h.replied j _ _ _ hm).imp fun _ => mem_play_append
    case isTrue hji =>
      subst hji
      rcases List.mem_append.mp hm with hm | hm
      case inl => exact (h.replied j _ _ _ hm).imp fun _ => mem_play_append
      case inr => exact (hr _ _ _ (List.mem_singleton.mp hm).symm).imp fun _ => mem_play_append
  atomic := by
    rw [hh]
    cases hn : note.moment? i
    case none   => simpa using h.atomic
    case some e => exact h.atomic.concat <| hj e hn
  inOrder := by
    rw [hh, taken_append, List.map_append]
    cases note
    case invoked call method input =>
      refine List.pairwise_append.mpr ⟨h.inOrder, List.pairwise_singleton .., ?_⟩
      rintro id hm _ (_ | ⟨_, ⟨⟩⟩)
      exact ho call method input rfl id hm
    all_goals simpa [Note.moment?, taken] using h.inOrder

-- What a line of the log has to come after, it comes after in the history.
theorem justified (h : x.Recorded o) (hn : note.Justified (x.network.view i).log)
    (he : note.moment? i = some e) : e.Justified o x.history := by
  cases note
  case called call method input =>
    cases he
    exact fun op hm => hn op.fst op.snd <| (h.logged i (.called call op.fst op.snd) _ rfl).mp hm
  case invoked call method input =>
    cases he
    exact ⟨(h.logged i _ _ rfl).mpr hn.left,
      fun op hm => hn.right op.fst op.snd <| (h.logged i (.invoked call op.fst op.snd) _ rfl).mp hm⟩
  case replied => contradiction
  case completed call output error =>
    cases he
    exact h.replied i call output error hn.left

theorem next [DecidableEq ι] {P : Platform} {services : ι → ServiceDescriptor}
    {a : ι × System.Action} (h : x.Recorded o) (hp : x.Performs o a)
    (hs : x.next P services a = some x') (hc : Correlates (x'.network.view a.fst).log)
    (hi : ∀ call method input, .invoked call method input ∈ (x.network.view a.fst).log →
      call < (x.network.view a.fst).invocations) : x'.Recorded o := by
  obtain ⟨i, a⟩ := a
  obtain ⟨_, hn, rfl⟩ := Option.map_eq_some_iff.mp hs
  obtain ⟨s', hs', rfl⟩ := Option.map_eq_some_iff.mp hn
  simp only [view_put_self] at hc ⊢
  have hl (j : ι) : ((x.network.put i s').view j).log =
      if j = i then s'.log else (x.network.view j).log := by
    split
    case isTrue hji  => rw [hji, view_put_self]
    case isFalse hji => rw [view_put_of_ne hji]; rfl
  rcases System.log_of_next hs' with he | ⟨note, hnote, he⟩
  case inl =>
    refine h.congr (by simp [he]) fun j => (hl j).trans ?_
    split
    case isTrue hji  => rw [he, hji]
    case isFalse hji => rfl
  case inr =>
    simp only [he] at hc hl ⊢
    refine h.append ?_ hl
      (fun e => h.justified <| hc _ note [] rfl) ?_ ?_
    case refine_1 =>
      rw [List.drop_left]
      cases note <;> rfl
    case refine_2 =>
      rintro call output error rfl
      cases hnote
      case replied hh => exact hp _ _ hh
    case refine_3 =>
      rintro call method input rfl ⟨_, call'⟩ hm rfl
      cases hnote
      obtain ⟨⟨_, op⟩, hm, he⟩ := List.mem_map.mp hm
      cases he
      exact hi call' op.fst op.snd <|
        (h.logged _ (.invoked call' op.fst op.snd) _ rfl).mp <| mem_taken.mp hm

end Recorded

theorem network_next [DecidableEq ι] {P : Platform} {services : ι → ServiceDescriptor}
    {x x' : Observed ι} {a : ι × System.Action} (hs : x.next P services a = some x') :
    x.network.next P services a = some x'.network := by
  obtain ⟨n', hn, rfl⟩ := Option.map_eq_some_iff.mp hs
  exact hn

-- Many clients and a server with one channel for each of them are as good as the service itself,
-- used by one after the other.
theorem linearizable [DecidableEq ι] {P : Platform} {services : ι → ServiceDescriptor}
    {x : Observed ι} (o : ServiceObject σ) (hP : P.Inverse) (hn : ∀ i, (services i).ids.Nodup)
    (h : Reachable (Initial services) (fun x a =>
      Each (fun i => System.Proper P (services i)) x.network a ∧ x.Performs o a)
      (next P services) x) :
    ∃ order, Linearizes o x.history order ∧
      (order.map Prod.fst).Pairwise fun id id' => id.fst = id'.fst → id.snd < id'.snd := by
  have hr : x.Recorded o := by
    refine (h.invariant (I := fun x => Reachable (Network.Initial services)
      (Each fun i => System.Proper P (services i)) (Network.next P services) x.network ∧ x.Recorded o)
      (fun x hi => ⟨.start hi.network, .initial hi⟩) fun x a x' hi ha hs => ?_).right
    have hr' := hi.left.step ha.left <| network_next hs
    obtain ⟨queries, answers, hc⟩ := consistent hP hn hi.left a.fst
    exact ⟨hr', hi.right.next ha.right hs (isolates hP hn hr' a.fst).left hc.log.invoked⟩
  refine ⟨_, hr.atomic.linearizes, ?_⟩
  rw [Object.ids_play]
  exact hr.inOrder

-- It can be tested whether the object would reply like this.
def performed [DecidableEq ι] (o : ServiceObject σ) (x : Observed ι) : ι × System.Action → Bool
  | (i, .reply n) => (x.network.view i).held[n]?.all fun
    | (call, .reply info) =>
      let response := x.network.server.responses info.response
      (o.play o.init (taken x.history)).any fun y =>
        y.fst = (i, call) ∧ y.snd.snd = (response.value x.network.server.heap, response.error)
    | (_, .doNothing)     => true
  | _             => true

theorem performs_of_performed [DecidableEq ι] {o : ServiceObject σ} {x : Observed ι}
    {a : ι × System.Action} (h : x.performed o a) : x.Performs o a := by
  obtain ⟨i, a⟩ := a
  cases a
  case reply n =>
    intro call info hh
    simp only [performed, hh, Option.all_some, List.any_eq_true, decide_eq_true_eq] at h
    obtain ⟨⟨_, op, _⟩, hm, rfl, rfl⟩ := h
    exact ⟨op, hm⟩
  all_goals trivial

-- It counts what it is asked, and has nothing to say.
def counting : ServiceObject ℕ where
  init     := 0
  step n x := (n + 1, ((Message.new x.fst.outputType).value .empty, {}))

def watching : Observed Bool where
  network := testing [5]

theorem linearizable_tests :
    ∃ x, run (next Salutation.platform fun _ => External.service) watching tests = some x ∧
      x.history.length = 6 ∧ ∃ order, Linearizes counting x.history order ∧
        (order.map Prod.fst).Pairwise fun id id' => id.fst = id'.fst → id.snd < id'.snd := by
  have hr : (run (next Salutation.platform fun _ => External.service) watching tests).map
      (·.history.length) = some 6 := by
    decide +kernel
  obtain ⟨x, hs, hl⟩ := Option.map_eq_some_iff.mp hr
  have ha : AllAllowed (fun x => Performs counting x)
      (next Salutation.platform fun _ => External.service) watching tests := by
    refine AllAllowed.mono (fun _ _ => performs_of_performed) ?_
    decide +kernel
  refine ⟨x, hs, hl, ?_⟩
  refine linearizable counting System.inverse_platform (fun _ => ?_)
    (.run (.start ⟨initial_testing, rfl⟩)
      ((AllAllowed.comap (f := network) allowed_tests fun _ _ _ => network_next).and ha) hs)
  decide +kernel

end Observed
end Network
end ProtoCall
