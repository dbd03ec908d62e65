import Mathlib.Data.List.ReduceOption
import ProtoCall.Runtime.Message

namespace ProtoCall.Zmq

inductive SocketType
  | pair | pub | sub | req | rep | dealer | router | pull | push | xpub | xsub
  deriving DecidableEq

-- The receiving end of a socket: the frames that have come and not been read, and how often reading
-- one has been tried.
structure Socket where
  type     : SocketType
  frames   : List Bytes := []
  attempts : ℕ := 0
  deriving DecidableEq

-- The data frames of the messages that come right before the n-th attempt.
abbrev Arrivals := ℕ → List Bytes

-- On a socket that is neither REQ nor REP a message is an empty frame and a data frame.
def messages (ms : List Bytes) : List Bytes := ms.flatMap fun m => [[], m]

-- `zmq_msg_recv` with `ZMQ_DONTWAIT`: the next frame, or `EAGAIN`.
def zmqMsgRecv (arrivals : Arrivals) (s : Socket) : Option Bytes × Socket :=
  let attempts := s.attempts + 1
  match s.frames ++ messages (arrivals s.attempts) with
  | []             => (none, { s with attempts })
  | frame :: frames => (some frame, { s with attempts, frames })

-- The loop of `async_recv`, with the number of tries that are left.
def asyncRecvLoop (arrivals : Arrivals) : ℕ → Socket → Option Bytes × Socket
  | 0, s         => (none, s)
  | tries + 1, s =>
    match zmqMsgRecv arrivals s with
    | (some frame, s) => (some frame, s)
    | (none, s)       => asyncRecvLoop arrivals tries s

-- The number of tries, as `async_recv` has it.
def maxTries : ℕ := 5

def asyncRecv (arrivals : Arrivals) (s : Socket) : Option Bytes × Socket :=
  asyncRecvLoop arrivals maxTries s

def isNotReqRepSocket (s : Socket) : Bool :=
  s.type ≠ .req && s.type ≠ .rep

-- What both `receive(rpc::Message *)` and `receive(RpcVoidData *)` do: what the first read comes to
-- is not looked at.
def receiveData (arrivals : Arrivals) (s : Socket) : Option Bytes × Socket :=
  let s := if isNotReqRepSocket s then (asyncRecv arrivals s).snd else s
  asyncRecv arrivals s

-- The two overloads of `receive` that are of interest here, with the data frame that they work on.
inductive Call
  | message
  | voidData

def receive (arrivals : Arrivals) : Call → Socket → Option Bytes × Socket
  | .message  => receiveData arrivals
  | .voidData => receiveData arrivals

-- What each of a number of calls comes to, and what is left of the socket.
def run (arrivals : Arrivals) : List Call → Socket → List (Option Bytes) × Socket
  | [], s      => ([], s)
  | c :: cs, s =>
    let (result, s) := receive arrivals c s
    let (results, s) := run arrivals cs s
    (result :: results, s)

-- The messages that come from the n-th attempt on, for k attempts.
def coming (arrivals : Arrivals) (n k : ℕ) : List Bytes := (List.range' n k).flatMap arrivals

-- The frames that are there, and those that come before the socket has become `s'`.
def due (arrivals : Arrivals) (s s' : Socket) : List Bytes :=
  s.frames ++ messages (coming arrivals s.attempts (s'.attempts - s.attempts))

-- A call takes the oldest message, or nothing at all.
def Whole (arrivals : Arrivals) (c : Call) (s : Socket) : Prop :=
  match receive arrivals c s with
  | (some data, s') => due arrivals s s' = [] :: data :: s'.frames
  | (none, s')      => s'.frames = due arrivals s s'

-- A message is there, or one comes while the empty frame is waited for, or none comes while the data
-- frame is.
def Timely (arrivals : Arrivals) (s : Socket) : Prop :=
  s.frames ≠ [] ∨ coming arrivals s.attempts maxTries ≠ [] ∨
    coming arrivals (s.attempts + maxTries) maxTries = []

variable {arrivals : Arrivals} {s s' : Socket} {ms : List Bytes} {m frame : Bytes} {n k tries : ℕ}

theorem messages_append {ms' : List Bytes} : messages (ms ++ ms') = messages ms ++ messages ms' :=
  List.flatMap_append

theorem messages_cons : messages (m :: ms) = [] :: m :: messages ms := rfl

theorem messages_injective : Function.Injective messages := by
  intro ms ms' h
  induction ms generalizing ms'
  case nil => cases ms' <;> simp_all [messages]
  case cons m ms hi =>
    cases ms'
    case nil => simp [messages] at h
    case cons m' ms' =>
      simp only [messages_cons, List.cons.injEq, true_and] at h
      rw [h.left, hi h.right]

theorem messages_eq_nil_iff : messages ms = [] ↔ ms = [] := by
  cases ms <;> simp [messages]

theorem coming_zero : coming arrivals n 0 = [] := rfl

theorem coming_succ : coming arrivals n (k + 1) = arrivals n ++ coming arrivals (n + 1) k := by
  simp [coming, List.range'_succ]

theorem coming_add {l : ℕ} :
    coming arrivals n (k + l) = coming arrivals n k ++ coming arrivals (n + k) l := by
  rw [coming, ← List.range'_append_1, List.flatMap_append]
  rfl

-- Something is there already.
theorem asyncRecv_of_frames {frames : List Bytes} (h : s.frames = frame :: frames) :
    asyncRecv arrivals s = (some frame, { s with
      attempts := s.attempts + 1
      frames   := frames ++ messages (arrivals s.attempts)
    }) := by
  simp [asyncRecv, maxTries, asyncRecvLoop, zmqMsgRecv, h]

theorem asyncRecvLoop_of_again (h : s.frames = []) (ha : arrivals s.attempts = []) :
    asyncRecvLoop arrivals (tries + 1) s =
      asyncRecvLoop arrivals tries { s with attempts := s.attempts + 1 } := by
  simp [asyncRecvLoop, zmqMsgRecv, h, ha, messages]

-- Nothing is there, and nothing comes.
theorem asyncRecvLoop_of_none (h : s.frames = []) (hc : coming arrivals s.attempts tries = []) :
    asyncRecvLoop arrivals tries s = (none, { s with attempts := s.attempts + tries }) := by
  induction tries generalizing s
  case zero => rfl
  case succ tries hi =>
    rw [coming_succ, List.append_eq_nil_iff] at hc
    rw [asyncRecvLoop_of_again h hc.left, hi (s := { s with attempts := s.attempts + 1 }) h hc.right]
    simp [Nat.add_assoc, Nat.add_comm 1]

-- Nothing is there, but something comes in time.
theorem asyncRecvLoop_of_coming (h : s.frames = []) (hc : coming arrivals s.attempts tries ≠ []) :
    ∃ k < tries, ∃ m ms, coming arrivals s.attempts (k + 1) = m :: ms ∧
      asyncRecvLoop arrivals tries s = (some [], { s with
        attempts := s.attempts + (k + 1)
        frames   := m :: messages ms
      }) := by
  induction tries generalizing s
  case zero => exact absurd coming_zero hc
  case succ tries hi =>
    rcases ha : arrivals s.attempts with _ | ⟨m, ms⟩
    case cons =>
      refine ⟨0, Nat.succ_pos _, m, ms, ?_, ?_⟩
      · simp [coming_succ, coming_zero, ha]
      · simp [asyncRecvLoop, zmqMsgRecv, h, ha, messages_cons]
    case nil =>
      rw [coming_succ, ha, List.nil_append] at hc
      obtain ⟨k, hk, m, ms, he, hr⟩ := hi (s := { s with attempts := s.attempts + 1 }) h hc
      refine ⟨k + 1, Nat.succ_lt_succ hk, m, ms, ?_, ?_⟩
      · rw [coming_succ, ha, List.nil_append, he]
      · rw [asyncRecvLoop_of_again h ha, hr]
        simp [Nat.add_assoc, Nat.add_comm 1]

theorem asyncRecv_of_none (h : s.frames = []) (hc : coming arrivals s.attempts maxTries = []) :
    asyncRecv arrivals s = (none, { s with attempts := s.attempts + maxTries }) :=
  asyncRecvLoop_of_none h hc

theorem asyncRecv_of_coming (h : s.frames = []) (hc : coming arrivals s.attempts maxTries ≠ []) :
    ∃ k m ms, coming arrivals s.attempts (k + 1) = m :: ms ∧
      asyncRecv arrivals s = (some [], { s with
        attempts := s.attempts + (k + 1)
        frames   := m :: messages ms
      }) := by
  obtain ⟨k, -, h⟩ := asyncRecvLoop_of_coming h hc
  exact ⟨k, h⟩

-- How a call can come out, where only whole messages are there to be read.
inductive Reads (arrivals : Arrivals) (s : Socket) : Option Bytes × Socket → Prop
  | nothing {s' : Socket} : Timely arrivals s → s'.type = s.type → s'.frames = [] →
    due arrivals s s' = [] → Reads arrivals s (none, s')
  | whole {s' : Socket} {m : Bytes} {ms : List Bytes} : Timely arrivals s → s'.type = s.type →
    s'.frames = messages ms → due arrivals s s' = messages (m :: ms) → Reads arrivals s (some m, s')
  -- The empty frame is taken for the data frame, which is left for the next call.
  | half {s' : Socket} {m : Bytes} {ms : List Bytes} : ¬Timely arrivals s →
    s'.frames = m :: messages ms → due arrivals s s' = messages (m :: ms) →
    Reads arrivals s (some [], s')

theorem due_of_attempts (h : s'.attempts = s.attempts + k) :
    due arrivals s s' = s.frames ++ messages (coming arrivals s.attempts k) := by
  rw [due, h, Nat.add_sub_cancel_left]

theorem receiveData_reads (hs : isNotReqRepSocket s) (hf : s.frames = messages ms) :
    Reads arrivals s (receiveData arrivals s) := by
  simp only [receiveData, hs, ↓reduceIte]
  cases ms
  case cons m ms =>
    have ht : Timely arrivals s := .inl <| by simp [hf, messages_cons]
    rw [asyncRecv_of_frames (hf.trans messages_cons), asyncRecv_of_frames (List.cons_append ..)]
    have hc : messages ms ++ messages (arrivals s.attempts) ++ messages (arrivals (s.attempts + 1)) =
        messages (ms ++ coming arrivals s.attempts 2) := by
      simp [coming_succ, coming_zero, messages_append]
    refine .whole ht rfl hc ?_
    rw [due_of_attempts (k := 2) rfl, hf, ← messages_append]
    rfl
  case nil =>
    have hf : s.frames = [] := hf
    by_cases hc : coming arrivals s.attempts maxTries = []
    case neg =>
      obtain ⟨k, m, ms, he, hr⟩ := asyncRecv_of_coming hf hc
      rw [hr, asyncRecv_of_frames rfl]
      refine .whole (.inr <| .inl hc) rfl messages_append.symm ?_
      rw [due_of_attempts (k := k + 1 + 1) rfl, hf, coming_add, he, List.nil_append]
      simp [coming_succ, coming_zero]
    case pos =>
      rw [asyncRecv_of_none hf hc]
      let s₁ := { s with attempts := s.attempts + maxTries }
      have hf₁ : s₁.frames = [] := hf
      change Reads arrivals s (asyncRecv arrivals s₁)
      by_cases hd : coming arrivals s₁.attempts maxTries = []
      case pos =>
        rw [asyncRecv_of_none hf₁ hd]
        refine .nothing (.inr <| .inr hd) rfl hf ?_
        rw [due_of_attempts (k := maxTries + maxTries) (Nat.add_assoc ..), hf, coming_add, hc]
        exact messages_eq_nil_iff.mpr hd
      case neg =>
        obtain ⟨k, m, ms, he, hr⟩ := asyncRecv_of_coming hf₁ hd
        rw [hr]
        have ht : ¬Timely arrivals s := by
          rw [Timely, not_or, not_or]
          exact ⟨not_not.mpr hf, not_not.mpr hc, hd⟩
        refine .half ht rfl ?_
        rw [due_of_attempts (k := maxTries + (k + 1)) (Nat.add_assoc ..), hf, coming_add, hc]
        exact congrArg messages he

theorem receive_reads {c : Call} (hs : isNotReqRepSocket s) (hf : s.frames = messages ms) :
    Reads arrivals s (receive arrivals c s) := by
  cases c <;> exact receiveData_reads hs hf

theorem receive_of_timely {c : Call} (hs : isNotReqRepSocket s) (hf : s.frames = messages ms)
    (ht : Timely arrivals s) :
    ∃ ms', (receive arrivals c s).snd.frames = messages ms' ∧
      (receive arrivals c s).snd.type = s.type ∧
      ms ++ coming arrivals s.attempts ((receive arrivals c s).snd.attempts - s.attempts) =
        (receive arrivals c s).fst.toList ++ ms' := by
  have h : Reads arrivals s (receive arrivals c s) := receive_reads hs hf
  generalize receive arrivals c s = result at h
  cases h
  case nothing _ hy hn hd =>
    rw [due, hf, ← messages_append, messages_eq_nil_iff] at hd
    exact ⟨[], hn, hy, hd⟩
  case whole m ms' _ hy hn hd =>
    rw [due, hf, ← messages_append] at hd
    exact ⟨ms', hn, hy, messages_injective hd⟩
  case half hn _ _ => exact absurd ht hn

def dealer : Socket where
  type := .dealer

end ProtoCall.Zmq
