import ProtoCall.Runtime.Transport.Zmq

namespace ProtoCall.Zmq

inductive Errno
  | again
  | other
  deriving DecidableEq

-- How the n-th attempt to send a frame ends: the frame is queued, or there is an error.
abbrev Attempts := ℕ → Option Errno

inductive Version
  | two
  | three
  deriving DecidableEq

-- What `zmq_msg_send` and `zmq_msg_recv` return for a frame. From version 3 on it is the number of
-- bytes, as far as an `int` goes.
def Version.count : Version → Bytes → ℤ
  | two, _      => 0
  | three, data => min data.length (2 ^ 31 - 1)

-- A frame that has been sent, possibly with `ZMQ_SNDMORE`.
structure Frame where
  data : Bytes
  more : Bool
  deriving DecidableEq

-- The sending end of a socket: the frames that have been queued, and how often sending one has been
-- tried.
structure Sender where
  type     : SocketType
  frames   : List Frame := []
  attempts : ℕ := 0
  deriving DecidableEq

-- `zmq_msg_send` with `ZMQ_DONTWAIT`
def zmqMsgSend (v : Version) (results : Attempts) (frame : Frame) (s : Sender) :
    Except Errno ℤ × Sender :=
  let attempts := s.attempts + 1
  match results s.attempts with
  | none       => (.ok <| v.count frame.data, { s with attempts, frames := s.frames ++ [frame] })
  | some errno => (.error errno, { s with attempts })

-- The loop of `async_send`, with the number of tries that are left.
def asyncSendLoop (v : Version) (results : Attempts) (frame : Frame) : ℕ → Sender → ℤ × Sender
  | 0, s         => (-1, s)
  | tries + 1, s =>
    match zmqMsgSend v results frame s with
    | (.ok nbytes, s)    => (nbytes, s)
    | (.error .other, s) => (-1, s)
    | (.error .again, s) => asyncSendLoop v results frame tries s

def asyncSend (v : Version) (results : Attempts) (frame : Frame) (s : Sender) : ℤ × Sender :=
  asyncSendLoop v results frame maxTries s

-- A `socketIdentity` has room for 256 bytes.
structure SocketIdentity where
  data    : Bytes
  size_le : data.length ≤ 256

def sendSocketIdentities (v : Version) (results : Attempts) (identities : List SocketIdentity)
    (s : Sender) : Bool × Sender :=
  (true, identities.foldl (fun s i => (asyncSend v results ⟨i.data, true⟩ s).snd) s)

-- What both overloads of `send` do once they have the bytes of the data frame. Only the result for
-- that frame is kept.
def sendData (v : Version) (results : Attempts) (identities : List SocketIdentity) (data : Bytes)
    (s : Sender) : ℤ × Sender :=
  let s := (sendSocketIdentities v results identities s).snd
  let s :=
    if isNotReqRepSocket { type := s.type } then
      (asyncSend v results ⟨[], true⟩ s).snd
    else
      s
  asyncSend v results ⟨data, false⟩ s

-- A message as `ByteSize`, which is an `int`, and `SerializeToArray` have it.
structure Serialized where
  bytes   : Bytes
  ok      : Bool := true
  size_lt : bytes.length < 2 ^ 31

-- An `RpcVoidData`, whose size is an `unsigned int`.
structure VoidData where
  bytes   : Bytes
  size_lt : bytes.length < 2 ^ 32

-- The two overloads of `send`, by what they are given. A message can be `NULL`.
inductive Sending
  | message (msg : Option Serialized)
  | voidData (data : VoidData)

-- `setErrorString` and `return false`, or `return true`
abbrev Sent := Except String Unit

def sendMessage (v : Version) (results : Attempts) (identities : List SocketIdentity)
    (msg : Option Serialized) (s : Sender) : Sent × Sender :=
  match msg with
  | none     => (.error "send passed a NULL message", s)
  | some msg =>
    let size : ℤ := msg.bytes.length
    if size ≤ 0 then
      (.error "No data to send", s)
    else if !msg.ok then
      (.error "ProtoBuf Error: Error calling SerializeToArray", s)
    else
      let (nbytes, s) := sendData v results identities msg.bytes s
      if nbytes ≠ size then
        (.error "Unable to send the message using zmq", s)
      else
        (.ok (), s)

def sendVoidData (v : Version) (results : Attempts) (identities : List SocketIdentity)
    (data : VoidData) (s : Sender) : Sent × Sender :=
  let size : ℤ := data.bytes.length
  if size ≤ 0 then
    (.error "No data to send", s)
  else
    let (nbytes, s) := sendData v results identities data.bytes s
    -- They are compared as `unsigned int`, so -1 becomes 2^32 - 1.
    if nbytes % 2 ^ 32 ≠ size then
      (.error "Unable to send the message using zmq", s)
    else
      (.ok (), s)

def send (v : Version) (results : Attempts) (identities : List SocketIdentity) :
    Sending → Sender → Sent × Sender
  | .message msg   => sendMessage v results identities msg
  | .voidData data => sendVoidData v results identities data

-- The bytes of the data frame, if it gets that far.
def Sending.data? : Sending → Option Bytes
  | message none       => none
  | message (some msg) => if msg.bytes = [] ∨ msg.ok = false then none else some msg.bytes
  | voidData data      => if data.bytes = [] then none else some data.bytes

-- The comparison with the size that decides about the result.
def Sending.accepts (nbytes : ℤ) : Sending → Bool
  | message msg   => msg.any fun msg => nbytes = msg.bytes.length
  | voidData data => nbytes % 2 ^ 32 = data.bytes.length

-- The size is what -1 is as an `unsigned int`.
def Sending.wraps : Sending → Bool
  | message _     => false
  | voidData data => data.bytes.length = 2 ^ 32 - 1

def oneByte : Sending := .message <| some { bytes := [1], size_lt := by decide }

-- How many attempts from the n-th on end in `EAGAIN` before one that does not.
def waits (results : Attempts) (tries n : ℕ) : ℕ :=
  ((List.range' n tries).takeWhile (results · = some .again)).length

-- A frame is queued that is first tried to be sent at the n-th attempt, and the attempt that the
-- next frame begins with.
def queues (results : Attempts) (n : ℕ) : Bool :=
  waits results maxTries n < maxTries && results (n + waits results maxTries n) = none

def next (results : Attempts) (n : ℕ) : ℕ := n + min (waits results maxTries n + 1) maxTries

-- The same for a number of frames.
def outcomes (results : Attempts) (n : ℕ) : ℕ → List Bool
  | 0     => []
  | k + 1 => queues results n :: outcomes results (next results n) k

def after (results : Attempts) (n k : ℕ) : ℕ := (next results)^[k] n

-- The frames of a message that come to be queued.
def queued (results : Attempts) : ℕ → List Frame → List Frame
  | _, []              => []
  | n, frame :: frames =>
    (if queues results n then [frame] else []) ++ queued results (next results n) frames

-- The frames in front of the data frame.
def leading (identities : List SocketIdentity) (type : SocketType) : List Frame :=
  identities.map (fun i => ⟨i.data, true⟩) ++
    if isNotReqRepSocket { type } then [⟨[], true⟩] else []

def framing (identities : List SocketIdentity) (type : SocketType) (data : Bytes) : List Frame :=
  leading identities type ++ [⟨data, false⟩]

-- The frames in front, and the data frame after them, where sending begins with the n-th attempt.
def leadingOutcomes (results : Attempts) (identities : List SocketIdentity) (s : Sender) :
    List Bool :=
  outcomes results s.attempts (leading identities s.type).length

def dataOutcome (results : Attempts) (identities : List SocketIdentity) (s : Sender) : Bool :=
  queues results <| after results s.attempts (leading identities s.type).length

variable {v : Version} {results : Attempts} {identities : List SocketIdentity} {s : Sender}
  {frame : Frame} {frames : List Frame} {c : Sending} {data : Bytes} {n k tries : ℕ}

theorem waits_succ : waits results (tries + 1) n =
    if results n = some .again then waits results tries (n + 1) + 1 else 0 := by
  rw [waits, List.range'_succ, List.takeWhile_cons]
  by_cases h : results n = some .again <;> simp [h, waits]

theorem asyncSendLoop_eq : asyncSendLoop v results frame tries s =
    if waits results tries s.attempts < tries ∧
        results (s.attempts + waits results tries s.attempts) = none then
      (v.count frame.data, { s with
        frames   := s.frames ++ [frame]
        attempts := s.attempts + min (waits results tries s.attempts + 1) tries
      })
    else
      (-1, { s with attempts := s.attempts + min (waits results tries s.attempts + 1) tries }) := by
  induction tries generalizing s
  case zero => simp [asyncSendLoop]
  case succ tries hi =>
    rw [asyncSendLoop, zmqMsgSend, waits_succ]
    rcases hr : results s.attempts with _ | errno
    case none => simp [hr]
    case some =>
      cases errno
      case other => simp [hr]
      case again =>
        simp only [hi, ↓reduceIte]
        have ha : s.attempts + 1 + waits results tries (s.attempts + 1) =
          s.attempts + (waits results tries (s.attempts + 1) + 1) := by omega
        have hm (w : ℕ) : s.attempts + 1 + min (w + 1) tries =
          s.attempts + min (w + 1 + 1) (tries + 1) := by omega
        simp only [ha, hm, Nat.add_lt_add_iff_right]

theorem asyncSend_eq : asyncSend v results frame s =
    (if queues results s.attempts then v.count frame.data else -1, { s with
      frames   := s.frames ++ if queues results s.attempts then [frame] else []
      attempts := next results s.attempts
    }) := by
  have hq : waits results maxTries s.attempts < maxTries ∧
      results (s.attempts + waits results maxTries s.attempts) = none ↔
        queues results s.attempts := by
    simp [queues]
  simp only [asyncSend, asyncSendLoop_eq, hq, next]
  split <;> simp

theorem queued_append {frames' : List Frame} : queued results n (frames ++ frames') =
    queued results n frames ++ queued results (after results n frames.length) frames' := by
  induction frames generalizing n
  case nil => rfl
  case cons frame frames hi => simp [queued, hi, after, Function.iterate_succ_apply]

theorem queued_sublist : (queued results n frames).Sublist frames := by
  induction frames generalizing n
  case nil => exact .slnil
  case cons frame frames hi =>
    rw [queued]
    split
    case isTrue  => exact hi.cons_cons frame
    case isFalse => exact hi.cons frame

theorem queued_eq_self_iff :
    queued results n frames = frames ↔ ∀ b ∈ outcomes results n frames.length, b := by
  induction frames generalizing n
  case nil => simp [queued, outcomes]
  case cons frame frames hi =>
    rw [queued, List.length_cons, outcomes, List.forall_mem_cons, ← hi]
    by_cases hq : queues results n
    case pos => simp [hq]
    case neg =>
      refine iff_of_false (fun h => ?_) (fun h => hq h.left)
      rw [if_neg hq, List.nil_append] at h
      have hl : (queued results (next results n) frames).length ≤ frames.length :=
        queued_sublist.length_le
      rw [h, List.length_cons] at hl
      omega

theorem queued_eq_nil_iff :
    queued results n frames = [] ↔ ∀ b ∈ outcomes results n frames.length, b = false := by
  induction frames generalizing n
  case nil => simp [queued, outcomes]
  case cons frame frames hi =>
    rw [queued, List.length_cons, outcomes, List.forall_mem_cons, ← hi]
    cases queues results n <;> simp

-- Sending frames one after the other without looking at what comes of it.
theorem foldl_asyncSend : frames.foldl (fun s frame => (asyncSend v results frame s).snd) s =
    { s with
      frames   := s.frames ++ queued results s.attempts frames
      attempts := after results s.attempts frames.length
    } := by
  induction frames generalizing s
  case nil => simp [queued, after]
  case cons frame frames hi =>
    rw [List.foldl_cons, hi, asyncSend_eq]
    simp [queued, after, Function.iterate_succ_apply]

theorem sendData_eq : sendData v results identities data s =
    asyncSend v results ⟨data, false⟩
      ((leading identities s.type).foldl (fun s frame => (asyncSend v results frame s).snd) s) := by
  have hi : (sendSocketIdentities v results identities s).snd.type = s.type := by
    have h : ((identities.map fun i => Frame.mk i.data true).foldl
        (fun s frame => (asyncSend v results frame s).snd) s).type = s.type := by
      rw [foldl_asyncSend]
    rwa [List.foldl_map] at h
  rw [sendData, hi, leading, List.foldl_append, List.foldl_map]
  split <;> rfl

theorem sendData_fst : (sendData v results identities data s).fst =
    if dataOutcome results identities s then v.count data else -1 := by
  rw [sendData_eq, foldl_asyncSend, asyncSend_eq]
  rfl

theorem sendData_snd : (sendData v results identities data s).snd = { s with
      frames   := s.frames ++ queued results s.attempts (framing identities s.type data)
      attempts := after results s.attempts (framing identities s.type data).length
    } := by
  rw [sendData_eq, foldl_asyncSend, asyncSend_eq, framing, queued_append, List.length_append, after,
    after, Nat.add_comm, Function.iterate_add_apply]
  simp [queued]

theorem queued_framing : queued results s.attempts (framing identities s.type data) =
    queued results s.attempts (leading identities s.type) ++
      if dataOutcome results identities s then [⟨data, false⟩] else [] := by
  rw [framing, queued_append, queued, queued, List.append_nil]
  rfl

theorem queued_framing_eq_self_iff :
    queued results s.attempts (framing identities s.type data) =
        framing identities s.type data ↔
      dataOutcome results identities s ∧ ∀ b ∈ leadingOutcomes results identities s, b := by
  rw [queued_framing, framing]
  cases dataOutcome results identities s
  case true => simp [leadingOutcomes, queued_eq_self_iff]
  case false =>
    refine iff_of_false (fun h => ?_) nofun
    have hs : (queued results s.attempts (leading identities s.type)).Sublist _ := queued_sublist
    have hl := hs.length_le
    have hq := congrArg List.length h
    simp at hq
    omega

theorem more_of_mem_leading {type : SocketType} (h : frame ∈ leading identities type) :
    frame.more := by
  rcases List.mem_append.mp h with h | h
  case inl =>
    obtain ⟨_, -, rfl⟩ := List.mem_map.mp h
    rfl
  case inr =>
    split at h
    case isTrue  => exact List.mem_singleton.mp h ▸ rfl
    case isFalse => contradiction

-- The two ways to get to the data frame.
inductive Carries : Sending → Bytes → Prop
  | message {msg : Serialized} : msg.bytes ≠ [] → msg.ok → Carries (.message <| some msg) msg.bytes
  | voidData {data : VoidData} : data.bytes ≠ [] → Carries (.voidData data) data.bytes

theorem carries_of_data? (h : c.data? = some data) : Carries c data := by
  rcases c with (_ | msg) | d
  case message.none => contradiction
  case message.some =>
    rw [Sending.data?, Option.ite_none_left_eq_some, Option.some.injEq, not_or] at h
    obtain ⟨⟨hb, ho⟩, rfl⟩ := h
    exact .message hb <| by simpa using ho
  case voidData =>
    rw [Sending.data?, Option.ite_none_left_eq_some, Option.some.injEq] at h
    obtain ⟨hb, rfl⟩ := h
    exact .voidData hb

theorem send_of_no_data (h : c.data? = none) :
    ∃ text, ∀ v results identities s, send v results identities c s = (.error text, s) := by
  rcases c with (_ | msg) | data
  case message.none => exact ⟨_, fun _ _ _ _ => rfl⟩
  case message.some =>
    by_cases hb : msg.bytes = []
    case pos => exact ⟨_, fun _ _ _ _ => by simp [send, sendMessage, hb]; rfl⟩
    case neg =>
      have ho : msg.ok = false := by simpa [Sending.data?, hb] using h
      exact ⟨_, fun _ _ _ _ => by simp [send, sendMessage, hb, ho]; rfl⟩
  case voidData =>
    have hb : data.bytes = [] := by simpa [Sending.data?] using h
    exact ⟨_, fun _ _ _ _ => by simp [send, sendVoidData, hb]; rfl⟩

theorem send_of_data (h : c.data? = some data) : send v results identities c s =
    (if c.accepts (sendData v results identities data s).fst then .ok ()
      else .error "Unable to send the message using zmq",
      (sendData v results identities data s).snd) := by
  have hi {p : Prop} [Decidable p] {text : String} {s : Sender} :
      (if ¬p then (.error text, s) else (.ok (), s) : Sent × Sender) =
        (if p then .ok () else .error text, s) := by
    by_cases hp : p <;> simp [hp]
  have hs {bytes : Bytes} (hb : bytes ≠ []) : ¬(bytes.length : ℤ) ≤ 0 := by
    have hl := List.length_pos_iff.mpr hb
    omega
  cases carries_of_data? h
  case message msg hb ho =>
    simp only [send, sendMessage, Sending.accepts, Option.any_some, if_neg (hs hb), ho, ne_eq, hi,
      Bool.not_true, Bool.false_eq_true, if_false, decide_eq_true_eq]
  case voidData data hb =>
    simp only [send, sendVoidData, Sending.accepts, if_neg (hs hb), ne_eq, hi, decide_eq_true_eq]

theorem accepts_three (h : c.data? = some data) :
    c.accepts (Version.three.count data) = decide (data.length < 2 ^ 31) := by
  cases carries_of_data? h
  case message msg _ _ =>
    have hl := msg.size_lt
    simp [Sending.accepts, Version.count]
    omega
  case voidData data _ =>
    have hl := data.size_lt
    rw [Sending.accepts, Version.count, decide_eq_decide]
    omega

theorem accepts_two (h : c.data? = some data) : c.accepts (Version.two.count data) = false := by
  cases carries_of_data? h
  case message hb _ => simpa [Sending.accepts, Version.count, eq_comm] using hb
  case voidData hb  => simpa [Sending.accepts, Version.count, eq_comm] using hb

theorem accepts_neg_one : c.accepts (-1) = c.wraps := by
  cases c
  case message msg =>
    cases msg
    case none => rfl
    case some =>
      rw [Sending.accepts, Sending.wraps, Option.any_some, decide_eq_false_iff_not]
      omega
  case voidData =>
    rw [Sending.accepts, Sending.wraps, decide_eq_decide]
    omega

end ProtoCall.Zmq
