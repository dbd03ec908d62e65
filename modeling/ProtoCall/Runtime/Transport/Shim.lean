import ProtoCall.Runtime.Transport.Outgoing

namespace ProtoCall.Zmq

-- The overloads of `receive`, with the bytes that they come to. `receive(RpcVoidData *)` goes by the
-- value that `zmq_msg_recv` returns, `receive(rpc::Message *)` by the size of the frame.
def receiveBytes (v : Version) (arrivals : Arrivals) (c : Call) (s : Socket) :
    Option Bytes × Socket :=
  let (frame, s) := receive arrivals c s
  match c with
  | .message  => (frame, s)
  | .voidData => (frame.map fun data => data.take (v.count data).toNat, s)

-- What is done with a channel, and the two ends of its socket.
inductive Use
  | send (identities : List SocketIdentity) (c : Sending)
  | receive (c : Call)

structure Channel where
  sender   : Sender
  receiver : Socket

-- The boolean that a call returns, or the bytes that are received if it returns true.
inductive Result
  | sent (success : Bool)
  | received (data : Option Bytes)
  deriving DecidableEq

section

variable (results : Attempts) (arrivals : Arrivals)

-- A call on a channel that has been built against a version of the library.
def call (v : Version) (u : Use) (ch : Channel) : Result × Channel :=
  match u with
  | .send identities c =>
    let (sent, sender) := send v results identities c ch.sender
    (.sent sent.isOk, { ch with sender })
  | .receive c =>
    let (data, receiver) := receiveBytes v arrivals c ch.receiver
    (.received data, { ch with receiver })

def calls (v : Version) : List Use → Channel → List Result
  | [], _       => []
  | u :: us, ch => (call results arrivals v u ch).fst :: calls v us (call results arrivals v u ch).snd

-- A message all of whose frames have been queued has been sent, and a frame that has been received
-- is all there.
def Complete (v : Version) (u : Use) (ch : Channel) : Prop :=
  match u with
  | .send identities c => ∀ data, c.data? = some data →
    (call results arrivals v u ch).snd.sender.frames =
      ch.sender.frames ++ framing identities ch.sender.type data →
    (call results arrivals v u ch).fst = .sent true
  | .receive c =>
    (call results arrivals v u ch).fst = .received (receive arrivals c ch.receiver).fst

def RunsComplete (v : Version) : List Use → Channel → Prop
  | [], _       => True
  | u :: us, ch =>
    Complete results arrivals v u ch ∧ RunsComplete v us (call results arrivals v u ch).snd

-- A channel for version 2 does what one for version 3 does.
structure LooksLikeThree (uses : List Use) (ch : Channel) : Prop where
  same     : calls results arrivals .two uses ch = calls results arrivals .three uses ch
  complete : RunsComplete results arrivals .two uses ch

-- The data frame is not queued, or it is too large for version 3, too, and not all frames in front
-- of it are queued; or there is no data frame to be received, or an empty one.
def Unaffected (u : Use) (ch : Channel) : Prop :=
  match u with
  | .send identities c => ∀ data, c.data? = some data →
    dataOutcome results identities ch.sender → 2 ^ 31 ≤ data.length ∧
      ¬∀ b ∈ leadingOutcomes results identities ch.sender, b
  | .receive .message  => True
  | .receive .voidData => ∀ data ∈ (receive arrivals .voidData ch.receiver).fst, data = []

def RunsUnaffected : List Use → Channel → Prop
  | [], _       => True
  | u :: us, ch =>
    Unaffected results arrivals u ch ∧ RunsUnaffected us (call results arrivals .three u ch).snd

end

variable {results : Attempts} {arrivals : Arrivals} {u : Use} {uses : List Use} {ch : Channel}

theorem send_snd {v v' : Version} {identities : List SocketIdentity} {c : Sending} {s : Sender} :
    (send v results identities c s).snd = (send v' results identities c s).snd := by
  rcases hd : c.data? with _ | data
  case none =>
    obtain ⟨text, ht⟩ := send_of_no_data hd
    rw [ht, ht]
  case some => rw [send_of_data hd, send_of_data hd, sendData_snd, sendData_snd]

-- The versions only differ in what is returned.
theorem call_snd {v v' : Version} :
    (call results arrivals v u ch).snd = (call results arrivals v' u ch).snd := by
  rcases u with ⟨identities, c⟩ | c
  case send => exact congrArg (fun sender => { ch with sender }) send_snd
  case receive => cases c <;> rfl

theorem send_isOk {v : Version} {identities : List SocketIdentity} {c : Sending} {s : Sender}
    {data : Bytes} (h : c.data? = some data) : (send v results identities c s).fst.isOk =
      if dataOutcome results identities s then c.accepts (v.count data) else c.wraps := by
  rw [send_of_data h, sendData_fst]
  have hi {b : Bool} {text : String} :
      (if b then .ok () else .error text : Sent).isOk = b := by
    cases b <;> rfl
  rw [hi]
  split
  case isTrue  => rfl
  case isFalse => exact accepts_neg_one

theorem send_frames_iff {v : Version} {identities : List SocketIdentity} {c : Sending} {s : Sender}
    {data : Bytes} (h : c.data? = some data) : (send v results identities c s).snd.frames =
      s.frames ++ framing identities s.type data ↔ dataOutcome results identities s ∧
        ∀ b ∈ leadingOutcomes results identities s, b := by
  rw [send_of_data h, sendData_snd, List.append_cancel_left_eq, queued_framing_eq_self_iff]

-- What one call has to do with it.
theorem unaffected_iff : Unaffected results arrivals u ch ↔
    (call results arrivals .two u ch).fst = (call results arrivals .three u ch).fst ∧
      Complete results arrivals .two u ch := by
  rcases u with ⟨identities, c⟩ | c
  case send =>
    simp only [Unaffected, call, Complete, Result.sent.injEq]
    rcases hd : c.data? with _ | data
    case none =>
      obtain ⟨text, ht⟩ := send_of_no_data hd
      simp [ht]
    case some =>
      simp only [send_isOk hd, send_frames_iff hd, Option.some.injEq, forall_eq', accepts_two hd,
        accepts_three hd]
      cases dataOutcome results identities ch.sender <;> simp
  case receive =>
    cases c
    case message  => exact iff_of_true trivial ⟨rfl, rfl⟩
    case voidData =>
      simp only [Unaffected, call, Complete, receiveBytes, Result.received.injEq]
      cases (receive arrivals .voidData ch.receiver).fst
      case none => simp
      case some data =>
        cases data
        case nil => simp
        case cons => simp [Version.count]

theorem looksLikeThree_cons : LooksLikeThree results arrivals (u :: uses) ch ↔
    ((call results arrivals .two u ch).fst = (call results arrivals .three u ch).fst ∧
      Complete results arrivals .two u ch) ∧
        LooksLikeThree results arrivals uses (call results arrivals .three u ch).snd := by
  have hc : (call results arrivals .two u ch).snd = (call results arrivals .three u ch).snd :=
    call_snd
  constructor
  case mp =>
    rintro ⟨hs, hw, hr⟩
    rw [calls, calls, List.cons.injEq, hc] at hs
    exact ⟨⟨hs.left, hw⟩, hs.right, hc ▸ hr⟩
  case mpr =>
    rintro ⟨⟨hs, hw⟩, hr, hd⟩
    refine ⟨?_, hw, hc ▸ hd⟩
    rw [calls, calls, hs, hc, hr]

theorem looksLikeThree_iff :
    LooksLikeThree results arrivals uses ch ↔ RunsUnaffected results arrivals uses ch := by
  induction uses generalizing ch
  case nil            => exact iff_of_true ⟨rfl, trivial⟩ trivial
  case cons u uses hi => rw [looksLikeThree_cons, RunsUnaffected, unaffected_iff, hi]

-- Any message that is sent: the value is zero, and the size is not.
theorem not_looksLikeThree : ¬LooksLikeThree (fun _ => none) (fun _ => []) [.send [] oneByte]
    { sender := { type := .req }, receiver := { type := .req } } := by
  intro h
  exact absurd h.same (by decide)

end ProtoCall.Zmq
