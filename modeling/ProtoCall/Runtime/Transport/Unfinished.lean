import ProtoCall.Library.Multipart
import ProtoCall.Runtime.Transport.Outgoing

namespace ProtoCall.Zmq

-- What is reported as sent has been sent: all of its frames are queued, in order.
def FramedWhenTrue (results : Attempts) (identities : List SocketIdentity) (c : Sending)
    (s : Sender) : Prop :=
  (send .three results identities c s).fst = .ok () → ∃ data, c.data? = some data ∧
    (send .three results identities c s).snd.frames = s.frames ++ framing identities s.type data

-- The frames that a call has added.
def added (s s' : Sender) : List Frame := s'.frames.drop s.frames.length

-- No frame of the call waits for more. The frames of whatever is sent next make up messages of their
-- own, but for frames that had been waiting before the call.
structure LeavesNothing (results : Attempts) (s s' : Sender) : Prop where
  finished : Multipart.unfinished Frame.more (added s s') = []
  own      : ∀ identities c, ∃ older, older <:+ Multipart.unfinished Frame.more s.frames ∧
    Multipart.messages Frame.more (send .three results identities c s').snd.frames =
      Multipart.messages Frame.more s'.frames ++
        Multipart.messages Frame.more (older ++ added s' (send .three results identities c s').snd)

def LeavesNothingWhenFalse (results : Attempts) (identities : List SocketIdentity) (c : Sending)
    (s : Sender) : Prop :=
  (send .three results identities c s).fst ≠ .ok () →
    LeavesNothing results s (send .three results identities c s).snd

variable {v : Version} {results : Attempts} {identities : List SocketIdentity} {c : Sending}
  {s s' : Sender} {frames : List Frame} {data : Bytes}

theorem send_eq_ok_iff (h : c.data? = some data) :
    (send .three results identities c s).fst = .ok () ↔
      if dataOutcome results identities s then data.length < 2 ^ 31 else c.wraps := by
  rw [send_of_data h, sendData_fst]
  have hi {b : Bool} {text : String} : (if b then .ok () else .error text : Sent) = .ok () ↔ b := by
    cases b <;> simp
  split <;> simp [hi, accepts_three h, accepts_neg_one]

theorem send_frames (h : c.data? = some data) : (send .three results identities c s).snd.frames =
    s.frames ++ queued results s.attempts (framing identities s.type data) := by
  rw [send_of_data h, sendData_snd]

theorem framedWhenTrue_iff : FramedWhenTrue results identities c s ↔
    ∀ data, c.data? = some data →
      if dataOutcome results identities s then
        data.length < 2 ^ 31 → ∀ b ∈ leadingOutcomes results identities s, b
      else
        c.wraps = false := by
  rw [FramedWhenTrue]
  rcases hd : c.data? with _ | data
  case none =>
    obtain ⟨text, ht⟩ := send_of_no_data hd
    simp [ht]
  case some =>
    simp only [send_eq_ok_iff hd, send_frames hd, Option.some.injEq, exists_eq_left', forall_eq',
      List.append_cancel_left_eq, queued_framing_eq_self_iff]
    cases dataOutcome results identities s <;> simp

-- The first n attempts end in `EAGAIN`; only the n-th one does not fail.
def busyUntil (n : ℕ) : Attempts := fun k => if k < n then some .again else none

def failsBut (n : ℕ) : Attempts := fun k => if k = n then none else some .other

-- The attempts for the empty frame are used up when the data frame gets through.
theorem not_framedWhenTrue :
    ¬FramedWhenTrue (busyUntil maxTries) [] oneByte { type := .dealer } := by
  intro h
  obtain ⟨data, hd, hf⟩ := h rfl
  obtain rfl := Option.some.inj hd
  exact absurd hf (by decide)

theorem added_of_frames (h : s'.frames = s.frames ++ frames) : added s s' = frames := by
  rw [added, h, List.drop_left]

theorem exists_send_frames : ∃ frames,
    (send .three results identities c s).snd.frames = s.frames ++ frames := by
  rcases hd : c.data? with _ | data
  case none =>
    obtain ⟨text, ht⟩ := send_of_no_data hd
    exact ⟨[], by rw [ht, List.append_nil]⟩
  case some => exact ⟨_, send_frames hd⟩

-- What a call adds goes with what is unfinished then, which is what was unfinished before, at most.
theorem leavesNothing_iff (h : s'.frames = s.frames ++ frames) :
    LeavesNothing results s s' ↔ Multipart.unfinished Frame.more frames = [] := by
  constructor
  case mp  => exact fun hl => added_of_frames h ▸ hl.finished
  case mpr =>
    intro hu
    refine ⟨added_of_frames h ▸ hu, fun identities c => ?_⟩
    obtain ⟨frames', hf⟩ : ∃ frames', (send .three results identities c s').snd.frames =
      s'.frames ++ frames' := exists_send_frames
    refine ⟨Multipart.unfinished Frame.more s'.frames, ?_, ?_⟩
    · rw [h]
      exact Multipart.unfinished_append_suffix hu
    · rw [added_of_frames hf, hf, Multipart.messages_append]

theorem unfinished_queued_leading {n : ℕ} {type : SocketType} :
    Multipart.unfinished Frame.more (queued results n (leading identities type)) =
      queued results n (leading identities type) :=
  Multipart.unfinished_of_more fun _ hf => more_of_mem_leading <| queued_sublist.subset hf

theorem leavesNothingWhenFalse_iff : LeavesNothingWhenFalse results identities c s ↔
    ∀ data, c.data? = some data → dataOutcome results identities s ∨ c.wraps ∨
      ∀ b ∈ leadingOutcomes results identities s, b = false := by
  rw [LeavesNothingWhenFalse]
  rcases hd : c.data? with _ | data
  case none =>
    obtain ⟨text, ht⟩ := send_of_no_data hd
    rw [ht, leavesNothing_iff (List.append_nil _).symm]
    simp [Multipart.unfinished]
  case some =>
    rw [leavesNothing_iff (send_frames hd), Ne, send_eq_ok_iff hd, queued_framing]
    simp only [Option.some.injEq, forall_eq']
    cases dataOutcome results identities s
    case true =>
      simp [Multipart.unfinished_concat]
    case false =>
      simp only [Bool.false_eq_true, ↓reduceIte, List.append_nil, unfinished_queued_leading,
        queued_eq_nil_iff, leadingOutcomes, false_or]
      cases c.wraps <;> simp

-- The empty frame is left to the next message.
theorem not_leavesNothingWhenFalse :
    ¬LeavesNothingWhenFalse (failsBut 0) [] oneByte { type := .dealer } := by
  intro h
  have hf := (h (by rintro ⟨⟩)).finished
  exact absurd hf (by decide)

end ProtoCall.Zmq
