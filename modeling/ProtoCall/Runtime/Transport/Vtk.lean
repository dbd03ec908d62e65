import ProtoCall.Runtime.Payload.RoundTrip
import ProtoCall.Runtime.Transport.Outgoing

-- What `vtkCommunicatorChannel` does with raw data: its size goes first, and then the bytes.
namespace ProtoCall.Vtk

def sizeTag : ℤ := 1234

def messageTag : ℤ := 1235

-- What goes over a `vtkSocketCommunicator` at a time, with its tag. A VTK object stands for the bytes
-- that it is marshalled to.
inductive Datum
  | unsignedInt (value : ℕ) (tag : ℤ)
  | unsignedChars (bytes : Bytes) (tag : ℤ)
  | object (bytes : Bytes) (tag : ℤ)
  deriving DecidableEq

-- The functions of a `vtkSocketCommunicator`, whose source is not given: those that send at one end
-- of a connection, and those that receive at the other end.
structure Communicator (C : Type) where
  send             : ℕ → ℤ → C → Bool × C
  sendVoidArray    : Bytes → ℤ → C → Bool × C
  -- `Send` of a `vtkDataObject` or of a `vtkDataArray`
  sendObject       : Bytes → ℤ → C → Bool × C
  receive          : ℤ → C → Option ℕ × C
  -- `ReceiveVoidArray(data, maxLength, ..)`
  receiveVoidArray : ℕ → ℤ → C → Option Bytes × C
  receiveObject    : ℤ → C → Option Bytes × C
  -- what has been sent and not been received, and how often either has been tried
  data             : C → List Datum
  tries            : C → ℕ

namespace Communicator

variable {C : Type} (comm : Communicator C) (ok : ℕ → Bool)

-- A function that sends. What it sends goes behind all that is on the way, and if it fails, it has
-- not sent any of it. `ok` says whether the n-th try goes through.
structure Puts (datum : Datum) (call : C → Bool × C) : Prop where
  counted       : ∀ c, comm.tries (call c).snd = comm.tries c + 1
  outcome       : ∀ c, (call c).fst = ok (comm.tries c)
  inOrder       : ∀ c, ok (comm.tries c) = true → comm.data (call c).snd = comm.data c ++ [datum]
  leavesNothing : ∀ c, ok (comm.tries c) = false → comm.data (call c).snd = comm.data c

-- A function that receives. It gets what has been sent first, and if it fails, it has not taken any
-- of it.
structure Gets {α : Type} (datum : Datum) (value : α) (call : C → Option α × C) : Prop where
  counted      : ∀ c, comm.tries (call c).snd = comm.tries c + 1
  inOrder      : ∀ c rest, comm.data c = datum :: rest → ok (comm.tries c) = true →
    (call c).fst = some value ∧ comm.data (call c).snd = rest
  takesNothing : ∀ c, ok (comm.tries c) = false →
    (call c).fst = none ∧ comm.data (call c).snd = comm.data c

-- What the channel relies on. A VTK object goes over the communicator in one piece.
structure Lawful : Prop where
  send             : ∀ value tag, comm.Puts ok (.unsignedInt value tag) (comm.send value tag)
  sendVoidArray    : ∀ bytes tag, comm.Puts ok (.unsignedChars bytes tag) (comm.sendVoidArray bytes tag)
  sendObject       : ∀ bytes tag, comm.Puts ok (.object bytes tag) (comm.sendObject bytes tag)
  receive          : ∀ value tag, comm.Gets ok (.unsignedInt value tag) value (comm.receive tag)
  receiveVoidArray : ∀ bytes maxLength tag, bytes.length ≤ maxLength →
    comm.Gets ok (.unsignedChars bytes tag) bytes (comm.receiveVoidArray maxLength tag)
  receiveObject    : ∀ bytes tag, comm.Gets ok (.object bytes tag) bytes (comm.receiveObject tag)

variable {comm} {ok} {datum : Datum} {c : C} {rest : List Datum} {α : Type} {value : α}

theorem Puts.eq {call : C → Bool × C} (h : comm.Puts ok datum call) :
    ∃ c', call c = (ok (comm.tries c), c') ∧ comm.tries c' = comm.tries c + 1 ∧
      comm.data c' = comm.data c ++ if ok (comm.tries c) then [datum] else [] := by
  refine ⟨(call c).snd, Prod.ext (h.outcome c) rfl, h.counted c, ?_⟩
  cases ht : ok (comm.tries c)
  case false => exact (h.leavesNothing c ht).trans (List.append_nil _).symm
  case true  => exact h.inOrder c ht

theorem Gets.eq_some {call : C → Option α × C} (h : comm.Gets ok datum value call)
    (hd : comm.data c = datum :: rest) (ht : ok (comm.tries c) = true) :
    ∃ c', call c = (some value, c') ∧ comm.tries c' = comm.tries c + 1 ∧ comm.data c' = rest := by
  obtain ⟨hv, hr⟩ := h.inOrder c rest hd ht
  exact ⟨(call c).snd, Prod.ext hv rfl, h.counted c, hr⟩

theorem Gets.eq_none {call : C → Option α × C} (h : comm.Gets ok datum value call)
    (ht : ok (comm.tries c) = false) : ∃ c', call c = (none, c') ∧ comm.data c' = comm.data c := by
  obtain ⟨hv, hr⟩ := h.takesNothing c ht
  exact ⟨(call c).snd, Prod.ext hv rfl, hr⟩

end Communicator

section

variable {C : Type} (comm : Communicator C)

def sendSize (size : ℕ) (c : C) : Zmq.Sent × C :=
  let (sent, c) := comm.send size sizeTag c
  if !sent then
    (.error "VTK Error: Error calling Send", c)
  else
    (.ok (), c)

def sendVoidData (data : Zmq.VoidData) (c : C) : Zmq.Sent × C :=
  match sendSize comm data.bytes.length c with
  | (.error _, c) => (.error "Error occurred sending message size", c)
  | (.ok (), c)   =>
    let (sent, c) := comm.sendVoidArray data.bytes messageTag c
    if !sent then
      (.error "VTK Error: Error calling SendVoidArray(void*)", c)
    else
      (.ok (), c)

def receiveSize (c : C) : Except String ℕ × C :=
  match comm.receive sizeTag c with
  | (none, c)      => (.error "VTK Error: Error calling Receive(int*)", c)
  | (some size, c) => (.ok size, c)

def receiveVoidData (c : C) : Except String Bytes × C :=
  match receiveSize comm c with
  | (.error _, c) => (.error "Unable to receive message size", c)
  | (.ok size, c) =>
    let data := RpcVoidData.new size
    match comm.receiveVoidArray size messageTag c with
    | (none, c)       => (.error "VTK Error: Error calling ReceiveVoidArray(void*)", c)
    | (some bytes, c) => (.ok <| RpcVoidData.written data bytes, c)

end

-- The size and the bytes.
def voidData (bytes : Bytes) : List Datum :=
  [.unsignedInt bytes.length sizeTag, .unsignedChars bytes messageTag]

section

variable {C : Type} {comm : Communicator C} {ok : ℕ → Bool} {c : C} {bytes : Bytes}
  {rest : List Datum}

-- All of the data is sent or nothing, as long as the try for the bytes goes with that for the size.
theorem sendVoidData_eq (data : Zmq.VoidData) (hl : comm.Lawful ok)
    (h : ok (comm.tries c) → ok (comm.tries c + 1)) :
    (sendVoidData comm data c).fst.isOk = ok (comm.tries c) ∧
      comm.data (sendVoidData comm data c).snd =
        comm.data c ++ if ok (comm.tries c) then voidData data.bytes else [] := by
  obtain ⟨c', hs, hn, hd⟩ := (hl.send data.bytes.length sizeTag).eq (c := c)
  cases ht : ok (comm.tries c) <;> rw [ht] at hs hd
  case false => simp [sendVoidData, sendSize, hs, hd, Except.isOk, Except.toBool]
  case true =>
    obtain ⟨c'', hs', -, hd'⟩ := (hl.sendVoidArray data.bytes messageTag).eq (c := c')
    rw [hn, h ht, hd] at hd'
    rw [hn, h ht] at hs'
    simp [sendVoidData, sendSize, hs, hs', hd', voidData, Except.isOk, Except.toBool]

-- What is at the front is received, or nothing is.
theorem receiveVoidData_eq (hl : comm.Lawful ok)
    (h : ok (comm.tries c) → ok (comm.tries c + 1))
    (hc : comm.data c = voidData bytes ++ rest) (hb : bytes.length < 2 ^ 32) :
    ((receiveVoidData comm c).fst = if ok (comm.tries c) then .ok bytes else
      .error "Unable to receive message size") ∧
      comm.data (receiveVoidData comm c).snd =
        if ok (comm.tries c) then rest else comm.data c := by
  have hs := hl.receive bytes.length sizeTag
  have hr := hl.receiveVoidArray bytes bytes.length messageTag (Nat.le_refl _)
  cases ht : ok (comm.tries c)
  case false =>
    obtain ⟨c', he, hd⟩ := hs.eq_none ht
    simp [receiveVoidData, receiveSize, he, hd]
  case true =>
    obtain ⟨c', he, hn, hd⟩ := hs.eq_some hc ht
    obtain ⟨c'', he', -, hd'⟩ := hr.eq_some hd (hn ▸ h ht)
    simp [receiveVoidData, receiveSize, he, he', hd', Platform.written_new hb]

end

-- A communicator of this kind, to run the channel on.
structure Queue where
  data  : List Datum := []
  tries : ℕ := 0
  deriving DecidableEq

namespace Queue

variable (ok : ℕ → Bool)

def put (datum : Datum) (q : Queue) : Bool × Queue :=
  if ok q.tries then
    (true, { data := q.data ++ [datum], tries := q.tries + 1 })
  else
    (false, { q with tries := q.tries + 1 })

def get {α : Type} (value? : Datum → Option α) (q : Queue) : Option α × Queue :=
  if ok q.tries then
    (q.data.head? >>= value?, { data := q.data.tail, tries := q.tries + 1 })
  else
    (none, { q with tries := q.tries + 1 })

def communicator : Communicator Queue where
  send value tag          := put ok (.unsignedInt value tag)
  sendVoidArray bytes tag := put ok (.unsignedChars bytes tag)
  sendObject bytes tag    := put ok (.object bytes tag)
  receive tag := get ok fun
    | .unsignedInt value tag' => if tag' = tag then some value else none
    | _ => none
  receiveVoidArray maxLength tag := get ok fun
    | .unsignedChars bytes tag' =>
      if tag' = tag ∧ bytes.length ≤ maxLength then some bytes else none
    | _ => none
  receiveObject tag := get ok fun
    | .object bytes tag' => if tag' = tag then some bytes else none
    | _ => none
  data
  tries

variable {ok} {datum : Datum} {q : Queue} {α : Type} {value? : Datum → Option α} {value : α}

theorem put_of_ok (h : ok q.tries = true) :
    put ok datum q = (true, { data := q.data ++ [datum], tries := q.tries + 1 }) :=
  if_pos h

theorem put_of_not_ok (h : ok q.tries = false) :
    put ok datum q = (false, { q with tries := q.tries + 1 }) :=
  if_neg <| ne_true_of_eq_false h

theorem get_of_ok (h : ok q.tries = true) : get ok value? q =
    (q.data.head? >>= value?, { data := q.data.tail, tries := q.tries + 1 }) :=
  if_pos h

theorem get_of_not_ok (h : ok q.tries = false) :
    get ok value? q = (none, { q with tries := q.tries + 1 }) :=
  if_neg <| ne_true_of_eq_false h

theorem puts : (communicator ok).Puts ok datum (put ok datum) where
  counted q         := by
    cases h : ok q.tries
    case false => exact congrArg (·.snd.tries) (put_of_not_ok h)
    case true  => exact congrArg (·.snd.tries) (put_of_ok h)
  outcome q         := by
    cases h : ok q.tries
    case false => exact (congrArg Prod.fst <| put_of_not_ok h).trans h.symm
    case true  => exact (congrArg Prod.fst <| put_of_ok h).trans h.symm
  inOrder q h       := congrArg (·.snd.data) (put_of_ok h)
  leavesNothing q h := congrArg (·.snd.data) (put_of_not_ok h)

theorem gets (hv : value? datum = some value) :
    (communicator ok).Gets ok datum value (get ok value?) where
  counted q           := by
    cases h : ok q.tries
    case false => rw [get_of_not_ok h]; rfl
    case true  => rw [get_of_ok h]; rfl
  inOrder q rest hq h := by
    have hq : q.data = datum :: rest := hq
    rw [get_of_ok h, hq]
    exact ⟨hv, rfl⟩
  takesNothing q h    := by
    rw [get_of_not_ok h]
    exact ⟨rfl, rfl⟩

theorem lawful : (communicator ok).Lawful ok where
  send _ _                 := puts
  sendVoidArray _ _        := puts
  sendObject _ _           := puts
  receive _ _              := gets (if_pos rfl)
  receiveVoidArray _ _ _ h := gets (if_pos ⟨rfl, h⟩)
  receiveObject _ _        := gets (if_pos rfl)

end Queue
end ProtoCall.Vtk
