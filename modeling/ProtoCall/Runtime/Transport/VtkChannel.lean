import ProtoCall.Runtime.Transport.Operation
import ProtoCall.Runtime.Transport.Vtk

-- All that a `vtkCommunicatorChannel` sends and receives.
namespace ProtoCall.Vtk

open Fifo Transition

def dataObjectTag : ℤ := 1236

def dataArrayTag : ℤ := 1237

section

variable {C : Type} (comm : Communicator C)

def sendMessage (msg : Option Zmq.Serialized) (c : C) : Zmq.Sent × C :=
  match msg with
  | none     => (.error "send passed a NULL message", c)
  | some msg =>
    let size : ℤ := msg.bytes.length
    if size ≤ 0 then
      (.error "No data to send", c)
    else if !msg.ok then
      (.error "ProtoBuf Error: Error calling SerializeToArray", c)
    else
      let data := { bytes := msg.bytes, size_lt := msg.size_lt.trans (by decide) }
      match sendVoidData comm data c with
      | (.error _, c) => (.error "Error occurred sending message data", c)
      | (.ok (), c)   => (.ok (), c)

-- What both overloads of `send` for VTK objects do.
def sendObject (tag : ℤ) (text : String) (bytes : Bytes) (c : C) : Zmq.Sent × C :=
  let (sent, c) := comm.sendObject bytes tag c
  if !sent then
    (.error text, c)
  else
    (.ok (), c)

def sendDataObject : Bytes → C → Zmq.Sent × C :=
  sendObject comm dataObjectTag "VTK Error: Error calling Sent(vtkDataObject*)"

def sendDataArray : Bytes → C → Zmq.Sent × C :=
  sendObject comm dataArrayTag "VTK Error: Error calling Sent(vtkDataArray*)"

def receiveMessage (parse : ParseFromArray) (c : C) : Except String Envelope × C :=
  match receiveVoidData comm c with
  | (.error _, c)   => (.error "Unable to receive message data", c)
  | (.ok bytes, c) =>
    let (parsed, msg) := parse bytes
    if !parsed then
      (.error "ProtoBuf Erro: Error calling ParseFromArray", c)
    else
      (.ok msg, c)

-- What both overloads of `receive` for VTK objects do.
def receiveObject (tag : ℤ) (text : String) (c : C) : Except String Bytes × C :=
  match comm.receiveObject tag c with
  | (none, c)       => (.error text, c)
  | (some bytes, c) => (.ok bytes, c)

def receiveDataObject : C → Except String Bytes × C :=
  receiveObject comm dataObjectTag "VTK Errror: Error calling Receive(vtkDataObject*)"

def receiveDataArray : C → Except String Bytes × C :=
  receiveObject comm dataArrayTag "VTK Errror: Error calling Receive(vtkDataArray*)"

-- The overload of `receive` for a payload of some kind.
def receivePayload : PayloadKind → C → Except String Bytes × C
  | .voidData      => receiveVoidData comm
  | .vtkDataObject => receiveDataObject comm
  | .vtkDataArray  => receiveDataArray comm

-- What both ends do, one after the other.
def perform (proto : Serialization) (c : C) : Operation → Fifo.Event Item × C
  | .sendMessage e        =>
    let (sent, c) := sendMessage comm (some <| proto.serialize e) c
    (.put (.envelope e) sent.isOk, c)
  | .sendVoidData data    =>
    let (sent, c) := sendVoidData comm data c
    (.put (.payload ⟨.voidData, data.bytes⟩) sent.isOk, c)
  | .sendDataObject bytes =>
    let (sent, c) := sendDataObject comm bytes c
    (.put (.payload ⟨.vtkDataObject, bytes⟩) sent.isOk, c)
  | .sendDataArray bytes  =>
    let (sent, c) := sendDataArray comm bytes c
    (.put (.payload ⟨.vtkDataArray, bytes⟩) sent.isOk, c)
  | .receiveMessage       =>
    let (msg, c) := receiveMessage comm proto.parse c
    (.get <| msg.toOption.map .envelope, c)
  | .receivePayload kind  =>
    let (bytes, c) := receivePayload comm kind c
    (.get <| bytes.toOption.map fun bytes => .payload ⟨kind, bytes⟩, c)

end

-- What there is of an item on the communicator.
def data (proto : Serialization) : Item → List Datum
  | .envelope e                      => voidData (proto.serialize e).bytes
  | .payload ⟨.voidData, bytes⟩      => voidData bytes
  | .payload ⟨.vtkDataObject, bytes⟩ => [.object bytes dataObjectTag]
  | .payload ⟨.vtkDataArray, bytes⟩  => [.object bytes dataArrayTag]

-- An item that can have been sent.
def Sendable (proto : Serialization) : Item → Prop
  | .envelope e    => (proto.serialize e).ok
  | .payload item  => item.kind = .voidData → item.bytes.length < 2 ^ 32

-- It takes two tries, one for the size and one for the bytes.
def twofold : Operation → Bool
  | .sendMessage _ | .sendVoidData _ | .receiveMessage | .receivePayload .voidData => true
  | _ => false

section

variable {C : Type}

-- The communicator has all of the items, and nothing else.
structure Holds (comm : Communicator C) (proto : Serialization) (c : C) (q : List Item) : Prop where
  data     : comm.data c = q.flatMap (data proto)
  sendable : ∀ item ∈ q, Sendable proto item

-- The size does not go through alone, and what is received is there, and is what it is taken for.
structure Whole (comm : Communicator C) (ok : ℕ → Bool) (s : C × List Item) (o : Operation) :
    Prop where
  both  : twofold o → ok (comm.tries s.fst) → ok (comm.tries s.fst + 1)
  there : o.item? = none → ∃ item ∈ s.snd.head?, o.takes item

instance {comm : Communicator C} {ok : ℕ → Bool} {s : C × List Item} {o : Operation} :
    Decidable (Whole comm ok s o) :=
  decidable_of_iff (_ ∧ _) ⟨fun ⟨hb, ht⟩ => ⟨hb, ht⟩, fun h => ⟨h.both, h.there⟩⟩

variable {comm : Communicator C} {ok : ℕ → Bool} {proto : Serialization} {c : C} {q : List Item}
  {o : Operation} {item : Item} {bytes : Bytes} {rest : List Datum} {kind : PayloadKind}

section Send

variable {sent : Zmq.Sent × C}

-- All of an item has been sent, or nothing of it.
structure Sends (comm : Communicator C) (proto : Serialization) (c : C) (item : Item)
    (sent : Zmq.Sent × C) : Prop where
  data     : comm.data sent.snd = comm.data c ++ if sent.fst.isOk then data proto item else []
  sendable : sent.fst.isOk → Sendable proto item

theorem sendVoidData_sends (hl : comm.Lawful ok) {d : Zmq.VoidData}
    (h : ok (comm.tries c) → ok (comm.tries c + 1)) :
    Sends comm proto c (.payload ⟨.voidData, d.bytes⟩) (sendVoidData comm d c) where
  data     := by
    obtain ⟨ho, hd⟩ := sendVoidData_eq d hl h
    rw [ho, hd]
    rfl
  sendable := fun _ _ => d.size_lt

theorem sendMessage_sends (hl : comm.Lawful ok) {e : Envelope}
    (h : ok (comm.tries c) → ok (comm.tries c + 1)) :
    Sends comm proto c (.envelope e) (sendMessage comm (some <| proto.serialize e) c) := by
  have hn {text : String} : Sends comm proto c (.envelope e) (.error text, c) :=
    ⟨(List.append_nil _).symm, fun h => nomatch h⟩
  simp only [sendMessage]
  split
  case isTrue => exact hn
  case isFalse =>
    split
    case isTrue => exact hn
    case isFalse ho =>
      let data : Zmq.VoidData :=
        ⟨(proto.serialize e).bytes, (proto.serialize e).size_lt.trans (by decide)⟩
      have hs : Sends comm proto c (.payload ⟨.voidData, data.bytes⟩) (sendVoidData comm data c) :=
        sendVoidData_sends hl h
      rcases hr : sendVoidData comm _ c with ⟨_ | _, c'⟩ <;> rw [hr] at hs
      case error => exact ⟨hs.data, fun h => nomatch h⟩
      case ok    => exact ⟨hs.data, fun _ => by simpa [Sendable] using ho⟩

theorem sendObject_sends (hl : comm.Lawful ok) {tag : ℤ} {text : String} (hk : kind ≠ .voidData)
    (hd : Vtk.data proto (.payload ⟨kind, bytes⟩) = [.object bytes tag]) :
    Sends comm proto c (.payload ⟨kind, bytes⟩) (sendObject comm tag text bytes c) where
  data     := by
    obtain ⟨c', hs, -, hc⟩ := (hl.sendObject bytes tag).eq (c := c)
    cases ht : ok (comm.tries c) <;> rw [ht] at hs hc
    case false => simp [sendObject, hs, hc, Except.isOk, Except.toBool]
    case true  => simp [sendObject, hs, hc, hd, Except.isOk, Except.toBool]
  sendable := fun _ h => absurd h hk

theorem Holds.nil (h : comm.data c = []) : Holds comm proto c [] where
  data     := h
  sendable := by simp

theorem Holds.put (h : Holds comm proto c q) (hs : Sends comm proto c item sent) :
    Holds comm proto sent.snd (after q <| .put item sent.fst.isOk) := by
  obtain ⟨hd, hf⟩ := hs
  cases ho : sent.fst.isOk <;> simp only [ho, Bool.false_eq_true, ↓reduceIte] at hd hf
  case false => exact ⟨by rw [hd, List.append_nil, h.data]; rfl, h.sendable⟩
  case true =>
    refine ⟨by rw [hd, h.data]; simp, fun x hm => ?_⟩
    obtain hm | hm := List.mem_append.mp hm
    case inl => exact h.sendable x hm
    case inr => exact List.mem_singleton.mp hm ▸ hf trivial

end Send

section Receive

-- What is at the front has been received, or nothing has.
def Receives {α : Type} (comm : Communicator C) (c : C) (a : α) (rest : List Datum)
    (received : Except String α × C) : Prop :=
  (received.fst = .ok a ∧ comm.data received.snd = rest) ∨
    ∃ text, received.fst = .error text ∧ comm.data received.snd = comm.data c

theorem receiveObject_receives (hl : comm.Lawful ok) {tag : ℤ} {text : String}
    (hc : comm.data c = .object bytes tag :: rest) :
    Receives comm c bytes rest (receiveObject comm tag text c) := by
  have hg := hl.receiveObject bytes tag
  cases ht : ok (comm.tries c)
  case false =>
    obtain ⟨c', he, hd⟩ := hg.eq_none ht
    exact .inr ⟨text, by simpa [receiveObject, he] using hd⟩
  case true =>
    obtain ⟨c', he, -, hd⟩ := hg.eq_some hc ht
    exact .inl (by simpa [receiveObject, he] using hd)

theorem receiveVoidData_receives (hl : comm.Lawful ok)
    (h : ok (comm.tries c) → ok (comm.tries c + 1)) (hc : comm.data c = voidData bytes ++ rest)
    (hb : bytes.length < 2 ^ 32) : Receives comm c bytes rest (receiveVoidData comm c) := by
  obtain ⟨hr, hd⟩ := receiveVoidData_eq hl h hc hb
  cases ht : ok (comm.tries c) <;> rw [ht] at hr hd
  case false => exact .inr ⟨_, hr, hd⟩
  case true  => exact .inl ⟨hr, hd⟩

theorem receiveMessage_receives (hl : comm.Lawful ok) {e : Envelope}
    (h : ok (comm.tries c) → ok (comm.tries c + 1))
    (hc : comm.data c = data proto (.envelope e) ++ rest) (he : (proto.serialize e).ok) :
    Receives comm c e rest (receiveMessage comm proto.parse c) := by
  have hs := (proto.serialize e).size_lt.trans (by decide : 2 ^ 31 < 2 ^ 32)
  have hr : Receives comm c _ rest (receiveVoidData comm c) := receiveVoidData_receives hl h hc hs
  rcases hv : receiveVoidData comm c with ⟨_ | _, c'⟩ <;> rw [hv] at hr <;>
    simp only [receiveMessage, hv]
  case error =>
    obtain ⟨hr, -⟩ | ⟨_, hr, hd⟩ := hr
    case inl => contradiction
    case inr => exact .inr ⟨_, rfl, hd⟩
  case ok =>
    obtain ⟨hr, hd⟩ | ⟨_, hr, -⟩ := hr
    case inl =>
      obtain rfl := Except.ok.inj hr
      change Receives comm c e rest (if !(proto.parse (proto.serialize e).bytes).fst then _ else
        (.ok (proto.parse (proto.serialize e).bytes).snd, c'))
      rw [proto.inverse e he]
      exact .inl ⟨rfl, hd⟩
    case inr => contradiction

-- The front of what is there has been taken, or nothing has been.
theorem Holds.get {α : Type} {a : α} {f : α → Item} {received : Except String α × C}
    (h : Holds comm proto c (f a :: q))
    (hr : Receives comm c a (q.flatMap (Vtk.data proto)) received) :
    Legal (f a :: q) (.get <| received.fst.toOption.map f) ∧
      Holds comm proto received.snd
        (after (f a :: q) <| .get <| received.fst.toOption.map f) := by
  obtain ⟨hr, hd⟩ | ⟨text, hr, hd⟩ := hr <;> rw [hr]
  case inl => exact ⟨rfl, hd, fun x hm => h.sendable x <| List.mem_cons_of_mem _ hm⟩
  case inr => exact ⟨trivial, hd.trans h.data, h.sendable⟩

end Receive

theorem perform_whole (hl : comm.Lawful ok) (h : Holds comm proto c q)
    (hw : Whole comm ok (c, q) o) :
    Legal q (perform comm proto c o).fst ∧
      Holds comm proto (perform comm proto c o).snd (after q (perform comm proto c o).fst) := by
  cases o
  case sendMessage    => exact ⟨trivial, h.put <| sendMessage_sends hl <| hw.both rfl⟩
  case sendVoidData   => exact ⟨trivial, h.put <| sendVoidData_sends hl <| hw.both rfl⟩
  case sendDataObject => exact ⟨trivial, h.put <| sendObject_sends hl (by decide) rfl⟩
  case sendDataArray  => exact ⟨trivial, h.put <| sendObject_sends hl (by decide) rfl⟩
  case receiveMessage =>
    obtain ⟨item, hq, ht⟩ := hw.there rfl
    obtain ⟨q, rfl⟩ := List.head?_eq_some_iff.mp hq
    cases item
    case payload  => contradiction
    case envelope e =>
      exact h.get (f := .envelope) <| receiveMessage_receives hl (hw.both rfl) h.data <|
        h.sendable _ <| List.mem_cons_self ..
  case receivePayload kind =>
    obtain ⟨item, hq, ht⟩ := hw.there rfl
    obtain ⟨q, rfl⟩ := List.head?_eq_some_iff.mp hq
    rcases item with e | ⟨kind', bytes⟩
    case envelope => contradiction
    case payload =>
      obtain rfl : kind' = kind := of_decide_eq_true ht
      refine h.get (f := fun bytes => .payload ⟨kind', bytes⟩) ?_
      cases kind'
      case vtkDataObject => exact receiveObject_receives hl h.data
      case vtkDataArray  => exact receiveObject_receives hl h.data
      case voidData      =>
        exact receiveVoidData_receives hl (hw.both rfl) h.data <|
          h.sendable _ (List.mem_cons_self ..) rfl

theorem perform_tells : o.Tells (perform comm proto c o).fst := by
  cases o
  case receiveMessage =>
    simp only [perform]
    cases (receiveMessage comm proto.parse c).fst <;> trivial
  case receivePayload kind =>
    simp only [perform]
    cases (receivePayload comm kind c).fst
    case error => rfl
    case ok    => exact decide_eq_true rfl
  all_goals rfl

-- A channel whose sizes and bytes stay together does what a link does.
theorem communicator_refines {P : Platform} {os : List Operation} (hl : comm.Lawful ok)
    (hc : comm.data c = [])
    (ha : AllAllowed (Whole comm ok) (beside (perform comm proto)) (c, []) os) :
    ∃ q, Holds comm proto (final (perform comm proto) os c) q ∧
      puts (events (perform comm proto) os c) = gets (events (perform comm proto) os c) ++ q ∧
      Link.Refined P os (events (perform comm proto) os c) q := by
  obtain ⟨q, ht, hq⟩ := trace_of_step (R := Holds comm proto) (fun _ _ _ => perform_whole hl)
    (.nil hc) ha
  exact ⟨q, hq, ht.conserves, Link.refined_of_trace ht <| forall₂_events fun _ _ => perform_tells⟩

end

-- Sending the array fails at first.
def pinging : List Operation :=
  [.sendMessage ping, .sendVoidData five, .receiveMessage,
    .sendDataArray [7], .sendDataArray [7], .receivePayload .voidData,
    .receivePayload .vtkDataArray]

def pinged : Communicator Queue := Queue.communicator fun n => n ≠ 6

theorem communicator_refines_pinging :
    ∃ q, Holds pinged pings (final (perform pinged pings) pinging {}) q ∧
      puts (events (perform pinged pings) pinging {}) =
        gets (events (perform pinged pings) pinging {}) ++ q ∧
      Link.Refined Salutation.platform pinging (events (perform pinged pings) pinging {}) q :=
  communicator_refines Queue.lawful rfl <| by decide +kernel

end ProtoCall.Vtk
