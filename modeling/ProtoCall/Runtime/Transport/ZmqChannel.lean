import ProtoCall.Runtime.Transport.External
import ProtoCall.Runtime.Transport.Operation

-- All that a `zmqCommunicatorChannel` sends and receives, from one end of a connection to the other.
namespace ProtoCall.Zmq

open Fifo Transition

-- The sockets at the two ends, and how many of the messages that have been sent have arrived.
structure Connection where
  sender  : Sender
  socket  : Socket
  arrived : ℕ := 0

namespace Connection

section

variable (results : Attempts) (arrivals : Arrivals)

def sendItem (identities : List SocketIdentity) (c : Sending) (conn : Connection) :
    Bool × Connection :=
  let (sent, sender) := send .three results identities c conn.sender
  (sent.isOk, { conn with sender })

-- The messages that come while `receive` tries to read one count as arrived.
def receiveItem (c : Call) (conn : Connection) : Option Bytes × Connection :=
  let (bytes, socket) := receiveBytes .three arrivals c conn.socket
  let tries := socket.attempts - conn.socket.attempts
  let arrived := conn.arrived + (coming arrivals conn.socket.attempts tries).length
  (bytes, { conn with socket, arrived })

-- What both ends do, with the identities that are pushed at the time. VTK objects are left to
-- `RpcChannel`, which does not support them. It is not looked at whether a message parses.
def perform (proto : Serialization) (conn : Connection) :
    List SocketIdentity × Operation → Fifo.Event Item × Connection
  | (identities, .sendMessage e)     =>
    let (sent, conn) := conn.sendItem results identities (.message <| some <| proto.serialize e)
    (.put (.envelope e) sent, conn)
  | (identities, .sendVoidData data) =>
    let (sent, conn) := conn.sendItem results identities (.voidData data)
    (.put (.payload ⟨.voidData, data.bytes⟩) sent, conn)
  | (_, .sendDataObject bytes)       => (.put (.payload ⟨.vtkDataObject, bytes⟩) false, conn)
  | (_, .sendDataArray bytes)        => (.put (.payload ⟨.vtkDataArray, bytes⟩) false, conn)
  | (_, .receiveMessage)             =>
    let (bytes, conn) := conn.receiveItem arrivals .message
    (.get <| bytes.map fun bytes => .envelope (proto.parse bytes).snd, conn)
  | (_, .receivePayload .voidData)   =>
    let (bytes, conn) := conn.receiveItem arrivals .voidData
    (.get <| bytes.map fun bytes => .payload ⟨.voidData, bytes⟩, conn)
  | (_, .receivePayload _)           => (.get none, conn)

-- Of the messages that have been sent, those that are yet to arrive.
def travelling (conn : Connection) : List (List Frame) :=
  (Multipart.messages Frame.more conn.sender.frames).drop conn.arrived

-- The network brings the messages in their order.
def Delivers (conn : Connection) (conn' : Connection) : Prop :=
  messages (coming arrivals conn.socket.attempts (conn'.socket.attempts - conn.socket.attempts)) =
    (conn.travelling.take <| conn'.arrived - conn.arrived).flatMap
      (Route.delivered conn.socket.type)

-- What is sent with an operation.
def sending? (proto : Serialization) : Operation → Option Sending
  | .sendMessage e     => some <| .message <| some <| proto.serialize e
  | .sendVoidData data => some <| .voidData data
  | _                  => none

-- All of the frames of a message are queued, or none of them is, and they are not too large. A
-- message does not come when only its empty frame is waited for, and is what it is taken for.
structure Whole (proto : Serialization) (s : Connection × List Item)
    (a : List SocketIdentity × Operation) : Prop where
  frames : (sending? proto a.snd).isSome → ∀ b ∈ leadingOutcomes results a.fst s.fst.sender,
    b = dataOutcome results a.fst s.fst.sender
  size   : ∀ c ∈ sending? proto a.snd, ∀ data ∈ c.data?, data.length < 2 ^ 31
  timely : a.snd.item? = none → Timely arrivals s.fst.socket
  brings : s.fst.Delivers arrivals (perform results arrivals proto s.fst a).snd
  taken  : a.snd.item? = none → ∀ item ∈ s.snd.head?, a.snd.takes item

end

instance {arrivals : Arrivals} {s : Socket} : Decidable (Timely arrivals s) :=
  inferInstanceAs <| Decidable (_ ∨ _ ∨ _)

instance {arrivals : Arrivals} {conn conn' : Connection} :
    Decidable (conn.Delivers arrivals conn') :=
  inferInstanceAs <| Decidable (_ = _)

instance {results : Attempts} {arrivals : Arrivals} {proto : Serialization} {s : Connection × List Item}
    {a : List SocketIdentity × Operation} : Decidable (Whole results arrivals proto s a) :=
  decidable_of_iff (_ ∧ _ ∧ _ ∧ _ ∧ _)
    ⟨fun ⟨hf, hs, ht, hb, hk⟩ => ⟨hf, hs, ht, hb, hk⟩,
      fun h => ⟨h.frames, h.size, h.timely, h.brings, h.taken⟩⟩

-- The data frame of an item.
def bytes (proto : Serialization) : Item → Bytes
  | .envelope e   => (proto.serialize e).bytes
  | .payload item => item.bytes

-- An item that can have been sent.
def Sendable (proto : Serialization) : Item → Prop
  | .envelope e   => (proto.serialize e).ok
  | .payload item => item.kind = .voidData ∧ item.bytes.length < 2 ^ 31

-- The items are those that have arrived and have not been read, and those that are yet to arrive.
-- The latter have the data `pending`.
structure Holds (proto : Serialization) (conn : Connection) (q : List Item) : Prop where
  sender   : isNotReqRepSocket { type := conn.sender.type }
  socket   : isNotReqRepSocket conn.socket
  finished : Multipart.unfinished Frame.more conn.sender.frames = []
  arrived  : conn.arrived ≤ (Multipart.messages Frame.more conn.sender.frames).length
  sendable : ∀ item ∈ q, Sendable proto item
  items    : ∃ unread pending, conn.socket.frames = messages unread ∧
    conn.travelling.map (Route.delivered conn.socket.type) = pending.map ([[], ·]) ∧
    unread ++ pending = q.map (bytes proto)

variable {results : Attempts} {arrivals : Arrivals} {proto : Serialization} {conn : Connection}
  {q : List Item} {item : Item} {identities : List SocketIdentity} {c : Sending} {data : Bytes}

section Send

variable {s : Sender}

theorem send_isOk_of_small (hd : c.data? = some data) (hl : data.length < 2 ^ 31) :
    (send .three results identities c s).fst.isOk = dataOutcome results identities s := by
  rw [send_of_data hd, sendData_fst]
  cases ho : dataOutcome results identities s
  case true =>
    have ha : c.accepts (Version.three.count data) = true := (accepts_three hd).trans <| by simpa using hl
    simp only [↓reduceIte, ha]
    rfl
  case false =>
    have hw : c.wraps = false := by
      cases carries_of_data? hd
      case message  => rfl
      case voidData =>
        rw [Sending.wraps, decide_eq_false_iff_not]
        omega
    simp only [Bool.false_eq_true, ↓reduceIte, accepts_neg_one, hw]
    rfl

-- Either all of the frames are queued, or none of them is.
theorem frames_of_outcomes (hd : c.data? = some data)
    (hf : ∀ b ∈ leadingOutcomes results identities s, b = dataOutcome results identities s) :
    (send .three results identities c s).snd.frames = s.frames ++
      if dataOutcome results identities s then framing identities s.type data else [] := by
  rw [send_frames hd]
  cases ho : dataOutcome results identities s <;> simp only [ho] at hf
  case true =>
    rw [queued_framing_eq_self_iff.mpr ⟨ho, hf⟩]
    rfl
  case false =>
    have hq : queued results s.attempts (leading identities s.type) = [] := queued_eq_nil_iff.mpr hf
    rw [queued_framing, hq, ho]
    rfl

theorem finished_framing {frames : List Frame} {type : SocketType}
    (h : Multipart.unfinished Frame.more frames = []) :
    Multipart.messages Frame.more (frames ++ framing identities type data) =
        Multipart.messages Frame.more frames ++ [framing identities type data] ∧
      Multipart.unfinished Frame.more (frames ++ framing identities type data) = [] := by
  have hm : ∀ f ∈ leading identities type, f.more := fun _ => more_of_mem_leading
  rw [Multipart.messages_append, Multipart.unfinished_append, h, List.nil_append, framing,
    Multipart.messages_concat, Multipart.unfinished_concat, Multipart.messages_of_more hm,
    Multipart.unfinished_of_more hm]
  exact ⟨rfl, rfl⟩

theorem delivered_framing {type type' : SocketType} (h : isNotReqRepSocket { type := type' }) :
    Route.delivered type' (framing identities type data) = [[], data] := by
  rw [Route.delivered, framing, List.getLast?_concat, Option.elim_some, if_pos h]
  rfl

theorem type_send : (send .three results identities c s).snd.type = s.type := by
  rcases hd : c.data? with _ | data
  case none =>
    obtain ⟨_, ht⟩ := send_of_no_data hd
    rw [ht]
  case some => rw [send_of_data hd, sendData_snd]

theorem Holds.withSender (h : Holds proto conn q) (ht : s.type = conn.sender.type)
    (hf : s.frames = conn.sender.frames) : Holds proto { conn with sender := s } q where
  sender   := ht ▸ h.sender
  socket   := h.socket
  finished := hf ▸ h.finished
  arrived  := hf ▸ h.arrived
  sendable := h.sendable
  items    := by
    rw [travelling, hf]
    exact h.items

-- Another message is on its way.
theorem Holds.concat (h : Holds proto conn q) (hs : Sendable proto item)
    (ht : s.type = conn.sender.type) (hf : s.frames = conn.sender.frames ++
      framing identities conn.sender.type (bytes proto item)) :
    Holds proto { conn with sender := s } (q ++ [item]) := by
  obtain ⟨hm, hu⟩ := @finished_framing identities (bytes proto item) _ conn.sender.type h.finished
  obtain ⟨unread, pending, hr, hp, hq⟩ := h.items
  refine ⟨ht ▸ h.sender, h.socket, hf ▸ hu, ?_, fun x hx => ?_, unread,
    pending ++ [bytes proto item], hr, ?_, ?_⟩
  case refine_1 =>
    simp only [hf, hm, List.length_append]
    exact Nat.le_add_right_of_le h.arrived
  case refine_2 =>
    obtain hx | hx := List.mem_append.mp hx
    case inl => exact h.sendable x hx
    case inr => exact List.mem_singleton.mp hx ▸ hs
  case refine_3 =>
    simp only [travelling, hf, hm, List.drop_append_of_le_length h.arrived, List.map_append,
      List.map_singleton]
    rw [delivered_framing h.socket]
    exact congrArg (· ++ _) hp
  case refine_4 => rw [← List.append_assoc, hq, List.map_append, List.map_singleton]

theorem Holds.put (h : Holds proto conn q)
    (hs : ∀ data, c.data? = some data → Sendable proto item ∧ bytes proto item = data)
    (hl : ∀ data, c.data? = some data → data.length < 2 ^ 31)
    (hf : ∀ b ∈ leadingOutcomes results identities conn.sender,
      b = dataOutcome results identities conn.sender) :
    Holds proto (conn.sendItem results identities c).snd
      (Fifo.after q <| .put item (conn.sendItem results identities c).fst) := by
  rw [sendItem]
  rcases hd : c.data? with _ | data
  case none =>
    obtain ⟨text, ht⟩ := send_of_no_data hd
    rw [ht]
    exact h
  case some =>
    obtain ⟨hs, rfl⟩ := hs data hd
    have ho : (send .three results identities c conn.sender).fst.isOk =
      dataOutcome results identities conn.sender := send_isOk_of_small hd (hl _ hd)
    have hr := frames_of_outcomes hd hf
    simp only [ho]
    cases hb : dataOutcome results identities conn.sender <;>
      simp only [hb, Bool.false_eq_true, ↓reduceIte, List.append_nil] at hr
    case false => exact h.withSender type_send hr
    case true  => exact h.concat hs type_send hr

end Send

section Receive

variable {c : Call}

theorem receiveItem_snd : (conn.receiveItem arrivals c).snd = { conn with
    socket  := (receive arrivals c conn.socket).snd
    arrived := conn.arrived + (coming arrivals conn.socket.attempts
      ((receive arrivals c conn.socket).snd.attempts - conn.socket.attempts)).length
  } := by
  cases c <;> rfl

theorem flatten_messages {ms : List Bytes} : (ms.map ([[], ·])).flatten = messages ms := rfl

-- What comes is the first part of what has been on its way.
theorem Holds.coming {pending came : List Bytes}
    (hp : conn.travelling.map (Route.delivered conn.socket.type) = pending.map ([[], ·]))
    (hd : messages came = (conn.travelling.take came.length).flatMap
      (Route.delivered conn.socket.type)) : came = pending.take came.length := by
  apply messages_injective
  rw [hd, List.flatMap_def, List.map_take, hp, ← List.map_take, flatten_messages]

theorem Holds.receive (h : Holds proto conn q) (ht : Timely arrivals conn.socket)
    (hd : conn.Delivers arrivals (conn.receiveItem arrivals c).snd) :
    ((Zmq.receive arrivals c conn.socket).fst = none ∧
        Holds proto (conn.receiveItem arrivals c).snd q) ∨
      ∃ item rest, q = item :: rest ∧
        (Zmq.receive arrivals c conn.socket).fst = some (bytes proto item) ∧
        Holds proto (conn.receiveItem arrivals c).snd rest := by
  obtain ⟨unread, pending, hr, hp, hq⟩ := h.items
  obtain ⟨unread', hr', hy, hm⟩ := receive_of_timely (c := c) h.socket hr ht
  rw [receiveItem_snd] at hd ⊢
  set socket := (Zmq.receive arrivals c conn.socket).snd
  set came := Zmq.coming arrivals conn.socket.attempts (socket.attempts - conn.socket.attempts)
  have hc : came = pending.take came.length := Holds.coming hp <| by
    rw [Delivers, Nat.add_sub_cancel_left] at hd
    exact hd
  have hs : (Zmq.receive arrivals c conn.socket).fst.toList ++
      (unread' ++ pending.drop came.length) = q.map (bytes proto) := by
    rw [← hq, ← List.append_assoc, ← hm, List.append_assoc]
    exact congrArg (unread ++ ·) <| (congrArg (· ++ _) hc).trans <| List.take_append_drop ..
  have hn {rest : List Item} (hrest : ∀ item ∈ rest, item ∈ q)
      (hb : unread' ++ pending.drop came.length = rest.map (bytes proto)) :
      Holds proto { conn with socket, arrived := conn.arrived + came.length } rest := by
    refine ⟨h.sender, by rw [isNotReqRepSocket, hy]; exact h.socket, h.finished, ?_,
      fun x hx => h.sendable x <| hrest x hx, unread', pending.drop came.length, hr', ?_, hb⟩
    case refine_1 =>
      have hl := congrArg List.length hc
      have hl' := congrArg List.length hp
      have ha := h.arrived
      simp only [travelling, List.length_map, List.length_drop, List.length_take] at hl hl'
      change conn.arrived + came.length ≤ (Multipart.messages Frame.more conn.sender.frames).length
      omega
    case refine_2 =>
      change List.map (Route.delivered socket.type) (List.drop (conn.arrived + came.length) _) = _
      rw [hy, ← List.drop_drop]
      exact List.map_drop.trans <| (congrArg (List.drop _) hp).trans List.map_drop.symm
  rcases hf : (Zmq.receive arrivals c conn.socket).fst with _ | data <;> rw [hf] at hs
  case none => exact .inl ⟨rfl, hn (fun _ => id) hs⟩
  case some =>
    obtain ⟨item, rest, rfl, hb, hs⟩ := List.map_eq_cons_iff.mp hs.symm
    exact .inr ⟨item, rest, rfl, congrArg some hb.symm, hn (fun _ => List.mem_cons_of_mem _) hs.symm⟩

theorem length_bytes (h : Sendable proto item) : (bytes proto item).length < 2 ^ 31 := by
  cases item
  case envelope e => exact (proto.serialize e).size_lt
  case payload    => exact h.right

-- What is made of the data frame is all of it.
theorem receiveItem_fst (h : ∀ data, (Zmq.receive arrivals c conn.socket).fst = some data →
      data.length < 2 ^ 31) :
    (conn.receiveItem arrivals c).fst = (Zmq.receive arrivals c conn.socket).fst := by
  cases c
  case message => rfl
  case voidData =>
    rcases hr : (Zmq.receive arrivals .voidData conn.socket).fst with _ | data
    case none => exact congrArg (Option.map _) hr
    case some =>
      have hl := h data hr
      have ht : data.take (Version.three.count data).toNat = data := by
        apply List.take_of_length_le
        simp only [Version.count]
        omega
      exact (congrArg (Option.map _) hr).trans <| congrArg some ht

theorem Holds.get (h : Holds proto conn q) (ht : Timely arrivals conn.socket)
    (hd : conn.Delivers arrivals (conn.receiveItem arrivals c).snd) :
    ((conn.receiveItem arrivals c).fst = none ∧
        Holds proto (conn.receiveItem arrivals c).snd q) ∨
      ∃ item rest, q = item :: rest ∧
        (conn.receiveItem arrivals c).fst = some (bytes proto item) ∧
        Holds proto (conn.receiveItem arrivals c).snd rest := by
  rcases h.receive ht hd with ⟨hr, hh⟩ | ⟨item, rest, rfl, hr, hh⟩
  case inl => exact .inl ⟨(receiveItem_fst fun data hs => nomatch hr.symm.trans hs).trans hr, hh⟩
  case inr =>
    refine .inr ⟨item, rest, rfl, (receiveItem_fst fun data hs => ?_).trans hr, hh⟩
    obtain rfl := Option.some.inj <| hr.symm.trans hs
    exact length_bytes <| h.sendable item <| List.mem_cons_self ..

end Receive

theorem perform_whole {a : List SocketIdentity × Operation} (h : Holds proto conn q)
    (hw : Whole results arrivals proto (conn, q) a) :
    Legal q (perform results arrivals proto conn a).fst ∧
      Holds proto (perform results arrivals proto conn a).snd
        (Fifo.after q (perform results arrivals proto conn a).fst) := by
  obtain ⟨identities, o⟩ := a
  cases o
  case sendMessage e =>
    refine ⟨trivial, h.put (fun data hd => ?_) (hw.size _ rfl) (hw.frames rfl)⟩
    cases carries_of_data? hd
    case message _ ho => exact ⟨ho, rfl⟩
  case sendVoidData data =>
    refine ⟨trivial, h.put (fun data hd => ?_) (hw.size _ rfl) (hw.frames rfl)⟩
    have hl := hw.size _ rfl data hd
    cases carries_of_data? hd
    case voidData => exact ⟨⟨rfl, hl⟩, rfl⟩
  case sendDataObject => exact ⟨trivial, h⟩
  case sendDataArray  => exact ⟨trivial, h⟩
  case receiveMessage =>
    rcases h.get (c := .message) (hw.timely rfl) hw.brings with ⟨hr, hh⟩ | ⟨item, rest, rfl, hr, hh⟩ <;>
      simp only [perform, hr]
    case inl => exact ⟨trivial, hh⟩
    case inr =>
      have hs := h.sendable item <| List.mem_cons_self ..
      have ht := hw.taken rfl item rfl
      cases item
      case payload    => contradiction
      case envelope e =>
        have he : (proto.parse (bytes proto (.envelope e))).snd = e :=
          congrArg Prod.snd <| proto.inverse e hs
        exact ⟨congrArg (fun e => some (Item.envelope e)) he.symm, hh⟩
  case receivePayload kind =>
    cases kind
    case vtkDataObject => exact ⟨trivial, h⟩
    case vtkDataArray  => exact ⟨trivial, h⟩
    case voidData =>
      rcases h.get (c := .voidData) (hw.timely rfl) hw.brings with
        ⟨hr, hh⟩ | ⟨item, rest, rfl, hr, hh⟩ <;> simp only [perform, hr]
      case inl => exact ⟨trivial, hh⟩
      case inr =>
        have ht := hw.taken rfl item rfl
        rcases item with e | ⟨kind, bytes⟩
        case envelope => contradiction
        case payload =>
          obtain rfl : kind = .voidData := of_decide_eq_true ht
          exact ⟨rfl, hh⟩

theorem perform_tells {a : List SocketIdentity × Operation} :
    a.snd.Tells (perform results arrivals proto conn a).fst := by
  obtain ⟨identities, o⟩ := a
  cases o
  case receiveMessage =>
    simp only [perform]
    cases (conn.receiveItem arrivals .message).fst <;> trivial
  case receivePayload kind =>
    cases kind
    case voidData =>
      simp only [perform]
      cases (conn.receiveItem arrivals .voidData).fst <;> rfl
    all_goals rfl
  all_goals rfl

def pinging : List (List SocketIdentity × Operation) :=
  [([{ data := [1], size_le := by decide }], .sendMessage ping),
    ([], .sendVoidData five), ([], .receiveMessage),
    ([], .receivePayload .voidData)]

end Connection
end ProtoCall.Zmq
