import ProtoCall.Library.Fifo
import ProtoCall.Runtime.Transport.Outgoing
import ProtoCall.Runtime.Transport.Receive

-- What the two ends of a connection do to get items from one of them to the other, and what the
-- link of a process has to say to that.
namespace ProtoCall

inductive Operation
  | sendMessage (e : Envelope)
  | sendVoidData (data : Zmq.VoidData)
  | sendDataObject (bytes : Bytes)
  | sendDataArray (bytes : Bytes)
  | receiveMessage
  | receivePayload (kind : PayloadKind)

-- The (de)serialization of protobuf, which gets back what it has made.
structure Serialization where
  serialize : Envelope → Zmq.Serialized
  parse     : ParseFromArray
  inverse   : ∀ e, (serialize e).ok → parse (serialize e).bytes = (true, e)

namespace Operation

-- The item that is passed to `send`.
def item? : Operation → Option Item
  | sendMessage e        => some <| .envelope e
  | sendVoidData data    => some <| .payload ⟨.voidData, data.bytes⟩
  | sendDataObject bytes => some <| .payload ⟨.vtkDataObject, bytes⟩
  | sendDataArray bytes  => some <| .payload ⟨.vtkDataArray, bytes⟩
  | _                    => none

-- What is received is taken for what `receive` is called for.
def takes : Operation → Item → Bool
  | receiveMessage, .envelope _        => true
  | receivePayload kind, .payload item => item.kind = kind
  | _, _                               => false

-- An event that there can be for the operation.
def Tells (o : Operation) : Fifo.Event Item → Prop
  | .put item _      => o.item? = some item
  | .get (some item) => o.takes item
  | .get none        => o.item? = none

end Operation

namespace Link

-- Both ends of the link, where what has been sent arrives at once.
def perform (P : Platform) (l : Link) : Operation → Fifo.Event Item × Link
  | .receiveMessage      =>
    let (e, l) := l.receiveMessage P
    (.get <| e.map .envelope, l)
  | .receivePayload kind =>
    let (bytes, l) := l.receivePayload P kind
    (.get <| bytes.map fun bytes => .payload ⟨kind, bytes⟩, l)
  | .sendMessage e        => put (.envelope e)
  | .sendVoidData data    => put (.payload ⟨.voidData, data.bytes⟩)
  | .sendDataObject bytes => put (.payload ⟨.vtkDataObject, bytes⟩)
  | .sendDataArray bytes  => put (.payload ⟨.vtkDataArray, bytes⟩)
where
  put (item : Item) : Fifo.Event Item × Link :=
    let (ok, l) := l.send P item
    (.put item ok, { l with incoming := l.incoming ++ l.outgoing, outgoing := [] })

variable {P : Platform} {l : Link} {o : Operation} {item : Item} {e : Fifo.Event Item}
  {es : List (Fifo.Event Item)} {os : List Operation} {q : List Item}

theorem perform_of_item (h : o.item? = some item) : l.perform P o = perform.put P l item := by
  cases o <;> cases h <;> rfl

-- The link does what is told of it.
def Replays (P : Platform) (l : Link) (o : Operation) (e : Fifo.Event Item) : Prop :=
  ∃ reads, l.perform P o = (e, {
    incoming := Fifo.after l.incoming e
    outgoing := []
    sends    := l.sends + (Fifo.taken [e]).length
    receives := l.receives + (Fifo.got [e]).length
    reads
  })

theorem replays_put {ok : Bool} (ho : o.item? = some item) (hs : P.sendOk l.sends = ok)
    (hl : l.outgoing = []) : l.Replays P o (.put item ok) := by
  refine ⟨l.reads, ?_⟩
  rw [perform_of_item ho]
  cases ok <;> simp [perform.put, send, hs, hl]

theorem replays_none (ho : o.item? = none) (hr : P.receiveOk l.receives = false)
    (hl : l.outgoing = []) : l.Replays P o (.get none) := by
  cases o
  case receiveMessage      => exact ⟨l.reads, by simp [perform, receiveMessage, hr, hl]⟩
  case receivePayload kind =>
    exact ⟨l.reads ++ [kind], by simp [perform, receivePayload, hr, hl]⟩
  all_goals contradiction

theorem replays_some (ho : o.takes item) (hr : P.receiveOk l.receives) (hl : l.outgoing = [])
    (hi : l.incoming.head? = some item) : l.Replays P o (.get <| some item) := by
  obtain ⟨rest, hi⟩ := List.head?_eq_some_iff.mp hi
  rcases item with e | p <;> cases o
  case envelope.receiveMessage => exact ⟨l.reads, by simp [perform, receiveMessage, hr, hi, hl]⟩
  case payload.receivePayload =>
    obtain rfl := of_decide_eq_true ho
    exact ⟨l.reads ++ [p.kind], by simp [perform, receivePayload, hr, hi, hl]⟩
  all_goals contradiction

-- From the n-th attempt on, these are the outcomes.
def Follows (ok : ℕ → Bool) (n : ℕ) (outcomes : List Bool) : Prop :=
  ∀ k b, outcomes[k]? = some b → ok (n + k) = b

theorem follows_append {ok : ℕ → Bool} {n : ℕ} {bs bs' : List Bool} (h : Follows ok n (bs ++ bs')) :
    Follows ok n bs ∧ Follows ok (n + bs.length) bs' := by
  refine ⟨fun k b hk => h k b ?_, fun k b hk => ?_⟩
  case refine_1 =>
    rw [List.getElem?_append_left (List.getElem?_eq_some_iff.mp hk).fst]
    exact hk
  case refine_2 =>
    rw [Nat.add_assoc]
    apply h
    rwa [List.getElem?_append_right (Nat.le_add_right ..), Nat.add_sub_cancel_left]

theorem replays (ho : o.Tells e) (he : Fifo.Legal l.incoming e) (hl : l.outgoing = [])
    (hs : Follows P.sendOk l.sends (Fifo.taken [e]))
    (hr : Follows P.receiveOk l.receives (Fifo.got [e])) : l.Replays P o e := by
  rcases e with ⟨item, ok⟩ | _ | item
  case put      => exact replays_put ho (hs 0 ok rfl) hl
  case get.none => exact replays_none ho (hr 0 _ rfl) hl
  case get.some => exact replays_some ho (hr 0 _ rfl) hl he

-- A link that takes and gives when the channel does has the same to tell.
theorem events_of_trace (ht : Fifo.Trace l.incoming es q) (ho : os.Forall₂ Operation.Tells es)
    (hl : l.outgoing = []) (hs : Follows P.sendOk l.sends (Fifo.taken es))
    (hr : Follows P.receiveOk l.receives (Fifo.got es)) :
    Fifo.events (perform P) os l = es ∧ (Fifo.final (perform P) os l).incoming = q := by
  induction ho generalizing l
  case nil =>
    cases ht
    exact ⟨rfl, rfl⟩
  case cons o e os es ho _ hi =>
    obtain - | ⟨he, ht⟩ := ht
    rw [Fifo.taken_cons] at hs
    rw [Fifo.got_cons] at hr
    obtain ⟨hs, hs'⟩ := follows_append hs
    obtain ⟨hr, hr'⟩ := follows_append hr
    obtain ⟨reads, hp⟩ := replays ho he hl hs hr
    rw [Fifo.events, Fifo.final, hp]
    obtain ⟨hes, hq⟩ := hi (l := ⟨_, [], _, _, reads⟩) ht rfl hs' hr'
    exact ⟨congrArg (e :: ·) hes, hq⟩

-- There is a link that does all of this, where the (de)serializers are those of `P`. It is a reliable
-- one if nothing fails.
def Refined (P : Platform) (os : List Operation) (es : List (Fifo.Event Item)) (q : List Item) :
    Prop :=
  ∃ sendOk receiveOk, Fifo.events (perform { P with sendOk, receiveOk }) os {} = es ∧
    (Fifo.final (perform { P with sendOk, receiveOk }) os {}).incoming = q ∧
    ((∀ e ∈ es, e.succeeds) → (∀ n, sendOk n) ∧ ∀ n, receiveOk n)

theorem follows_getD {bs : List Bool} : Follows (bs.getD · true) 0 bs := by
  intro k b hk
  rw [Nat.zero_add]
  exact List.getD_eq_getElem?_getD.trans <| by rw [hk, Option.getD_some]

theorem getD_of_forall {bs : List Bool} (h : ∀ b ∈ bs, b) (n : ℕ) : bs.getD n true := by
  rw [List.getD_eq_getElem?_getD]
  cases hn : bs[n]?
  case none   => rfl
  case some b => exact h b <| List.mem_of_getElem? hn

theorem refined_of_trace (ht : Fifo.Trace [] es q) (ho : os.Forall₂ Operation.Tells es) :
    Refined P os es q := by
  refine ⟨((Fifo.taken es).getD · true), ((Fifo.got es).getD · true), ?_⟩
  obtain ⟨he, hq⟩ := events_of_trace (P := { P with
    sendOk    := ((Fifo.taken es).getD · true)
    receiveOk := ((Fifo.got es).getD · true)
  }) (l := {}) ht ho rfl follows_getD follows_getD
  refine ⟨he, hq, fun hs => ⟨getD_of_forall fun b hb => ?_, getD_of_forall fun b hb => ?_⟩⟩
  case refine_1 =>
    obtain ⟨e, hm, hb⟩ := List.mem_filterMap.mp hb
    rcases e with ⟨item, ok⟩ | item
    case put => exact Option.some.inj hb ▸ hs _ hm
    case get => contradiction
  case refine_2 =>
    obtain ⟨e, hm, hb⟩ := List.mem_filterMap.mp hb
    rcases e with ⟨item, ok⟩ | item
    case put => contradiction
    case get => exact Option.some.inj hb ▸ hs _ hm

end Link

-- A request without an input, and its bytes.
def ping : Envelope where
  request := some { id := some 0, extensions := [] }

def pingBytes : Bytes := [10, 2, 8, 0]

def five : Zmq.VoidData := { bytes := [5], size_lt := by decide }

def pings : Serialization where
  serialize e :=
    if e = ping then { bytes := pingBytes, size_lt := by decide }
    else { bytes := [], ok := false, size_lt := by decide }
  parse bytes := if bytes = pingBytes then (true, ping) else (false, {})
  inverse e h := by
    by_cases he : e = ping
    case pos => simp [he]
    case neg => simp [he] at h

end ProtoCall
