import Mathlib.Order.Monotone.Defs
import ProtoCall.Runtime.Duplex.Frames

-- What becomes of a message whose link breaks while it is sent or received.
namespace ProtoCall

-- The same (de)serializers, with a link that can break, and that is not mended.
structure Platform.Breaks (Q P : Platform) : Prop where
  sendOk      : Antitone Q.sendOk
  receiveOk   : Antitone Q.receiveOk
  size        : Q.size = P.size
  serialize   : Q.serialize = P.serialize
  deserialize : Q.deserialize = P.deserialize

namespace Platform.Breaks

variable {P Q : Platform}

theorem encode (h : Q.Breaks P) : Q.encode = P.encode := by
  funext carrier content
  cases carrier
  case vtk      => rfl
  case external => simp only [Platform.encode, voidData, h.size, h.serialize]

theorem sends_of_le {m n : ℕ} (h : Q.Breaks P) (hl : m ≤ n) (hs : Q.sendOk n) : Q.sendOk m :=
  h.sendOk hl hs

theorem receives_of_le {m n : ℕ} (h : Q.Breaks P) (hl : m ≤ n) (hr : Q.receiveOk n) :
    Q.receiveOk m :=
  h.receiveOk hl hr

end Platform.Breaks

namespace Link

-- What the link has taken of these items. If it has not broken, that is all of them.
structure Takes (Q : Platform) (items : List Item) (l l' : Link) : Prop where
  incoming : l'.incoming = l.incoming
  receives : l'.receives = l.receives
  sends    : l.sends ≤ l'.sends
  outgoing : ∃ sent, l'.outgoing = l.outgoing ++ sent ∧ sent <+: items ∧
    (Q.sendOk l'.sends → sent = items) ∧ (¬Q.sendOk l.sends → sent = [])

-- A message has not been received as a whole: nothing can be received any more, or its end is
-- missing, and nothing follows it.
def Misses (Q : Platform) (items : List Item) (l l' : Link) : Prop :=
  ¬Q.receiveOk l'.receives ∨ l'.incoming = [] ∧ ¬items <+: l.incoming

-- Nothing is sent.
structure Listens (l l' : Link) : Prop where
  outgoing : l'.outgoing = l.outgoing
  sends    : l'.sends = l.sends
  receives : l.receives ≤ l'.receives

variable {P Q : Platform} {l l' l'' : Link} {item : Item} {items : List Item} {kind : PayloadKind}

theorem Takes.nil : Takes Q [] l l where
  incoming := rfl
  receives := rfl
  sends    := le_rfl
  outgoing := ⟨[], by simp⟩

theorem Takes.of_not_sendOk (hQ : Q.Breaks P) (h : ¬Q.sendOk l.sends) :
    Takes Q items l { l with sends := l.sends + 1 } where
  incoming := rfl
  receives := rfl
  sends    := Nat.le_succ _
  outgoing := ⟨[], by simp, List.nil_prefix,
    fun hs => absurd (hQ.sends_of_le (Nat.le_succ _) hs) h, fun _ => rfl⟩

theorem Takes.cons (h : Q.sendOk l.sends)
    (ht : Takes Q items { l with outgoing := l.outgoing ++ [item], sends := l.sends + 1 } l') :
    Takes Q (item :: items) l l' := by
  obtain ⟨sent, ho, hp, hs, -⟩ := ht.outgoing
  exact {
    incoming := ht.incoming
    receives := ht.receives
    sends    := (Nat.le_succ _).trans ht.sends
    outgoing := ⟨item :: sent, ho.trans <| List.append_assoc ..,
      List.cons_prefix_cons.mpr ⟨rfl, hp⟩, fun hl => congrArg _ <| hs hl, fun hn => absurd h hn⟩
  }

theorem Misses.of_not_receiveOk (hQ : Q.Breaks P) (h : ¬Q.receiveOk l.receives)
    (hl : l'.receives = l.receives + 1) : Misses Q items l l' :=
  .inl fun hr => h <| hQ.receives_of_le (hl ▸ Nat.le_succ _) hr

theorem Misses.cons (h : Misses Q items l l') (hi : l''.incoming = item :: l.incoming) :
    Misses Q (item :: items) l'' l' :=
  h.imp_right fun ⟨he, hn⟩ => ⟨he, fun hp => hn (List.cons_prefix_cons.mp <| hi ▸ hp).right⟩

theorem Listens.refl : Listens l l := ⟨rfl, rfl, le_rfl⟩

theorem Listens.trans (h : Listens l l') (h' : Listens l' l'') : Listens l l'' :=
  ⟨h'.outgoing.trans h.outgoing, h'.sends.trans h.sends, h.receives.trans h'.receives⟩

theorem listens_receivePayload : Listens l (l.receivePayload Q kind).snd := by
  simp only [receivePayload]
  repeat' split
  all_goals exact ⟨rfl, rfl, Nat.le_succ _⟩

theorem listens_receiveMessage : Listens l (l.receiveMessage Q).snd := by
  simp only [receiveMessage]
  repeat' split
  all_goals exact ⟨rfl, rfl, Nat.le_succ _⟩

theorem receivePayload_eq (h : Q.receiveOk l.receives) (hP : ∀ n, P.receiveOk n) :
    l.receivePayload Q kind = l.receivePayload P kind := by
  simp only [receivePayload, h, hP]

theorem receivePayload_of_not_receiveOk (h : ¬Q.receiveOk l.receives) :
    (l.receivePayload Q kind).fst = none ∧
      (l.receivePayload Q kind).snd.receives = l.receives + 1 := by
  simp [receivePayload, h]

theorem receivePayload_nil (h : l.incoming = []) :
    (l.receivePayload Q kind).fst = none ∧ (l.receivePayload Q kind).snd.incoming = [] := by
  simp only [receivePayload, h]
  split <;> exact ⟨rfl, rfl⟩

theorem receiveMessage_eq (h : Q.receiveOk l.receives) (hP : ∀ n, P.receiveOk n) :
    l.receiveMessage Q = l.receiveMessage P := by
  simp only [receiveMessage, h, hP]

theorem receiveMessage_of_not_receiveOk (h : ¬Q.receiveOk l.receives) :
    l.receiveMessage Q = (none, { l with receives := l.receives + 1 }) := by
  simp [receiveMessage, h]

end Link

namespace Payload

variable {P Q : Platform} {p : Process} {as : List (Option PayloadItem)} {xs : List (ℕ × Carrier)}
  {x : ℕ × Carrier} {items : List PayloadItem} {contents : List Bytes} {rest : List Item}
  {s : Target} {msg : Message} {d : Descriptor} {heap : Heap}

theorem attempts_eq (hQ : Q.Breaks P) : attempts Q heap msg d = attempts P heap msg d := by
  simp only [attempts, hQ.encode]

theorem attempts_takes (hQ : Q.Breaks P) (ha : ∀ a ∈ as, a.isSome) :
    Link.Takes Q (as.reduceOption.map .payload) p.channel.link
      (Command.block (as.map (attempt Q)) p).fst.channel.link := by
  induction as generalizing p
  case nil => exact .nil
  case cons a as hi =>
    obtain ⟨ha, has⟩ := List.forall_mem_cons.mp ha
    obtain ⟨item, rfl⟩ := Option.isSome_iff_exists.mp ha
    rw [List.map_cons, Command.block_cons, List.reduceOption_cons_of_some, List.map_cons]
    by_cases ho : Q.sendOk p.channel.link.sends
    case pos =>
      have hs : attempt Q (some item) p = (p.withLink { p.channel.link with
          outgoing := p.channel.link.outgoing ++ [.payload item]
          sends    := p.channel.link.sends + 1
        }, none) := by simp [attempt, Process.send, Link.send, ho]
      rw [Command.seq_of_none hs]
      exact .cons ho <| hi (p := p.withLink _) has
    case neg =>
      have hs : attempt Q (some item) p = (p.withLink { p.channel.link with
          sends := p.channel.link.sends + 1
        }, some .ret) := by simp [attempt, Process.send, Link.send, ho]
      rw [Command.seq_of_some hs]
      exact .of_not_sendOk hQ ho

theorem receiveObject_eq (hQ : Q.Breaks P) (hP : P.Reliable)
    (h : Q.receiveOk s.fst.channel.link.receives) : receiveObject Q x s = receiveObject P x s := by
  have hl {kind : PayloadKind} : s.fst.receivePayload Q kind = s.fst.receivePayload P kind := by
    simp only [Process.receivePayload, Link.receivePayload_eq h hP.receiveOk]
  obtain ⟨i, type | cls⟩ := x
  case vtk =>
    have hc : (obtain i s).snd.snd.channel.link = s.fst.channel.link := by rw [obtain_channel]
    simp only [receiveObject, receiveVtk, Process.receivePayload, hc,
      Link.receivePayload_eq h hP.receiveOk]
  case external => simp only [receiveObject, receiveExternal, hl, hQ.deserialize]

theorem not_accepts (h : (s.fst.channel.link.receivePayload Q x.snd.kind).fst = none) :
    ¬Accepts Q x s := by
  rintro ⟨bytes, hb, -⟩
  cases h.symm.trans hb

-- Objects are received over a link that can break as over one that cannot, or they get lost.
theorem Encodes.receiveObjects_or (he : Encodes P xs items contents) (hQ : Q.Breaks P)
    (hP : P.Reliable) (hi : s.fst.channel.link.incoming <+: items.map .payload ++ rest) :
    (∃ t, s.fst.channel.link.incoming = items.map .payload ++ t ∧ t <+: rest) ∧
        receiveObjects Q xs s = receiveObjects P xs s ∨
      (receiveObjects Q xs s).snd = some .ret ∧
        Link.Misses Q (items.map .payload) s.fst.channel.link
          (receiveObjects Q xs s).fst.fst.channel.link := by
  induction he generalizing s
  case nil => exact .inl ⟨⟨_, rfl, hi⟩, rfl⟩
  case cons x xs item items content contents hx _ ih =>
    by_cases hr : Q.receiveOk s.fst.channel.link.receives
    case neg =>
      obtain ⟨hn, hl⟩ := @Link.receivePayload_of_not_receiveOk _ _ x.snd.kind hr
      rw [receiveObjects_cons_of_not_accepts (not_accepts hn)]
      rw [← receiveObject_link] at hl
      exact .inr ⟨rfl, .of_not_receiveOk hQ hr hl⟩
    case pos =>
      rcases hin : s.fst.channel.link.incoming with _ | ⟨item', t⟩
      case nil =>
        obtain ⟨hn, hl⟩ := @Link.receivePayload_nil Q _ x.snd.kind hin
        rw [receiveObjects_cons_of_not_accepts (not_accepts hn)]
        rw [← receiveObject_link] at hl
        exact .inr ⟨rfl, .inr ⟨hl, by simp [hin]⟩⟩
      case cons =>
        rw [hin, List.map_cons, List.cons_append, List.cons_prefix_cons] at hi
        obtain ⟨rfl, ht⟩ := hi
        have ha := receiveObject_accepts hP (kind_of_encode hx) hin
        have hs := receiveObject_incoming hP.receiveOk (kind_of_encode hx) hin
        have heq : receiveObject Q x s = receiveObject P x s := receiveObject_eq hQ hP hr
        have ha' : Accepts Q x s := by
          by_contra hn
          have hret := receiveObject_of_not_accepts hn
          rw [heq, receiveObject_of_accepts ha] at hret
          contradiction
        rw [receiveObjects_cons_of_accepts ha, receiveObjects_cons_of_accepts ha', heq]
        obtain ⟨⟨t', ht', hp⟩, he⟩ | ⟨he, hm⟩ := ih (s := (receiveObject P x s).fst) (hs.symm ▸ ht)
        case inl => exact .inl ⟨⟨t', congrArg _ (hs.symm.trans ht'), hp⟩, he⟩
        case inr => exact .inr ⟨he, hm.cons <| by rw [hs, hin]⟩

theorem receiveObjects_listens :
    Link.Listens s.fst.channel.link (receiveObjects Q xs s).fst.fst.channel.link := by
  induction xs generalizing s
  case nil => exact .refl
  case cons x xs hi =>
    have hl : Link.Listens s.fst.channel.link (receiveObject Q x s).fst.fst.channel.link := by
      rw [receiveObject_link]
      exact Link.listens_receivePayload
    by_cases ha : Accepts Q x s
    case pos =>
      rw [receiveObjects_cons_of_accepts ha]
      exact hl.trans hi
    case neg =>
      rw [receiveObjects_cons_of_not_accepts ha]
      exact hl

end Payload
end ProtoCall
