import ProtoCall.Runtime.Peer.Defaults

namespace ProtoCall

open RpcChannel

-- What is found in a message with these fields is an extension that is set in it, if anything.
def FindsExtension (fields : List DataField) (extensions : List (ℤ × Content)) : Prop :=
  ∀ f, extractDataField fields = some f → ∃ x ∈ extensions, f = .extension x.fst

theorem findsExtension_of_mem {fields : List DataField} {extensions : List (ℤ × Content)}
    {x : ℤ × Content} (h : extractDataField fields = some (.extension x.fst))
    (hx : x ∈ extensions) : FindsExtension fields extensions :=
  fun _ hf => ⟨x, hx, Option.some.inj <| hf.symm.trans h⟩

theorem isExtension_of_extract {fields : List DataField} {number : ℤ} {f : DataField}
    (h : extractDataField fields = some (.extension number))
    (hf : extractDataField fields = some f) : f.isExtension := by
  obtain rfl := Option.some.inj <| hf.symm.trans h
  rfl

namespace Request

variable {r : Request}

-- Where there is no extension there is nothing else to be found.
def Plain (r : Request) : Prop := r.extensions = [] → r.id = none

theorem findsExtension_iff : FindsExtension r.listFields r.extensions ↔ r.Plain := by
  rw [Plain]
  rcases he : r.extensions with _ | ⟨x, extensions⟩
  case nil =>
    have hd : r.data = none := List.head?_eq_none_iff.mpr he
    rw [FindsExtension, extract_of_no_data hd]
    cases r.id <;> simp
  case cons =>
    have hd : r.data = some x := by rw [data, he]; rfl
    refine iff_of_true ?_ fun hx => by contradiction
    exact findsExtension_of_mem (extract_of_data hd).left List.mem_cons_self

end Request

namespace Response

variable {r : Response}

def Plain (r : Response) : Prop :=
  r.extensions = [] → r.id = none ∧ r.errorCode = none ∧ r.errorString = none

theorem findsExtension_iff : FindsExtension r.listFields r.extensions ↔ r.Plain := by
  rw [Plain]
  rcases he : r.extensions with _ | ⟨x, extensions⟩
  case nil =>
    have hd : r.data = none := List.head?_eq_none_iff.mpr he
    rw [FindsExtension, extract_of_no_data hd, listFields, he]
    cases r.id <;> cases r.errorCode <;> cases r.errorString <;> simp
  case cons =>
    have hd : r.data = some x := by rw [data, he]; rfl
    refine iff_of_true ?_ fun hx => by contradiction
    exact findsExtension_of_mem (extract_of_data hd).left List.mem_cons_self

end Response

namespace Process

variable {P : Platform} {p : Process} {envelope : EnvelopePtr} {f : DataField}

-- The field that `handleRequest` applies `MutableMessage` to, if it gets there, and the one that
-- `handleResponse` does.
def requestField (p : Process) (envelope : EnvelopePtr) : Option DataField :=
  (extractDataField envelope.request.listFields).filter fun f => (p.manager.resolve f.number).isSome

def responseField (p : Process) (envelope : EnvelopePtr) : Option DataField :=
  if (p.channel.responseCallbacks.lookup envelope.responseId).isSome then
    extractDataField envelope.response.listFields
  else
    none

-- For a field that is not a message, a check of protobuf's fails.
theorem handleRequest_of_requestField (h : p.requestField envelope = some f)
    (hf : f.isExtension = false) : (p.handleRequest P envelope).snd = .aborted := by
  obtain ⟨he, hr⟩ := Option.filter_eq_some_iff.mp h
  have hh := handleRequest_handles P envelope p
  have hd : envelope.request.data = none := by
    by_contra hd
    obtain ⟨x, hd⟩ := Option.ne_none_iff_exists'.mp hd
    simp [isExtension_of_extract (Request.extract_of_data hd).left he] at hf
  rw [Request.extract_of_no_data hd] at he
  generalize p.handleRequest P envelope = result at hh
  cases hh
  case empty hi        => simp [hi] at he
  case noMessage       => rfl
  case noDispatcher hn hr' =>
    obtain rfl : f = .field 1 := by
      split at he
      · exact (Option.some.inj he).symm
      · contradiction
    obtain rfl : (1 : ℤ) = _ := by simpa [hd] using hn
    simp [DataField.number, hr'] at hr
  all_goals simp_all

theorem handleResponse_of_responseField (h : p.responseField envelope = some f)
    (hf : f.isExtension = false) : (p.handleResponse P envelope).snd = .aborted := by
  rw [responseField] at h
  have hh := handleResponse_handles P envelope p
  split at h
  case isFalse => contradiction
  case isTrue hp =>
    have hd : envelope.response.data = none := by
      by_contra hd
      obtain ⟨x, hd⟩ := Option.ne_none_iff_exists'.mp hd
      simp [isExtension_of_extract (Response.extract_of_data hd).left h] at hf
    generalize p.handleResponse P envelope = result at hh
    cases hh
    case unexpected hl => simp [hl] at hp
    case empty hl      => simp [hl, extractDataField, extractDataFieldLoop] at h
    case noMessage     => rfl
    all_goals simp_all

end Process

-- `MutableMessage` is only ever applied to messages, whatever has come before the envelope.
structure ExtensionsOnly (message : Envelope) : Prop where
  request  : ∀ r, message.request = some r → FindsExtension r.listFields r.extensions
  response : ∀ r, message.response = some r → FindsExtension r.listFields r.extensions
  handled  : ∀ P s, Transition.Reachable Peer.Fresh Peer.Allowed (Peer.next P) s → ∀ addr f,
    s.process.requestField ⟨addr, message⟩ = some f ∨
      s.process.responseField ⟨addr, message⟩ = some f → f.isExtension

namespace Peer

variable {P : Platform} {s : Peer} {envelope : EnvelopePtr} {f : DataField}

-- Nobody is registered for the only field of a request that is not an extension.
theorem Listed.requestField_isExtension (h : Listed s)
    (hf : s.process.requestField envelope = some f) : f.isExtension := by
  obtain ⟨he, hr⟩ := Option.filter_eq_some_iff.mp hf
  obtain ⟨d, hr⟩ := Option.isSome_iff_exists.mp hr
  rcases hd : envelope.request.data with _ | x
  case some => exact isExtension_of_extract (Request.extract_of_data hd).left he
  case none =>
    rw [Request.extract_of_no_data hd] at he
    obtain rfl : f = .field 1 := by
      split at he
      · exact (Option.some.inj he).symm
      · contradiction
    obtain ⟨method, -, hi⟩ := List.mem_map.mp <| h.entries _ _ hr
    exact absurd (method.minExtensionNumber_le_id.trans_eq hi) (by decide)

end Peer

theorem extensionsOnly_iff {message : Envelope} : ExtensionsOnly message ↔
    (∀ r, message.request = some r → r.Plain) ∧ ∀ r, message.response = some r → r.Plain where
  mp h  := ⟨fun r hr => Request.findsExtension_iff.mp <| h.request r hr,
    fun r hr => Response.findsExtension_iff.mp <| h.response r hr⟩
  mpr h := {
    request  := fun r hr => Request.findsExtension_iff.mpr <| h.left r hr
    response := fun r hr => Response.findsExtension_iff.mpr <| h.right r hr
    handled  := by
      rintro P s hs addr f (hf | hf)
      case inl =>
        have hl : s.Listed := hs.invariant (fun _ => .fresh) fun _ _ _ => .next
        exact hl.requestField_isExtension hf
      case inr =>
        rw [Process.responseField] at hf
        split at hf
        case isFalse => contradiction
        case isTrue =>
          rcases hm : message.response with _ | r
          case none => simp [EnvelopePtr.response, hm, Response.listFields, extractDataField,
            extractDataFieldLoop] at hf
          case some =>
            have hr := Response.findsExtension_iff.mpr <| h.right r hm
            obtain ⟨x, -, rfl⟩ := hr f <| by simpa [EnvelopePtr.response, hm] using hf
            rfl
  }

-- A response that has just its id, and the first call, which it is for.
def idOnly : Envelope where
  response := some { id := some 0 }

def callSayHello : Peer where
  process := (Process.proxyCall Salutation.platform Salutation.service Salutation.sayHello none
    (some 0) 0 {}).fst

theorem reachable_callSayHello :
    Transition.Reachable Peer.Fresh Peer.Allowed (Peer.next Salutation.platform) callSayHello :=
  .step (.start (s := {}) ⟨rfl, rfl, rfl, rfl⟩)
    (a := .call Salutation.service Salutation.sayHello none (some 0) 0) trivial rfl

-- `MutableMessage` is applied to the id.
theorem not_extensionsOnly : callSayHello.process.responseField ⟨1, idOnly⟩ = some (.field 1) ∧
    ¬ExtensionsOnly idOnly := by
  have hf : callSayHello.process.responseField ⟨1, idOnly⟩ = some (.field 1) := by decide +kernel
  refine ⟨hf, fun h => ?_⟩
  exact absurd (h.handled _ _ reachable_callSayHello _ _ <| .inr hf) (by decide)

end ProtoCall
