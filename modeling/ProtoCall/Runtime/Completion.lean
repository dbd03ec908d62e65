import ProtoCall.Examples.Salutation
import ProtoCall.Runtime.Handling

namespace ProtoCall

-- Whether true is returned. A service's method and a callback have to return before.
def Outcome.succeeds : Outcome → Bool
  | returned rc => rc
  | invoked _   => true
  | callback _  => true
  | aborted     => false

namespace Process

variable {P : Platform} {p : Process} {envelope : EnvelopePtr}

def runs (p : Process) (done : Closure) : ℕ := p.trace.count (.run done)

-- A response is only taken for handled if the closure that it is for has been run.
structure SuccessMeansCompleted (P : Platform) (envelope : EnvelopePtr) (p : Process) : Prop where
  success : (p.handleResponse P envelope).snd.succeeds →
    ∃ entry, p.channel.responseCallbacks.lookup envelope.responseId = some entry ∧
      (p.handleResponse P envelope).fst.runs entry.done = p.runs entry.done + 1
  failure : ∀ entry, p.channel.responseCallbacks.lookup envelope.responseId = some entry →
    (p.handleResponse P envelope).fst.runs entry.done = p.runs entry.done →
      (p.handleResponse P envelope).snd = .returned false ∧
      (p.handleResponse P envelope).fst.channel.responseCallbacks.lookup envelope.responseId =
        some entry

-- The response carries a message that the pending call can be completed with: it is listed by the
-- handler, it has the type of the response object, and all of its objects arrive.
structure Completes (P : Platform) (envelope : EnvelopePtr) (p : Process)
    (entry : ResponseCallbackEntry) (number : ℤ) (content : Content) (method : MethodDescriptor)
    (r : Ref) : Prop where
  pending  : p.channel.responseCallbacks.lookup envelope.responseId = some entry
  data     : envelope.response.data = some (number, content)
  listed   : entry.handler.service.replying? number = some method
  response : entry.response = some r
  type     : (p.responses r).type = content.type
  payload  : Payload.AcceptsAll P (Payload.present method.outputType content)
    (p, fill (p.responses r) content envelope.response.error)

-- ... or it is turned away.
def Rejects (envelope : EnvelopePtr) (p : Process) : Prop :=
  p.channel.responseCallbacks.lookup envelope.responseId = none ∨
    envelope.response.listFields = []

theorem runs_deliver {method : MethodDescriptor} {content : Content} {error : ErrorHolder} {r : Ref}
    {done : Closure} : (p.deliver P method content error r).runs done = p.runs done := by
  obtain ⟨es, he, hd⟩ := deliver_trace (P := P) (p := p)
  have hn : Event.run done ∉ es := fun hm => nomatch hd _ hm
  rw [runs, he, List.count_append, List.count_eq_zero_of_not_mem hn]
  rfl

theorem runs_finish {a : Activation} {done : Closure} : (p.finish a).runs done = p.runs done := by
  simp [runs, finish, log]

theorem runs_log_run {done : Closure} : (p.log (.run done)).runs done = p.runs done + 1 := by
  simp [runs, log]

theorem received_snd_eq_none_iff {method : MethodDescriptor} {content : Content}
    {error : ErrorHolder} {r : Ref} : (p.received P method content error r).snd = none ↔
      Payload.AcceptsAll P (Payload.present method.outputType content)
        (p, fill (p.responses r) content error) := by
  rw [received, Payload.receive_eq]
  exact Payload.receiveObjects_snd_eq_none_iff

theorem data_of_listFields_nil (h : envelope.response.listFields = []) :
    envelope.response.data = none := by
  simp only [Response.listFields, List.append_eq_nil_iff, List.map_eq_nil_iff] at h
  simp [Response.data, h.right]

theorem successMeansCompleted_of_rejects (h : p.Rejects envelope) :
    SuccessMeansCompleted P envelope p := by
  have hh := handleResponse_handles P envelope p
  suffices hf : (p.handleResponse P envelope).snd = .returned false ∧
      (p.handleResponse P envelope).fst.channel.responseCallbacks = p.channel.responseCallbacks from
    { success := fun hs => nomatch hf.left ▸ hs
      failure := fun _ hl _ => ⟨hf.left, hf.right ▸ hl⟩ }
  generalize p.handleResponse P envelope = result at hh
  rcases h with h | h
  case inl =>
    cases hh
    case unexpected => exact ⟨rfl, rfl⟩
    all_goals simp_all
  case inr =>
    have hd := data_of_listFields_nil h
    cases hh
    case unexpected => exact ⟨rfl, rfl⟩
    case empty => exact ⟨rfl, rfl⟩
    all_goals simp_all

theorem Completes.handleResponse_eq {entry : ResponseCallbackEntry} {number : ℤ}
    {content : Content} {method : MethodDescriptor} {r : Ref}
    (h : Completes P envelope p entry number content method r) :
    p.handleResponse P envelope =
      ((p.deliver P method content envelope.response.error r).log (.run entry.done),
        .callback ⟨envelope.responseId, entry, envelope⟩) := by
  have hh := handleResponse_handles P envelope p
  obtain ⟨hp, hd, hm, hr, ht, ha⟩ := h
  have hs := received_snd_eq_none_iff.mpr ha
  generalize p.handleResponse P envelope = result at hh
  cases hh
  case empty he => exact nomatch (data_of_listFields_nil he).symm.trans hd
  all_goals simp_all

theorem successMeansCompleted_of_completes {entry : ResponseCallbackEntry} {number : ℤ}
    {content : Content} {method : MethodDescriptor} {r : Ref}
    (h : Completes P envelope p entry number content method r) :
    SuccessMeansCompleted P envelope p where
  success _ := ⟨entry, h.pending, by rw [h.handleResponse_eq, runs_log_run, runs_deliver]⟩
  failure e hl hr := by
    obtain rfl : entry = e := Option.some.inj <| h.pending.symm.trans hl
    rw [h.handleResponse_eq, runs_log_run, runs_deliver] at hr
    omega

theorem successMeansCompleted_iff :
    SuccessMeansCompleted P envelope p ↔
      p.Rejects envelope ∨
        ∃ entry number content method r, Completes P envelope p entry number content method r where
  mp := by
    have h := handleResponse_handles P envelope p
    rintro ⟨hs, hf⟩
    generalize p.handleResponse P envelope = result at h hs hf
    cases h
    case unexpected hl => exact .inl <| .inl hl
    case empty hl he => exact .inl <| .inr he
    case noMessage hl _ _ => exact nomatch (hf _ hl rfl).left
    case mismatch hl _ _ _ => exact nomatch (hf _ hl rfl).left
    case unlisted =>
      obtain ⟨_, _, hr⟩ := hs rfl
      simp [runs_finish] at hr
    case lost =>
      obtain ⟨_, _, hr⟩ := hs rfl
      simp [runs_finish, runs_deliver] at hr
    case completed hl hd hm hr ht hp =>
      exact .inr ⟨_, _, _, _, _, hl, hd, hm, hr, ht, received_snd_eq_none_iff.mp hp⟩
  mpr := by
    rintro (h | ⟨_, _, _, _, _, h⟩)
    case inl => exact successMeansCompleted_of_rejects h
    case inr => exact successMeansCompleted_of_completes h

-- `sayHelloVTK` has been called, and its response is said to come with a table. There is none.
def lostTable : Process :=
  let p : Process := { responses := fun _ => .new Salutation.responseVTK }
  let (p, _) := p.proxyCall Salutation.platform Salutation.service Salutation.sayHelloVTK
    (some <| .new Salutation.requestVTK) (some 0) 7
  p

def tableResponse : EnvelopePtr where
  message.response := some {
    id         := some 0
    extensions := [(Salutation.sayHelloVTK.id, ⟨Salutation.responseVTK, [⟨true, []⟩]⟩)]
  }

-- Its entry is erased, and true is returned, but the closure is never run.
theorem not_successMeansCompleted :
    ¬SuccessMeansCompleted Salutation.platform tableResponse lostTable := by
  intro h
  obtain ⟨entry, hl, hr⟩ := h.success (by decide +kernel)
  have he : (lostTable.channel.responseCallbacks.lookup tableResponse.responseId).map (·.done) =
      some 7 := by decide +kernel
  have hd : entry.done = 7 := by simpa [hl] using he
  rw [hd] at hr
  exact absurd hr (by decide +kernel)

end Process
end ProtoCall
