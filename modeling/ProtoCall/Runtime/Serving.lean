import ProtoCall.Runtime.Peer.Requests

namespace ProtoCall

-- The calls of a service's methods that something comes to.
def Outcome.invocations : Outcome → List Invocation
  | invoked invocation => [invocation]
  | _                  => []

namespace Process

variable {P : Platform} {p : Process} {envelope : EnvelopePtr} {d : Dispatcher}
  {method : MethodDescriptor} {content : Content} {number : ℤ}

-- The request is for a method of a registered service.
structure Requests (p : Process) (request : Request) (d : Dispatcher) (method : MethodDescriptor)
    (content : Content) (number : ℤ) : Prop where
  data     : request.data = some (number, content)
  resolved : p.manager.resolve number = some d
  listed   : d.service.method? number = some method

-- A request is only taken for handled if the method that it is for has been invoked, once.
structure SuccessMeansServed (P : Platform) (envelope : EnvelopePtr) (p : Process)
    (method : MethodDescriptor) : Prop where
  success : (p.handleRequest P envelope).snd.succeeds →
    (p.handleRequest P envelope).snd.invocations.map (·.method) = [method]
  failure : (p.handleRequest P envelope).snd.invocations = [] →
    (p.handleRequest P envelope).snd = .returned false

-- The fields of the parameter whose objects `dispatch` receives.
def expected (method : MethodDescriptor) (content : Content) : List (ℕ × Carrier) :=
  if method.voidInput then [] else Payload.present method.inputType content

-- How a request for a registered method comes out: nobody is told that `dispatch` has returned early.
inductive Serves (P : Platform) (p : Process) (d : Dispatcher) (method : MethodDescriptor)
    (content : Content) (number : ℤ) : Outcome → Prop
  | lost : ¬Payload.AcceptsAll P (expected method content) (p.dispatching d number, .parsed content) →
    Serves P p d method content number (.returned true)
  | invoked {invocation : Invocation} :
    Payload.AcceptsAll P (expected method content) (p.dispatching d number, .parsed content) →
    invocation.method = method → Serves P p d method content number (.invoked invocation)

theorem arrived_eq_expected : (p.arrived P method (.parsed content)) =
    Payload.receiveObjects P (expected method content) (p, .parsed content) :=
  arrived_eq

theorem Requests.unique {request : Request} {d' : Dispatcher} {method' : MethodDescriptor}
    {content' : Content} {number' : ℤ} (h : p.Requests request d method content number)
    (h' : p.Requests request d' method' content' number') :
    d = d' ∧ method = method' ∧ content = content' ∧ number = number' := by
  obtain ⟨rfl, rfl⟩ := Prod.mk.inj <| Option.some.inj <| h.data.symm.trans h'.data
  obtain rfl := Option.some.inj <| h.resolved.symm.trans h'.resolved
  obtain rfl := Option.some.inj <| h.listed.symm.trans h'.listed
  exact ⟨rfl, rfl, rfl, rfl⟩

theorem Requests.serves (h : p.Requests envelope.request d method content number) :
    Serves P p d method content number (p.handleRequest P envelope).snd := by
  have hh := handleRequest_handles P envelope p
  generalize p.handleRequest P envelope = result at hh
  cases hh
  case empty hn _       => exact nomatch hn.symm.trans h.data
  case noMessage hn _ _ => exact nomatch hn.symm.trans h.data
  case noDispatcher hn hr =>
    obtain rfl : number = _ := by simpa [h.data] using hn
    exact nomatch hr.symm.trans h.resolved
  case unlisted hd hr hm _ _ _ =>
    obtain ⟨rfl, rfl⟩ := Prod.mk.inj <| Option.some.inj <| h.data.symm.trans hd
    obtain rfl := Option.some.inj <| h.resolved.symm.trans hr
    exact nomatch hm.symm.trans h.listed
  case lost hd hr hm hs =>
    obtain ⟨rfl, rfl, rfl, rfl⟩ := h.unique ⟨hd, hr, hm⟩
    rw [arrived_eq_expected] at hs
    refine .lost fun ha => ?_
    exact nomatch hs.symm.trans <| Payload.receiveObjects_snd_eq_none_iff.mpr ha
  case invoked hd hr hm ha =>
    obtain ⟨rfl, rfl, rfl, rfl⟩ := h.unique ⟨hd, hr, hm⟩
    rw [arrived_eq_expected] at ha
    exact .invoked (Payload.receiveObjects_snd_eq_none_iff.mp <| congrArg Prod.snd ha)
      invocation_method

theorem successMeansServed_iff (h : p.Requests envelope.request d method content number) :
    SuccessMeansServed P envelope p method ↔
      Payload.AcceptsAll P (expected method content)
        (p.dispatching d number, .parsed content) where
  mp := by
    rintro ⟨hs, -⟩
    have hh := h.serves (P := P)
    generalize (p.handleRequest P envelope).snd = outcome at hh hs
    cases hh
    case lost       => exact nomatch hs rfl
    case invoked ha _ => exact ha
  mpr ha := by
    have hh := h.serves (P := P)
    generalize ho : (p.handleRequest P envelope).snd = outcome at hh
    cases hh
    case lost hn => exact absurd ha hn
    case invoked hm =>
      constructor <;> rw [ho]
      case success => exact fun _ => congrArg (· :: []) hm
      case failure => exact fun hn => nomatch hn

-- A server that receives a request whose `name` is no payload, and one for a table that does not come.
def greeter : Process where
  manager := .registerService {} (Salutation.dispatcher 0)

def requestFor (method : MethodDescriptor) : EnvelopePtr where
  message.request := some {
    id         := some 0
    extensions := [(method.id, ⟨method.inputType, [⟨true, []⟩]⟩)]
  }

theorem requests_requestFor (hm : method ∈ Salutation.service.methods) :
    greeter.Requests (requestFor method).request (Salutation.dispatcher 0) method
      ⟨method.inputType, [⟨true, []⟩]⟩ method.id := by
  have hn : Salutation.service.ids.Nodup := by decide +kernel
  refine ⟨rfl, ?_, ServiceDescriptor.method?_id hn hm⟩
  exact (ServiceManager.Claimed.registered (d := Salutation.dispatcher 0)).resolve <|
    List.mem_map_of_mem hm

theorem successMeansServed_sayHello :
    SuccessMeansServed Salutation.platform (requestFor Salutation.sayHello) greeter
      Salutation.sayHello :=
  (successMeansServed_iff <| requests_requestFor <| by decide).mpr trivial

-- The service never gets to see it, but true is returned.
theorem not_successMeansServed :
    greeter.Requests (requestFor Salutation.sayHelloVTK).request (Salutation.dispatcher 0)
        Salutation.sayHelloVTK ⟨Salutation.requestVTK, [⟨true, []⟩]⟩ Salutation.sayHelloVTK.id ∧
      ¬SuccessMeansServed Salutation.platform (requestFor Salutation.sayHelloVTK) greeter
        Salutation.sayHelloVTK := by
  refine ⟨requests_requestFor <| by decide, fun h => ?_⟩
  have hs := h.success (by decide +kernel)
  exact absurd (congrArg List.length hs) (by decide +kernel)

end Process
end ProtoCall
