import ProtoCall.Plugin.Cases
import ProtoCall.Runtime.RpcChannel
import ProtoCall.Runtime.Payload.Simulation

namespace ProtoCall

namespace MethodDescriptor

-- The proxy registers a callback for all methods but those without any parameter.
def registers (m : MethodDescriptor) : Bool := !m.voidInput || !m.voidOutput

def requestContent (m : MethodDescriptor) (input : Message) : Content :=
  if m.voidInput then ⟨m.inputType, []⟩ else input.toContent

def requestEnvelope (m : MethodDescriptor) (id : Option UInt64) (input : Message) : Envelope where
  request := some {
    id         := id.map (·.toInt64)
    extensions := [(m.id, m.requestContent input)]
  }

-- The envelope of the reply to the call that `info` stems from.
def responseEnvelope (m : MethodDescriptor) (info : ReplyInfo) (msg : Message) : Envelope where
  response := some {
    id          := some (info.requestMessageEnvelope.message.request.getD {}).idValue
    errorCode   := if msg.error.hasError then some msg.error.errorCode else none
    errorString := if msg.error.hasError then some msg.error.errorString else none
    extensions  := [(m.id, msg.toContent)]
  }

end MethodDescriptor

namespace Process

open RpcGenerator

variable {P : Platform} {p : Process} {service : ServiceDescriptor} {method : MethodDescriptor}

def register (service : ServiceDescriptor) (output : Option Ref) (done : Closure) (p : Process) :
    Process :=
  let id := p.channel.currentRequestId
  let entry := { done, response := output, handler := ⟨p.next, service⟩ }
  { p with
    next := p.next + 1
    channel.currentRequestId := id + 1
    channel.responseCallbacks := StdMap.insertNew p.channel.responseCallbacks id entry
  } |>.log (.newHandler p.next) |>.log (.register done)

def prepare (service : ServiceDescriptor) (method : MethodDescriptor) (output : Option Ref)
    (done : Closure) (p : Process) : Option UInt64 × Process :=
  if method.registers then
    (some p.channel.currentRequestId, p.register service output done)
  else
    (none, p)

-- The envelope, and the objects of the message that it carries.
def submit (P : Platform) (msg : Message) (d : Descriptor) (e : Envelope) :
    Command Process Exit := fun p =>
  match p.send P (.envelope e) with
  | (false, p) => (p, some .ret)
  | (true, p)  => Payload.send P msg d p

theorem submit_simulates {m₀ : Machine} {v ch x : Ident} {d : Descriptor} :
    Command.Simulates (SendsFrom m₀)
      (.seq ((generateErrorCheck (.sendMessage ch x)).exec P) <|
        .seq ((generateSentVtkBlock v ch d).exec P) ((generateSentExternalBlock v ch d).exec P))
      (submit P (m₀.message v) d m₀.msg) := by
  rintro _ p ⟨scratch, rfl⟩
  simp only [submit, generateErrorCheck, Stmt.exec, Call.eval]
  rcases hp : p.send P (.envelope m₀.msg) with ⟨_ | _, p'⟩
  case false =>
    rw [Command.seq_of_some (by simp only [hp, Bool.false_eq_true, ↓reduceIte]; rfl)]
    exact ⟨⟨_, rfl⟩, rfl⟩
  case true =>
    rw [Command.seq_of_none (by simp only [hp, ↓reduceIte]; rfl)]
    exact sentBlocks_simulate ⟨_, rfl⟩

theorem proxyCall_eq {input : Option Message} {output : Option Ref} {done : Closure} :
    p.proxyCall P service method input output done =
      let msg := input.getD <| .new method.inputType
      let (id, p) := p.prepare service method output done
      submit P msg method.inputType (method.requestEnvelope id msg) p := by
  simp only [proxyCall, generateServiceProxyMethod, Stmt.exec_block, List.map_cons, List.map_nil,
    Command.block_cons, Command.block_nil, Command.seq_skip]
  set msg := input.getD <| .new method.inputType
  generalize he : Command.seq ((generateErrorCheck _).exec P) _ = epilogue
  have h (m : Machine) : ((epilogue m).fst.process, (epilogue m).snd) =
      submit P (m.message "input") method.inputType m.msg m.process := by
    obtain ⟨⟨_, h⟩, h'⟩ := he ▸ submit_simulates (.refl m)
    rw [h, h']
  by_cases hi : method.voidInput <;> by_cases ho : method.voidOutput <;>
    simp only [prepare, MethodDescriptor.registers, MethodDescriptor.requestEnvelope,
      MethodDescriptor.requestContent, hi, ho, Bool.not_true, Bool.not_false, Bool.or_self,
      Bool.or_true, Bool.or_false, Bool.false_eq_true, ↓reduceIte, Command.seq, Stmt.exec,
      Stmt.block, Command.skip, Machine.setHandler, Machine.setId, Machine.updateProcess,
      Machine.updateRequest, Process.log, Function.update_self] <;> exact h _

-- What a method is called with. The message for the response is allocated by the dispatcher.
def invocation (method : MethodDescriptor) (envelope : EnvelopePtr) (request : Message)
    (p : Process) : Process × Invocation :=
  let input := if method.voidInput then none else some request
  let out := p.next
  if method.voidOutput then
    (p, { method, input, output := none, done := .doNothing })
  else
    let responses := Function.update p.responses out (.new method.outputType)
    let done := .reply ⟨method.id, envelope, out⟩
    ({ p with next := out + 1, responses }, { method, input, output := some out, done })

-- The request after its payloads have been received, for a method that has a parameter.
def arrived (P : Platform) (method : MethodDescriptor) (request : Message) (p : Process) :
    Payload.Target × Option Exit :=
  let fields := if method.voidInput then [] else method.inputType.payloadFields
  Command.block (fields.map <| Payload.receiveField P) (p, request)

-- What `dispatch` does for a method that its `switch` lists.
def accept (P : Platform) (method : MethodDescriptor) (envelope : EnvelopePtr)
    (request : Message) (p : Process) : Process × Option Exit :=
  match p.arrived P method request with
  | ((p, _), some e)     => (p, some e)
  | ((p, request), none) =>
    let (p, invocation) := p.invocation method envelope request
    (p, some <| .invoke invocation)

theorem exec_receiveBlocks (m₀ : Machine) {v ch : Ident} {d : Descriptor}
    {rest : Command Machine Exit} (hv : v ∉ receiveVars) :
    ∃ m', ReceivesFrom m₀ v m' (Payload.receive P d (m₀.process, m₀.message v)).fst ∧
      Command.seq ((generateReceiveVtkBlock v ch d).exec P)
        (.seq ((generateReceiveExternalBlock v ch d).exec P) rest) m₀ =
        match (Payload.receive P d (m₀.process, m₀.message v)).snd with
        | none   => rest m'
        | some e => (m', some e) := by
  have h : Command.Simulates (ReceivesFrom m₀ v) (.seq ((generateReceiveVtkBlock v ch d).exec P)
    ((generateReceiveExternalBlock v ch d).exec P)) _ := receiveBlocks_simulate hv
  obtain ⟨hr, he⟩ := h (.refl m₀ v)
  refine ⟨_, hr, ?_⟩
  rw [← Command.seq_assoc, ← he]
  generalize Command.seq ((generateReceiveVtkBlock v ch d).exec P) _ = receive
  rcases hc : receive m₀ with ⟨m', _ | e⟩ <;> simp [Command.seq, hc]

theorem dispatch_eq {dispatcher : Dispatcher} {methodId : ℤ} {envelope : EnvelopePtr}
    {request : Message} (h : dispatcher.service.method? methodId = some method) :
    p.dispatch P dispatcher methodId envelope request =
      (p.log (.dispatch dispatcher methodId)).accept P method envelope request := by
  simp only [dispatch, select_dispatch h, generateDispatchCase, Stmt.exec_block, List.map_cons,
    List.map_nil, Command.block_cons, Command.block_nil, Command.seq_skip]
  generalize p.log _ = p
  by_cases hi : method.voidInput
  case pos =>
    by_cases ho : method.voidOutput <;>
      simp [accept, arrived, invocation, hi, ho, Command.seq, Stmt.exec, Stmt.block, Command.skip,
        Command.block]
  case neg =>
    simp only [hi, Bool.not_false, ↓reduceIte, Stmt.exec_block, List.map_cons, List.map_nil,
      Command.block_cons, Command.block_nil, Command.seq_skip, Command.seq_assoc, accept, arrived,
      Bool.false_eq_true]
    rw [Command.seq_of_none (by rfl)]
    obtain ⟨m', ⟨root, scratch, hr, rfl⟩, he⟩ :=
      exec_receiveBlocks (P := P) _ (v := "request") (by decide)
    rw [he]
    have hin : root "in" = "request" := by simpa using hr "in" (by decide)
    change _ = match Payload.receive P method.inputType (p, request) with
      | ((p, _), some e)    => _
      | ((p, request), none) => _
    simp only [Machine.message, id_eq]
    rcases Payload.receive P method.inputType (p, request) with ⟨⟨p', msg⟩, _ | e⟩
    case some => rfl
    case none =>
      by_cases ho : method.voidOutput <;>
        simp [invocation, hi, ho, hin, Command.seq, Stmt.exec, Stmt.block, Command.skip,
          Machine.message]

-- From here on, what is known of it is what the lemmas say.
attribute [irreducible] arrived

theorem reply_eq {info : ReplyInfo} (h : service.replying? info.methodId = some method) :
    p.reply P service info =
      let msg := p.responses info.response
      let (p, exit) := submit P msg method.outputType (method.responseEnvelope info msg) p
      (p.log (.deleteEnvelope info.requestMessageEnvelope.addr), exit) := by
  obtain ⟨j, hs⟩ := select_reply h
  simp only [reply, hs, generateReplyCase, Stmt.exec_block, List.map_cons, List.map_nil,
    Command.block_cons, Command.block_nil, Command.seq_skip]
  set msg := p.responses info.response
  generalize he : Command.seq ((generateErrorCheck _).exec P) _ = epilogue
  have h (m : Machine) : ((epilogue m).fst.leave, (epilogue m).snd) =
      let (p, exit) := submit P (m.message (.indexed "tmp" j)) method.outputType m.msg m.process
      ({ m with process := p }.leave, exit) := by
    obtain ⟨⟨_, h⟩, h'⟩ := he ▸ submit_simulates (.refl m)
    rw [h, h']
    rfl
  by_cases hm : msg.error.hasError <;>
    simp only [Command.seq, Stmt.exec, Stmt.block, Command.skip, Machine.message, hm,
      Machine.updateResponse, Machine.setId, MethodDescriptor.responseEnvelope, ↓reduceIte,
      Bool.false_eq_true]
  all_goals refine (h _).trans ?_
  all_goals simp [Machine.leave, Machine.message, Function.update_self]

-- The response object after `CopyFrom` and the two setters.
def fill (target : Message) (incoming : Content) (error : ErrorHolder) : Message :=
  { target.copyFrom incoming with error }

-- What `handle` does for a method that its `switch` lists.
def complete (P : Platform) (method : MethodDescriptor) (incoming : Content) (error : ErrorHolder)
    (r : Ref) (callback : Closure) (p : Process) : Process × Option Exit :=
  if (p.responses r).type = incoming.type then
    let ((p, target), exit) :=
      Payload.receive P method.outputType (p, fill (p.responses r) incoming error)
    ({ p with responses := Function.update p.responses r target },
      some <| exit.getD <| .run callback)
  else
    (p, some .abort)

variable {handler : Handler} {methodId : ℤ} {incoming : Message} {target : Option Ref}
  {errorCode : Int32} {errorString : String} {callback : Closure}

theorem handle_of_none (h : handler.service.replying? methodId = none) :
    p.handle P handler methodId incoming target errorCode errorString callback = (p, none) := by
  simp only [handle, select_handle, h, Option.elim_none, Stmt.exec, Command.skip]
  cases target <;> simp

theorem handle_of_none_target (h : handler.service.replying? methodId = some method) :
    p.handle P handler methodId incoming none errorCode errorString callback =
      (p, some .abort) := by
  simp [handle, select_handle, h, generateHandleCase, Stmt.exec, Stmt.block, Command.seq]

theorem handle_eq {r : Ref} (h : handler.service.replying? methodId = some method) :
    p.handle P handler methodId incoming (some r) errorCode errorString callback =
      p.complete P method incoming.toContent ⟨errorCode, errorString⟩ r callback := by
  simp only [handle, select_handle, h, Option.elim_some, generateHandleCase, Stmt.exec_block,
    List.map_cons, List.map_nil, Command.block_cons, Command.block_nil, Command.seq_skip, complete]
  by_cases ht : (p.responses r).type = incoming.type
  case neg => simp [Command.seq, Stmt.exec, Machine.message, ht]
  case pos =>
    generalize hc : Command.seq ((generateReceiveVtkBlock _ _ _).exec P) _ = receive
    have h (m : Machine) :
        let received := Payload.receive P method.outputType (m.process, m.message "targetResponse")
        (receive m).fst.process = received.fst.fst ∧
          (receive m).fst.messages (m.root "targetResponse") = received.fst.snd ∧
          (receive m).snd = some (received.snd.getD <| .run m.args.done) := by
      obtain ⟨m', ⟨root, scratch, hr, rfl⟩, he⟩ := hc ▸ exec_receiveBlocks m (by decide)
      rw [he]
      rcases Payload.receive P method.outputType _ with ⟨s, _ | e⟩ <;> simp [Stmt.exec]
    have hn : Ident.named "targetResponse" ≠ .named "incomingResponse" := by decide
    simp only [Command.seq, Stmt.exec, Machine.message, Machine.setMessage, ht, hn, id_eq,
      Option.isSome_some, Function.update_self, Function.update_idem, ↓reduceIte, and_self]
    obtain ⟨hp, hm, he⟩ := h _
    rw [hp, he]
    have hm : (receive _).fst.messages "targetResponse" = _ := hm
    rw [hm]
    rfl

end Process
end ProtoCall
