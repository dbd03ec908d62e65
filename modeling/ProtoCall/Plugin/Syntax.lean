import ProtoCall.Plugin.Descriptor

namespace ProtoCall

-- An identifier of the generated code. Some are put together from a base and the index of a field
-- or of a method (`obj0`, `tmp1`), and `info.replyChannel` and the like name a member.
inductive Ident
  | named (x : String)
  | indexed (x : String) (i : ℕ)
  | member (x field : String)
  deriving DecidableEq, Repr

instance : Coe String Ident where
  coe := .named

-- The calls whose result the generated code tests by way of `generateErrorCheck`.
inductive Call
  | sendMessage (channel msg : Ident)
  | sendObject (channel obj : Ident) (vtkType : String)
  | sendData (channel data : Ident)
  | receiveObject (channel obj : Ident) (vtkType : String)
  | receiveData (channel data : Ident)
  | serialize (serializer data size : Ident)
  | deserialize (deserializer data : Ident)
  deriving DecidableEq, Repr

-- The statements that the generator prints. A constructor stands for the line next to it; fields of
-- messages come with their index in the descriptor, by which their accessors are told apart.
inductive Stmt
  | skip
  | seq (s t : Stmt)
  -- if (msg->has_field()) { body }
  | ifHas (msg : Ident) (i : ℕ) (field : FieldDescriptor) (body : Stmt)
  -- if (obj) { body }
  | ifObject (obj : Ident) (body : Stmt)
  -- if (!obj) { body }
  | ifNull (obj : Ident) (body : Stmt)
  -- if (flag) body
  | ifFlag (flag : Ident) (body : Stmt)
  -- if (msg->hasError()) { body }
  | ifError (msg : Ident) (body : Stmt)
  -- if (!call) { block }
  | check (call : Call) (block : Stmt)
  -- return;
  | ret
  -- channel->setErrorString("text");
  | setErrorString (channel : Ident) (text : String)
  -- channel->setErrorString("text" + n);
  | setErrorStringAt (channel : Ident) (text : String) (n : Ident)
  -- type *x = static_cast<type *>(y); or const_cast
  | cast (type : String) (x y : Ident)
  -- type *obj = msg->field().get();
  | declObject (type : String) (obj msg : Ident) (i : ℕ) (field : FieldDescriptor)
  -- bool flag = false;
  | declFlag (flag : Ident)
  -- flag = true;
  | setFlag (flag : Ident)
  -- obj = type::New(); or obj = new type();
  | newObject (obj : Ident) (type : String)
  -- obj->Delete();
  | deleteObject (obj : Ident)
  -- msg->mutable_field()->set_allocated(obj);
  | setAllocated (msg : Ident) (i : ℕ) (field : FieldDescriptor) (obj : Ident)
  -- typeSerializer x(obj);
  | declSerializer (type : String) (x obj : Ident)
  -- const size_t size = serializer.size();
  | declSize (size serializer : Ident)
  -- RpcVoidData data(size); or RpcVoidData data;
  | declData (data : Ident) (size : Option Ident)
  -- typeDeserializer x(obj);
  | declDeserializer (type : String) (x obj : Ident)
  -- rpc::Message msg;
  | declMessage (msg : Ident)
  -- rpc::Request *request = msg.mutable_request();
  | mutableRequest (request msg : Ident)
  -- rpc::Response *response = msg.mutable_response();
  | mutableResponse (response msg : Ident)
  -- uint64 id = this->m_channel->nextRequestId();
  | nextRequestId (id : Ident)
  -- uint64 id = info.requestMessageEnvelope->request().id();
  | requestIdOf (id info : Ident)
  -- request->set_id(id);
  | setRequestId (request id : Ident)
  -- response->set_id(id);
  | setResponseId (response id : Ident)
  -- service_Handler *handler = new service_Handler();
  | newHandler (handler : Ident) (service : ServiceDescriptor)
  -- m_channel->registerResponseCallback(id, output, handler, done);
  | registerResponseCallback (id output handler done : Ident)
  -- type *ext = request->MutableExtension(extension);
  | mutableExtension (type : Descriptor) (ext request : Ident) (extension : String) (number : ℤ)
  -- ext->CopyFrom(*input);
  | copyToExtension (ext input : Ident)
  -- target->CopyFrom(*incoming);
  | copyFrom (target incoming : Ident)
  -- type *out = new type();
  | newMessage (out : Ident) (type : Descriptor)
  -- ReplyInfo info;
  | declInfo (info : Ident)
  -- info.methodId = methodId;
  | setInfoMethodId (info : Ident) (methodId : ℤ)
  -- info.requestMessageEnvelope = requestMessageEnvelope;
  | setInfoEnvelope (info envelope : Ident)
  -- info.response = out;
  | setInfoResponse (info out : Ident)
  -- info.replyChannel = replyChannel;
  | setInfoChannel (info channel : Ident)
  -- Closure *done = NewCallback(this, &dispatcher::reply, info);
  | newReplyCallback (done : Ident) (dispatcher : String) (info : Ident)
  -- Closure *done = NewCallback(&DoNothing);
  | newDoNothing (done : Ident)
  -- static_cast<service *>(m_service)->method(in, out, done);
  | invoke (service : String) (method : MethodDescriptor) (input output : Option Ident)
      (done : Ident)
  -- response->set_errorstring(msg->errorString());
  | setResponseErrorString (response msg : Ident)
  -- response->set_errorcode(msg->errorCode());
  | setResponseErrorCode (response msg : Ident)
  -- response->SetAllocatedExtension(extension, msg);
  | setAllocatedExtension (response : Ident) (extension : String) (number : ℤ) (msg : Ident)
  -- std::auto_ptr<rpc::Message> request;
  | declAutoPtr (request : Ident)
  -- request.reset(info.requestMessageEnvelope);
  | resetAutoPtr (request envelope : Ident)
  -- responseType->setErrorCode(errorCode);
  | setErrorCode (msg errorCode : Ident)
  -- responseType->setErrorString(errorString);
  | setErrorText (msg errorString : Ident)
  -- callback->Run();
  | run (callback : Ident)
  deriving DecidableEq, Repr

def Stmt.block : List Stmt → Stmt
  | []      => .skip
  | s :: ss => .seq s (block ss)

-- A `switch` on a method id.
structure Switch where
  cases     : List (ℤ × Stmt)
  default   : Stmt

-- The body that a `switch` runs for `methodId`.
def Switch.select (s : Switch) (methodId : ℤ) : Stmt :=
  (s.cases.lookup methodId).getD s.default

end ProtoCall
