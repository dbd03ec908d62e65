import ProtoCall.Plugin.Syntax

namespace ProtoCall.RpcGenerator

def generateErrorCheck (call : Call) (block : Stmt := .ret) : Stmt :=
  .check call block

-- One round of the loop in `generateSentVtkBlock`.
def generateSentVtk (variableName channelName : Ident) : FieldDescriptor × ℕ → Stmt
  | (field, i) =>
    match field.type with
    | .other => .skip
    | .message messageTypeName =>
      if startsWith "vtk." messageTypeName then
        let vtkType := substr messageTypeName 4
        let var := .indexed "obj" i
        .ifHas variableName i field <| .block [
          .declObject vtkType var variableName i field,
          .ifObject var <| generateErrorCheck <| .sendObject channelName var vtkType
        ]
      else
        .skip

def generateSentVtkBlock (variableName channelName : Ident) (descriptor : Descriptor) : Stmt :=
  .block <| descriptor.fields.zipIdx.map (generateSentVtk variableName channelName)

-- One round of the loop in `generateReceiveVtkBlock`. The printed code works on `tmp`.
def generateReceiveVtk (channelName : Ident) : FieldDescriptor × ℕ → Option Stmt
  | (field, i) =>
    match field.type with
    | .other => none
    | .message messageTypeName =>
      if startsWith "vtk." messageTypeName then
        let vtkType := substr messageTypeName 4
        let var := .indexed "obj" i
        some <| .ifHas "tmp" i field <| .block [
          .declObject vtkType var "tmp" i field,
          .declFlag "allocated",
          .ifNull var <| .block [
            .newObject var vtkType,
            .setFlag "allocated"
          ],
          generateErrorCheck (.receiveObject channelName var vtkType) <| .block [
            .deleteObject var,
            .ret
          ],
          .ifFlag "allocated" <| .setAllocated "tmp" i field var
        ]
      else
        none

def generateReceiveVtkBlock (variableName channelName : Ident) (descriptor : Descriptor) : Stmt :=
  let code := descriptor.fields.zipIdx.filterMap (generateReceiveVtk channelName)
  let hasVtkTypes := !code.isEmpty
  if hasVtkTypes then
    .block [
      .cast "::google::protobuf::Message" "mut" variableName,
      .cast descriptor.name "tmp" "mut",
      .block code
    ]
  else
    .skip

-- One round of the loop in `generateSentExternalBlock`.
def generateSentExternal (variableName channelName : Ident) : FieldDescriptor × ℕ → Stmt
  | (field, i) =>
    match field.type with
    | .other => .skip
    | .message messageTypeName =>
      if startsWith "external." messageTypeName then
        let externalClass := externalTypeToClass messageTypeName
        let var := .indexed "obj" i
        .ifHas variableName i field <| .block [
          .declObject externalClass var variableName i field,
          .ifObject var <| .block [
            .declSerializer externalClass "serializer" var,
            .declSize "size" "serializer",
            .declData "data" (some "size"),
            generateErrorCheck (.serialize "serializer" "data" "size") <| .block [
              .setErrorString channelName "Serialization failed",
              .ret
            ],
            generateErrorCheck <| .sendData channelName "data"
          ]
        ]
      else
        .skip

def generateSentExternalBlock (variableName channelName : Ident) (descriptor : Descriptor) : Stmt :=
  .block <| descriptor.fields.zipIdx.map (generateSentExternal variableName channelName)

-- One round of the loop in `generateReceiveExternalBlock`.
def generateReceiveExternal (channelName : Ident) : FieldDescriptor × ℕ → Option Stmt
  | (field, i) =>
    match field.type with
    | .other => none
    | .message messageTypeName =>
      if startsWith "external." messageTypeName then
        let externalClass := externalTypeToClass messageTypeName
        let objVar := .indexed "obj" i
        let deserializerVar := .indexed "deserializer" i
        let dataVar := .indexed "data" i
        some <| .ifHas "tmp" i field <| .block [
          .declData dataVar none,
          generateErrorCheck <| .receiveData channelName dataVar,
          .declObject externalClass objVar "tmp" i field,
          .declFlag "allocated",
          .ifNull objVar <| .block [
            .newObject objVar externalClass,
            .setFlag "allocated"
          ],
          .declDeserializer externalClass deserializerVar objVar,
          generateErrorCheck (.deserialize deserializerVar dataVar) <| .block [
            .setErrorString channelName "Deserialization failed",
            .ret
          ],
          .ifFlag "allocated" <| .setAllocated "tmp" i field objVar
        ]
      else
        none

def generateReceiveExternalBlock (variableName channelName : Ident) (descriptor : Descriptor) :
    Stmt :=
  let code := descriptor.fields.zipIdx.filterMap (generateReceiveExternal channelName)
  let hasExternalTypes := !code.isEmpty
  if hasExternalTypes then
    .block [
      .cast "::google::protobuf::Message" "mutableRequest" variableName,
      .cast descriptor.name "tmp" "mutableRequest",
      .block code
    ]
  else
    .skip

-- The body of one method of the class that `generateServiceProxyCc` prints.
def generateServiceProxyMethod (descriptor : ServiceDescriptor) (method : MethodDescriptor) : Stmt :=
  .block [
    .declMessage "msg",
    .mutableRequest "request" "msg",
    if !method.voidInput || !method.voidOutput then
      .block [
        .nextRequestId "id",
        .setRequestId "request" "id",
        .newHandler "handler" descriptor,
        .registerResponseCallback "id" "output" "handler" "done"
      ]
    else
      .skip,
    .mutableExtension method.inputType "ext" "request" (toExtensionName method.fullName ++ "_request")
      method.id,
    if !method.voidInput then .copyToExtension "ext" "input" else .skip,
    generateErrorCheck <| .sendMessage "m_channel" "msg",
    generateSentVtkBlock "input" "m_channel" method.inputType,
    generateSentExternalBlock "input" "m_channel" method.inputType
  ]

-- One `case` of the `switch` that `generateDispatchMethodBody` prints.
def generateDispatchCase (descriptor : ServiceDescriptor) (method : MethodDescriptor) : Stmt :=
  .block [
    if !method.voidInput then
      .block [
        .cast method.inputType.name "in" "request",
        generateReceiveVtkBlock "request" "replyChannel" method.inputType,
        generateReceiveExternalBlock "request" "replyChannel" method.inputType
      ]
    else
      .skip,
    if !method.voidOutput then
      .block [
        .newMessage "out" method.outputType,
        .declInfo "info",
        .setInfoMethodId "info" method.id,
        .setInfoEnvelope "info" "requestMessageEnvelope",
        .setInfoResponse "info" "out",
        .setInfoChannel "info" "replyChannel",
        .newReplyCallback "done" (descriptor.name ++ "_Dispatcher") "info"
      ]
    else
      .newDoNothing "done",
    .invoke descriptor.name method (if !method.voidInput then some "in" else none)
      (if !method.voidOutput then some "out" else none) "done"
  ]

def generateDispatchMethodBody (descriptor : ServiceDescriptor) : Switch where
  cases   := descriptor.methods.map fun method =>
    (generateExtensionNumber method.fullName, generateDispatchCase descriptor method)
  default := .setErrorStringAt "replyChannel" "No case for messageId: " "methodId"

-- One `case` of the `switch` that `generateRelyMethod` prints; `j` is the index of the method.
def generateReplyCase (method : MethodDescriptor) (j : ℕ) : Stmt :=
  let var := .indexed "tmp" j
  .block [
    .declMessage "msg",
    .mutableResponse "response" "msg",
    .requestIdOf "requestId" "info",
    .setResponseId "response" "requestId",
    .cast method.outputType.name var (.member "info" "response"),
    .ifError var <| .block [
      .setResponseErrorString "response" var,
      .setResponseErrorCode "response" var
    ],
    .setAllocatedExtension "response" (toExtensionName method.fullName ++ "_response") method.id var,
    .declAutoPtr "request",
    .resetAutoPtr "request" (.member "info" "requestMessageEnvelope"),
    generateErrorCheck <| .sendMessage (.member "info" "replyChannel") "msg",
    generateSentVtkBlock var (.member "info" "replyChannel") method.outputType,
    generateSentExternalBlock var (.member "info" "replyChannel") method.outputType
  ]

def generateRelyMethod (descriptor : ServiceDescriptor) : Switch where
  cases   := descriptor.methods.zipIdx.filterMap fun (method, j) =>
    if method.voidOutput then
      none
    else
      some (generateExtensionNumber method.fullName, generateReplyCase method j)
  default := .setErrorStringAt (.member "info" "replyChannel") "No reply case for messageId: "
    (.member "info" "methodId")

def generateImplementsMethod (descriptor : ServiceDescriptor) : List ℤ :=
  descriptor.methods.map fun method => generateExtensionNumber method.fullName

-- One `case` of the `switch` that `generateResponseHandlerCpp` prints.
def generateHandleCase (method : MethodDescriptor) : Stmt :=
  .block [
    .copyFrom "targetResponse" "incomingResponse",
    .cast "::google::protobuf::Message" "mutableResponse" "targetResponse",
    .cast method.outputType.name "responseType" "mutableResponse",
    .setErrorCode "responseType" "errorCode",
    .setErrorText "responseType" "errorString",
    generateReceiveVtkBlock "targetResponse" "channel" method.outputType,
    generateReceiveExternalBlock "targetResponse" "channel" method.outputType,
    .run "callback"
  ]

-- This `switch` has no `default`.
def generateResponseHandlerCpp (descriptor : ServiceDescriptor) : Switch where
  cases   := descriptor.methods.filterMap fun method =>
    if method.voidOutput then
      none
    else
      some (generateExtensionNumber method.fullName, generateHandleCase method)
  default := .skip

end ProtoCall.RpcGenerator
