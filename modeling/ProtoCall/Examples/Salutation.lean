import ProtoCall.Runtime.Process

-- The service of examples/salutation/hello.proto.
namespace ProtoCall.Salutation

def required (lowercaseName : String) : FieldDescriptor where
  lowercaseName
  type := .other

def vtkField (lowercaseName vtkType : String) : FieldDescriptor where
  lowercaseName
  type := .message ("vtk." ++ vtkType)

def request : Descriptor where
  fullName := "Request"
  fields   := [required "name"]

def response : Descriptor where
  fullName := "Response"
  fields   := [required "greeting"]

def notification : Descriptor where
  fullName := "Notification"
  fields   := [required "msg"]

def requestVTK : Descriptor where
  fullName := "RequestVTK"
  fields   := [
    vtkField "myobject" "vtkTable",
    vtkField "mytree" "vtkTree",
    vtkField "myimagedata" "vtkImageData",
    vtkField "mypolydata" "vtkPolyData",
    vtkField "myungrid" "vtkUnstructuredGrid",
    vtkField "mygrid" "vtkStructuredGrid",
    vtkField "myfloatarray" "vtkFloatArray"
  ]

def responseVTK : Descriptor where
  fullName := "ResponseVTK"
  fields   := [vtkField "myobject" "vtkTable"]

def void : Descriptor where
  fullName := "Void"
  fields   := []

def sayHello : MethodDescriptor := ⟨"SalutationService.sayHello", request, response⟩

def sayBye : MethodDescriptor := ⟨"SalutationService.sayBye", request, response⟩

def sayVoid : MethodDescriptor := ⟨"SalutationService.sayVoid", void, void⟩

def sayNotify : MethodDescriptor := ⟨"SalutationService.sayNotify", notification, void⟩

def sayHelloVTK : MethodDescriptor := ⟨"SalutationService.sayHelloVTK", requestVTK, responseVTK⟩

def service : ServiceDescriptor where
  fullName := "SalutationService"
  methods  := [sayHello, sayBye, sayVoid, sayNotify, sayHelloVTK]

def dispatcher (addr : ℕ) : Dispatcher where
  addr
  service

-- A link on which everything goes through. External objects are their own serialized form.
def platform : Platform where
  sendOk _              := true
  receiveOk _           := true
  size _ content        := content.length
  serialize _ content _ := some content
  deserialize _ bytes _ := (true, bytes)

theorem platform_reliable : platform.Reliable where
  sendOk _          := rfl
  receiveOk _       := rfl
  serialize _ _     := rfl
  deserialize _ _ _ := rfl

end ProtoCall.Salutation
