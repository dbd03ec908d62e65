import ProtoCall.Examples.Salutation

-- A service with the message of the README that has a field of an external type.
namespace ProtoCall.External

def testMesage : Descriptor where
  fullName := "TestMesage"
  fields   := [{ lowercaseName := "bar", type := .message "external.Foo.Bar" }]

def test : MethodDescriptor := ⟨"TestService.test", testMesage, testMesage⟩

def service : ServiceDescriptor where
  fullName := "TestService"
  methods  := [test]

def dispatcher (addr : ℕ) : Dispatcher where
  addr
  service

-- Its `bar` is the object at the address 0.
def message : Message where
  type     := testMesage
  fields   := [⟨true, []⟩]
  holder _ := { object := some 0 }

def heap (bar : Bytes) : Heap := Heap.empty.alloc.write 0 bar

end ProtoCall.External
