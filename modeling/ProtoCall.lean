import ProtoCall.Runtime.ServiceManager.Basic
import ProtoCall.Runtime.ServiceManager.Observation
import ProtoCall.Plugin.Descriptor
import ProtoCall.Plugin.Generator
import ProtoCall.Runtime.Message
import ProtoCall.Library.Command
import ProtoCall.Runtime.Process
import ProtoCall.Runtime.Semantics
import ProtoCall.Runtime.RpcChannel
import ProtoCall.Runtime.Payload.Basic
import ProtoCall.Runtime.Payload.Simulation
import ProtoCall.Plugin.Cases
import ProtoCall.Runtime.Stubs
import ProtoCall.Runtime.Payload.Send
import ProtoCall.Runtime.Payload.Receive
import ProtoCall.Examples.Salutation
import ProtoCall.Examples.External
import ProtoCall.Runtime.Proxy
import ProtoCall.Library.Framing
import ProtoCall.Runtime.Payload.Agreement
import ProtoCall.Runtime.Handling
import ProtoCall.Runtime.Completion
import ProtoCall.Runtime.ServerLoop
import ProtoCall.Library.Transition
import ProtoCall.Runtime.Client.Basic
import ProtoCall.Runtime.Client.Once
import ProtoCall.Runtime.Client.Delivery
import ProtoCall.Runtime.Alignment
import ProtoCall.Runtime.Payload.RoundTrip
import ProtoCall.Runtime.System.Frames
import ProtoCall.Runtime.System.Basic
import ProtoCall.Runtime.System.Ledger
import ProtoCall.Runtime.System.Invariant
import ProtoCall.Runtime.System.Server
import ProtoCall.Runtime.System.Client
import ProtoCall.Runtime.System.Draining
import ProtoCall.Runtime.System.Correlation
import ProtoCall.Runtime.Peer.Basic
import ProtoCall.Runtime.Peer.Requests
import ProtoCall.Runtime.Routing
import ProtoCall.Runtime.Peer.Envelopes
import ProtoCall.Plugin.RpcPlugin
import ProtoCall.Plugin.Tables
import ProtoCall.Runtime.Peer.Defaults
import ProtoCall.Runtime.Transport.Zmq
import ProtoCall.Runtime.Transport.Receive
import ProtoCall.Plugin.Signature
import ProtoCall.Plugin.Numbers
import ProtoCall.Plugin.Response
import ProtoCall.Library.FirstUse
import ProtoCall.Plugin.Inserts
import ProtoCall.Plugin.Main
import ProtoCall.Examples.Protobuf
import ProtoCall.Plugin.Sharing
import ProtoCall.Plugin.Files
import ProtoCall.Plugin.Placement
import ProtoCall.Runtime.Serving
import ProtoCall.Runtime.DataField
import ProtoCall.Runtime.Holder
import ProtoCall.Plugin.ExtensionNames
import ProtoCall.Plugin.Scope
import ProtoCall.Library.Linearizability
import ProtoCall.Library.Multipart
import ProtoCall.Runtime.Transport.Outgoing
import ProtoCall.Runtime.Transport.Unfinished
import ProtoCall.Runtime.Transport.Shim
import ProtoCall.Runtime.Transport.Vtk
import ProtoCall.Runtime.Transport.External
import ProtoCall.Library.Pattern
import ProtoCall.Library.CMake
import ProtoCall.Plugin.ProtoCallConfig
import ProtoCall.Plugin.BuildList
import ProtoCall.Library.Occurrence
import ProtoCall.Plugin.Members
import ProtoCall.Plugin.Names
import ProtoCall.Plugin.Suffix
import ProtoCall.Plugin.Guards
import ProtoCall.Plugin.Includes
import ProtoCall.Runtime.Transport.Identity
import ProtoCall.Runtime.Errors
import ProtoCall.Runtime.Payload.Failure
import ProtoCall.Library.Crc
import ProtoCall.Plugin.BoostCrc
import ProtoCall.Plugin.Endings
import ProtoCall.Library.Fairness
import ProtoCall.Runtime.System.Progress
import ProtoCall.Runtime.Network.Basic
import ProtoCall.Runtime.Network.Isolation
import ProtoCall.Runtime.Network.Linearizability
import ProtoCall.Runtime.Network.Progress
import ProtoCall.Runtime.Network.Containment
import ProtoCall.Runtime.Network.Contract
import ProtoCall.Runtime.Duplex.Frames
import ProtoCall.Runtime.Duplex.Basic
import ProtoCall.Runtime.Duplex.Passing
import ProtoCall.Runtime.Duplex.Correlation
import ProtoCall.Runtime.Outage.Link
import ProtoCall.Runtime.Outage.Process
import ProtoCall.Runtime.Outage.Basic
import ProtoCall.Runtime.Outage.Correlation
import ProtoCall.Library.Fifo
import ProtoCall.Runtime.Transport.Operation
import ProtoCall.Runtime.Transport.VtkChannel
import ProtoCall.Runtime.Transport.ZmqChannel
