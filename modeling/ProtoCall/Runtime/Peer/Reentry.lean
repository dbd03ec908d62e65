import ProtoCall.Runtime.Peer.Requests

namespace ProtoCall.Peer

variable {P : Platform} {s t : Peer} {q : Process}

variable {a b : Activation}

-- A callback whose entry has been erased, or will have been when those above it have returned.
structure Stranded (a : Activation) (s : Peer) : Prop where
  running : ∃ above below, s.running = above ++ a :: below ∧
    (s.process.channel.responseCallbacks.lookup a.id = some a.entry → a.id ∈ above.map (·.id))
  old     : a.entry.handler.addr < s.process.next

namespace Stranded

-- Its entry does not come back, not even under the same id.
theorem lookup (h : Stranded a s) (ha : s.process.Ages q)
    (hl : q.channel.responseCallbacks.lookup a.id = some a.entry) :
    s.process.channel.responseCallbacks.lookup a.id = some a.entry :=
  (ha.pending _ _ hl).resolve_right fun hn => absurd h.old <| not_lt.mpr hn.left

end Stranded

end ProtoCall.Peer
