import FlexRaft.KvFragments
import FlexRaft.LogMatching

namespace FlexRaft

/-- How a request is proposed. -/
def KvRequest.command (req : KvRequest) : CommandData :=
  { startFragmentOffset := req.startOffset
    commandData := requestToRawBytes req }

section Entries

variable {e e' : LogEntry} {serverId serverNum : Nat}

theorem raftEntryToRequest_of_normal (type : e.type = .kNormal) (type' : e'.type = .kNormal)
    (data : e.commandData = e'.commandData) :
    raftEntryToRequest e serverId serverNum = raftEntryToRequest e' serverId serverNum := by
  unfold raftEntryToRequest
  simp only [type, type', data, if_true]

theorem raftEntryToRequest_of_fragments (type : e.type = .kFragments) (type' : e'.type = .kFragments)
    (info : e.chunkInfo.k = e'.chunkInfo.k) (head : e.notEncodedSlice = e'.notEncodedSlice)
    (frag : e.fragmentSlice = e'.fragmentSlice) :
    raftEntryToRequest e serverId serverNum = raftEntryToRequest e' serverId serverNum := by
  have other : EntryType.kFragments ≠ .kNormal := by decide
  unfold raftEntryToRequest
  simp only [type, type', info, head, frag, if_neg other]

end Entries

namespace Cluster

open RaftState

variable {σ : Cluster} {c : ClusterConfig} {junk : Nat → Uninitialised}

def putProposed : Cluster := (exec noRestart (init { ClusterConfig.threeServers 0 with isal := .gf256 } .zero)
  (electZero ++ [.propose 0 KvRequest.smallPut.command])).get (by decide +kernel)

end Cluster

end FlexRaft
