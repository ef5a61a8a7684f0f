import FlexRaft.Cluster
import FlexRaft.Handlers

namespace FlexRaft

namespace RaftState

variable {L L' s s' : RaftState} {dst j : Nat} {e : LogEntry}

/-- What can be on the wire while `L` is the only server that ever stands for election. -/
def PacketOk (L : RaftState) (p : Packet) : Prop :=
  match p.msg with
  | .requestVote args => p.src = L.id ∧ p.dst ∈ L.peers ∧ args.candidateId = L.id ∧ args.term ≤ L.currentTerm
  | .requestVoteReply reply => p.dst = L.id ∧ reply.term ≤ L.currentTerm
  | .appendEntries _ => L.role = .kLeader ∧ L.Sent p
  | .appendEntriesReply reply => L.role = .kLeader ∧ p.dst = L.id ∧ reply.term ≤ L.currentTerm
  | .requestFragments _ => False
  | .requestFragmentsReply _ => False

/-- The server that may stand: before its election it has no entry, afterwards all entries are its own. -/
structure PreferredOk (L : RaftState) : Prop where
  role : L.role ≠ .kPreLeader
  indexed : L.lm.Indexed
  fresh : L.role ≠ .kLeader → L.lm.entries = [] ∧ L.commitIndex = 0 ∧ (∀ j, L.encodedStripe j = none) ∧
    (∀ j, L.lastEncoding j = none) ∧ ∀ p, (L.raftPeer p).matchChunkInfo = fun _ => none
  leader : L.role = .kLeader → L.flush.LeaderOk
  term : ∀ (j : Nat) e, L.lm.entries[j]? = some e → e.term = L.currentTerm
  chunk : ∀ (j : Nat) e, L.lm.entries[j]? = some e →
    if L.config.lrcMode then e.chunkInfo.raftIndex = j + 1 else e.chunkInfo = { k := 0, raftIndex := 0 }
  commit : L.commitIndex ≤ L.lm.entries.length

/-- Any other server: it follows, and its log is a part of the log of `L` in copies. -/
structure FollowerOk (L : RaftState) (id : Nat) (s : RaftState) : Prop where
  role : s.role = .kFollower
  round : s.electionRound = 0
  term : s.currentTerm ≤ L.currentTerm
  copies : ∀ (j : Nat) e, s.lm.entries[j]? = some e → L.CopyOf id (j + 1) e
  commit : s.commitIndex ≤ L.commitIndex
  commitLog : s.commitIndex ≤ s.lm.entries.length

/-- How the server that may stand can change over time. -/
structure Evolves (L L' : RaftState) : Prop where
  config : L'.config = L.config
  term : L.currentTerm ≤ L'.currentTerm
  commit : L.commitIndex ≤ L'.commitIndex
  leader : L.role = .kLeader → L'.role = .kLeader ∧ Grows L L'

theorem PacketOk.mono {p : Packet} (evolves : Evolves L L') (ok : L.PacketOk p) : L'.PacketOk p := by
  have id : L'.id = L.id := congrArg RaftConfig.id evolves.config
  have peers : L'.peers = L.peers := congrArg RaftConfig.peers evolves.config
  unfold PacketOk at ok ⊢
  split at ok
  · exact ⟨id ▸ ok.1, peers ▸ ok.2.1, id ▸ ok.2.2.1, ok.2.2.2.trans evolves.term⟩
  · exact ⟨id ▸ ok.1, ok.2.trans evolves.term⟩
  · obtain ⟨leads, grows⟩ := evolves.leader ok.1
    exact ⟨leads, ok.2.mono grows⟩
  · exact ⟨(evolves.leader ok.1).1, id ▸ ok.2.1, ok.2.2.trans evolves.term⟩
  · exact ok
  · exact ok

theorem PreferredOk.leader_of_copy (ok : L.PreferredOk) (copy : L.CopyOf dst j e) : L.role = .kLeader := by
  by_contra other
  obtain ⟨ent, found, _⟩ := copy
  obtain ⟨_, at_j⟩ := ok.indexed.getSingleLogEntry_eq_some.mp found
  simp [(ok.fresh other).1] at at_j

theorem FollowerOk.mono {id : Nat} (preferred : L.PreferredOk) (evolves : Evolves L L')
    (ok : FollowerOk L id s) : FollowerOk L' id s := by
  refine ⟨ok.role, ok.round, ok.term.trans evolves.term, fun j e at_j => ?_, ok.commit.trans evolves.commit,
    ok.commitLog⟩
  have copy := ok.copies j e at_j
  exact copy.mono (evolves.leader (preferred.leader_of_copy copy)).2

theorem CopyOf.index (copy : L.CopyOf dst j e) : e.index = j := by
  obtain ⟨ent, _, made⟩ := copy
  split at made
  · exact made.index
  · obtain ⟨k, last, ⟨_, _, _, rfl⟩, _⟩ := made
    rfl

theorem PreferredOk.copy_term (ok : L.PreferredOk) (copy : L.CopyOf dst j e) : e.term = L.currentTerm := by
  obtain ⟨ent, found, made⟩ := copy
  obtain ⟨_, at_j⟩ := ok.indexed.getSingleLogEntry_eq_some.mp found
  rw [← ok.term _ ent at_j]
  split at made
  · exact made.term
  · obtain ⟨k, last, ⟨_, _, _, rfl⟩, _⟩ := made
    rfl

theorem FollowerOk.indexed {id : Nat} (ok : FollowerOk L id s) : s.lm.Indexed :=
  fun j e at_j => (ok.copies j e at_j).index

theorem flush_eq (empty : s.outbox = []) : s.flush = s := by
  cases s
  simp_all [flush]

theorem LeaderOk.flush (ok : s.LeaderOk) : s.flush.LeaderOk :=
  ⟨ok.members, ok.normal, ok.nextIndex, ok.cached, ok.recorded, by simp [RaftState.flush]⟩

/-- A leader whose log, encodings and places to go on stay in order. -/
theorem LeaderOk.transfer (ok : s.LeaderOk) (config : s'.config = s.config) (lm : s'.lm = s.lm)
    (stripes : s'.encodedStripe = s.encodedStripe) (encodings : s'.lastEncoding = s.lastEncoding)
    (next : ∀ p ∈ s.peers, 1 ≤ (s'.raftPeer p).nextIndex) : s'.flush.LeaderOk := by
  have peers : s'.peers = s.peers := congrArg RaftConfig.peers config
  refine ⟨fun p member => ?_, fun j e found => ?_, fun p member => ?_, fun mode j stripe cached => ?_,
    fun mode j k recorded => ?_, by simp [RaftState.flush]⟩
  · have bound := ok.members p (peers ▸ member)
    simpa [getClusterServerNumber, RaftState.flush, RaftState.peers, config] using bound
  · exact ok.normal j e (lm ▸ found)
  · exact next p (peers ▸ member)
  · obtain ⟨k, recorded, encoded⟩ := ok.cached (config ▸ mode) j stripe (stripes ▸ cached)
    have same : s'.flush.encodeRaftEntry j k = s.encodeRaftEntry j k := encodeRaftEntry_congr config lm j k
    exact ⟨k, by simpa [RaftState.flush, encodings] using recorded, same.trans encoded⟩
  · have cached := ok.recorded (config ▸ mode) j k (encodings ▸ recorded)
    simpa [RaftState.flush, stripes] using cached

theorem Grows.transfer (config : s'.config = s.config) (term : s'.currentTerm = s.currentTerm)
    (commit : s.commitIndex ≤ s'.commitIndex) (lm : s'.lm = s.lm) (encodings : s'.lastEncoding = s.lastEncoding) :
    Grows s s' :=
  ⟨config, term, commit, fun j e found => by rwa [lm], fun _ j k recorded => ⟨k, le_rfl, by rwa [encodings]⟩⟩

section Flush

variable {L s : RaftState}

theorem Evolves.refl (L : RaftState) : Evolves L L :=
  ⟨rfl, le_rfl, le_rfl, fun leads => ⟨leads, .transfer rfl rfl le_rfl rfl rfl⟩⟩

theorem Evolves.trans {a b c : RaftState} (first : Evolves a b) (second : Evolves b c) : Evolves a c := by
  refine ⟨second.config.trans first.config, first.term.trans second.term, first.commit.trans second.commit,
    fun leads => ?_⟩
  obtain ⟨leads', grows⟩ := first.leader leads
  obtain ⟨leads'', grows'⟩ := second.leader leads'
  exact ⟨leads'', grows.trans grows'⟩

theorem Evolves.flush (evolves : Evolves L s) : Evolves L s.flush := by
  refine ⟨evolves.config, evolves.term, evolves.commit, fun leads => ?_⟩
  obtain ⟨leads', grows⟩ := evolves.leader leads
  exact ⟨leads', grows.config, grows.term, grows.commit, grows.log, grows.encoding⟩

theorem PacketOk.flush {p : Packet} (ok : L.PacketOk p) : L.flush.PacketOk p := ok.mono (Evolves.refl L).flush

theorem PreferredOk.flush (ok : L.PreferredOk) : L.flush.PreferredOk :=
  ⟨ok.role, ok.indexed, ok.fresh, ok.leader, ok.term, ok.chunk, ok.commit⟩

theorem FollowerOk.flush {id : Nat} (ok : FollowerOk L id s) : FollowerOk L id s.flush :=
  ⟨ok.role, ok.round, ok.term, ok.copies, ok.commit, ok.commitLog⟩

end Flush

theorem PreferredOk.of_leader (ok : L.PreferredOk) (leads : s.role = .kLeader)
    (config : s.config = L.config) (lm : s.lm = L.lm) (term : s.currentTerm = L.currentTerm)
    (leader : s.flush.LeaderOk) (commit : s.commitIndex ≤ L.lm.entries.length) : s.PreferredOk :=
  ⟨by simp [leads], lm ▸ ok.indexed, fun other => absurd leads other, fun _ => leader,
    fun j e at_j => term ▸ ok.term j e (lm ▸ at_j), fun j e at_j => config ▸ ok.chunk j e (lm ▸ at_j),
    lm ▸ commit⟩

end RaftState

end FlexRaft
