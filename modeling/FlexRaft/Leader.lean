import FlexRaft.Copies

namespace FlexRaft

namespace RaftState

variable {s s' : RaftState} {j : Nat} {e : LogEntry}

/-- The part of a server that encoding and sending entries leave alone. -/
def core (s : RaftState) : RaftState :=
  { s with
    raftPeer := fun _ => {}
    encodedStripe := fun _ => none
    lastEncoding := fun _ => none
    aliveServersOfLastPoint := 0
    outbox := []
    stopped := false }

/-- `p` carries an `AppendEntries` request of leader `s` whose entries are copies of its log. -/
def Sent (s : RaftState) (p : Packet) : Prop :=
  p.src = s.id ∧ p.dst ∈ s.peers ∧ ∃ args, p.msg = .appendEntries args ∧ args.term = s.currentTerm ∧
    args.leaderId = s.id ∧ args.leaderCommit ≤ s.commitIndex ∧ args.entryCnt = args.entries.length ∧
    ∀ i e, args.entries[i]? = some e → s.CopyOf p.dst (args.prevLogIndex + 1 + i) e

/-- What holds of a leader whenever it sends. -/
structure LeaderOk (s : RaftState) : Prop where
  members : ∀ p ∈ s.peers, p < s.getClusterServerNumber
  normal : ∀ j e, s.lm.getSingleLogEntry j = some e → e.type = .kNormal
  nextIndex : ∀ p ∈ s.peers, 1 ≤ (s.raftPeer p).nextIndex
  cached : s.config.lrcMode = false → ∀ j stripe, s.encodedStripe j = some stripe →
    ∃ k, s.lastEncoding j = some k ∧ s.encodeRaftEntry j k = some stripe
  recorded : s.config.lrcMode = false → ∀ j k, s.lastEncoding j = some k → (s.encodedStripe j).isSome
  sent : ∀ p ∈ s.outbox, s.Sent p

/-- Encodings only move to a smaller `k`. -/
def EncodingLe (s s' : RaftState) : Prop :=
  s.config.lrcMode = false → ∀ j k, s.lastEncoding j = some k → ∃ k' ≤ k, s'.lastEncoding j = some k'

/-- What encoding and sending may do to a leader. -/
structure LeaderStep (s s' : RaftState) : Prop where
  core : s'.core = s.core
  matched : ∀ p, (s'.raftPeer p).matchChunkInfo = (s.raftPeer p).matchChunkInfo
  encoding : s.LeaderOk → s.EncodingLe s'
  settled : s.config.lrcMode = false → ∀ j ≤ s.commitIndex, (s.encodedStripe j).isSome →
    s'.encodedStripe j = s.encodedStripe j ∧ s'.lastEncoding j = s.lastEncoding j
  ok : s.LeaderOk → s'.LeaderOk

/-- How a leader may change over time: its log is only extended and encodings only get smaller. -/
structure Grows (s s' : RaftState) : Prop where
  config : s'.config = s.config
  term : s'.currentTerm = s.currentTerm
  commit : s.commitIndex ≤ s'.commitIndex
  log : ∀ j e, s.lm.getSingleLogEntry j = some e → s'.lm.getSingleLogEntry j = some e
  encoding : s.EncodingLe s'

theorem EncodingLe.refl (s : RaftState) : s.EncodingLe s := fun _ _ k at_j => ⟨k, le_rfl, at_j⟩

theorem CopyOf.mono {dst : Nat} (grows : Grows s s') (copy : s.CopyOf dst j e) : s'.CopyOf dst j e := by
  obtain ⟨ent, at_j, made⟩ := copy
  refine ⟨ent, grows.log j ent at_j, ?_⟩
  rw [grows.config]
  cases mode : s.config.lrcMode with
  | true =>
    simp only [mode, if_true] at made ⊢
    exact made
  | false =>
    simp only [mode, Bool.false_eq_true, if_false] at made ⊢
    obtain ⟨k, last, fragment, recorded, le⟩ := made
    obtain ⟨last', le', recorded'⟩ := grows.encoding mode j last recorded
    exact ⟨k, last', fragment, recorded', le'.trans le⟩

theorem Sent.mono {p : Packet} (grows : Grows s s') (sent : s.Sent p) : s'.Sent p := by
  obtain ⟨src, dst, args, msg, argsTerm, leader, leaderCommit, count, copies⟩ := sent
  refine ⟨by rw [src, id, id, grows.config], by rwa [peers, grows.config], args, msg, by rw [argsTerm, grows.term],
    by rw [leader, id, id, grows.config], leaderCommit.trans grows.commit, count, fun i e at_i => ?_⟩
  exact (copies i e at_i).mono grows

theorem Grows.of_core (core : s'.core = s.core) (encoding : s.EncodingLe s') : Grows s s' := by
  have lm : s'.lm = s.lm := field_eq core (·.lm)
  exact ⟨field_eq core (·.config), field_eq core (·.currentTerm),
    (field_eq core (·.commitIndex)).ge, fun j e at_j => by rwa [lm], encoding⟩

theorem Grows.trans {a b c : RaftState} (first : Grows a b) (second : Grows b c) : Grows a c := by
  refine ⟨second.config.trans first.config, second.term.trans first.term, first.commit.trans second.commit,
    fun j e at_j => second.log j e (first.log j e at_j), fun mode j k recorded => ?_⟩
  obtain ⟨k', le, recorded'⟩ := first.encoding mode j k recorded
  obtain ⟨k'', le', recorded''⟩ := second.encoding (by rwa [first.config]) j k' recorded'
  exact ⟨k'', le'.trans le, recorded''⟩

theorem LeaderOk.positive {k : Nat} (ok : s.LeaderOk) (mode : s.config.lrcMode = false)
    (recorded : s.lastEncoding j = some k) : 1 ≤ k := by
  obtain ⟨stripe, cached⟩ := Option.isSome_iff_exists.mp (ok.recorded mode j k recorded)
  obtain ⟨k', recorded', encoded⟩ := ok.cached mode j stripe cached
  cases recorded.symm.trans recorded'
  exact (encodeRaftEntry_eq_some encoded).1

theorem LeaderOk.noAck (ok : s.LeaderOk) :
    ∀ p ∈ s.outbox, ∀ reply, p.msg = .appendEntriesReply reply → reply.success = false := by
  intro p member reply msg
  obtain ⟨_, _, args, msg', _⟩ := ok.sent p member
  cases msg.symm.trans msg'

theorem LeaderOk.copyOf_of_built {peer start last i : Nat} {entries : List LogEntry}
    (ok : s.LeaderOk) (member : peer ∈ s.peers)
    (built : (if s.config.lrcMode then s.lrcEntriesFor peer (indexRange start last)
      else s.encodedEntriesFor peer (indexRange start last)) = some entries)
    (full : entries.length = last + 1 - start) (at_i : entries[i]? = some e) : s.CopyOf peer (start + i) e := by
  cases mode : s.config.lrcMode with
  | true =>
    simp only [mode, if_true] at built
    obtain ⟨j, ent, at_j, found, copy⟩ := (lrcEntriesFor_spec built).2 (by simpa [indexRange] using full) i e at_i
    obtain ⟨rfl, _⟩ := indexRange_getElem? at_j
    exact ⟨ent, found, by rwa [if_pos mode]⟩
  | false =>
    simp only [mode, Bool.false_eq_true, if_false] at built
    obtain ⟨j, stripe, at_j, cached, rfl⟩ := encodedEntriesFor_spec built i e at_i
    obtain ⟨rfl, _⟩ := indexRange_getElem? at_j
    obtain ⟨k, recorded, encoded⟩ := ok.cached mode _ stripe cached
    obtain ⟨_, ent, found, _, fragments⟩ := encodeRaftEntry_eq_some encoded
    obtain ⟨f, at_peer, fragment⟩ := fragments peer (ok.members peer member)
    refine ⟨ent, found, ?_⟩
    rw [mode, at_peer]
    exact ⟨k, k, fragment, recorded, le_rfl⟩

namespace LeaderStep

variable {s s' : RaftState} {j peer : Nat}

theorem refl (s : RaftState) : LeaderStep s s :=
  ⟨rfl, fun _ => rfl, fun _ => EncodingLe.refl s, fun _ _ _ _ => ⟨rfl, rfl⟩, fun ok => ok⟩

theorem trans {a b c : RaftState} (first : LeaderStep a b) (second : LeaderStep b c) : LeaderStep a c := by
  have config : b.config = a.config := field_eq first.core (·.config)
  have commit : b.commitIndex = a.commitIndex := field_eq first.core (·.commitIndex)
  refine ⟨second.core.trans first.core, fun p => (second.matched p).trans (first.matched p), ?_, ?_,
    fun ok => second.ok (first.ok ok)⟩
  · intro ok mode j k at_j
    obtain ⟨k', le, at_j'⟩ := first.encoding ok mode j k at_j
    obtain ⟨k'', le', at_j''⟩ := second.encoding (first.ok ok) (by rwa [config]) j k' at_j'
    exact ⟨k'', le'.trans le, at_j''⟩
  · intro mode j below isSome
    obtain ⟨stripe, enc⟩ := first.settled mode j below isSome
    obtain ⟨stripe', enc'⟩ := second.settled (by rwa [config]) j (by rwa [commit]) (by rwa [stripe])
    exact ⟨stripe'.trans stripe, enc'.trans enc⟩

theorem grows (step : LeaderStep s s') (ok : s.LeaderOk) : Grows s s' :=
  .of_core step.core (step.encoding ok)

theorem peers_eq (step : LeaderStep s s') : s'.peers = s.peers :=
  field_eq step.core (·.peers)

theorem commitIndex_eq (step : LeaderStep s s') : s'.commitIndex = s.commitIndex :=
  field_eq step.core (·.commitIndex)

theorem stop (s : RaftState) : LeaderStep s s.stop :=
  ⟨rfl, fun _ => rfl, fun _ => EncodingLe.refl s, fun _ _ _ _ => ⟨rfl, rfl⟩,
    fun ok => ⟨ok.members, ok.normal, ok.nextIndex, ok.cached, ok.recorded, ok.sent⟩⟩

theorem send {dst : Nat} {msg : Message}
    (sent : s.LeaderOk → s.Sent { src := s.id, dst := dst, msg := msg }) : LeaderStep s (s.send dst msg) := by
  refine ⟨rfl, fun _ => rfl, fun _ => EncodingLe.refl s, fun _ _ _ _ => ⟨rfl, rfl⟩, fun ok => ?_⟩
  refine ⟨ok.members, ok.normal, ok.nextIndex, ok.cached, ok.recorded, fun p member => ?_⟩
  rcases List.mem_append.mp member with old | new
  · exact ok.sent p old
  · rw [List.mem_singleton.mp new]
    exact sent ok

theorem updateAliveServers (s : RaftState) (num : Nat) : LeaderStep s (s.updateAliveServers num) :=
  ⟨rfl, fun _ => rfl, fun _ => EncodingLe.refl s, fun _ _ _ _ => ⟨rfl, rfl⟩,
    fun ok => ⟨ok.members, ok.normal, ok.nextIndex, ok.cached, ok.recorded, ok.sent⟩⟩

theorem reverse (s : RaftState) (peer : Nat) : LeaderStep s
    (s.updatePeer peer fun p => { p with nextIndex := s.commitIndex + 1, matchIndex := s.commitIndex }) := by
  refine ⟨rfl, fun p => ?_, fun _ => EncodingLe.refl s, fun _ _ _ _ => ⟨rfl, rfl⟩, fun ok => ?_⟩
  · simp only [updatePeer]
    split <;> rfl
  · refine ⟨ok.members, ok.normal, fun p member => ?_, ok.cached, ok.recorded, ok.sent⟩
    simp only [updatePeer]
    split
    · exact Nat.succ_le_succ (Nat.zero_le _)
    · exact ok.nextIndex p member

/-- An encoding is recorded for an index that is not committed or has no stripe yet, and never with a
larger `k` than before. -/
theorem encodeAndRecord {k : Nat} (free : s.commitIndex < j ∨ s.encodedStripe j = none)
    (smaller : s.LeaderOk → s.config.lrcMode = false → ∀ ent last, s.lm.getSingleLogEntry j = some ent →
      s.lastEncoding j = some last → k ≤ last) :
    LeaderStep s (s.encodeAndRecord k j) := by
  unfold RaftState.encodeAndRecord
  cases encoded : s.encodeRaftEntry j k with
  | none => exact stop s
  | some stripe =>
    change LeaderStep s ((s.setEncodedStripe j stripe).updateLastEncodingK j k)
    have moved : s.LeaderOk → s.EncodingLe ((s.setEncodedStripe j stripe).updateLastEncodingK j k) := by
      intro ok mode i last at_i
      by_cases same : i = j
      · subst same
        obtain ⟨_, ent, found, _⟩ := encodeRaftEntry_eq_some encoded
        exact ⟨k, smaller ok mode ent last found at_i, by simp [updateLastEncodingK]⟩
      · exact ⟨last, le_rfl, by simpa [updateLastEncodingK, setEncodedStripe, same] using at_i⟩
    refine ⟨rfl, fun _ => rfl, moved, fun mode i below isSome => ?_, fun ok => ?_⟩
    · have apart : i ≠ j := by
        rintro rfl
        rcases free with above | absent
        · omega
        · simp [absent] at isSome
      simp [updateLastEncodingK, setEncodedStripe, apart]
    · refine ⟨ok.members, ok.normal, ok.nextIndex, fun mode i found at_i => ?_, fun mode i last at_i => ?_,
        fun p member => Sent.mono (.of_core (s := s) rfl (moved ok)) (ok.sent p member)⟩
      · by_cases same : i = j
        · subst same
          simp only [updateLastEncodingK, setEncodedStripe, if_true, Option.some.injEq] at at_i
          exact ⟨k, by simp [updateLastEncodingK], at_i ▸ encoded⟩
        · obtain ⟨last, recorded, made⟩ := ok.cached mode i found
            (by simpa [updateLastEncodingK, setEncodedStripe, same] using at_i)
          exact ⟨last, by simpa [updateLastEncodingK, setEncodedStripe, same] using recorded, made⟩
      · by_cases same : i = j
        · simp [updateLastEncodingK, setEncodedStripe, same]
        · have before := ok.recorded mode i last (by simpa [updateLastEncodingK, setEncodedStripe, same] using at_i)
          simpa [updateLastEncodingK, setEncodedStripe, same] using before

theorem andThen {t : RaftState} {f : RaftState → RaftState} (first : LeaderStep s t) (second : LeaderStep t (f t)) :
    LeaderStep s (t.andThen f) :=
  andThen_rel (fun h k => h.trans k) first second

theorem forEach {α : Type} {f : RaftState → α → RaftState} {items : List α}
    (round : ∀ t a, LeaderStep s t → a ∈ items → LeaderStep t (f t a)) : LeaderStep s (RaftState.forEach f items s) :=
  forEach_rel refl (fun h k => h.trans k) round

theorem sendHeartBeat (s : RaftState) (peer : Nat) : LeaderStep s (s.sendHeartBeat peer) := by
  unfold RaftState.sendHeartBeat
  split
  · exact refl s
  · rename_i valid
    refine send fun _ => ⟨rfl, ?_, _, rfl, rfl, rfl, le_rfl, rfl, by simp⟩
    exact Decidable.not_not.mp fun outside => valid (Or.inr outside)

theorem sendAppendEntries (member : peer ∈ s.peers) : LeaderStep s (s.sendAppendEntries peer) := by
  unfold RaftState.sendAppendEntries
  simp only
  split
  · exact stop s
  · split
    · exact stop s
    · rename_i entries built
      split
      · exact stop s
      · rename_i full
        refine send fun ok => ⟨rfl, member, _, rfl, rfl, rfl, le_rfl, rfl, fun i e at_i => ?_⟩
        have next := ok.nextIndex peer member
        have place : predIndex (s.raftPeer peer).nextIndex + 1 + i = (s.raftPeer peer).nextIndex + i := by
          unfold predIndex
          split <;> omega
        simp only [place]
        exact ok.copyOf_of_built member built (by simpa using full) at_i

theorem sendToPeer (member : peer ∈ s.peers) : LeaderStep s (s.sendToPeer peer) := by
  fun_cases RaftState.sendToPeer
  · exact refl s
  · exact sendAppendEntries member
  · exact sendHeartBeat s peer

theorem broadcastHeartbeat (s : RaftState) : LeaderStep s s.broadcastHeartbeat := by
  refine forEach fun t peer _ _ => ?_
  split
  · exact refl t
  · exact sendHeartBeat t peer

theorem sendToPeers (s : RaftState) : LeaderStep s (RaftState.forEach RaftState.sendToPeer s.peers s) :=
  forEach fun _ _ reached member => sendToPeer (by rwa [reached.peers_eq])

theorem reEncode {k : Nat} (above : s.commitIndex < j) : LeaderStep s (s.reEncode k j) := by
  unfold RaftState.reEncode
  simp only
  split
  · exact refl s
  · rename_i needed
    refine encodeAndRecord (Or.inl above) fun ok mode ent last found recorded => ?_
    have positive := ok.positive mode recorded
    have lastK : s.getLastEncodingK j = last := by simp [getLastEncodingK, found, ok.normal j ent found, recorded]
    rw [lastK] at needed
    omega

theorem reverseAndSend (member : peer ∈ s.peers) : LeaderStep s (s.reverseAndSend peer) := by
  unfold RaftState.reverseAndSend
  split
  · exact refl s
  · exact (reverse s peer).trans (sendToPeer member)

theorem maybeReEncodingAndReplicate (s : RaftState) : LeaderStep s s.maybeReEncodingAndReplicate := by
  unfold RaftState.maybeReEncodingAndReplicate
  simp only
  split
  · exact refl s
  · refine andThen (forEach fun t j reached member => ?_) (forEach fun t peer reached member => ?_)
    · have above := (mem_indexRange.mp member).1
      exact reEncode (by rw [reached.commitIndex_eq]; omega)
    · exact reverseAndSend (by rwa [reached.peers_eq])

theorem replicateEntries (s : RaftState) : LeaderStep s s.replicateEntries := by
  unfold RaftState.replicateEntries
  simp only
  split
  · exact (updateAliveServers s _).trans (maybeReEncodingAndReplicate _)
  · exact sendToPeers s

theorem encodeNewEntry (s : RaftState) (j : Nat) : LeaderStep s (s.encodeNewEntry j) := by
  unfold RaftState.encodeNewEntry
  simp only
  refine andThen ?_ ?_
  · split
    · exact (updateAliveServers s _).trans (maybeReEncodingAndReplicate _)
    · exact refl s
  · generalize (if s.liveMonitor.liveNumber ≠ s.aliveServersOfLastPoint then _ else s) = t
    split
    · exact refl t
    · rename_i absent
      have none : t.encodedStripe j = none := by simpa using absent
      refine encodeAndRecord (Or.inr none) fun ok mode ent last _ recorded => ?_
      have cached := ok.recorded mode j last recorded
      rw [none] at cached
      cases cached

theorem recordLrcEncoding {k : Nat} (mode : s.config.lrcMode = true) : LeaderStep s (s.updateLastEncodingK j k) := by
  have notRs : s.config.lrcMode ≠ false := by simp [mode]
  have moved : s.EncodingLe (s.updateLastEncodingK j k) := fun rs => absurd rs notRs
  refine ⟨rfl, fun _ => rfl, fun _ => moved, fun rs => absurd rs notRs, fun ok => ?_⟩
  exact ⟨ok.members, ok.normal, ok.nextIndex, fun rs => absurd rs notRs, fun rs => absurd rs notRs,
    fun p member => Sent.mono (.of_core (s := s) rfl moved) (ok.sent p member)⟩

theorem sendNewLrcEntry {grouper : LrcGrouper} (mode : s.config.lrcMode = true)
    (member : peer ∈ s.peers) : LeaderStep s (s.sendNewLrcEntry grouper j peer) := by
  unfold RaftState.sendNewLrcEntry
  split
  · exact refl s
  · split
    · exact refl s
    · rename_i ent found
      simp only
      split
      · exact refl s
      · split
        · exact stop s
        · refine send fun _ => ⟨rfl, member, _, rfl, rfl, rfl, le_rfl, rfl, fun i e at_i => ?_⟩
          have zero : i = 0 := by
            have bound := (List.getElem?_eq_some_iff.mp at_i).1
            simpa using bound
          subst zero
          cases at_i
          have place : predIndex j + 1 + 0 = j := by
            unfold predIndex
            split
            · rename_i absent
              simp [absent] at found
            · omega
          simp only [place]
          refine ⟨ent, found, ?_⟩
          rw [if_pos mode]
          refine List.foldlRecOn _ _ (keyOnlyEntry_lrcCopy ent j) fun e copy p inZip => ?_
          obtain ⟨fid, _, chosen⟩ := List.mem_filterMap.mp (List.of_mem_zip inZip).2
          exact addFragmentWithId_lrcCopy copy (List.mem_of_getElem? chosen)

theorem replicateNewProposeEntry (s : RaftState) (j : Nat) : LeaderStep s (s.replicateNewProposeEntry j) := by
  unfold RaftState.replicateNewProposeEntry
  split
  · exact refl s
  · split
    · exact andThen (encodeNewEntry s j) (sendToPeers _)
    · rename_i grouper some_grouper
      split
      · rename_i lrc
        have mode : s.config.lrcMode = true := by simp [RaftConfig.lrcMode, some_grouper, lrc.1]
        refine (recordLrcEncoding mode).trans (forEach fun t peer reached member => ?_)
        have config := field_eq reached.core (·.config)
        exact sendNewLrcEntry (by rw [config]; exact mode) (by rwa [reached.peers_eq])
      · exact andThen (encodeNewEntry s j) (sendToPeers _)

end LeaderStep

end RaftState

end FlexRaft
