import FlexRaft.NextIndex
import FlexRaft.RecoveredLog

namespace FlexRaft

namespace RaftState

/-- Every index from the `NextIndex` of the peer to the last one has a stripe. -/
def HasStripes (s : RaftState) (peer : Nat) : Prop :=
  ∀ j ∈ indexRange (s.raftPeer peer).nextIndex s.lm.lastLogEntryIndex, (s.encodedStripe j).isSome

/-- What `sendAppendEntries`, which only live peers get, needs on the Reed-Solomon path. -/
def SendsStripes (s : RaftState) : SendAction → Prop
  | .send peer => peer ≠ s.id → s.liveMonitor.isAlive peer = true → s.HasStripes peer
  | _ => True

/-- Triples for the sends of a leader: each of them finds the stripes it needs. -/
abbrev Sending : (RaftState → Prop) → List SendAction → (RaftState → Prop) → Prop :=
  Agenda.Triple act (fun s => s.stopped = false) SendsStripes

/-- `s` is the leader `s₀` after some encodings and sends. -/
structure Coded (s₀ s : RaftState) : Prop where
  core : s.core = s₀.core
  recorded : ∀ j k, s.lastEncoding j = some k → (s.encodedStripe j).isSome
  kept : ∀ j, (s₀.encodedStripe j).isSome → (s.encodedStripe j).isSome

/-- Conditions that do not look at what has been sent. -/
def Framed (I : RaftState → Prop) : Prop :=
  ∀ s out stopped, I s → I { s with outbox := out, stopped := stopped }

section Sends

variable {s₀ s : RaftState} {I : RaftState → Prop}

theorem Coded.framed (s₀ : RaftState) : Framed s₀.Coded := fun _ _ _ coded => ⟨coded.core, coded.recorded, coded.kept⟩

theorem Coded.lm (coded : s₀.Coded s) : s.lm = s₀.lm := field_eq coded.core (·.lm)

theorem Coded.config (coded : s₀.Coded s) : s.config = s₀.config := field_eq coded.core (·.config)

theorem Coded.commitIndex (coded : s₀.Coded s) : s.commitIndex = s₀.commitIndex :=
  field_eq coded.core (·.commitIndex)

theorem Coded.liveMonitor (coded : s₀.Coded s) : s.liveMonitor = s₀.liveMonitor :=
  field_eq coded.core (·.liveMonitor)

theorem Coded.id (coded : s₀.Coded s) : s.id = s₀.id := congrArg RaftConfig.id coded.config

theorem sendHeartBeat_eq (s : RaftState) (peer : Nat) : ∃ out, s.sendHeartBeat peer = { s with outbox := out } := by
  unfold RaftState.sendHeartBeat
  split
  · exact ⟨s.outbox, rfl⟩
  · exact ⟨_, rfl⟩

theorem sendAppendEntries_eq (s : RaftState) (peer : Nat) :
    ∃ out stopped, s.sendAppendEntries peer = { s with outbox := out, stopped := stopped } := by
  fun_cases RaftState.sendAppendEntries
  · exact ⟨s.outbox, true, rfl⟩
  · exact ⟨s.outbox, true, rfl⟩
  · exact ⟨s.outbox, true, rfl⟩
  · exact ⟨_, s.stopped, rfl⟩

theorem Framed.sendHeartBeat (framed : Framed I) (holds : I s) (peer : Nat) : I (s.sendHeartBeat peer) := by
  obtain ⟨out, sent⟩ := sendHeartBeat_eq s peer
  rw [sent]
  exact framed s out s.stopped holds

theorem Sending.heartbeat (framed : Framed I) (peer : Nat) : Sending I [.heartbeat peer] I := by
  refine .action_alone (fun _ _ _ => trivial) (fun _ _ _ => rfl) fun s holds _ _ => ?_
  dsimp only [RaftState.act]
  split
  · exact holds
  · exact framed.sendHeartBeat holds peer

theorem Sending.send (framed : Framed I) {peer : Nat} (has : ∀ s, I s → peer ≠ s.id → s.HasStripes peer) :
    Sending I [.send peer] I := by
  refine .action_alone (fun s holds _ other _ => has s holds other) (fun _ _ _ => rfl) fun s holds _ _ => ?_
  dsimp only [RaftState.act, sendToPeer]
  split
  · exact holds
  · split
    · obtain ⟨out, stopped, sent⟩ := sendAppendEntries_eq s peer
      rw [sent]
      exact framed s out stopped holds
    · exact framed.sendHeartBeat holds peer

theorem Sending.sends (framed : Framed I) {peers : List Nat}
    (has : ∀ s, I s → ∀ peer ∈ peers, peer ≠ s.id → s.HasStripes peer) :
    Sending I (peers.map SendAction.send) I := by
  rw [List.map_eq_flatMap]
  refine Agenda.Triple.loop (I := fun _ => I) fun peer _ member => ?_
  exact Sending.send framed fun s holds => has s holds peer member

theorem encodeAndRecord_has {k j : Nat} (running : (s.encodeAndRecord k j).stopped = false) :
    ((s.encodeAndRecord k j).encodedStripe j).isSome := by
  unfold encodeAndRecord at running ⊢
  split
  · rename_i failed
    rw [failed] at running
    cases running
  · dsimp only [updateLastEncodingK, setEncodedStripe]
    rw [if_pos rfl]
    rfl

/-- An encoding that succeeds gives the index its stripe and takes none away. -/
theorem Coded.encodeAndRecord (coded : s₀.Coded s) (k j : Nat) (running : (s.encodeAndRecord k j).stopped = false) :
    s₀.Coded (s.encodeAndRecord k j) ∧ ((s.encodeAndRecord k j).encodedStripe j).isSome ∧
      (∀ i, (s.encodedStripe i).isSome → ((s.encodeAndRecord k j).encodedStripe i).isSome) ∧
      (s.encodeAndRecord k j).raftPeer = s.raftPeer := by
  have new := encodeAndRecord_has running
  unfold RaftState.encodeAndRecord at running new ⊢
  split
  · rename_i failed
    rw [failed] at running
    cases running
  · rename_i stripe made
    rw [made] at new
    have more : ∀ i, (s.encodedStripe i).isSome → (if i = j then some stripe else s.encodedStripe i).isSome := by
      intro i has
      split
      · rfl
      · exact has
    refine ⟨⟨coded.core, fun i k' recorded => ?_, fun i has => more i (coded.kept i has)⟩, new, more, rfl⟩
    dsimp only [updateLastEncodingK, setEncodedStripe] at recorded ⊢
    split
    · rfl
    · rename_i other
      rw [if_neg other] at recorded
      exact coded.recorded i k' recorded

end Sends

section Programs

variable {s₀ s u : RaftState}

/-- Every entry behind the commit index has a stripe, except for those that are left. -/
def Recoding (s₀ : RaftState) (left : List Nat) (s : RaftState) : Prop :=
  s₀.Coded s ∧ ∀ j, s₀.commitIndex < j → j ≤ s₀.lm.lastLogEntryIndex → (s.encodedStripe j).isSome ∨ j ∈ left

/-- Every entry behind the commit index has a stripe, and the peers that are not left go on right there. -/
def Resending (s₀ : RaftState) (left : List Nat) (s : RaftState) : Prop :=
  s₀.Recoding [] s ∧ ∀ p ∈ s₀.peers, p ≠ s₀.id → (s.raftPeer p).nextIndex = s₀.commitIndex + 1 ∨ p ∈ left

theorem Recoding.hasStripes (recoded : s₀.Recoding [] s) {peer : Nat}
    (next : (s.raftPeer peer).nextIndex = s₀.commitIndex + 1) : s.HasStripes peer := by
  intro j member
  obtain ⟨low, high⟩ := mem_indexRange.mp member
  rw [recoded.1.lm] at high
  exact (recoded.2 j (by omega) high).resolve_right nofun

theorem Sending.reEncode (log : s₀.FullLog) (k j : Nat) (left : List Nat) :
    Sending (s₀.Recoding (j :: left)) [.reEncode k j] (s₀.Recoding left) := by
  refine .action_alone (fun _ _ _ => trivial) (fun _ _ _ => rfl) fun s recoding _ running => ?_
  obtain ⟨coded, done⟩ := recoding
  dsimp only [RaftState.act, RaftState.reEncode] at running ⊢
  split
  · rename_i encoded
    -- Only an index of the log that was encoded before has a `k`.
    refine ⟨coded, fun i low high => ?_⟩
    rcases done i low high with has | waiting
    · exact Or.inl has
    · rcases List.mem_cons.mp waiting with rfl | later
      · obtain ⟨e, at_i, normal⟩ := log.found (Nat.one_le_of_lt low) high
        have last : s.getLastEncodingK i = (s.lastEncoding i).getD 0 := by
          unfold getLastEncodingK
          rw [coded.lm, at_i]
          dsimp only
          rw [normal]
        rw [last] at encoded
        cases recorded : s.lastEncoding i with
        | none =>
          rw [recorded] at encoded
          exact absurd rfl encoded.1
        | some k' => exact Or.inl (coded.recorded i k' recorded)
      · exact Or.inr later
  · rename_i stale
    rw [if_neg stale] at running
    obtain ⟨after, has, more, -⟩ := coded.encodeAndRecord k j running
    refine ⟨after, fun i low high => ?_⟩
    rcases done i low high with old | waiting
    · exact Or.inl (more i old)
    · rcases List.mem_cons.mp waiting with rfl | later
      · exact Or.inl has
      · exact Or.inr later

theorem Resending.framed (s₀ : RaftState) (left : List Nat) : Framed (s₀.Resending left) :=
  fun s out stopped holds => ⟨⟨Coded.framed s₀ s out stopped holds.1.1, holds.1.2⟩, holds.2⟩

theorem Sending.reverse (peer : Nat) (left : List Nat) : Sending (s₀.Resending (peer :: left)) [.reverse peer]
    fun s => s₀.Resending left s ∧ (peer ≠ s.id → s.HasStripes peer) := by
  refine .action_alone (fun _ _ _ => trivial) (fun _ _ _ => rfl) fun s resending _ _ => ?_
  obtain ⟨recoded, next⟩ := resending
  have coded := recoded.1
  dsimp only [RaftState.act]
  split
  · rename_i own
    refine ⟨⟨recoded, fun p member other => ?_⟩, fun other => absurd own other⟩
    refine (next p member other).imp_right fun waiting => ?_
    exact (List.mem_cons.mp waiting).resolve_left fun same => other (same.trans (own.trans coded.id))
  · have moved : s₀.Recoding []
        (s.updatePeer peer fun p => { p with nextIndex := s.commitIndex + 1, matchIndex := s.commitIndex }) :=
      ⟨⟨coded.core, coded.recorded, coded.kept⟩, recoded.2⟩
    refine ⟨⟨moved, fun p member other => ?_⟩, fun _ => ?_⟩
    · dsimp only [RaftState.updatePeer]
      split
      · exact Or.inl (congrArg (· + 1) coded.commitIndex)
      · rename_i apart
        exact (next p member other).imp_right fun waiting => (List.mem_cons.mp waiting).resolve_left apart
    · refine moved.hasStripes ?_
      dsimp only [RaftState.updatePeer]
      rw [if_pos rfl]
      exact congrArg (· + 1) coded.commitIndex

/-- `MaybeReEncodingAndReplicate` does nothing at all, or every peer finds its stripes afterwards. -/
theorem Sending.maybeReEncode (log : s₀.FullLog) (coded : s₀.Coded u) : Sending (· = u) [.maybeReEncode] fun t =>
    s₀.Coded t ∧ (s₀.liveMonitor.liveNumber ≤ s₀.livenessLevel ∧ t = u ∨
      ∀ p ∈ s₀.peers, p ≠ s₀.id → t.HasStripes p) := by
  refine .action (fun _ _ _ => trivial) ?_
  rintro s rfl running
  have level : s.livenessLevel = s₀.livenessLevel := by
    unfold livenessLevel peers
    rw [coded.config]
  unfold RaftState.act
  dsimp only
  split
  · rename_i few
    rw [coded.liveMonitor, level] at few
    refine .nil fun t same => ?_
    rw [same]
    exact ⟨coded, Or.inl ⟨few, rfl⟩⟩
  · have encodes : Sending (s₀.Recoding (indexRange (s.commitIndex + 1) s.lm.lastLogEntryIndex))
        ((indexRange (s.commitIndex + 1) s.lm.lastLogEntryIndex).map
          (SendAction.reEncode (s.encodingK s.liveMonitor.liveNumber))) (s₀.Recoding []) := by
      rw [List.map_eq_flatMap]
      exact Agenda.Triple.loop fun j left _ => Sending.reEncode log _ j left
    have sends : Sending (s₀.Resending s.peers) (s.peers.flatMap fun peer => [.reverse peer, .send peer])
        (s₀.Resending []) := by
      refine Agenda.Triple.loop fun peer left _ => ?_
      have framed : Framed fun t => s₀.Resending left t ∧ (peer ≠ t.id → t.HasStripes peer) :=
        fun t out stopped holds => ⟨Resending.framed s₀ left t out stopped holds.1, holds.2⟩
      have sent := Sending.send framed fun t holds => holds.2
      exact Agenda.Triple.append (Sending.reverse peer left) (sent.weaken (fun _ holds => holds) fun _ holds => holds.1)
    have peers : s.peers = s₀.peers := congrArg RaftConfig.peers coded.config
    refine (Agenda.Triple.append (encodes.weaken ?_ ?_) sends).weaken (fun _ same => same) ?_
    · rintro t rfl
      refine ⟨coded, fun j low high => Or.inr (mem_indexRange.mpr ?_)⟩
      rw [coded.commitIndex, coded.lm]
      exact ⟨low, high⟩
    · intro t recoded
      exact ⟨recoded, fun p member _ => Or.inr (peers ▸ member)⟩
    · intro t resent
      refine ⟨resent.1.1, Or.inr fun p member other => ?_⟩
      exact resent.1.hasStripes ((resent.2 p member other).resolve_right nofun)

/-- With every peer the leader `s₀` goes on where it did, or the peer finds its stripes. -/
def Advanced (s₀ s : RaftState) : Prop :=
  s₀.Coded s ∧ ∀ p ∈ s₀.peers, p ≠ s₀.id →
    (s.raftPeer p).nextIndex = (s₀.raftPeer p).nextIndex ∨ s.HasStripes p

theorem Sending.replicateEntries (log : s₀.FullLog) (coded : s₀.Coded u) (same : u.raftPeer = s₀.raftPeer)
    (ready : u.liveMonitor.liveNumber = u.aliveServersOfLastPoint → ∀ p ∈ s₀.peers, p ≠ s₀.id → u.HasStripes p) :
    Sending (· = u) [.replicateEntries] s₀.Advanced := by
  refine .action (fun _ _ _ => trivial) ?_
  rintro s rfl running
  unfold RaftState.act
  dsimp only
  split
  · have updated : s₀.Coded (s.updateAliveServers s.liveMonitor.liveNumber) := ⟨coded.core, coded.recorded, coded.kept⟩
    refine (Sending.maybeReEncode log updated).weaken (fun _ here => here) ?_
    rintro t ⟨after, ⟨-, here⟩ | has⟩
    · refine ⟨after, fun p _ _ => Or.inl ?_⟩
      rw [here]
      exact congrArg (fun f => (f p).nextIndex) same
    · exact ⟨after, fun p member other => Or.inr (has p member other)⟩
  · rename_i unchanged
    have has := ready (Decidable.not_not.mp unchanged)
    have peers : s.peers = s₀.peers := congrArg RaftConfig.peers coded.config
    have framed : Framed fun t => s₀.Coded t ∧ ∀ p ∈ s₀.peers, p ≠ s₀.id → t.HasStripes p :=
      fun t out stopped holds => ⟨Coded.framed s₀ t out stopped holds.1, holds.2⟩
    rw [peers]
    refine (Sending.sends framed fun t holds p member other => ?_).weaken ?_ ?_
    · exact holds.2 p member fun own => other (own.trans holds.1.id.symm)
    · rintro t rfl
      exact ⟨coded, has⟩
    · rintro t ⟨after, has⟩
      exact ⟨after, fun p member other => Or.inr (has p member other)⟩

/-- `s₀` with something else sent. -/
def Resent (s₀ s : RaftState) : Prop := ∃ out stopped, s = { s₀ with outbox := out, stopped := stopped }

theorem Resent.framed (s₀ : RaftState) : Framed s₀.Resent := by
  rintro s out stopped ⟨_, _, rfl⟩
  exact ⟨out, stopped, rfl⟩

theorem Sending.tick (log : s₀.FullLog) (coded : s₀.Coded s₀) (timers : Timers)
    (ready : timers.replicateDue = true → s₀.liveMonitor.liveNumber = s₀.aliveServersOfLastPoint →
      ∀ p ∈ s₀.peers, p ≠ s₀.id → s₀.HasStripes p) :
    Sending (· = s₀) (s₀.tickActions timers) s₀.Advanced := by
  have beats : Sending s₀.Resent (if timers.heartbeatDue then s₀.peers.map .heartbeat else []) s₀.Resent := by
    split
    · rw [List.map_eq_flatMap]
      exact Agenda.Triple.loop (I := fun _ => s₀.Resent) fun peer _ _ => Sending.heartbeat (Resent.framed s₀) peer
    · exact .nil fun _ resent => resent
  have replicates : Sending s₀.Resent (if timers.replicateDue then [.replicateEntries] else []) s₀.Advanced := by
    refine .of_forall ?_
    rintro s ⟨out, stopped, rfl⟩
    have after := Coded.framed s₀ s₀ out stopped coded
    split
    · rename_i due
      exact Sending.replicateEntries log after rfl (ready due)
    · refine .nil ?_
      rintro t rfl
      exact ⟨after, fun _ _ _ => Or.inl rfl⟩
  exact (beats.append replicates).weaken (fun t same => ⟨s₀.outbox, s₀.stopped, same⟩) fun _ advanced => advanced

theorem Sending.encodeNew (j live : Nat) : Sending (fun s => s₀.Coded s ∧ ∀ p ∈ s₀.peers, p ≠ s₀.id →
      ∀ i ∈ indexRange (s.raftPeer p).nextIndex s.lm.lastLogEntryIndex, i = j ∨ (s.encodedStripe i).isSome)
    [.encodeNew j live]
    (fun s => s₀.Coded s ∧ (s.encodedStripe j).isSome ∧ ∀ p ∈ s₀.peers, p ≠ s₀.id → s.HasStripes p) := by
  refine .action_alone (fun _ _ _ => trivial) (fun _ _ _ => rfl) fun s holds _ running => ?_
  obtain ⟨coded, almost⟩ := holds
  dsimp only [RaftState.act] at running ⊢
  split
  · rename_i has
    refine ⟨coded, has, fun p member other i inside => ?_⟩
    rcases almost p member other i inside with rfl | old
    · exact has
    · exact old
  · rename_i lacks
    rw [if_neg lacks] at running
    obtain ⟨after, has, more, peers⟩ := coded.encodeAndRecord _ j running
    refine ⟨after, has, fun p member other i inside => ?_⟩
    rw [peers, after.lm, ← coded.lm] at inside
    rcases almost p member other i inside with rfl | old
    · exact has
    · exact more i old

theorem Sending.encodeAndSend (j live : Nat) : Sending (fun s => s₀.Coded s ∧ ∀ p ∈ s₀.peers, p ≠ s₀.id →
      ∀ i ∈ indexRange (s.raftPeer p).nextIndex s.lm.lastLogEntryIndex, i = j ∨ (s.encodedStripe i).isSome)
    ([.encodeNew j live] ++ s₀.peers.map .send)
    (fun s => s₀.Advanced s ∧ (s.encodedStripe j).isSome) := by
  have framed : Framed fun s => s₀.Coded s ∧ (s.encodedStripe j).isSome ∧ ∀ p ∈ s₀.peers, p ≠ s₀.id → s.HasStripes p :=
    fun t out stopped holds => ⟨Coded.framed s₀ t out stopped holds.1, holds.2⟩
  have sends : Sending _ (s₀.peers.map .send) _ := Sending.sends framed fun t holds p member other =>
    holds.2.2 p member fun own => other (own.trans holds.1.id.symm)
  refine (Agenda.Triple.append (Sending.encodeNew j live) sends).weaken (fun _ holds => holds) ?_
  rintro t ⟨after, has, all⟩
  exact ⟨⟨after, fun p member other => Or.inr (all p member other)⟩, has⟩

/-- The sends of a `Propose` call: if they do not begin with a re-encoding of all entries behind the commit index, the
other entries that go out have to have their stripes. -/
theorem Sending.replicateNew (mode : s₀.config.lrcMode = false) (log : s₀.FullLog) (coded : s₀.Coded s₀) (j : Nat)
    (ready : s₀.liveMonitor.liveNumber = s₀.aliveServersOfLastPoint ∨
        s₀.liveMonitor.liveNumber ≤ s₀.livenessLevel → ∀ p ∈ s₀.peers, p ≠ s₀.id →
      ∀ i ∈ indexRange (s₀.raftPeer p).nextIndex s₀.lm.lastLogEntryIndex, i = j ∨ (s₀.encodedStripe i).isSome) :
    Sending (· = s₀) [.replicateNew j] fun s =>
      s₀.Advanced s ∧ ((s.encodedStripe j).isSome ∨ s₀.lm.getSingleLogEntry j = none) := by
  have encodes : Sending (· = (s₀.encodeActions j).1) (s₀.encodeActions j).2 fun s =>
      s₀.Advanced s ∧ ((s.encodedStripe j).isSome ∨ s₀.lm.getSingleLogEntry j = none) := by
    unfold encodeActions
    dsimp only
    split
    · have updated : s₀.Coded (s₀.updateAliveServers s₀.liveMonitor.liveNumber) := ⟨coded.core, coded.recorded, coded.kept⟩
      refine (Agenda.Triple.append ((Sending.maybeReEncode log updated).weaken (fun _ same => same) ?_)
        (Sending.encodeAndSend j s₀.liveMonitor.liveNumber)).weaken (fun _ same => same)
        fun _ holds => ⟨holds.1, Or.inl holds.2⟩
      rintro t ⟨after, ⟨few, rfl⟩ | has⟩
      · exact ⟨after, ready (Or.inr few)⟩
      · exact ⟨after, fun p member other i inside => Or.inr (has p member other i inside)⟩
    · rename_i unchanged
      refine (Sending.encodeAndSend j s₀.liveMonitor.liveNumber).weaken ?_ fun _ holds => ⟨holds.1, Or.inl holds.2⟩
      rintro t rfl
      exact ⟨coded, ready (Or.inl (Decidable.not_not.mp unchanged))⟩
  refine .action (fun _ _ _ => trivial) ?_
  rintro s rfl running
  dsimp only [RaftState.act]
  split
  · rename_i missing
    refine .nil ?_
    rintro t rfl
    exact ⟨⟨coded, fun _ _ _ => Or.inl rfl⟩, Or.inr missing⟩
  · split
    · exact encodes
    · rename_i grouper grouped
      rw [if_neg]
      · exact encodes
      · rintro ⟨lrc, -⟩
        unfold RaftConfig.lrcMode at mode
        rw [grouped, lrc] at mode
        cases mode

/-- If the live count has not changed, the replication of a tick begins with its sends. -/
theorem underway_sends (timers : Timers) (quiet : timers.heartbeatDue = false) (due : timers.replicateDue = true)
    (unchanged : s.liveMonitor.liveNumber = s.aliveServersOfLastPoint) (running : s.stopped = false) :
    Underway s (s.tickActions timers) s (s.peers.map .send) := by
  have acts : s.act .replicateEntries = (s, s.peers.map .send) := if_neg (not_not.mpr unchanged)
  have begun : Underway s [.replicateEntries] (s.act .replicateEntries).1 ((s.act .replicateEntries).2 ++ []) :=
    .next .start running
  rw [acts, List.append_nil] at begun
  unfold tickActions
  rw [quiet, due]
  exact begun

theorem Sending.performs {todo : List SendAction} {post : RaftState → Prop} (sending : Sending (· = s) todo post)
    (performs : Performs s todo u) (running : u.stopped = false) : post u := by
  obtain ⟨rest, underway, ends⟩ := performs.underway
  rw [ends running] at underway
  exact sending.ends rfl underway running

end Programs

/-- Every index that a leader may have to send has its stripe, or the stripe is still owed. -/
structure Owing (s : RaftState) (owes : Nat → Prop) : Prop where
  recorded : ∀ j k, s.lastEncoding j = some k → (s.encodedStripe j).isSome
  covered : s.role = .kLeader → ∀ p ∈ s.peers,
    ∀ j ∈ indexRange (s.raftPeer p).nextIndex s.lm.lastLogEntryIndex, (s.encodedStripe j).isSome ∨ owes j

section Owing

variable {s s' : RaftState} {owes : Nat → Prop} {owes' : Nat → Prop}

theorem Owing.coded (owing : s.Owing owes) : s.Coded s := ⟨rfl, owing.recorded, fun _ has => has⟩

theorem Outset.owing (outset : s.Outset) : s.Owing owes := by
  rcases outset with idle | fresh
  · refine ⟨fun j k recorded => ?_, fun leads => absurd leads idle.role⟩
    rw [idle.encodings] at recorded
    cases recorded
  · refine ⟨fun j k recorded => ?_, fun _ p member j inside => ?_⟩
    · rw [fresh.encodings] at recorded
      cases recorded
    · obtain ⟨low, high⟩ := mem_indexRange.mp inside
      rw [fresh.behind p member] at low
      omega

/-- Peers that go on further ahead need less. -/
theorem Owing.keeps (owing : s.Owing owes) (role : s'.role = s.role) (config : s'.config = s.config) (lm : s'.lm = s.lm)
    (stripes : s'.encodedStripe = s.encodedStripe) (encodings : s'.lastEncoding = s.lastEncoding)
    (ahead : ∀ p ∈ s.peers, (s.raftPeer p).nextIndex ≤ (s'.raftPeer p).nextIndex) : s'.Owing owes := by
  refine ⟨?_, fun leads p member j inside => ?_⟩
  · rw [stripes, encodings]
    exact owing.recorded
  · rw [peers, config] at member
    have further := ahead p member
    obtain ⟨low, high⟩ := mem_indexRange.mp inside
    rw [lm] at high
    rw [stripes]
    exact owing.covered (role.symm.trans leads) p member j (mem_indexRange.mpr ⟨further.trans low, high⟩)

theorem Owing.mono (owing : s.Owing owes) (later : ∀ j, owes j → owes' j) : s.Owing owes' :=
  ⟨owing.recorded, fun leads p member j inside => (owing.covered leads p member j inside).imp_right (later j)⟩

theorem Owing.advanced (owing : s.Owing owes) (advanced : s.Advanced s') (others : ∀ p ∈ s.peers, p ≠ s.id)
    (pays : ∀ j, owes j → (s'.encodedStripe j).isSome ∨ owes' j ∨ s.lm.lastLogEntryIndex < j ∨ j = 0)
    (positive : ∀ p ∈ s.peers, 1 ≤ (s.raftPeer p).nextIndex) : s'.Owing owes' := by
  obtain ⟨coded, next⟩ := advanced
  refine ⟨coded.recorded, fun leads p member j inside => ?_⟩
  have role : s'.role = s.role := field_eq coded.core (·.role)
  rw [peers, coded.config] at member
  rcases next p member (others p member) with same | has
  · rw [same, coded.lm] at inside
    obtain ⟨low, high⟩ := mem_indexRange.mp inside
    have low := (positive p member).trans low
    rcases owing.covered (role.symm.trans leads) p member j inside with old | due
    · exact Or.inl (coded.kept j old)
    · rcases pays j due with paid | still | beyond | zero
      · exact Or.inl paid
      · exact Or.inr still
      · omega
      · omega
  · exact Or.inl (has j inside)

theorem Owing.propose (owing : s.Owing owes) {e : LogEntry} (entry : e.index = s.lm.lastLogEntryIndex + 1) :
    { s with lm := s.lm.appendLogEntry e }.Owing fun j => owes j ∨ j = s.lm.lastLogEntryIndex + 1 := by
  refine ⟨owing.recorded, fun leads p member j inside => ?_⟩
  obtain ⟨low, high⟩ := mem_indexRange.mp inside
  rw [LogManager.lastLogEntryIndex_appendLogEntry, entry] at high
  rcases Nat.lt_or_ge s.lm.lastLogEntryIndex j with new | old
  · exact Or.inr (Or.inr (by omega))
  · exact (owing.covered leads p member j (mem_indexRange.mpr ⟨low, old⟩)).imp_right Or.inl

theorem Owing.tryApplyLogEntries (owing : s.Owing owes) : s.tryApplyLogEntries.Owing owes := by
  have part := tryApplyLogEntries_unapplied s
  have peers : s.tryApplyLogEntries.raftPeer = s.raftPeer := field_eq part (·.raftPeer)
  refine owing.keeps (field_eq part (·.role)) (field_eq part (·.config))
    (field_eq part (·.lm)) (field_eq part (·.encodedStripe))
    (field_eq part (·.lastEncoding)) fun p _ => ?_
  rw [peers]

/-- A refusal may send a leader back over entries that have their stripes or are owed them. -/
theorem Owing.processAppendEntriesReply (owing : s.Owing owes) {reply : AppendEntriesReply} (now : Nat)
    (term : reply.term ≤ s.currentTerm)
    (refusal : s.role = .kLeader → reply.term = s.currentTerm → reply.success = false → reply.expectIndex ≠ 0 →
      ∀ j ∈ indexRange reply.expectIndex s.lm.lastLogEntryIndex, (s.encodedStripe j).isSome ∨ owes j) :
    (s.processAppendEntriesReply reply now).Owing owes := by
  have heard : (s.updateLiveness reply.replyId now).Owing owes := owing.keeps rfl rfl rfl rfl rfl fun _ _ => le_rfl
  unfold RaftState.processAppendEntriesReply
  dsimp only
  split
  · exact heard
  · rename_i used
    rw [if_neg (show ¬ (s.updateLiveness reply.replyId now).currentTerm < reply.term from Nat.not_lt.mpr term)]
    have leader : s.role = .kLeader := Decidable.not_not.mp fun other => used (Or.inl other)
    have current : reply.term = s.currentTerm := le_antisymm term (Nat.le_of_not_lt fun older => used (Or.inr older))
    split
    · exact heard
    · split
      · obtain ⟨c, committed, -⟩ := tryUpdateCommitIndex_spec ((s.updateLiveness reply.replyId now).recordReply reply)
        rw [committed]
        refine Owing.tryApplyLogEntries (heard.keeps rfl rfl rfl rfl rfl fun p _ => ?_)
        dsimp only [recordReply, updatePeer]
        split
        · rw [Cluster.recordChunkInfo_nextIndex]
          exact le_max_left _ _
        · exact le_rfl
      · rename_i failed
        split
        · rename_i expected
          have behind := refusal leader current (Bool.eq_false_iff.mpr failed) expected
          refine Owing.tryApplyLogEntries ⟨heard.recorded, fun leads p member j inside => ?_⟩
          dsimp only [updatePeer] at inside
          split at inside
          · exact behind j inside
          · exact heard.covered leads p member j inside
        · exact heard.tryApplyLogEntries

theorem Owing.process (owing : s.Owing owes) (leads : s.role = .kLeader) (src : Nat) {msg : Message} (now : Nat)
    (answers : ¬ msg.isRequest) (term : msg.term ≤ s.currentTerm)
    (refusal : ∀ reply, msg = .appendEntriesReply reply → s.role = .kLeader → reply.term = s.currentTerm →
      reply.success = false → reply.expectIndex ≠ 0 →
      ∀ j ∈ indexRange reply.expectIndex s.lm.lastLogEntryIndex, (s.encodedStripe j).isSome ∨ owes j) :
    (s.process src msg now).Owing owes := by
  rcases process_of_leader leads src now answers with ⟨id, heard⟩ | ⟨reply, rfl, taken⟩
  · rw [heard]
    exact owing.keeps rfl rfl rfl rfl rfl fun _ _ => le_rfl
  · rw [taken]
    exact owing.processAppendEntriesReply now term (refusal reply rfl)

end Owing

end RaftState

namespace Cluster

open RaftState

/-- Among the calls is one on server `i` for the entry at index `j`. -/
def owedBy (pending : List PendingPropose) (i j : Nat) : Prop := ∃ call ∈ pending, call.server = i ∧ call.index = j

/-- A `Propose` call on server `i` has still to encode the entry at index `j`. -/
def Owed (σ : Cluster) (i j : Nat) : Prop := owedBy σ.pending i j

instance (σ : Cluster) (i j : Nat) : Decidable (σ.Owed i j) :=
  inferInstanceAs (Decidable (∃ call ∈ σ.pending, call.server = i ∧ call.index = j))

/-- If the message makes server `i` go back to an index, that and the later ones are encoded, or are going to be. -/
def refusalCovered (σ : Cluster) (i : Nat) : Message → Prop
  | .appendEntriesReply reply =>
    (σ.servers i).role = .kLeader → reply.term = (σ.servers i).currentTerm → reply.success = false →
      reply.expectIndex ≠ 0 → ∀ j ∈ indexRange reply.expectIndex (σ.servers i).lm.lastLogEntryIndex,
        ((σ.servers i).encodedStripe j).isSome ∨ σ.Owed i j
  | _ => True

instance (σ : Cluster) (i : Nat) : (msg : Message) → Decidable (refusalCovered σ i msg)
  | .appendEntriesReply reply => inferInstanceAs (Decidable ((σ.servers i).role = .kLeader →
      reply.term = (σ.servers i).currentTerm → reply.success = false → reply.expectIndex ≠ 0 →
        ∀ j ∈ indexRange reply.expectIndex (σ.servers i).lm.lastLogEntryIndex,
          ((σ.servers i).encodedStripe j).isSome ∨ σ.Owed i j))
  | .requestVote _ | .requestVoteReply _ | .appendEntries _ | .requestFragments _ | .requestFragmentsReply _ =>
    isTrue trivial

/-- Sends that do not begin with a re-encoding find no other call that has still to encode its entry. -/
def sendsCovered (σ : Cluster) : Label → Prop
  | .tick i timers =>
    (σ.servers i).role = .kLeader → timers.replicateDue = true →
      (σ.servers i).liveMonitor.liveNumber = (σ.servers i).aliveServersOfLastPoint →
      ∀ call ∈ σ.pending, call.server = i → ((σ.servers i).encodedStripe call.index).isSome
  | .replicate n =>
    ∀ call ∈ σ.pending[n]?, (σ.servers call.server).liveMonitor.liveNumber =
          (σ.servers call.server).aliveServersOfLastPoint ∨
        (σ.servers call.server).liveMonitor.liveNumber ≤ (σ.servers call.server).livenessLevel →
      ∀ other ∈ σ.pending.eraseIdx n, other.server = call.server →
        ((σ.servers call.server).encodedStripe other.index).isSome
  | .deliver n _ => ∀ q ∈ σ.net[n]?, refusalCovered σ q.dst q.msg
  | _ => True

instance (σ : Cluster) : (l : Label) → Decidable (sendsCovered σ l)
  | .tick i timers => inferInstanceAs (Decidable ((σ.servers i).role = .kLeader → timers.replicateDue = true →
      (σ.servers i).liveMonitor.liveNumber = (σ.servers i).aliveServersOfLastPoint →
      ∀ call ∈ σ.pending, call.server = i → ((σ.servers i).encodedStripe call.index).isSome))
  | .replicate n => inferInstanceAs (Decidable (∀ call ∈ σ.pending[n]?,
      (σ.servers call.server).liveMonitor.liveNumber = (σ.servers call.server).aliveServersOfLastPoint ∨
        (σ.servers call.server).liveMonitor.liveNumber ≤ (σ.servers call.server).livenessLevel →
      ∀ other ∈ σ.pending.eraseIdx n, other.server = call.server →
        ((σ.servers call.server).encodedStripe other.index).isSome))
  | .deliver n _ => inferInstanceAs (Decidable (∀ q ∈ σ.net[n]?, refusalCovered σ q.dst q.msg))
  | .propose _ _ | .restart _ _ _ => isTrue trivial

/-- What the leader `i` sends in the step `l`. -/
def sendsOf (σ : Cluster) (i : Nat) : Label → Option (List SendAction)
  | .tick j timers => if j = i then some ((σ.servers i).tickActions timers) else none
  | .replicate n => σ.pending[n]?.bind fun call => if call.server = i then some [.replicateNew call.index] else none
  | _ => none

/-- The conditions on a step, that on restarts among them. -/
def stripesReady (σ : Cluster) (l : Label) : Prop := corroborated σ l ∧ sendsCovered σ l

instance (σ : Cluster) (l : Label) : Decidable (stripesReady σ l) :=
  inferInstanceAs (Decidable (corroborated σ l ∧ sendsCovered σ l))

/-- While it runs, the preferred server has or is owed the stripes it may have to send. -/
structure Covered (σ : Cluster) : Prop extends σ.Ranged where
  owing : σ.preferred.stopped = false → σ.preferred.Owing (σ.Owed σ.config.groupId)

section Steps

variable {σ σ' : Cluster} {l : Label} {i : Nat} {s : RaftState} {net : List Packet} {pending : List PendingPropose}
  {events : List Event} {n : Nat} {call : PendingPropose}

/-- Only the preferred server begins or ends calls of its own. -/
theorem Solo.owed_other (inv : σ.Solo) (handles : Handles σ l i s net pending events) (other : i ≠ σ.config.groupId) {j : Nat}
    (owed : σ.Owed σ.config.groupId j) : owedBy pending σ.config.groupId j := by
  obtain ⟨call, called, server, index⟩ := owed
  cases handles with
  | ticks | refuses | delivers => exact ⟨call, called, server, index⟩
  | accepts => exact ⟨call, List.mem_append_left _ called, server, index⟩
  | replicates found => exact absurd (inv.calls _ (List.mem_of_getElem? found)).1 other
  | restarts =>
    refine ⟨call, List.mem_filter.mpr ⟨called, ?_⟩, server, index⟩
    rw [server]
    exact bne_iff_ne.mpr fun same => other same.symm

theorem Covered.leads (inv : σ.Covered) (leads : σ.preferred.role = .kLeader) : σ.preferred.Leads :=
  inv.inRange.resolve_left fun idle => idle.role leads

theorem Covered.others (inv : σ.Covered) : ∀ p ∈ σ.preferred.peers, p ≠ σ.preferred.id := by
  intro p member
  rw [Cluster.preferred, inv.id]
  exact inv.toAnchored.peer_ne rfl member

theorem Covered.tick_sends (inv : σ.Covered) (running : σ.preferred.stopped = false) (leads : σ.preferred.role = .kLeader)
    (log : σ.preferred.FullLog) {timers : Timers} (allowed : sendsCovered σ (.tick σ.config.groupId timers)) :
    Sending (· = σ.preferred) (σ.preferred.tickActions timers) σ.preferred.Advanced := by
  have owing := inv.owing running
  refine Sending.tick log owing.coded timers fun due unchanged p member _ j inside => ?_
  rcases owing.covered leads p member j inside with has | ⟨call, called, server, rfl⟩
  · exact has
  · exact allowed leads due unchanged call called server

theorem mem_eraseIdx_of_ne {calls : List PendingPropose} {other : PendingPropose}
    (found : calls[n]? = some call) (member : other ∈ calls) (apart : other ≠ call) : other ∈ calls.eraseIdx n := by
  obtain ⟨m, bound, at_m⟩ := List.mem_iff_getElem.mp member
  refine List.mem_eraseIdx_iff_getElem.mpr ⟨m, bound, fun same => ?_, at_m⟩
  subst same
  rw [List.getElem?_eq_getElem bound, at_m] at found
  exact apart (Option.some.inj found)

theorem Covered.replicate_sends (inv : σ.Covered) (running : σ.preferred.stopped = false)
    (rs : σ.preferred.config.lrcMode = false) (log : σ.preferred.FullLog) 
    (found : σ.pending[n]? = some call) (allowed : sendsCovered σ (.replicate n)) :
    Sending (· = σ.preferred) [.replicateNew call.index] fun s => σ.preferred.Advanced s ∧
      ((s.encodedStripe call.index).isSome ∨ σ.preferred.lm.getSingleLogEntry call.index = none) := by
  have owing := inv.owing running
  obtain ⟨own, leads⟩ := inv.calls call (List.mem_of_getElem? found)
  refine Sending.replicateNew rs log owing.coded call.index fun unchanged p member _ j inside => ?_
  rcases owing.covered leads p member j inside with has | ⟨other, called, server, rfl⟩
  · exact Or.inr has
  · by_cases same : other.index = call.index
    · exact Or.inl same
    · have kept := mem_eraseIdx_of_ne found called fun equal => same (congrArg PendingPropose.index equal)
      have ready := allowed call found
      rw [own] at ready
      exact Or.inr (ready unchanged other kept server)

theorem Covered.handles (inv : σ.Covered) (rs : σ.preferred.config.lrcMode = false)
    (log : σ.preferred.role = .kLeader → σ.preferred.FullLog) (allowed : stripesReady σ l)
    (handles : Handles σ l i s net pending events) (same : i = σ.config.groupId) (running : s.stopped = false) :
    s.Owing (owedBy pending σ.config.groupId) := by
  have positive (leads : σ.preferred.role = .kLeader) : ∀ p ∈ σ.preferred.peers, 1 ≤ (σ.preferred.raftPeer p).nextIndex :=
    fun p member => ((inv.leads leads).next p member).1
  cases handles with
  | @ticks _ timers up =>
    subst same
    have before := stopped_of_isUp up
    rcases inv.inRange with idle | leads
    · exact (idle.tick timers).owing
    · have ticked : (σ.servers σ.config.groupId).tick timers = σ.preferred.sendAsLeader timers := by
        change σ.preferred.tick timers = _
        simp only [RaftState.tick, leads.role]
      rw [ticked] at running ⊢
      have advanced := (inv.tick_sends before leads.role (log leads.role) allowed.2).performs
        (performs_sendAsLeader before timers) running
      exact (inv.owing before).advanced advanced inv.others (fun j owed => Or.inr (Or.inl owed)) (positive leads.role)
  | @refuses _ command up refused =>
    subst same
    have owing := inv.owing (stopped_of_isUp up)
    rcases propose_spec σ.preferred command with ⟨-, kept | stopped⟩ | ⟨accepted, -⟩
    · change (σ.preferred.propose command).1.Owing _
      rw [kept]
      exact owing
    · change (σ.preferred.propose command).1.Owing _
      rw [stopped]
      exact owing.keeps rfl rfl rfl rfl rfl fun _ _ => le_rfl
    · cases accepted.symm.trans refused
  | @accepts _ command result up called accepted =>
    subst same
    have owing := inv.owing (stopped_of_isUp up)
    rcases propose_spec σ.preferred command with ⟨refused, -⟩ | ⟨-, leads, index, -, e, entry, appended⟩
    · change (σ.preferred.propose command).2 = result at called
      rw [called, accepted] at refused
      cases refused
    · change (σ.preferred.propose command).2 = result at called
      change (σ.preferred.propose command).1.Owing _
      rw [appended]
      refine (owing.propose entry.index).mono fun j owed => ?_
      rcases owed with ⟨call, member, server, at_j⟩ | rfl
      · exact ⟨call, List.mem_append_left _ member, server, at_j⟩
      · refine ⟨_, List.mem_append_right _ (List.mem_singleton_self _), rfl, ?_⟩
        rw [← called]
        exact index
  | @replicates n call found up =>
    have leads := (inv.calls call (List.mem_of_getElem? found)).2
    rw [same] at up running ⊢
    have before := stopped_of_isUp up
    have done := (inv.replicate_sends before rs (log leads) found allowed.2).performs
      (performs_replicateNew before call.index) running
    refine (inv.owing before).advanced done.1 inv.others (fun j owed => ?_) (positive leads)
    obtain ⟨other, member, server, rfl⟩ := owed
    by_cases paid : other.index = call.index
    · rw [paid]
      rcases done.2 with has | missing
      · exact Or.inl has
      · -- There is an entry at every index of the log.
        refine Or.inr (Or.inr ?_)
        by_contra inside
        push Not at inside
        obtain ⟨e, at_j, -⟩ := (log leads).found (Nat.one_le_iff_ne_zero.mpr inside.2) inside.1
        cases missing.symm.trans at_j
    · have kept := mem_eraseIdx_of_ne found member fun equal => paid (congrArg PendingPropose.index equal)
      exact Or.inr (Or.inl ⟨other, kept, server, rfl⟩)
  | @delivers n now q found up =>
    have onWire := List.mem_of_getElem? found
    have lawful := inv.packets q onWire
    have answers : ¬ q.msg.isRequest := fun request => lawful.request request same
    have covered := allowed.2 q found
    rw [same] at up running covered ⊢
    rcases inv.inRange with idle | leads
    · exact (idle.process q.src now answers).owing
    · refine (inv.owing (stopped_of_isUp up)).process leads.role q.src now answers lawful.term ?_
      intro reply msg
      rw [msg] at covered
      exact covered
  | @restarts _ lm junk =>
    exact Outset.owing (Or.inl (idle_newRaftState (inv.toAnchored.members i) _ lm junk))

theorem Covered.step (inv : σ.Covered) (rs : σ.preferred.config.lrcMode = false)
    (log : σ.preferred.role = .kLeader → σ.preferred.FullLog) (allowed : stripesReady σ l) (step : σ.step l = some σ') :
    σ'.Covered := by
  refine ⟨inv.toRanged.step allowed.1.headerSurvives step, fun running => ?_⟩
  obtain ⟨i, s, net, pending, events, handles, rfl⟩ := step_handles step
  by_cases same : i = σ.config.groupId
  · rw [preferred_after_self same] at running ⊢
    exact (inv.handles rs log allowed handles same running).keeps rfl rfl rfl rfl rfl fun _ _ => le_rfl
  · rw [preferred_after_other same] at running ⊢
    exact (inv.owing running).mono fun j owed => inv.toSolo.owed_other handles same owed

theorem Reach.config_eq {ok : Cluster → Label → Prop} (reach : Reach ok σ σ') : σ'.config = σ.config := by
  refine reach.holds (P := fun τ => τ.config = σ.config) rfl fun τ l τ' same _ step => ?_
  obtain ⟨_, _, _, _, _, -, rfl⟩ := step_handles step
  exact same

theorem Reach.covered {c : ClusterConfig} {junk : Nat → Uninitialised} (reach : Reach stripesReady (init c junk) σ)
    (rs : (c.serverConfig c.groupId).lrcMode = false) :
    σ.Covered ∧ (σ.preferred.role = .kLeader → σ.preferred.FullLog) := by
  induction reach with
  | refl =>
    have ranged := ranged_init c junk
    exact ⟨⟨ranged, fun _ => Outset.owing (ranged.inRange.imp_right fun leads => nomatch leads.role)⟩, nofun⟩
  | @next τ τ' l reach allowed step ih =>
    obtain ⟨inv, log⟩ := ih
    have mode : τ.preferred.config.lrcMode = false := by
      rw [Cluster.preferred, inv.config, Reach.config_eq reach]
      exact rs
    refine ⟨inv.step mode log allowed step, fun leads => ?_⟩
    have recovering := Reach.recovering ((reach.next allowed step).mono fun _ _ ready => ready.1)
    exact (recovering.2 fun follower => by cases leads.symm.trans follower).log

end Steps

theorem encodedEntriesFor_isSome {s : RaftState} {peer : Nat} {indices : List Nat}
    (has : ∀ j ∈ indices, (s.encodedStripe j).isSome) : (s.encodedEntriesFor peer indices).isSome := by
  induction indices with
  | nil => rfl
  | cons j rest ih =>
    obtain ⟨stripe, at_j⟩ := Option.isSome_iff_exists.mp (has j List.mem_cons_self)
    unfold encodedEntriesFor
    rw [at_j]
    dsimp only
    rw [Option.isSome_map]
    exact ih fun i member => has i (List.mem_cons_of_mem j member)

/-- In every run whose steps meet the condition, `sendAppendEntries` of a leader finds a stripe for each index from the
`NextIndex` of the peer on, and so does not stop for want of one. -/
theorem sends_find_stripes {c : ClusterConfig} {junk : Nat → Uninitialised} {σ : Cluster}
    (reach : Reach stripesReady (init c junk) σ) {i : Nat} (leads : (σ.servers i).role = .kLeader)
    (rs : (σ.servers i).config.lrcMode = false) {l : Label} (allowed : stripesReady σ l) {todo rest : List SendAction}
    (due : σ.sendsOf i l = some todo) {t : RaftState} {peer : Nat}
    (underway : Underway (σ.servers i) todo t (.send peer :: rest)) (running : t.stopped = false) (other : peer ≠ t.id)
    (alive : t.liveMonitor.isAlive peer = true) :
    t.HasStripes peer ∧
      (t.encodedEntriesFor peer (indexRange (t.raftPeer peer).nextIndex t.lm.lastLogEntryIndex)).isSome := by
  have ranged := Reach.ranged (reach.mono fun _ _ ready => corroborated.headerSurvives ready.1)
  have same : i = σ.config.groupId := ranged.leader_eq fun follower => by cases leads.symm.trans follower
  subst same
  have mode : (c.serverConfig c.groupId).lrcMode = false := by
    have config : σ.config = c := Reach.config_eq reach
    rw [ranged.config, config] at rs
    exact rs
  obtain ⟨inv, log⟩ := Reach.covered reach mode
  have start : σ.preferred.stopped = false := underway.runs_start running
  have ok : t.SendsStripes (.send peer) := by
    cases l with
    | tick j timers =>
      dsimp only [sendsOf] at due
      split at due
      · rename_i own
        cases due
        subst own
        exact (inv.tick_sends start leads (log leads) allowed.2).safe rfl underway running
      · cases due
    | replicate n =>
      obtain ⟨call, found, mine⟩ := Option.bind_eq_some_iff.mp due
      split at mine
      · cases mine
        exact (inv.replicate_sends start rs (log leads) found allowed.2).safe rfl underway running
      · cases mine
    | propose | deliver | restart => cases due
  have has := ok other alive
  exact ⟨has, encodedEntriesFor_isSome has⟩

/-- Server 0 leads three servers and has encoded and sent its first entry. -/
def firstSentState : Cluster :=
  (exec stripesReady (init (.threeServers 0) .zero) firstEntrySent).get (by decide +kernel)

theorem sends_find_stripes_firstEntry :
    Reach stripesReady (init (.threeServers 0) .zero) firstSentState ∧ (firstSentState.servers 0).role = .kLeader ∧
      ((firstSentState.servers 0).raftPeer 1).nextIndex = 1 ∧ (firstSentState.servers 0).lm.lastLogEntryIndex = 1 ∧
      (firstSentState.servers 0).HasStripes 1 := by
  have reach : Reach stripesReady (init (.threeServers 0) .zero) firstSentState := .of_get _
  have leads : (firstSentState.servers 0).role = .kLeader := by decide +kernel
  have peers : (firstSentState.servers 0).peers = [1, 2] := by decide +kernel
  have running : (firstSentState.servers 0).stopped = false := by decide +kernel
  have underway := underway_sends (s := firstSentState.servers 0) { replicateDue := true } rfl rfl
    (by decide +kernel) running
  rw [peers] at underway
  have has := sends_find_stripes reach leads (by decide +kernel) (l := .tick 0 { replicateDue := true })
    (by decide +kernel) rfl underway running (by decide +kernel) (by decide +kernel)
  exact ⟨reach, leads, by decide +kernel, by decide +kernel, has.1⟩

/-- After a tick of the leader has noted that all three servers are alive, a proposal has been appended and not been
encoded yet. -/
def unencodedState : Cluster :=
  (exec (fun _ _ => True) (init (.threeServers 0) .zero)
    (electZero ++ [.tick 0 { replicateDue := true }, .propose 0 ⟨0, [1, 2]⟩])).get (by decide +kernel)

/-- The next tick sends the entry to both peers and dereferences its null stripe. -/
theorem tick_sends_unencoded : Reach (fun _ _ => True) (init (.threeServers 0) .zero) unencodedState ∧
      (unencodedState.servers 0).role = .kLeader ∧ (unencodedState.servers 0).config.lrcMode = false ∧
      unencodedState.sendsOf 0 (.tick 0 { replicateDue := true }) =
        some ((unencodedState.servers 0).tickActions { replicateDue := true }) ∧
      Underway (unencodedState.servers 0) ((unencodedState.servers 0).tickActions { replicateDue := true })
        (unencodedState.servers 0) [.send 1, .send 2] ∧
      (unencodedState.servers 0).stopped = false ∧ 1 ≠ (unencodedState.servers 0).id ∧
      (unencodedState.servers 0).liveMonitor.isAlive 1 = true ∧ ¬ (unencodedState.servers 0).HasStripes 1 ∧
      ((unencodedState.servers 0).act (.send 1)).1.stopped = true := by
  have peers : (unencodedState.servers 0).peers = [1, 2] := by decide +kernel
  have running : (unencodedState.servers 0).stopped = false := by decide +kernel
  have underway := underway_sends (s := unencodedState.servers 0) { replicateDue := true } rfl rfl
    (by decide +kernel) running
  rw [peers] at underway
  refine ⟨.of_get _, by decide +kernel, by decide +kernel, rfl, underway, running, by decide +kernel, by decide +kernel,
    fun has => ?_, by decide +kernel⟩
  have stripe : ((unencodedState.servers 0).encodedStripe 1).isSome = true := has 1 (by decide +kernel)
  have none : ((unencodedState.servers 0).encodedStripe 1).isSome = false := by decide +kernel
  rw [none] at stripe
  cases stripe

end Cluster

end FlexRaft
