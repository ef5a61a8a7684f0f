import FlexRaft.Runs

namespace FlexRaft

namespace RaftState

variable {e : LogEntry}

/-- What a log can hold of `command`: all of it, one Reed-Solomon fragment of it, or a piece of its key
together with fragments of its LRC stripe. -/
inductive PieceOf (c : RaftConfig) (command : CommandData) (e : LogEntry) : Prop
  | full (type : e.type = .kNormal) (data : e.commandData = command.commandData)
      (stripe : ∀ frag ∈ e.fragments, StripeFragment c command frag)
  | fragment (k number : Nat) (low : 1 ≤ k) (high : k ≤ c.peers.length + 1) (type : e.type = .kFragments)
      (info : e.chunkInfo.k = k)
      (head : e.notEncodedSlice = command.commandData.take command.startFragmentOffset)
      (fragment : e.fragmentSlice = Encoder.encodeFragment c.isal
        (command.commandData.drop command.startFragmentOffset) k (c.peers.length + 1 - k) number)
  | keyOnly (size : Nat) (type : e.type = .kNormal) (key : e.commandData = (command.commandData.drop 21).take size)
      (stripe : ∀ frag ∈ e.fragments, StripeFragment c command frag)

/-- `e` is the whole of `command` as the leader keeps it. -/
structure WholeOf (c : RaftConfig) (command : CommandData) (e : LogEntry) : Prop where
  type : e.type = .kNormal
  data : e.commandData = command.commandData
  offset : e.startOffset = command.startFragmentOffset
  stripe : ∀ frag ∈ e.fragments, StripeFragment c command frag

theorem ProposedEntry.whole {s : RaftState} {command : CommandData} (entry : ProposedEntry s command e) :
    WholeOf s.config command e :=
  ⟨entry.type, by simp [LogEntry.commandData, entry.type, entry.commandData], entry.startOffset, entry.fragments⟩

theorem keySlice_eq_take (ent : LogEntry) : ∃ size, keySlice ent = (ent.commandData.drop 21).take size := by
  unfold keySlice
  simp only
  split
  · exact ⟨_, rfl⟩
  · exact ⟨0, by simp⟩

theorem WholeOf.pieceOf_copy {c : RaftConfig} {L : RaftState} {command : CommandData} {ent : LogEntry} {dst j : Nat}
    (config : L.config = c) (whole : WholeOf c command ent) (found : L.lm.getSingleLogEntry j = some ent)
    (copy : L.CopyOf dst j e) : PieceOf c command e := by
  obtain ⟨ent', found', made⟩ := copy
  cases found.symm.trans found'
  rw [config] at made
  split at made
  · obtain ⟨size, key⟩ := keySlice_eq_take ent
    refine .keyOnly size made.type ?_ fun frag member => whole.stripe frag (made.fragments member)
    rw [LogEntry.commandData, if_pos made.type, made.commandData, key, whole.data]
  · obtain ⟨k, last, ⟨low, high, _, rfl⟩, _⟩ := made
    refine .fragment k dst low high rfl rfl ?_ ?_
    · simp [encodedEntry, LogEntry.notEncodedSlice, whole.data, whole.offset]
    · simp [encodedEntry, LogEntry.fragmentSlice, whole.data, whole.offset]

end RaftState

namespace Cluster

open RaftState

variable {σ σ' : Cluster} {taken : Option Packet} {c : ClusterConfig} {junk : Nat → Uninitialised} {i j : Nat}

/-- Every entry of the leader's log is the whole of a command that was proposed for its place. -/
def Recorded (σ : Cluster) : Prop :=
  ∀ (j : Nat) e, σ.preferred.lm.entries[j]? = some e → ∃ command,
    .proposed σ.config.groupId (j + 1) e.term command ∈ σ.history ∧ WholeOf σ.preferred.config command e

theorem Local.preferred_log {s : RaftState} {events : List Event} (step : Local σ taken i s events)
    (same : i = σ.config.groupId) :
    s.lm = σ.preferred.lm ∨ ∃ command e, ProposedEntry σ.preferred command e ∧
      s.lm = σ.preferred.lm.appendLogEntry e ∧
      .proposed σ.config.groupId (σ.preferred.lm.lastLogEntryIndex + 1) σ.preferred.currentTerm command ∈ events := by
  cases step with
  | quiet quiet =>
    subst same
    exact Or.inl (field_eq quiet.logPart (·.lm))
  | @elected u before log term outbox =>
    have step := LeaderStep.broadcastHeartbeat u.asLeader
    exact Or.inl ((field_eq step.core (·.lm)).trans (field_eq log (·.lm)))
  | sending leads step => exact Or.inl (field_eq step.core (·.lm))
  | @proposing command e leads entry => exact Or.inr ⟨command, e, entry, rfl, List.mem_singleton.mpr rfl⟩
  | accepting other => exact absurd same other
  | @acked p reply now =>
    obtain ⟨c, committed, _⟩ :=
      tryUpdateCommitIndex_spec ((σ.preferred.updateLiveness reply.replyId now).recordReply reply)
    rw [committed]
    exact Or.inl (field_eq (tryApplyLogEntries_unapplied _) (·.lm))
  | @nacked reply now u leads noted =>
    refine Or.inl ((field_eq (tryApplyLogEntries_unapplied u) (·.lm)).trans ?_)
    rcases noted with rfl | ⟨_, rfl⟩ <;> rfl

theorem Inv.recorded (inv : σ.Inv) (moves : Moves σ taken σ') (before : σ.Recorded) : σ'.Recorded := by
  have evolves := moves.evolves inv
  obtain ⟨member, step, fewer, calls⟩ := moves
  rename_i i s events net pending
  intro j e at_j
  rw [evolves.config]
  have keep : σ.preferred.lm.entries[j]? = some e → ∃ command,
      .proposed σ.config.groupId (j + 1) e.term command ∈ σ.history ++ events ∧
        WholeOf σ.preferred.config command e := by
    intro old
    obtain ⟨command, recorded, whole⟩ := before j e old
    exact ⟨command, List.mem_append_left _ recorded, whole⟩
  by_cases same : i = σ.config.groupId
  · have log : (σ.after i s net pending events).preferred.lm = s.lm := by
      simp [Cluster.preferred, after, same, RaftState.flush]
    rw [log] at at_j
    rcases step.preferred_log same with unchanged | ⟨command, ent, entry, grown, recorded⟩
    · exact keep (unchanged ▸ at_j)
    · rw [grown] at at_j
      rcases LogManager.appendLogEntry_getElem? at_j with old | ⟨rfl, rfl⟩
      · exact keep old
      · rw [inv.preferred.indexed.lastLogEntryIndex_eq] at recorded
        exact ⟨command, List.mem_append_right _ (entry.term.symm ▸ recorded), entry.whole⟩
  · have log : (σ.after i s net pending events).preferred.lm = σ.preferred.lm := by
      simp [Cluster.preferred, after, Ne.symm same]
    exact keep (log ▸ at_j)

theorem Reach.recorded (reach : Reach noRestart (init c junk) σ) : σ.Recorded := by
  refine reach.invariant (P := Recorded) (fun _ _ allowed => allowed) (inv_init c junk) ?_ ?_
  · intro j e at_j
    simp [Cluster.preferred, init, newRaftState, persistRaftState] at at_j
  · exact fun σ₁ l σ₂ inv _ moves before => inv.recorded moves before

theorem Inv.leader_entry {e : LogEntry} (inv : σ.Inv) (found : (σ.servers i).lm.getSingleLogEntry j = some e) :
    ∃ ent, σ.preferred.lm.getSingleLogEntry j = some ent ∧ (ent = e ∨ σ.preferred.CopyOf i j e) := by
  by_cases same : i = σ.config.groupId
  · subst same
    exact ⟨e, found, Or.inl rfl⟩
  · obtain ⟨low, at_j⟩ := (inv.indexed i).getSingleLogEntry_eq_some.mp found
    have copy := (inv.followers i same).copies (j - 1) e at_j
    rw [Nat.sub_add_cancel low] at copy
    obtain ⟨ent, leaderFound, _⟩ := id copy
    exact ⟨ent, leaderFound, Or.inr copy⟩

/-- What stands at one place of the logs are pieces of the one command that was proposed for it. -/
theorem Reach.proposal {ent : LogEntry} (reach : Reach noRestart (init c junk) σ)
    (found : σ.preferred.lm.getSingleLogEntry j = some ent) :
    ∃ command, .proposed σ.config.groupId j ent.term command ∈ σ.history ∧
      ∀ i e, (σ.servers i).lm.getSingleLogEntry j = some e → PieceOf σ.preferred.config command e := by
  have inv := reach.inv (fun _ _ allowed => allowed) (inv_init c junk)
  obtain ⟨low, at_j⟩ := inv.preferred.indexed.getSingleLogEntry_eq_some.mp found
  obtain ⟨command, recorded, whole⟩ := reach.recorded (j - 1) ent at_j
  rw [Nat.sub_add_cancel low] at recorded
  refine ⟨command, recorded, fun i e stored => ?_⟩
  obtain ⟨ent', found', rfl | copy⟩ := inv.leader_entry stored
  · cases found.symm.trans found'
    exact .full whole.type whole.data whole.stripe
  · exact whole.pieceOf_copy rfl found copy

theorem Reach.evolves (reach : Reach noRestart σ σ') (inv : σ.Inv) : Evolves σ.preferred σ'.preferred :=
  reach.invariant (P := fun τ => Evolves σ.preferred τ.preferred) (fun _ _ allowed => allowed) inv (.refl _)
    fun _ _ _ here _ moves before => before.trans (moves.evolves here)

end Cluster

end FlexRaft
