import FlexRaft.CommitCounting
import Mathlib.Data.Finset.Card

namespace FlexRaft

namespace RaftState

/-- So many servers have acknowledged the required encoding of index `n` that any `F + 1` servers without
the leader include as many of them as the decoder needs. -/
def EnoughCopies (s : RaftState) (n : Nat) : Prop :=
  s.getClusterServerNumber + s.commitRequireK n ≤ (s.agreeingPeers n).length + s.livenessLevel + 2

instance (s : RaftState) (n : Nat) : Decidable (s.EnoughCopies n) :=
  inferInstanceAs (Decidable (_ ≤ _))

/-- Every index that the commit loop of `s` could move to or past has enough copies. -/
def CommitsEnough (s : RaftState) : Prop :=
  ∀ m ∈ indexRange (s.commitIndex + 1) s.lm.lastLogEntryIndex, s.canCommit m = true →
    (∀ n ∈ indexRange (s.commitIndex + 1) m, s.isReplicated n = true) →
      ∀ n ∈ indexRange (s.commitIndex + 1) m, s.EnoughCopies n

instance (s : RaftState) : Decidable s.CommitsEnough :=
  inferInstanceAs (Decidable (∀ m ∈ indexRange (s.commitIndex + 1) s.lm.lastLogEntryIndex, s.canCommit m = true →
    (∀ n ∈ indexRange (s.commitIndex + 1) m, s.isReplicated n = true) →
      ∀ n ∈ indexRange (s.commitIndex + 1) m, s.EnoughCopies n))

end RaftState

namespace Cluster

open RaftState

variable {σ σ' : Cluster} {taken : Option Packet} {c : ClusterConfig} {junk : Nat → Uninitialised} {n : Nat}

/-- A positive answer that a leader takes into account makes it commit only what has enough copies. -/
def AnswerEnough (s : RaftState) : Message → Prop
  | .appendEntriesReply reply => s.role = .kLeader → reply.term = s.currentTerm → reply.replyId ∈ s.peers →
      reply.success = true → (s.recordReply reply).CommitsEnough
  | _ => True

instance (s : RaftState) : (msg : Message) → Decidable (AnswerEnough s msg)
  | .appendEntriesReply reply =>
    inferInstanceAs (Decidable (s.role = .kLeader → reply.term = s.currentTerm → reply.replyId ∈ s.peers →
      reply.success = true → (s.recordReply reply).CommitsEnough))
  | .requestVote _ | .requestVoteReply _ | .appendEntries _ | .requestFragments _ | .requestFragmentsReply _ =>
    isTrue trivial

/-- Steps of a run without crashes in which whatever is committed has enough copies. -/
def commitsEnough (σ : Cluster) (l : Label) : Prop :=
  noRestart σ l ∧ ∀ p ∈ σ.delivered l, AnswerEnough (σ.servers p.dst) p.msg

instance (σ : Cluster) (l : Label) : Decidable (commitsEnough σ l) :=
  inferInstanceAs (Decidable (noRestart σ l ∧ ∀ p ∈ σ.delivered l, AnswerEnough (σ.servers p.dst) p.msg))

/-- The servers of `S` together hold the entry of leader `a` at index `i`, or `k` fragments of one encoding
of it; the fragments are distinct, since their numbers are the ids of the servers. -/
def Recoverable (σ : Cluster) (a : Nat) (S : Finset Nat) (i : Nat) : Prop :=
  ∃ ent, (σ.servers a).lm.getSingleLogEntry i = some ent ∧
    ((∃ v ∈ S, (σ.servers v).lm.getSingleLogEntry i = some ent) ∨
      ∃ k, 1 ≤ k ∧ ∃ T ⊆ S, k ≤ T.card ∧ ∀ v ∈ T, ∃ e, (σ.servers v).lm.getSingleLogEntry i = some e ∧
        FragmentOf (σ.servers a).config ent v i k e)

/-- The encoding of every committed index is fixed, and enough peers store their fragment of it. -/
def Settled (σ : Cluster) : Prop :=
  ∀ n, 1 ≤ n → n ≤ σ.preferred.commitIndex → ∃ k, ∃ A : Finset Nat, σ.preferred.lastEncoding n = some k ∧
    (σ.preferred.encodedStripe n).isSome ∧ (∀ v ∈ A, v ∈ σ.preferred.peers) ∧
    σ.preferred.getClusterServerNumber + k ≤ A.card + σ.preferred.livenessLevel + 2 ∧
    ∀ v ∈ A, ∃ e, (σ.servers v).lm.getSingleLogEntry n = some e ∧ e.chunkInfo.k = k

/-- No step touches the encoding of a committed index. -/
theorem Local.settled {i : Nat} {s : RaftState} {events : List Event} (inv : σ.Inv)
    (step : Local σ taken i s events) (same : i = σ.config.groupId) (rs : σ.preferred.config.lrcMode = false)
    (committed : n ≤ σ.preferred.commitIndex) (cached : (σ.preferred.encodedStripe n).isSome) :
    s.encodedStripe n = σ.preferred.encodedStripe n ∧ s.lastEncoding n = σ.preferred.lastEncoding n := by
  cases step with
  | quiet quiet =>
    subst same
    rw [field_eq quiet.logPart (·.encodedStripe),
      field_eq quiet.logPart (·.lastEncoding)]
    exact ⟨rfl, rfl⟩
  | elected before =>
    rw [(inv.preferred.fresh before).2.2.1 n] at cached
    cases cached
  | sending leads step => exact step.settled rs n committed cached
  | proposing => exact ⟨rfl, rfl⟩
  | accepting other => exact absurd same other
  | @acked p reply now =>
    have tally := (acked_spec σ.preferred reply now).1
    rw [field_eq tally (·.encodedStripe), field_eq tally (·.lastEncoding)]
    exact ⟨rfl, rfl⟩
  | @nacked reply now u leads noted =>
    have rest := tryApplyLogEntries_unapplied u
    rw [field_eq rest (·.encodedStripe), field_eq rest (·.lastEncoding)]
    rcases noted with rfl | ⟨_, rfl⟩ <;> exact ⟨rfl, rfl⟩

/-- In Reed-Solomon mode copies have at least the `k` of the last encoding. -/
theorem Inv.lastEncoding_le {v k : Nat} {e : LogEntry} (inv : σ.Inv) (other : v ≠ σ.config.groupId)
    (rs : σ.preferred.config.lrcMode = false) (recorded : σ.preferred.lastEncoding n = some k)
    (found : (σ.servers v).lm.getSingleLogEntry n = some e) : k ≤ e.chunkInfo.k := by
  obtain ⟨low, at_n⟩ := (inv.indexed v).getSingleLogEntry_eq_some.mp found
  have copy := (inv.followers v other).copies _ e at_n
  rw [Nat.sub_add_cancel low] at copy
  obtain ⟨ent, _, made⟩ := copy
  rw [rs] at made
  obtain ⟨k', last, ⟨_, _, _, rfl⟩, recorded', le⟩ := made
  cases recorded.symm.trans recorded'
  exact le

/-- The `k` that counts for a Reed-Solomon entry is the one of its last encoding. -/
theorem Inv.commitRequireK_eq (inv : σ.Inv) (leads : σ.preferred.role = .kLeader)
    (rs : σ.preferred.config.lrcMode = false) (low : 1 ≤ n) (high : n ≤ σ.preferred.lm.entries.length)
    (replicated : σ.preferred.isReplicated n = true) :
    (σ.preferred.encodedStripe n).isSome ∧ σ.preferred.lastEncoding n = some (σ.preferred.commitRequireK n) := by
  obtain ⟨ent, at_n⟩ : ∃ ent, σ.preferred.lm.entries[n - 1]? = some ent := ⟨_, List.getElem?_eq_getElem (by omega)⟩
  have found := inv.preferred.indexed.getSingleLogEntry_eq_some.mpr ⟨low, at_n⟩
  have plain : ent.isLrcEncoded = false := by
    have chunk := inv.preferred.chunk _ ent at_n
    rw [rs] at chunk
    simp only [Bool.false_eq_true, if_false] at chunk
    unfold LogEntry.isLrcEncoded
    rw [chunk]
    rfl
  have cached : (σ.preferred.encodedStripe n).isSome := by simpa [isReplicated, found, plain] using replicated
  obtain ⟨stripe, atStripe⟩ := Option.isSome_iff_exists.mp cached
  obtain ⟨k, recorded, _⟩ := (inv.leaderOk leads).cached rs n stripe atStripe
  refine ⟨cached, ?_⟩
  have normal := (inv.leaderOk leads).normal n ent found
  simp [commitRequireK, getLastEncodingK, found, plain, normal, recorded]

/-- An index that a step commits has enough copies. -/
theorem Moves.enoughCopies (moves : Moves σ taken σ') (inv : σ.Inv)
    (enough : ∀ p ∈ taken, AnswerEnough (σ.servers p.dst) p.msg) (above : σ.preferred.commitIndex < n)
    (upTo : n ≤ σ'.preferred.commitIndex) :
    σ'.preferred.isReplicated n = true ∧ σ'.preferred.EnoughCopies n := by
  obtain ⟨member, step, fewer, calls⟩ := moves
  rename_i i s events net pending
  by_cases same : i = σ.config.groupId
  · subst same
    have state : (σ.after σ.config.groupId s net pending events).preferred = s.flush := by
      simp [Cluster.preferred, after]
    rw [state] at upTo ⊢
    obtain ⟨p, reply, received, dst, msg, ⟨leads, term, peer, success⟩, tally, bound, can, replicated⟩ :=
      step.commit_rises inv rfl (above.trans_le upTo)
    have answer := enough p received
    rw [msg, dst] at answer
    have inRange : ∀ {m}, m ≤ s.commitIndex → σ.preferred.commitIndex < m →
        m ∈ indexRange ((σ.preferred.recordReply reply).commitIndex + 1) s.commitIndex :=
      fun le lt => mem_indexRange.mpr ⟨lt, le⟩
    have here := answer leads term peer success s.commitIndex (mem_indexRange.mpr ⟨above.trans_le upTo, ?_⟩) ?_ ?_ n
      (inRange upTo above)
    · refine ⟨replicated n above upTo, ?_⟩
      have same : s.EnoughCopies n = (σ.preferred.recordReply reply).EnoughCopies n :=
        field_eq tally (fun s => s.EnoughCopies n) fun _ => rfl
      exact same ▸ here
    · have lm : s.lm = (σ.preferred.recordReply reply).lm := field_eq tally (·.lm)
      exact lm ▸ bound
    · have same : s.canCommit s.commitIndex = (σ.preferred.recordReply reply).canCommit s.commitIndex :=
        field_eq tally (fun t => t.canCommit s.commitIndex) fun _ => rfl
      exact same ▸ can
    · intro m inside
      obtain ⟨low, high⟩ := mem_indexRange.mp inside
      have same : s.isReplicated m = (σ.preferred.recordReply reply).isReplicated m :=
        field_eq tally (fun t => t.isReplicated m) fun _ => rfl
      exact same ▸ replicated m low high
  · have state : (σ.after i s net pending events).preferred = σ.preferred := by
      simp [Cluster.preferred, after, Ne.symm same]
    rw [state] at upTo
    omega

theorem Settled.moves (inv : σ.Inv) (acks : σ.Acks) (rs : σ.preferred.config.lrcMode = false)
    (enough : ∀ p ∈ taken, AnswerEnough (σ.servers p.dst) p.msg) (moves : Moves σ taken σ') (settled : σ.Settled) :
    σ'.Settled := by
  have inv' := inv.moves moves
  have acks' := acks.moves inv moves
  have evolves := moves.evolves inv
  have rs' : σ'.preferred.config.lrcMode = false := by rw [evolves.config, rs]
  have peers : σ'.preferred.peers = σ.preferred.peers := congrArg RaftConfig.peers evolves.config
  have sameConfig : σ'.config = σ.config := by
    obtain ⟨member, step, fewer, calls⟩ := moves
    rfl
  intro n low high
  by_cases old : n ≤ σ.preferred.commitIndex
  · obtain ⟨k, A, recorded, cached, inPeers, count, stored⟩ := settled n low old
    have kept : σ'.preferred.encodedStripe n = σ.preferred.encodedStripe n ∧
        σ'.preferred.lastEncoding n = σ.preferred.lastEncoding n := by
      obtain ⟨member, step, fewer, calls⟩ := moves
      rename_i i s events net pending
      by_cases same : i = σ.config.groupId
      · simpa [Cluster.preferred, after, same, RaftState.flush] using step.settled inv same rs old cached
      · simp [Cluster.preferred, after, Ne.symm same]
    refine ⟨k, A, kept.2.trans recorded, kept.1 ▸ cached, fun v member => peers ▸ inPeers v member, ?_,
      fun v member => ?_⟩
    · unfold getClusterServerNumber livenessLevel at count ⊢
      rw [peers]
      exact count
    · have other := ne_of_mem_peers inv (inPeers v member)
      obtain ⟨e, found, rfl⟩ := stored v member
      obtain ⟨e', found', le⟩ := moves.stored_le inv other found
      exact ⟨e', found', le_antisymm le
        (inv'.lastEncoding_le (sameConfig ▸ other) rs' (kept.2.trans recorded) found')⟩
  · obtain ⟨replicated, copies⟩ := moves.enoughCopies inv enough (Nat.lt_of_not_le old) high
    have leads : σ'.preferred.role = .kLeader := by
      by_contra other
      have zero := (inv'.preferred.fresh other).2.1
      omega
    have bound : n ≤ σ'.preferred.lm.entries.length := high.trans inv'.preferred.commit
    obtain ⟨cached, recorded⟩ := inv'.commitRequireK_eq leads rs' low bound replicated
    have distinct : (σ'.preferred.agreeingPeers n).Nodup := by
      refine List.Nodup.filter _ ?_
      rw [RaftState.peers, show σ'.preferred.config = _ from inv'.config σ'.config.groupId]
      exact List.nodup_range.filter _
    refine ⟨_, (σ'.preferred.agreeingPeers n).toFinset, recorded, cached, fun v member => ?_, ?_, fun v member => ?_⟩
    · exact (List.mem_filter.mp (List.mem_toFinset.mp member)).1
    · rw [List.toFinset_card_of_nodup distinct]
      exact copies
    · obtain ⟨_, agreed⟩ := List.mem_filter.mp (List.mem_toFinset.mp member)
      obtain ⟨ci, noted, required⟩ := (Option.any_eq_true _ _).mp agreed
      have ack := acks'.matched v n ci noted
      obtain ⟨e, found, le⟩ := ack.stored
      have k : ci.k = σ'.preferred.commitRequireK n := by simpa using required
      exact ⟨e, found, le_antisymm (k ▸ le) (inv'.lastEncoding_le ack.other rs' recorded found)⟩

theorem Reach.settled (reach : Reach commitsEnough (init c junk) σ) (rs : σ.preferred.config.lrcMode = false) :
    σ.Settled := by
  refine (reach.invariant (P := fun σ => σ.Acks ∧ (σ.preferred.config.lrcMode = false → σ.Settled))
    (fun _ _ allowed => allowed.1) (inv_init c junk) ⟨acks_init c junk, fun _ n low high => ?_⟩ ?_).2 rs
  · have none : n ≤ 0 := high
    omega
  · rintro σ₁ l σ₂ inv allowed moves ⟨acks, settled⟩
    refine ⟨acks.moves inv moves, fun mode => ?_⟩
    have before : σ₁.preferred.config.lrcMode = false := (moves.evolves inv).config ▸ mode
    exact (settled before).moves inv acks before allowed.2 moves

end Cluster

end FlexRaft
