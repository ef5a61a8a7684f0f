import FlexRaft.Runs

namespace FlexRaft

namespace RaftState

variable {L s s' : RaftState} {has : Bool} {handed : List LogEntry}

/-- What `s` has handed over so far stands at the places the indices name, all of it in the term of `L`. -/
structure Handed (L s : RaftState) (has : Bool) (handed : List LogEntry) : Prop where
  count : handed.length = if has then s.lastApplied else 0
  places : ∀ (i : Nat) e, handed[i]? = some e → L.role = .kLeader ∧ e.index = i + 1 ∧ e.term = L.currentTerm

/-- What a server has handed over and how far it has got. -/
def applied (s : RaftState) : List LogEntry × List LogEntry × Nat := (s.rsm, s.bridge, s.lastApplied)

/-- Both receivers of applied entries. -/
def HandedOver (L s : RaftState) : Prop :=
  Handed L s s.config.hasRsm s.rsm ∧ Handed L s s.config.hasBridge s.bridge

theorem HandedOver.congr (config : s'.config = s.config) (same : s'.applied = s.applied)
    (ok : HandedOver L s) : HandedOver L s' := by
  simp only [applied, Prod.mk.injEq] at same
  obtain ⟨rsm, bridge, last⟩ := same
  obtain ⟨⟨rsmCount, rsmPlaces⟩, bridgeCount, bridgePlaces⟩ := ok
  exact ⟨⟨by rw [rsm, config, last]; exact rsmCount, rsm ▸ rsmPlaces⟩,
    ⟨by rw [bridge, config, last]; exact bridgeCount, bridge ▸ bridgePlaces⟩⟩

theorem Handed.mono {L' : RaftState} (evolves : Evolves L L')
    (ok : Handed L s has handed) : Handed L' s has handed := by
  refine ⟨ok.count, fun i e at_i => ?_⟩
  obtain ⟨leads, index, term⟩ := ok.places i e at_i
  obtain ⟨leads', grows⟩ := evolves.leader leads
  exact ⟨leads', index, term.trans grows.term.symm⟩

theorem Handed.snoc {ent : LogEntry}
    (ok : Handed L s has handed) (applied : s'.lastApplied = s.lastApplied + 1) (leads : L.role = .kLeader)
    (index : ent.index = s.lastApplied + 1) (term : ent.term = L.currentTerm) :
    Handed L s' has (if has then handed ++ [ent] else handed) := by
  obtain ⟨count, places⟩ := ok
  cases has with
  | false => exact ⟨count, places⟩
  | true =>
    simp only [if_true] at count ⊢
    refine ⟨by simp [count, applied], fun i e at_i => ?_⟩
    rw [List.getElem?_append] at at_i
    split at at_i
    · exact places i e at_i
    · rename_i beyond
      obtain ⟨bound, value⟩ := List.getElem?_eq_some_iff.mp at_i
      simp only [List.length_singleton] at bound
      have last : i = s.lastApplied := by omega
      have same : e = ent := by simpa using value.symm
      exact ⟨leads, by rw [same, index, last], by rw [same, term]⟩

theorem HandedOver.applyNext
    (entries : ∀ j e, s.lm.getSingleLogEntry j = some e → L.role = .kLeader ∧ e.index = j ∧ e.term = L.currentTerm)
    (ok : HandedOver L s) (next : s.applyNext = some s') : HandedOver L s' := by
  unfold RaftState.applyNext at next
  split at next
  · rename_i neither
    cases next
    simp only [Bool.and_eq_true, Bool.not_eq_true'] at neither
    obtain ⟨⟨rsmCount, rsmPlaces⟩, bridgeCount, bridgePlaces⟩ := ok
    simp only [neither.1, neither.2, Bool.false_eq_true, if_false] at rsmCount bridgeCount
    exact ⟨⟨by simp [neither.1, rsmCount], rsmPlaces⟩, ⟨by simp [neither.2, bridgeCount], bridgePlaces⟩⟩
  · obtain ⟨ent, found, rfl⟩ := Option.map_eq_some_iff.mp next
    obtain ⟨leads, index, term⟩ := entries _ ent found
    exact ⟨ok.1.snoc rfl leads index term, ok.2.snoc rfl leads index term⟩

theorem HandedOver.tryApplyLogEntries
    (entries : ∀ j e, s.lm.getSingleLogEntry j = some e → L.role = .kLeader ∧ e.index = j ∧ e.term = L.currentTerm)
    (ok : HandedOver L s) : HandedOver L s.tryApplyLogEntries := by
  have both := tryApplyLogEntries_induction (motive := fun t => t.lm = s.lm ∧ HandedOver L t) ⟨rfl, ok⟩ ?_
  · exact both.2
  · rintro t t' ⟨lm, handed⟩ next
    have lm' : t'.lm = t.lm := field_eq (applyNext_spec next).1 (·.lm)
    exact ⟨lm'.trans lm, handed.applyNext (fun j e found => entries j e (lm ▸ found)) next⟩

end RaftState

namespace Cluster

open RaftState

variable {σ σ' : Cluster} {taken : Option Packet} {i : Nat} {c : ClusterConfig} {junk : Nat → Uninitialised}

/-- A step hands entries over in its last part or not at all. -/
theorem Local.applies {s : RaftState} {events : List Event} (step : Local σ taken i s events) :
    ∃ u : RaftState, u.config = (σ.servers i).config ∧ u.applied = (σ.servers i).applied ∧ u.lm = s.lm ∧
      u.commitIndex = s.commitIndex ∧ (s.applied = u.applied ∨ s.applied = u.tryApplyLogEntries.applied) := by
  cases step with
  | quiet quiet =>
    exact ⟨s, field_eq quiet.logPart (·.config), field_eq quiet.logPart applied fun _ => rfl, rfl, rfl,
      Or.inl rfl⟩
  | @elected u before log term outbox =>
    have step := LeaderStep.broadcastHeartbeat u.asLeader
    exact ⟨_, (field_eq step.core (·.config)).trans (field_eq log (·.config)),
      (field_eq step.core applied fun _ => rfl).trans (field_eq log applied fun _ => rfl), rfl, rfl, Or.inl rfl⟩
  | sending leads step =>
    exact ⟨s, field_eq step.core (·.config), field_eq step.core applied fun _ => rfl, rfl, rfl,
      Or.inl rfl⟩
  | @proposing command e leads entry =>
    exact ⟨{ σ.preferred with lm := σ.preferred.lm.appendLogEntry e }, rfl, rfl, rfl, rfl, Or.inl rfl⟩
  | @accepting p args t infos other received onWire msg accepted =>
    have rest := tryApplyLogEntries_unapplied t
    exact ⟨t, field_eq accepted.state (·.config), field_eq accepted.state applied fun _ => rfl,
      (field_eq rest (·.lm)).symm, (field_eq rest (·.commitIndex)).symm,
      Or.inr rfl⟩
  | @acked p reply now leads received onWire msg success term peer =>
    obtain ⟨c, committed, _⟩ :=
      tryUpdateCommitIndex_spec ((σ.preferred.updateLiveness reply.replyId now).recordReply reply)
    rw [committed]
    have rest := tryApplyLogEntries_unapplied
      { (σ.preferred.updateLiveness reply.replyId now).recordReply reply with commitIndex := c }
    exact ⟨{ (σ.preferred.updateLiveness reply.replyId now).recordReply reply with commitIndex := c }, rfl, rfl,
      (field_eq rest (·.lm)).symm, (field_eq rest (·.commitIndex)).symm,
      Or.inr rfl⟩
  | @nacked reply now u leads noted =>
    have rest := tryApplyLogEntries_unapplied u
    refine ⟨u, ?_, ?_, (field_eq rest (·.lm)).symm,
      (field_eq rest (·.commitIndex)).symm, Or.inr rfl⟩
    · rcases noted with rfl | ⟨_, rfl⟩ <;> rfl
    · rcases noted with rfl | ⟨_, rfl⟩ <;> rfl

theorem handedOver_init (c : ClusterConfig) (junk : Nat → Uninitialised) (i : Nat) :
    HandedOver (init c junk).preferred ((init c junk).servers i) := by
  constructor
  · exact ⟨by split <;> rfl, by simp [init, newRaftState, persistRaftState]⟩
  · exact ⟨by split <;> rfl, by simp [init, newRaftState, persistRaftState]⟩

theorem Inv.handedOver (inv : σ.Inv) (moves : Moves σ taken σ')
    (before : ∀ i, HandedOver σ.preferred (σ.servers i)) (i : Nat) : HandedOver σ'.preferred (σ'.servers i) := by
  have inv' := inv.moves moves
  have evolves := moves.evolves inv
  obtain ⟨member, step, fewer, calls⟩ := moves
  rename_i actor s events net pending
  have stays : ∀ j, HandedOver (σ.after actor s net pending events).preferred (σ.servers j) :=
    fun j => ⟨(before j).1.mono evolves, (before j).2.mono evolves⟩
  by_cases same : i = actor
  · subst same
    obtain ⟨u, config, applied, lm, _, done⟩ := step.applies
    have here := (stays i).congr config applied
    have sConfig : s.config = u.config := (step.keeps inv).config.trans config.symm
    have entries : ∀ j e, u.lm.getSingleLogEntry j = some e →
        (σ.after i s net pending events).preferred.role = .kLeader ∧ e.index = j ∧
          e.term = (σ.after i s net pending events).preferred.currentTerm := by
      intro j e found
      have logged : ((σ.after i s net pending events).servers i).lm.getSingleLogEntry j = some e := by
        simpa [after, RaftState.flush, lm] using found
      obtain ⟨low, at_j⟩ := (inv'.indexed i).getSingleLogEntry_eq_some.mp logged
      obtain ⟨leads, index, term⟩ := inv'.entry at_j
      exact ⟨leads, by omega, term⟩
    have final : HandedOver (σ.after i s net pending events).preferred s := by
      rcases done with same | ran
      · exact here.congr sConfig same
      · refine (here.tryApplyLogEntries entries).congr (sConfig.trans ?_) ran
        exact (field_eq (tryApplyLogEntries_unapplied u) (·.config)).symm
    have flushed : HandedOver (σ.after i s net pending events).preferred s.flush :=
      .congr (s := s) rfl rfl final
    simpa [after] using flushed
  · simpa [after, same] using stays i

theorem Reach.handedOver (reach : Reach noRestart (init c junk) σ)
    (i : Nat) : HandedOver σ.preferred (σ.servers i) := by
  refine reach.invariant (P := fun σ => ∀ i, HandedOver σ.preferred (σ.servers i)) (fun _ _ allowed => allowed)
    (inv_init c junk) (handedOver_init c junk) ?_ i
  exact fun σ₁ l σ₂ inv _ moves before => inv.handedOver moves before

/-- The lists of entries server `i` has given to its state machine, directly or through the batch system. -/
def handedTo (σ : Cluster) (i : Nat) : List (List LogEntry) := [(σ.servers i).rsm, (σ.servers i).bridge]

theorem Reach.handedTo_places {a : Nat} {xs : List LogEntry}
    {e : LogEntry} (reach : Reach noRestart (init c junk) σ) (list : xs ∈ σ.handedTo a) (at_i : xs[i]? = some e) :
    e.index = i + 1 ∧ e.term = σ.preferred.currentTerm := by
  obtain ⟨rsm, bridge⟩ := reach.handedOver a
  simp only [handedTo, List.mem_cons, List.not_mem_nil, or_false] at list
  rcases list with rfl | rfl
  · exact (rsm.places i e at_i).2
  · exact (bridge.places i e at_i).2

theorem state_machine_safety {c : ClusterConfig} {junk : Nat → Uninitialised}
    (reach : Reach noRestart (init c junk) σ) :
    (∀ a b, ∀ xs ∈ σ.handedTo a, ∀ ys ∈ σ.handedTo b, ∀ e ∈ xs, ∀ e' ∈ ys, e.index = e'.index → e.term = e'.term) ∧
      ∀ a, ∀ xs ∈ σ.handedTo a, (xs.map LogEntry.index).Nodup := by
  constructor
  · intro a b xs inA ys inB e member e' member' _
    obtain ⟨i, at_i⟩ := List.mem_iff_getElem?.mp member
    obtain ⟨j, at_j⟩ := List.mem_iff_getElem?.mp member'
    exact (reach.handedTo_places inA at_i).2.trans (reach.handedTo_places inB at_j).2.symm
  · intro a xs inA
    rw [List.nodup_iff_injective_get]
    intro i j same
    have place : ∀ k : Fin (xs.map LogEntry.index).length, (xs.map LogEntry.index).get k = k + 1 := by
      intro k
      have bound : (k : Nat) < xs.length := by simpa using k.isLt
      have at_k := (reach.handedTo_places inA (List.getElem?_eq_getElem bound)).1
      simpa using at_k
    rw [place, place] at same
    exact Fin.ext (by omega)

/-- Two servers have applied the entry of a first proposal. -/
def firstEntryApplied : List Label := firstEntryCommitted ++ [.tick 0 ⟨false, false, true, false⟩, .deliver 5 4]

theorem state_machine_safety_threeServers : ∃ σ, Reach noRestart (init (.threeServers 0) .zero) σ ∧
    ((σ.servers 0).rsm.map LogEntry.index = [1] ∧ (σ.servers 1).rsm.map LogEntry.index = [1]) ∧
    ∀ a b, ∀ xs ∈ σ.handedTo a, ∀ ys ∈ σ.handedTo b, ∀ e ∈ xs, ∀ e' ∈ ys, e.index = e'.index → e.term = e'.term := by
  refine ⟨(exec noRestart (init (.threeServers 0) .zero) firstEntryApplied).get (by decide +kernel), .of_get _, ?_,
    (state_machine_safety (.of_get _)).1⟩
  decide +kernel

section Commit

variable {i : Nat} {s : RaftState} {events : List Event}

/-- An accepted request that moves the commit index reaches at least as far as the follower has committed. -/
def ReachesCommit (s : RaftState) : Message → Prop
  | .appendEntries args => s.currentTerm ≤ args.term →
      s.containEntry args.prevLogIndex args.prevLogTerm args.prevK = true → s.commitIndex < args.leaderCommit →
        s.commitIndex ≤ args.prevLogIndex + args.entries.length
  | _ => True

instance (s : RaftState) : (msg : Message) → Decidable (ReachesCommit s msg)
  | .appendEntries args => inferInstanceAs (Decidable (s.currentTerm ≤ args.term →
      s.containEntry args.prevLogIndex args.prevLogTerm args.prevK = true → s.commitIndex < args.leaderCommit →
        s.commitIndex ≤ args.prevLogIndex + args.entries.length))
  | .requestVote _ | .requestVoteReply _ | .appendEntriesReply _ | .requestFragments _ | .requestFragmentsReply _ =>
    isTrue trivial

/-- Steps of a run without crashes in which no accepted request ends before what its receiver has committed. -/
def commitsReached (σ : Cluster) (l : Label) : Prop :=
  noRestart σ l ∧ ∀ p ∈ σ.delivered l, ReachesCommit (σ.servers p.dst) p.msg

instance (σ : Cluster) (l : Label) : Decidable (commitsReached σ l) :=
  inferInstanceAs (Decidable (noRestart σ l ∧ ∀ p ∈ σ.delivered l, ReachesCommit (σ.servers p.dst) p.msg))

theorem le_followedCommit {args : AppendEntriesArgs} {commit last : Nat} (log : commit ≤ last)
    (reaches : commit < args.leaderCommit → commit ≤ args.prevLogIndex + args.entries.length) :
    commit ≤ args.followedCommit commit last := by
  unfold AppendEntriesArgs.followedCommit
  split
  · rename_i newer
    have reached := reaches newer
    simp only
    omega
  · exact le_rfl

theorem Local.commitIndex_le (inv : σ.Inv)
    (reached : ∀ p ∈ taken, ReachesCommit (σ.servers p.dst) p.msg) (step : Local σ taken i s events) :
    (σ.servers i).commitIndex ≤ s.commitIndex := by
  by_cases same : i = σ.config.groupId
  · subst same
    exact ((step.keeps inv).preferred rfl).1.commit
  · cases step with
    | quiet quiet => exact (field_eq quiet.logPart (·.commitIndex)).ge
    | @accepting p args t infos other received onWire msg accepted =>
      have ok := inv.followers p.dst other
      have sent := inv.packets p onWire
      have reaches := reached p received
      unfold PacketOk at sent
      rw [msg] at sent reaches
      obtain ⟨_, _, _, args', msg', argsTerm, _⟩ := sent
      cases msg.symm.trans msg'
      have commit : t.tryApplyLogEntries.commitIndex =
          args.followedCommit (σ.servers p.dst).commitIndex t.lm.lastLogEntryIndex :=
        (field_eq (tryApplyLogEntries_unapplied t) (·.commitIndex)).trans
          (field_eq accepted.state (·.commitIndex))
      have log : (σ.servers p.dst).commitIndex ≤ t.lm.lastLogEntryIndex := by
        rw [accepted.merged.indexed.lastLogEntryIndex_eq]
        exact ok.commitLog.trans accepted.merged.length_le
      change _ ≤ t.tryApplyLogEntries.commitIndex
      rw [commit]
      exact le_followedCommit log (reaches (ok.term.trans argsTerm.ge) accepted.contains)
    | _ => exact absurd rfl same

theorem Local.lastApplied_le (step : Local σ taken i s events) (commit : (σ.servers i).commitIndex ≤ s.commitIndex)
    (before : (σ.servers i).lastApplied ≤ (σ.servers i).commitIndex) : s.lastApplied ≤ s.commitIndex := by
  obtain ⟨u, _, same, _, uCommit, done⟩ := step.applies
  have start : u.lastApplied = (σ.servers i).lastApplied := congrArg (fun x => x.2.2) same
  rcases done with same' | ran
  · have stays : s.lastApplied = u.lastApplied := congrArg (fun x => x.2.2) same'
    omega
  · have stays : s.lastApplied = u.tryApplyLogEntries.lastApplied := congrArg (fun x => x.2.2) ran
    have bound := tryApplyLogEntries_lastApplied_le (s := u) (by omega)
    omega

/-- One step lets no commit index go back and no server apply what is not committed. -/
theorem Inv.commit_moves (inv : σ.Inv) (reached : ∀ p ∈ taken, ReachesCommit (σ.servers p.dst) p.msg)
    (moves : Moves σ taken σ') (before : ∀ i, (σ.servers i).lastApplied ≤ (σ.servers i).commitIndex) (i : Nat) :
    (σ.servers i).commitIndex ≤ (σ'.servers i).commitIndex ∧
      (σ'.servers i).lastApplied ≤ (σ'.servers i).commitIndex := by
  obtain ⟨member, step, fewer, calls⟩ := moves
  rename_i actor s events net pending
  by_cases same : i = actor
  · subst same
    have commit := step.commitIndex_le inv reached
    simpa [after, RaftState.flush] using And.intro commit (step.lastApplied_le commit (before i))
  · simpa [after, same] using before i

theorem Reach.lastApplied_le (reach : Reach commitsReached (init c junk) σ) (i : Nat) :
    (σ.servers i).lastApplied ≤ (σ.servers i).commitIndex := by
  refine reach.invariant (P := fun σ => ∀ i, (σ.servers i).lastApplied ≤ (σ.servers i).commitIndex)
    (fun _ _ allowed => allowed.1) (inv_init c junk) (fun _ => le_rfl) ?_ i
  exact fun σ₁ l σ₂ inv allowed moves before i => (inv.commit_moves allowed.2 moves before i).2

theorem commitIndex_monotone {c : ClusterConfig} {junk : Nat → Uninitialised}
    (first : Reach commitsReached (init c junk) σ) (later : Reach commitsReached σ σ') (i : Nat) :
    (σ.servers i).commitIndex ≤ (σ'.servers i).commitIndex ∧
      (σ'.servers i).lastApplied ≤ (σ'.servers i).commitIndex := by
  refine ⟨?_, Reach.lastApplied_le (first.trans later) i⟩
  induction later with
  | refl => exact le_rfl
  | next before allowed step ih =>
    have reach : Reach commitsReached (init c junk) _ := first.trans before
    have inv := reach.inv (fun _ _ allowed => allowed.1) (inv_init c junk)
    have moves := inv.step_moves allowed.1 step
    exact ih.trans (inv.commit_moves allowed.2 moves (fun j => reach.lastApplied_le j) i).1

theorem commitIndex_monotone_threeServers : ∃ σ, Reach commitsReached (init (.threeServers 0) .zero) σ ∧
    (σ.servers 1).commitIndex = 1 ∧ (σ.servers 1).lastApplied ≤ (σ.servers 1).commitIndex := by
  refine ⟨(exec commitsReached (init (.threeServers 0) .zero) firstEntryApplied).get (by decide +kernel), .of_get _, ?_,
    (commitIndex_monotone (.of_get _) .refl 1).2⟩
  decide +kernel

/-- Server 1 has applied the first entry, the leader has not heard of it and has committed a second entry. -/
def unheardFollower : List Label :=
  electZero ++ [.propose 0 ⟨0, [1]⟩, .replicate 0, .deliver 3 2, .deliver 5 3, .tick 0 ⟨false, false, false, true⟩,
    .deliver 5 4, .propose 0 ⟨0, [2]⟩, .replicate 0, .deliver 8 5, .deliver 8 6, .tick 0 ⟨false, false, true, false⟩]

/-- The heartbeat that follows takes the commit index of server 1 back to zero. -/
theorem commitIndex_goes_back : ∃ σ σ', Reach noRestart (init (.threeServers 0) .zero) σ ∧
    σ.step (.deliver 8 7) = some σ' ∧ (σ.servers 1).commitIndex = 1 ∧ (σ'.servers 1).commitIndex = 0 ∧
    (σ'.servers 1).lastApplied = 1 := by
  refine ⟨(exec noRestart (init (.threeServers 0) .zero) unheardFollower).get (by decide +kernel),
    (((exec noRestart (init (.threeServers 0) .zero) unheardFollower).get (by decide +kernel)).step
      (.deliver 8 7)).get (by decide +kernel), .of_get _, (Option.some_get _).symm, ?_⟩
  decide +kernel

end Commit

end Cluster

end FlexRaft
