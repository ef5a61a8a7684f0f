import FlexRaft.Runs

namespace FlexRaft

namespace RaftState

theorem PreferredOk.copy_raftIndex {L : RaftState} {dst j : Nat} {e : LogEntry} (ok : L.PreferredOk)
    (copy : L.CopyOf dst j e) : e.chunkInfo.raftIndex = j := by
  obtain ⟨ent, found, made⟩ := copy
  obtain ⟨low, at_j⟩ := ok.indexed.getSingleLogEntry_eq_some.mp found
  have chunk := ok.chunk _ ent at_j
  split at made
  · rename_i mode
    rw [if_pos mode, Nat.sub_add_cancel low] at chunk
    rw [made.chunkInfo, chunk]
  · obtain ⟨k, last, ⟨_, _, _, rfl⟩, _⟩ := made
    rfl

theorem recordChunkInfos_matched {infos : List ChunkInfo} {p : RaftPeer} {n : Nat} {ci : ChunkInfo}
    (matched : (infos.foldl RaftPeer.recordChunkInfo p).matchChunkInfo n = some ci) :
    p.matchChunkInfo n = some ci ∨ ci ∈ infos ∧ ci.raftIndex = n := by
  induction infos generalizing p with
  | nil => exact Or.inl matched
  | cons first rest ih =>
    rcases ih matched with before | ⟨member, place⟩
    · unfold RaftPeer.recordChunkInfo at before
      split at before
      · simp only at before
        split at before
        · rename_i here
          cases before
          exact Or.inr ⟨List.mem_cons_self, here.symm⟩
        · exact Or.inl before
      · exact Or.inl before
    · exact Or.inr ⟨List.mem_cons_of_mem first member, place⟩

/-- The part of a leader that decides which indices it can commit. -/
def tallied (s : RaftState) : RaftState :=
  { s with
    liveMonitor := { nodeNum := 0, response := fun _ => false, responseTime := fun _ => 0, me := 0 }
    commitIndex := 0
    lastApplied := 0
    rsm := []
    bridge := [] }

theorem acked_spec (s : RaftState) (reply : AppendEntriesReply) (now : Nat) :
    let s' := ((s.updateLiveness reply.replyId now).recordReply reply).tryUpdateCommitIndex.tryApplyLogEntries
    s'.tallied = (s.recordReply reply).tallied ∧ (s.commitIndex < s'.commitIndex →
      s'.commitIndex ≤ s'.lm.lastLogEntryIndex ∧ s'.canCommit s'.commitIndex = true ∧
        ∀ n, s.commitIndex < n → n ≤ s'.commitIndex → s'.isReplicated n = true) := by
  intro s'
  obtain ⟨c, committed, low, outcome⟩ :=
    tryUpdateCommitIndex_spec ((s.updateLiveness reply.replyId now).recordReply reply)
  have rest : s'.unapplied = { (s.updateLiveness reply.replyId now).recordReply reply with commitIndex := c }.unapplied := by
    simp only [s', committed]
    exact tryApplyLogEntries_unapplied _
  have commit : s'.commitIndex = c := field_eq rest (·.commitIndex)
  refine ⟨field_eq rest tallied fun _ => rfl, fun rises => ?_⟩
  rcases outcome with stays | ⟨bound, can, replicated⟩
  · have same : s.commitIndex = c := stays.symm
    omega
  · rw [commit]
    refine ⟨?_, ?_, fun n above upTo => ?_⟩
    · rw [field_eq rest (·.lm)]
      exact bound
    · rw [field_eq rest (fun s => s.canCommit c) fun _ => rfl]
      exact can
    · rw [field_eq rest (fun s => s.isReplicated n) fun _ => rfl]
      exact replicated n above upTo

end RaftState

namespace Cluster

open RaftState

variable {σ σ' : Cluster} {taken : Option Packet} {c : ClusterConfig} {junk : Nat → Uninitialised}
  {i n v : Nat} {s : RaftState} {events : List Event} {e : LogEntry} {ci : ChunkInfo}

/-- Server `v` has accepted, from the leader and in its term, a request with entry `e` at index `n`. -/
def AcceptedEntry (σ : Cluster) (v n : Nat) (e : LogEntry) : Prop :=
  ∃ args i, .accepted v args ∈ σ.history ∧ args.term = σ.preferred.currentTerm ∧
    args.leaderId = σ.config.groupId ∧ args.entries[i]? = some e ∧ args.prevLogIndex + 1 + i = n

/-- What a chunk info of server `v` for index `n` in the hands of the leader says. -/
structure Acknowledged (σ : Cluster) (v n : Nat) (ci : ChunkInfo) : Prop where
  other : v ≠ σ.config.groupId
  leads : σ.preferred.role = .kLeader
  accepted : ∃ e, σ.AcceptedEntry v n e ∧ e.term = σ.preferred.currentTerm ∧ e.chunkInfo = ci
  stored : ∃ e, (σ.servers v).lm.getSingleLogEntry n = some e ∧ e.chunkInfo.k ≤ ci.k

/-- Every chunk info in a log, on the wire or in the leader's tables stems from an accepted request. -/
structure Acks (σ : Cluster) : Prop where
  logs : ∀ v n e, v ≠ σ.config.groupId → (σ.servers v).lm.getSingleLogEntry n = some e →
    σ.Acknowledged v n e.chunkInfo
  replies : ∀ p ∈ σ.net, ∀ reply, p.msg = .appendEntriesReply reply → reply.success = true →
    ∀ ci ∈ reply.chunkInfos, σ.Acknowledged reply.replyId ci.raftIndex ci
  matched : ∀ v n ci, (σ.preferred.raftPeer v).matchChunkInfo n = some ci → σ.Acknowledged v n ci

theorem Local.log_entry (inv : σ.Inv)
    (step : Local σ taken i s events) (other : i ≠ σ.config.groupId) (found : s.lm.getSingleLogEntry n = some e) :
    (σ.servers i).lm.getSingleLogEntry n = some e ∨ ∃ args k, .accepted i args ∈ events ∧
      args.term = σ.preferred.currentTerm ∧ args.leaderId = σ.config.groupId ∧ args.entries[k]? = some e ∧
        args.prevLogIndex + 1 + k = n := by
  cases step with
  | quiet quiet => exact Or.inl ((field_eq quiet.logPart (·.lm)) ▸ found)
  | @accepting p args t infos _ received onWire msg accepted =>
    have sent := inv.packets p onWire
    unfold PacketOk at sent
    rw [msg] at sent
    obtain ⟨_, _, _, args', msg', argsTerm, leaderId, _⟩ := sent
    cases msg.symm.trans msg'
    have lm : t.tryApplyLogEntries.lm = t.lm := field_eq (tryApplyLogEntries_unapplied t) (·.lm)
    change t.tryApplyLogEntries.lm.getSingleLogEntry n = some e at found
    rw [lm] at found
    obtain ⟨low, at_n⟩ := accepted.merged.indexed.getSingleLogEntry_eq_some.mp found
    rcases accepted.merged.entry_cases at_n with old | ⟨k, place, at_k⟩
    · exact Or.inl ((inv.indexed p.dst).getSingleLogEntry_eq_some.mpr ⟨low, old⟩)
    · exact Or.inr ⟨args, k, List.mem_singleton.mpr rfl, argsTerm, leaderId.trans inv.preferred_id, at_k, by omega⟩
  | _ => exact absurd rfl other

theorem Local.stored_le (inv : σ.Inv) (step : Local σ taken i s events) (other : i ≠ σ.config.groupId)
    (found : (σ.servers i).lm.getSingleLogEntry n = some e) :
    ∃ e', s.lm.getSingleLogEntry n = some e' ∧ e'.chunkInfo.k ≤ e.chunkInfo.k := by
  cases step with
  | quiet quiet => exact ⟨e, (field_eq quiet.logPart (·.lm)).symm ▸ found, le_rfl⟩
  | @accepting p args t infos _ received onWire msg accepted =>
    have lm : t.tryApplyLogEntries.lm = t.lm := field_eq (tryApplyLogEntries_unapplied t) (·.lm)
    obtain ⟨low, at_n⟩ := (inv.indexed p.dst).getSingleLogEntry_eq_some.mp found
    obtain ⟨e', stored, le⟩ := accepted.merged.stored_le at_n
    refine ⟨e', ?_, le⟩
    change t.tryApplyLogEntries.lm.getSingleLogEntry n = some e'
    rw [lm]
    exact accepted.merged.indexed.getSingleLogEntry_eq_some.mpr ⟨low, stored⟩
  | _ => exact absurd rfl other

theorem Local.ack_sent {p : Packet} {reply : AppendEntriesReply}
    (inv : σ.Inv) (step : Local σ taken i s events) (sent : p ∈ s.outbox) (msg : p.msg = .appendEntriesReply reply)
    (success : reply.success = true) :
    i ≠ σ.config.groupId ∧ reply.replyId = i ∧
      ∀ ci ∈ reply.chunkInfos, ∃ e, s.lm.getSingleLogEntry ci.raftIndex = some e ∧ e.chunkInfo = ci := by
  have other : i ≠ σ.config.groupId := by
    intro same
    rw [(step.keeps inv).noAck same p sent reply msg] at success
    cases success
  have keeps := (step.keeps inv).follower other
  cases step with
  | quiet quiet =>
    rw [quiet.noAck p sent reply msg] at success
    cases success
  | @accepting q args t infos _ received onWire msgQ accepted =>
    have lm : t.tryApplyLogEntries.lm = t.lm := field_eq (tryApplyLogEntries_unapplied t) (·.lm)
    have none : t.tryApplyLogEntries.outbox = [] :=
      ((field_eq (tryApplyLogEntries_unapplied t) (·.outbox)).trans accepted.outbox).trans
        (inv.outbox q.dst)
    simp only [send, none, List.nil_append, List.mem_singleton] at sent
    subst sent
    cases msg
    refine ⟨other, ?_, fun ci member => ?_⟩
    · have config : t.config = (σ.servers q.dst).config := field_eq accepted.state (·.config)
      simp only [acceptReply, RaftState.id, config, inv.config q.dst]
      rfl
    · obtain ⟨k, e, at_k, rfl⟩ := accepted.merged.info ci member
      have laid := accepted.merged.inside k e at_k
      have copy := keeps.1.copies _ _ (by rw [← lm] at laid; exact laid)
      refine ⟨_, ?_, rfl⟩
      rw [inv.preferred.copy_raftIndex copy]
      change t.tryApplyLogEntries.lm.getSingleLogEntry _ = _
      rw [lm, accepted.merged.indexed.getSingleLogEntry_succ, laid]
  | _ => exact absurd rfl other

theorem Local.matched (step : Local σ taken i s events) (same : i = σ.config.groupId)
    (noted : (s.raftPeer v).matchChunkInfo n = some ci) :
    (σ.preferred.raftPeer v).matchChunkInfo n = some ci ∨ ∃ p ∈ σ.net, ∃ reply, p.msg = .appendEntriesReply reply ∧
      reply.success = true ∧ reply.replyId = v ∧ ci ∈ reply.chunkInfos ∧ ci.raftIndex = n := by
  cases step with
  | quiet quiet =>
    subst same
    rw [field_eq quiet.logPart (·.raftPeer)] at noted
    exact Or.inl noted
  | @elected u before log term outbox =>
    rw [(LeaderStep.broadcastHeartbeat u.asLeader).matched v, asLeader_matched,
      field_eq log (·.raftPeer)] at noted
    exact Or.inl noted
  | sending leads step =>
    rw [step.matched v] at noted
    exact Or.inl noted
  | proposing leads entry => exact Or.inl noted
  | accepting other => exact absurd same other
  | @acked p reply now leads received onWire msg success =>
    obtain ⟨c, committed, _⟩ :=
      tryUpdateCommitIndex_spec ((σ.preferred.updateLiveness reply.replyId now).recordReply reply)
    rw [committed, field_eq (tryApplyLogEntries_unapplied _) (·.raftPeer)] at noted
    simp only [recordReply, updatePeer] at noted
    split at noted
    · rename_i here
      rcases recordChunkInfos_matched noted with before | ⟨member, place⟩
      · exact Or.inl before
      · exact Or.inr ⟨p, onWire, reply, msg, success, here.symm, member, place⟩
    · exact Or.inl noted
  | @nacked reply now u leads outcome =>
    rw [field_eq (tryApplyLogEntries_unapplied u) (·.raftPeer)] at noted
    rcases outcome with rfl | ⟨_, rfl⟩
    · exact Or.inl noted
    · simp only [updatePeer] at noted
      split at noted <;> exact Or.inl noted

theorem Moves.stored_le (moves : Moves σ taken σ') (inv : σ.Inv)
    (other : v ≠ σ.config.groupId) (found : (σ.servers v).lm.getSingleLogEntry n = some e) :
    ∃ e', (σ'.servers v).lm.getSingleLogEntry n = some e' ∧ e'.chunkInfo.k ≤ e.chunkInfo.k := by
  obtain ⟨member, step, fewer, calls⟩ := moves
  rename_i i s events net pending
  by_cases same : v = i
  · subst same
    obtain ⟨e', found', le⟩ := step.stored_le inv other found
    exact ⟨e', by simpa [after, RaftState.flush] using found', le⟩
  · exact ⟨e, by simpa [after, same] using found, le_rfl⟩

theorem Acknowledged.mono (inv : σ.Inv) (moves : Moves σ taken σ')
    (ack : σ.Acknowledged v n ci) : σ'.Acknowledged v n ci := by
  obtain ⟨leads, grows⟩ := (moves.evolves inv).leader ack.leads
  obtain ⟨e, ⟨args, k, recorded, argsTerm, leaderId, at_k, place⟩, term, info⟩ := ack.accepted
  obtain ⟨e', found, le⟩ := ack.stored
  obtain ⟨e'', found', le'⟩ := moves.stored_le inv ack.other found
  obtain ⟨member, step, fewer, calls⟩ := moves
  exact ⟨ack.other, leads, ⟨e, ⟨args, k, List.mem_append_left _ recorded, argsTerm.trans grows.term.symm, leaderId,
    at_k, place⟩, term.trans grows.term.symm, info⟩, e'', found', le'.trans le⟩

theorem Acks.moves (inv : σ.Inv) (moves : Moves σ taken σ') (acks : σ.Acks) : σ'.Acks := by
  have inv' := inv.moves moves
  have evolves := moves.evolves inv
  have keep : ∀ {v n ci}, σ.Acknowledged v n ci → σ'.Acknowledged v n ci := fun ack => ack.mono inv moves
  obtain ⟨member, step, fewer, calls⟩ := moves
  rename_i i s events net pending
  have logs : ∀ v n e, v ≠ σ.config.groupId →
      ((σ.after i s net pending events).servers v).lm.getSingleLogEntry n = some e →
      (σ.after i s net pending events).Acknowledged v n e.chunkInfo := by
    intro v n e other found
    by_cases same : v = i
    · subst same
      have here : s.lm.getSingleLogEntry n = some e := by simpa [after, RaftState.flush] using found
      rcases step.log_entry inv other here with old | ⟨args, k, recorded, argsTerm, leaderId, at_k, place⟩
      · exact keep (acks.logs v n e other old)
      · obtain ⟨leads', _, term⟩ := inv'.entry ((inv'.indexed v).getSingleLogEntry_eq_some.mp found).2
        -- a follower acts, so the leader is as before
        have before : (σ.after v s net pending events).preferred = σ.preferred := by
          simp [Cluster.preferred, after, Ne.symm other]
        exact ⟨other, leads', ⟨e, ⟨args, k, List.mem_append_right _ recorded, before.symm ▸ argsTerm, leaderId, at_k,
          place⟩, term, rfl⟩, e, found, le_rfl⟩
    · exact keep (acks.logs v n e other (by simpa [after, same] using found))
  refine ⟨logs, fun p onWire reply msg success ci inReply => ?_, fun v n ci noted => ?_⟩
  · rcases List.mem_append.mp onWire with old | new
    · exact keep (acks.replies p (fewer old) reply msg success ci inReply)
    · obtain ⟨other, sender, infos⟩ := step.ack_sent inv new msg success
      obtain ⟨e, stored, rfl⟩ := infos ci inReply
      rw [sender]
      exact logs i _ e other (by simpa [after, RaftState.flush] using stored)
  · by_cases same : i = σ.config.groupId
    · have here : (s.raftPeer v).matchChunkInfo n = some ci := by
        simpa [Cluster.preferred, after, same, RaftState.flush] using noted
      rcases step.matched same here with before | ⟨p, onWire, reply, msg, success, rfl, inReply, rfl⟩
      · exact keep (acks.matched v n ci before)
      · exact keep (acks.replies p onWire reply msg success ci inReply)
    · exact keep (acks.matched v n ci (by simpa [Cluster.preferred, after, Ne.symm same] using noted))

theorem acks_init (c : ClusterConfig) (junk : Nat → Uninitialised) : (init c junk).Acks := by
  refine ⟨fun v n e _ found => ?_, by simp [init], fun v n ci noted => ?_⟩
  · have indexed : ((init c junk).servers v).lm.Indexed := LogManager.indexed_nil
    have at_n := (indexed.getSingleLogEntry_eq_some.mp found).2
    simp [init, newRaftState, persistRaftState] at at_n
  · simp [Cluster.preferred, init, newRaftState, persistRaftState] at noted

theorem Reach.acks {ok : Cluster → Label → Prop} (reach : Reach ok (init c junk) σ)
    (only : ∀ σ l, ok σ l → noRestart σ l) : σ.Acks :=
  reach.invariant only (inv_init c junk) (acks_init c junk) fun _ _ _ inv _ moves acks => acks.moves inv moves

theorem Local.commit_rises (inv : σ.Inv) (step : Local σ taken i s events) (same : i = σ.config.groupId)
    (rises : σ.preferred.commitIndex < s.commitIndex) :
    ∃ p reply, taken = some p ∧ p.dst = σ.config.groupId ∧ p.msg = .appendEntriesReply reply ∧
      (σ.preferred.role = .kLeader ∧ reply.term = σ.preferred.currentTerm ∧ reply.replyId ∈ σ.preferred.peers ∧
        reply.success = true) ∧ s.tallied = (σ.preferred.recordReply reply).tallied ∧
      s.commitIndex ≤ s.lm.lastLogEntryIndex ∧ s.canCommit s.commitIndex = true ∧
      ∀ n, σ.preferred.commitIndex < n → n ≤ s.commitIndex → s.isReplicated n = true := by
  have stays : s.commitIndex = σ.preferred.commitIndex → False := fun same => by omega
  cases step with
  | quiet quiet =>
    subst same
    exact (stays (field_eq quiet.logPart (·.commitIndex))).elim
  | @elected u before log term outbox =>
    have step := LeaderStep.broadcastHeartbeat u.asLeader
    exact (stays (step.commitIndex_eq.trans (field_eq log (·.commitIndex)))).elim
  | sending leads step => exact (stays step.commitIndex_eq).elim
  | proposing leads entry => exact (stays rfl).elim
  | accepting other => exact absurd same other
  | @acked p reply now leads received onWire msg success term peer =>
    have ok := inv.packets p onWire
    unfold PacketOk at ok
    rw [msg] at ok
    obtain ⟨tally, moved⟩ := acked_spec σ.preferred reply now
    exact ⟨p, reply, received, ok.2.1.trans inv.preferred_id, msg, ⟨leads, term, peer, success⟩, tally, moved rises⟩
  | @nacked reply now u leads noted =>
    refine (stays ((field_eq (tryApplyLogEntries_unapplied u) (·.commitIndex)).trans ?_)).elim
    rcases noted with rfl | ⟨_, rfl⟩ <;> rfl

theorem commit_counts_copies {a : Nat} {l : Label} (reach : Reach noRestart (init c junk) σ)
    (allowed : l.isRestart = false) (step : σ.step l = some σ') (leads : (σ'.servers a).role = .kLeader)
    (rises : (σ.servers a).commitIndex < (σ'.servers a).commitIndex) :
    (σ'.servers a).canCommit (σ'.servers a).commitIndex = true ∧
    ∀ n, (σ.servers a).commitIndex < n → n ≤ (σ'.servers a).commitIndex → ∀ v ∈ (σ'.servers a).agreeingPeers n,
      ∃ ent args i e, (σ'.servers a).lm.getSingleLogEntry n = some ent ∧ .accepted v args ∈ σ'.history ∧
        args.term = (σ'.servers a).currentTerm ∧ args.leaderId = a ∧ args.entries[i]? = some e ∧
        args.prevLogIndex + 1 + i = n ∧ e.term = ent.term ∧
        e.chunkInfo.k = (σ'.servers a).commitRequireK n := by
  have inv := reach.inv (fun _ _ allowed => allowed) (inv_init c junk)
  have moves := inv.step_moves allowed step
  have inv' := inv.moves moves
  have acks := (reach.acks fun _ _ allowed => allowed).moves inv moves
  have a_eq := inv'.leader_eq leads
  subst a_eq
  constructor
  · obtain ⟨member, act, fewer, calls⟩ := moves
    rename_i i s events net pending
    by_cases same : i = σ.config.groupId
    · subst same
      have state : (σ.after σ.config.groupId s net pending events).servers σ.config.groupId = s.flush := by simp [after]
      rw [show (σ.after σ.config.groupId s net pending events).config = σ.config from rfl, state] at rises ⊢
      obtain ⟨_, _, _, _, _, _, _, _, can, _⟩ := act.commit_rises inv rfl rises
      exact can
    · have state : (σ.after i s net pending events).servers σ.config.groupId = σ.servers σ.config.groupId := by
        simp [after, Ne.symm same]
      rw [show (σ.after i s net pending events).config = σ.config from rfl, state] at rises
      exact absurd rises (lt_irrefl _)
  · intro n above upTo v agrees
    obtain ⟨member, agreed⟩ := List.mem_filter.mp agrees
    obtain ⟨ci, noted, required⟩ := (Option.any_eq_true _ _).mp agreed
    obtain ⟨e, ⟨args, i, recorded, argsTerm, leaderId, at_i, place⟩, term, rfl⟩ := (acks.matched v n ci noted).accepted
    have bound : n ≤ σ'.preferred.lm.entries.length := upTo.trans inv'.preferred.commit
    obtain ⟨ent, at_n⟩ : ∃ ent, σ'.preferred.lm.entries[n - 1]? = some ent := ⟨_, List.getElem?_eq_getElem (by omega)⟩
    refine ⟨ent, args, i, e, inv'.preferred.indexed.getSingleLogEntry_eq_some.mpr ⟨by omega, at_n⟩, recorded, argsTerm,
      leaderId, at_i, place, term.trans (inv'.preferred.term _ ent at_n).symm, by simpa using required⟩

theorem commit_counts_copies_threeServers : ∃ σ σ', Reach noRestart (init (.threeServers 0) .zero) σ ∧
    σ.step (.deliver 5 3) = some σ' ∧ (σ.servers 0).commitIndex = 0 ∧ (σ'.servers 0).commitIndex = 1 ∧
    (σ'.servers 0).agreeingPeers 1 = [1] ∧
    ∃ ent args i e, (σ'.servers 0).lm.getSingleLogEntry 1 = some ent ∧ .accepted 1 args ∈ σ'.history ∧
      args.term = (σ'.servers 0).currentTerm ∧ args.leaderId = 0 ∧ args.entries[i]? = some e ∧
      args.prevLogIndex + 1 + i = 1 ∧ e.term = ent.term ∧ e.chunkInfo.k = (σ'.servers 0).commitRequireK 1 := by
  refine ⟨(exec noRestart (init (.threeServers 0) .zero) firstEntryStored).get (by decide +kernel),
    (((exec noRestart (init (.threeServers 0) .zero) firstEntryStored).get (by decide +kernel)).step
      (.deliver 5 3)).get (by decide +kernel), .of_get _, (Option.some_get _).symm, by decide +kernel, by decide +kernel,
    by decide +kernel, ?_⟩
  exact (commit_counts_copies (.of_get _) rfl (Option.some_get _).symm (by decide +kernel) (by decide +kernel)).2 1
    (by decide +kernel) (by decide +kernel) 1 (by decide +kernel)

end Cluster

end FlexRaft
