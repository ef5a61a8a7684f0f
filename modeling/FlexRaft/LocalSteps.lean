import FlexRaft.SingleLeader

namespace FlexRaft

namespace Cluster

/-- The one server whose priority rank lets it stand for election. -/
def preferred (σ : Cluster) : RaftState := σ.servers σ.config.groupId

open RaftState

/-- A step of server `i` that concerns elections or nothing at all. -/
structure Quiet (σ : Cluster) (i : Nat) (s : RaftState) : Prop where
  logPart : s.logPart = (σ.servers i).logPart
  follower : i ≠ σ.config.groupId → s.role = .kFollower ∧ s.electionRound = 0 ∧
    s.currentTerm ≤ σ.preferred.currentTerm ∧ ∀ p ∈ s.outbox, σ.preferred.PacketOk p
  preferred : i = σ.config.groupId → s.role ≠ .kPreLeader ∧ (s.role = .kLeader ↔ σ.preferred.role = .kLeader) ∧
    σ.preferred.currentTerm ≤ s.currentTerm ∧
    (s.role = .kLeader → s.currentTerm = σ.preferred.currentTerm) ∧ ∀ p ∈ s.outbox, s.PacketOk p
  noAck : ∀ p ∈ s.outbox, ∀ reply, p.msg = .appendEntriesReply reply → reply.success = false

/-- What server `i` can do in one atomic step, `taken` being the message it has received if any, and what
the history then records. -/
inductive Local (σ : Cluster) (taken : Option Packet) : Nat → RaftState → List Event → Prop
  | quiet {i : Nat} {s : RaftState} (quiet : σ.Quiet i s) : Local σ taken i s []
  | elected {u : RaftState} (before : σ.preferred.role ≠ .kLeader) (log : u.logPart = σ.preferred.logPart)
      (term : σ.preferred.currentTerm ≤ u.currentTerm) (outbox : u.outbox = []) :
      Local σ taken σ.config.groupId u.asLeader.broadcastHeartbeat [.becameLeader σ.config.groupId u.currentTerm]
  | sending {s : RaftState} (leads : σ.preferred.role = .kLeader) (step : LeaderStep σ.preferred s) :
      Local σ taken σ.config.groupId s []
  | proposing {command : CommandData} {e : LogEntry} (leads : σ.preferred.role = .kLeader)
      (entry : ProposedEntry σ.preferred command e) :
      Local σ taken σ.config.groupId { σ.preferred with lm := σ.preferred.lm.appendLogEntry e }
        [.proposed σ.config.groupId (σ.preferred.lm.lastLogEntryIndex + 1) σ.preferred.currentTerm command]
  | accepting {p : Packet} {args : AppendEntriesArgs} {t : RaftState} {infos : List ChunkInfo}
      (other : p.dst ≠ σ.config.groupId) (received : taken = some p) (onWire : p ∈ σ.net)
      (msg : p.msg = .appendEntries args) (accepted : Accepted (σ.servers p.dst) args t infos) :
      Local σ taken p.dst (t.tryApplyLogEntries.send p.src (.appendEntriesReply (t.acceptReply args infos)))
        [.accepted p.dst args]
  | acked {p : Packet} {reply : AppendEntriesReply} {now : Nat} (leads : σ.preferred.role = .kLeader)
      (received : taken = some p) (onWire : p ∈ σ.net) (msg : p.msg = .appendEntriesReply reply)
      (success : reply.success = true) (term : reply.term = σ.preferred.currentTerm)
      (peer : reply.replyId ∈ σ.preferred.peers) :
      Local σ taken σ.config.groupId
        ((σ.preferred.updateLiveness reply.replyId now).recordReply reply).tryUpdateCommitIndex.tryApplyLogEntries []
  | nacked {reply : AppendEntriesReply} {now : Nat} {u : RaftState} (leads : σ.preferred.role = .kLeader)
      (noted : u = σ.preferred.updateLiveness reply.replyId now ∨ reply.expectIndex ≠ 0 ∧
        u = (σ.preferred.updateLiveness reply.replyId now).updatePeer reply.replyId
          fun p => { p with nextIndex := reply.expectIndex }) :
      Local σ taken σ.config.groupId u.tryApplyLogEntries []

/-- Server `i` has run a handler that ended in `s`; the wire kept `net` and the calls in progress are
`pending`. -/
def after (σ : Cluster) (i : Nat) (s : RaftState) (net : List Packet) (pending : List PendingPropose)
    (events : List Event) : Cluster :=
  { config := σ.config
    servers := fun j => if j = i then s.flush else σ.servers j
    net := net ++ s.outbox
    pending := pending
    history := σ.history ++ events }

/-- What holds in every state of a run without restarts. -/
structure Inv (σ : Cluster) : Prop where
  config : ∀ i, (σ.servers i).config = σ.config.serverConfig i
  outbox : ∀ i, (σ.servers i).outbox = []
  preferred : σ.preferred.PreferredOk
  followers : ∀ i, i ≠ σ.config.groupId → FollowerOk σ.preferred i (σ.servers i)
  packets : ∀ p ∈ σ.net, σ.preferred.PacketOk p
  pending : ∀ call ∈ σ.pending, call.server = σ.config.groupId ∧ σ.preferred.role = .kLeader
  member : σ.preferred.role = .kLeader → σ.config.groupId < σ.config.size

/-- What a step of server `i` that ends in `s` must keep. -/
structure Keeps (σ : Cluster) (i : Nat) (s : RaftState) : Prop where
  config : s.config = (σ.servers i).config
  preferred : i = σ.config.groupId → Evolves σ.preferred s ∧ s.PreferredOk ∧ ∀ p ∈ s.outbox, s.PacketOk p
  follower : i ≠ σ.config.groupId → FollowerOk σ.preferred i s ∧ ∀ p ∈ s.outbox, σ.preferred.PacketOk p
  noAck : i = σ.config.groupId → ∀ p ∈ s.outbox, ∀ reply, p.msg = .appendEntriesReply reply → reply.success = false

section Keeps

variable {σ : Cluster} {i now : Nat} {s u : RaftState} {args : AppendEntriesArgs} {reply : AppendEntriesReply}

theorem members_of_config {c : ClusterConfig} {p : Nat} (config : s.config = c.serverConfig i)
    (member : p ∈ s.peers) : p < s.getClusterServerNumber ∧ p < 32 ∧ p ≠ i := by
  unfold getClusterServerNumber RaftState.peers at *
  rw [config] at member ⊢
  obtain ⟨bound, apart⟩ := ClusterConfig.mem_serverConfig_peers.mp member
  have limit := c.size_le
  refine ⟨?_, by omega, apart⟩
  rw [ClusterConfig.serverConfig_peers_length]
  split <;> omega

theorem Quiet.keeps (inv : σ.Inv) (quiet : σ.Quiet i s) : σ.Keeps i s := by
  have config : s.config = (σ.servers i).config := field_eq quiet.logPart (·.config)
  have lm : s.lm = (σ.servers i).lm := field_eq quiet.logPart (·.lm)
  have commit : s.commitIndex = (σ.servers i).commitIndex := field_eq quiet.logPart (·.commitIndex)
  have stripes : s.encodedStripe = (σ.servers i).encodedStripe :=
    field_eq quiet.logPart (·.encodedStripe)
  have encodings : s.lastEncoding = (σ.servers i).lastEncoding :=
    field_eq quiet.logPart (·.lastEncoding)
  have peers : s.raftPeer = (σ.servers i).raftPeer := field_eq quiet.logPart (·.raftPeer)
  refine ⟨config, fun same => ?_, fun other => ?_, fun _ => quiet.noAck⟩
  · subst same
    obtain ⟨role, leads, term, sameTerm, out⟩ := quiet.preferred rfl
    have ok := inv.preferred
    refine ⟨⟨config, term, commit.ge, fun leader => ⟨leads.mpr leader, ?_⟩⟩, ?_, out⟩
    · exact .transfer config (sameTerm (leads.mpr leader)) commit.ge lm encodings
    · refine ⟨role, lm ▸ ok.indexed, fun notLeader => ?_, fun leader => ?_, fun j e at_j => ?_,
        fun j e at_j => ?_, ?_⟩
      · obtain ⟨empty, zero, noStripe, noEncoding, noMatch⟩ := ok.fresh fun leader => notLeader (leads.mpr leader)
        exact ⟨lm ▸ empty, commit ▸ zero, stripes ▸ noStripe, encodings ▸ noEncoding, peers ▸ noMatch⟩
      · have leaderOk := ok.leader (leads.mp leader)
        exact leaderOk.transfer config lm stripes encodings fun p member => peers ▸ leaderOk.nextIndex p member
      · by_cases leader : s.role = .kLeader
        · rw [sameTerm leader]
          exact ok.term j e (lm ▸ at_j)
        · rw [lm, show (σ.servers σ.config.groupId).lm.entries = [] from
            (ok.fresh fun before => leader (leads.mpr before)).1] at at_j
          simp at at_j
      · rw [config]
        exact ok.chunk j e (lm ▸ at_j)
      · rw [commit, lm]
        exact ok.commit
  · obtain ⟨role, round, term, out⟩ := quiet.follower other
    have ok := inv.followers i other
    exact ⟨⟨role, round, term, lm ▸ ok.copies, commit ▸ ok.commit, by rw [commit, lm]; exact ok.commitLog⟩, out⟩

theorem keeps_elected (inv : σ.Inv) (before : σ.preferred.role ≠ .kLeader)
    (log : u.logPart = σ.preferred.logPart) (term : σ.preferred.currentTerm ≤ u.currentTerm) (outbox : u.outbox = []) :
    σ.Keeps σ.config.groupId u.asLeader.broadcastHeartbeat := by
  have config : u.config = σ.preferred.config := field_eq log (·.config)
  have lm : u.lm = σ.preferred.lm := field_eq log (·.lm)
  have commit : u.commitIndex = σ.preferred.commitIndex := field_eq log (·.commitIndex)
  have stripes : u.encodedStripe = σ.preferred.encodedStripe := field_eq log (·.encodedStripe)
  have encodings : u.lastEncoding = σ.preferred.lastEncoding := field_eq log (·.lastEncoding)
  obtain ⟨empty, zero, noStripe, noEncoding, _⟩ := inv.preferred.fresh before
  have members := fun p => members_of_config (p := p) (config.trans (inv.config σ.config.groupId))
  have ok : u.asLeader.LeaderOk := by
    refine ⟨fun p member => (members p member).1, fun j e found => ?_, fun p member => ?_, fun _ j stripe cached => ?_,
      fun _ j k recorded => ?_, fun p member => ?_⟩
    · have at_j := ((lm ▸ inv.preferred.indexed : u.lm.Indexed).getSingleLogEntry_eq_some.mp found).2
      simp [lm, empty] at at_j
    · rw [asLeader_nextIndex (s := u) member (members p member).2.1]
      exact Nat.succ_le_succ (Nat.zero_le _)
    · simp [asLeader, resetNextIndexAndMatchIndex, stripes, noStripe] at cached
    · simp [asLeader, resetNextIndexAndMatchIndex, encodings, noEncoding] at recorded
    · simp [asLeader, resetNextIndexAndMatchIndex, outbox] at member
  have step := LeaderStep.broadcastHeartbeat u.asLeader
  have after := step.ok ok
  have leads : u.asLeader.broadcastHeartbeat.role = .kLeader := field_eq step.core (·.role)
  have lm' : u.asLeader.broadcastHeartbeat.lm = σ.preferred.lm := (field_eq step.core (·.lm)).trans lm
  have config' : u.asLeader.broadcastHeartbeat.config = σ.preferred.config :=
    (field_eq step.core (·.config)).trans config
  have term' : u.asLeader.broadcastHeartbeat.currentTerm = u.currentTerm :=
    field_eq step.core (·.currentTerm)
  have commit' : u.asLeader.broadcastHeartbeat.commitIndex = 0 :=
    ((field_eq step.core (·.commitIndex)).trans commit).trans zero
  refine ⟨config', fun _ => ⟨⟨config', term'.symm ▸ term, zero ▸ Nat.zero_le _, fun leader => absurd leader before⟩,
    ?_, fun p member => ?_⟩, fun other => absurd rfl other, fun _ => after.noAck⟩
  · refine ⟨by simp [leads], lm' ▸ inv.preferred.indexed, fun other => absurd leads other, fun _ => after.flush,
      fun j e at_j => ?_, fun j e at_j => ?_, commit' ▸ Nat.zero_le _⟩
    · simp [lm', empty] at at_j
    · simp [lm', empty] at at_j
  · have sent := after.sent p member
    obtain ⟨_, _, args, msg, _⟩ := id sent
    unfold PacketOk
    rw [msg]
    exact ⟨leads, sent⟩

theorem Inv.leaderOk (inv : σ.Inv) (leads : σ.preferred.role = .kLeader) : σ.preferred.LeaderOk := by
  have ok := inv.preferred.leader leads
  rwa [flush_eq (s := σ.preferred) (inv.outbox σ.config.groupId)] at ok

theorem keeps_sending (inv : σ.Inv) (leads : σ.preferred.role = .kLeader)
    (step : LeaderStep σ.preferred s) : σ.Keeps σ.config.groupId s := by
  have ok := inv.leaderOk leads
  have after := step.ok ok
  have config : s.config = σ.preferred.config := field_eq step.core (·.config)
  have term : s.currentTerm = σ.preferred.currentTerm := field_eq step.core (·.currentTerm)
  have role : s.role = .kLeader := (field_eq step.core (·.role)).trans leads
  refine ⟨config, fun _ => ⟨⟨config, term.ge, step.commitIndex_eq.ge, fun _ => ⟨role, step.grows ok⟩⟩, ?_,
    fun p member => ?_⟩, fun other => absurd rfl other, fun _ => after.noAck⟩
  · exact inv.preferred.of_leader role config (field_eq step.core (·.lm)) term after.flush
      (step.commitIndex_eq ▸ inv.preferred.commit)
  · have sent := after.sent p member
    obtain ⟨_, _, args, msg, _⟩ := id sent
    unfold PacketOk
    rw [msg]
    exact ⟨role, sent⟩

theorem keeps_proposing {command : CommandData} {e : LogEntry} (inv : σ.Inv) (leads : σ.preferred.role = .kLeader)
    (entry : ProposedEntry σ.preferred command e) :
    σ.Keeps σ.config.groupId { σ.preferred with lm := σ.preferred.lm.appendLogEntry e } := by
  have ok := inv.preferred
  have last := ok.indexed.lastLogEntryIndex_eq
  have place : e.index = σ.preferred.lm.entries.length + 1 := by rw [entry.index, last]
  have indexed := ok.indexed.appendLogEntry place
  have kept : ∀ j f, σ.preferred.lm.getSingleLogEntry j = some f →
      (σ.preferred.lm.appendLogEntry e).getSingleLogEntry j = some f := by
    intro j f found
    obtain ⟨low, at_j⟩ := ok.indexed.getSingleLogEntry_eq_some.mp found
    exact indexed.getSingleLogEntry_eq_some.mpr ⟨low, by
      rw [LogManager.appendLogEntry, List.getElem?_append_left (List.getElem?_eq_some_iff.mp at_j).1, at_j]⟩
  have grows : Grows σ.preferred { σ.preferred with lm := σ.preferred.lm.appendLogEntry e } :=
    ⟨rfl, rfl, le_rfl, kept, EncodingLe.refl _⟩
  have none : σ.preferred.outbox = [] := inv.outbox σ.config.groupId
  refine ⟨rfl, fun _ => ⟨⟨rfl, le_rfl, le_rfl, fun _ => ⟨leads, grows⟩⟩, ?_, fun p member => ?_⟩,
    fun other => absurd rfl other, by simp [none]⟩
  · refine ⟨ok.role, indexed, fun other => absurd leads other, fun _ => ?_, fun j f at_j => ?_, fun j f at_j => ?_,
      ok.commit.trans (by simp [LogManager.appendLogEntry])⟩
    · have leader := ok.leader leads
      refine ⟨leader.members, fun j f found => ?_, leader.nextIndex, fun mode j stripe cached => ?_, leader.recorded,
        by simp [RaftState.flush]⟩
      · obtain ⟨low, at_j⟩ := indexed.getSingleLogEntry_eq_some.mp found
        rcases LogManager.appendLogEntry_getElem? at_j with old | ⟨rfl, _⟩
        · exact leader.normal j f (ok.indexed.getSingleLogEntry_eq_some.mpr ⟨low, old⟩)
        · exact entry.type
      · obtain ⟨k, recorded, encoded⟩ := leader.cached mode j stripe cached
        exact ⟨k, recorded, encodeRaftEntry_mono (s := σ.preferred.flush) rfl (kept j) encoded⟩
    · rcases LogManager.appendLogEntry_getElem? at_j with old | ⟨rfl, _⟩
      · exact ok.term j f old
      · exact entry.term
    · rcases LogManager.appendLogEntry_getElem? at_j with old | ⟨rfl, rfl⟩
      · exact ok.chunk j f old
      · have info := entry.chunkInfo
        rw [last] at info
        exact info
  · simp [none] at member

theorem followedCommit_le {commit last bound : Nat} (old : commit ≤ bound)
    (leader : args.leaderCommit ≤ bound) : args.followedCommit commit last ≤ bound := by
  unfold AppendEntriesArgs.followedCommit
  split
  · simp only
    omega
  · exact old

theorem followedCommit_le_last {commit last : Nat} (old : commit ≤ last) : args.followedCommit commit last ≤ last := by
  unfold AppendEntriesArgs.followedCommit
  split
  · exact min_le_right _ _
  · exact old

theorem keeps_accepting {p : Packet} {t : RaftState} {infos : List ChunkInfo} (inv : σ.Inv)
    (other : p.dst ≠ σ.config.groupId) (onWire : p ∈ σ.net) (msg : p.msg = .appendEntries args)
    (accepted : Accepted (σ.servers p.dst) args t infos) :
    σ.Keeps p.dst (t.tryApplyLogEntries.send p.src (.appendEntriesReply (t.acceptReply args infos))) := by
  have packet := inv.packets p onWire
  unfold PacketOk at packet
  rw [msg] at packet
  obtain ⟨leads, src, member, args', msg', argsTerm, leaderId, leaderCommit, count, copies⟩ := packet
  cases msg.symm.trans msg'
  have ok := inv.followers p.dst other
  have rest := tryApplyLogEntries_unapplied t
  have lm : t.tryApplyLogEntries.lm = t.lm := field_eq rest (·.lm)
  have commit : t.tryApplyLogEntries.commitIndex =
      args.followedCommit (σ.servers p.dst).commitIndex t.lm.lastLogEntryIndex :=
    (field_eq rest (·.commitIndex)).trans
      (field_eq accepted.state (·.commitIndex))
  have term : t.currentTerm = σ.preferred.currentTerm := accepted.term.trans argsTerm
  refine ⟨?_, fun same => absurd same other, fun _ => ⟨⟨?_, ?_, ?_, fun j e at_j => ?_, ?_, ?_⟩, fun q sent => ?_⟩,
    fun same => absurd same other⟩
  · exact (field_eq rest (·.config)).trans (field_eq accepted.state (·.config))
  · exact (field_eq rest (·.role)).trans accepted.role
  · exact (field_eq rest (·.electionRound)).trans accepted.round
  · exact ((field_eq rest (·.currentTerm)).trans term).le
  · change t.tryApplyLogEntries.lm.entries[j]? = some e at at_j
    rw [lm] at at_j
    rcases accepted.merged.entry_cases at_j with old | ⟨i, rfl, at_i⟩
    · exact ok.copies j e old
    · rw [show args.prevLogIndex + i + 1 = args.prevLogIndex + 1 + i by omega]
      exact copies i e at_i
  · exact commit ▸ followedCommit_le ok.commit leaderCommit
  · change t.tryApplyLogEntries.commitIndex ≤ t.tryApplyLogEntries.lm.entries.length
    rw [commit, lm, accepted.merged.indexed.lastLogEntryIndex_eq]
    exact followedCommit_le_last (ok.commitLog.trans accepted.merged.length_le)
  · have none : t.tryApplyLogEntries.outbox = [] :=
      ((field_eq rest (·.outbox)).trans accepted.outbox).trans (inv.outbox p.dst)
    simp only [send, none, List.nil_append, List.mem_singleton] at sent
    subst sent
    exact ⟨leads, src, term.le⟩

theorem keeps_of_leader (inv : σ.Inv) (leads : σ.preferred.role = .kLeader)
    (config : s.config = σ.preferred.config) (role : s.role = σ.preferred.role)
    (term : s.currentTerm = σ.preferred.currentTerm) (lm : s.lm = σ.preferred.lm)
    (stripes : s.encodedStripe = σ.preferred.encodedStripe) (encodings : s.lastEncoding = σ.preferred.lastEncoding)
    (next : ∀ p ∈ σ.preferred.peers, 1 ≤ (s.raftPeer p).nextIndex) (low : σ.preferred.commitIndex ≤ s.commitIndex)
    (high : s.commitIndex ≤ σ.preferred.lm.entries.length) (outbox : s.outbox = []) :
    σ.Keeps σ.config.groupId s := by
  refine ⟨config, fun _ => ⟨⟨config, term.ge, low, fun _ => ⟨role.trans leads, ?_⟩⟩, ?_, by simp [outbox]⟩,
    fun other => absurd rfl other, by simp [outbox]⟩
  · exact .transfer config term low lm encodings
  · exact inv.preferred.of_leader (role.trans leads) config lm term
      ((inv.leaderOk leads).transfer config lm stripes encodings next) high

theorem recordChunkInfo_nextIndex (p : RaftPeer) (infos : List ChunkInfo) :
    (infos.foldl RaftPeer.recordChunkInfo p).nextIndex = p.nextIndex := by
  induction infos generalizing p with
  | nil => rfl
  | cons ci rest ih =>
    rw [List.foldl_cons, ih]
    unfold RaftPeer.recordChunkInfo
    split <;> rfl

theorem keeps_acked (inv : σ.Inv) (leads : σ.preferred.role = .kLeader) : σ.Keeps σ.config.groupId
      ((σ.preferred.updateLiveness reply.replyId now).recordReply reply).tryUpdateCommitIndex.tryApplyLogEntries := by
  obtain ⟨c, committed, low, outcome⟩ :=
    tryUpdateCommitIndex_spec ((σ.preferred.updateLiveness reply.replyId now).recordReply reply)
  rw [committed]
  have rest := tryApplyLogEntries_unapplied
    { (σ.preferred.updateLiveness reply.replyId now).recordReply reply with commitIndex := c }
  have commit := field_eq rest (·.commitIndex)
  have peers := field_eq rest (·.raftPeer)
  refine keeps_of_leader inv leads (field_eq rest (·.config))
    (field_eq rest (·.role)) (field_eq rest (·.currentTerm))
    (field_eq rest (·.lm)) (field_eq rest (·.encodedStripe))
    (field_eq rest (·.lastEncoding)) (fun p member => ?_) ?_ ?_ ?_
  · have next := (inv.leaderOk leads).nextIndex p member
    rw [peers]
    simp only [recordReply, updatePeer]
    split
    · rw [recordChunkInfo_nextIndex]
      exact next.trans (le_max_left _ _)
    · exact next
  · rw [commit]
    exact low
  · rw [commit]
    rcases outcome with same | ⟨last, _⟩
    · exact same ▸ inv.preferred.commit
    · exact last.trans inv.preferred.indexed.lastLogEntryIndex_eq.le
  · exact (field_eq rest (·.outbox)).trans (inv.outbox σ.config.groupId)

theorem keeps_nacked (inv : σ.Inv) (leads : σ.preferred.role = .kLeader)
    (noted : u = σ.preferred.updateLiveness reply.replyId now ∨ reply.expectIndex ≠ 0 ∧
      u = (σ.preferred.updateLiveness reply.replyId now).updatePeer reply.replyId
        fun p => { p with nextIndex := reply.expectIndex }) :
    σ.Keeps σ.config.groupId u.tryApplyLogEntries := by
  have rest := tryApplyLogEntries_unapplied u
  have next : ∀ p ∈ σ.preferred.peers, 1 ≤ (u.raftPeer p).nextIndex := by
    intro p member
    have before := (inv.leaderOk leads).nextIndex p member
    rcases noted with rfl | ⟨expect, rfl⟩
    · exact before
    · simp only [updatePeer]
      split
      · exact Nat.one_le_iff_ne_zero.mpr expect
      · exact before
  have same : u.unapplied = { σ.preferred with liveMonitor := u.liveMonitor, raftPeer := u.raftPeer }.unapplied := by
    rcases noted with rfl | ⟨_, rfl⟩ <;> rfl
  have commit := field_eq (rest.trans same) (·.commitIndex)
  have all := rest.trans same
  refine keeps_of_leader inv leads (field_eq all (·.config))
    (field_eq all (·.role)) (field_eq all (·.currentTerm))
    (field_eq all (·.lm)) (field_eq all (·.encodedStripe))
    (field_eq all (·.lastEncoding)) (fun p member => ?_) ?_ ?_ ?_
  · rw [field_eq rest (·.raftPeer)]
    exact next p member
  · exact commit.ge
  · exact commit ▸ inv.preferred.commit
  · exact (field_eq all (·.outbox)).trans (inv.outbox σ.config.groupId)

theorem Local.keeps {taken : Option Packet} {events : List Event} (inv : σ.Inv)
    (step : Local σ taken i s events) : σ.Keeps i s := by
  cases step with
  | quiet quiet => exact quiet.keeps inv
  | elected before log term outbox => exact keeps_elected inv before log term outbox
  | sending leads step => exact keeps_sending inv leads step
  | proposing leads entry => exact keeps_proposing inv leads entry
  | accepting other _ onWire msg accepted => exact keeps_accepting inv other onWire msg accepted
  | acked leads => exact keeps_acked inv leads
  | nacked leads noted => exact keeps_nacked inv leads noted

end Keeps

end Cluster

end FlexRaft
