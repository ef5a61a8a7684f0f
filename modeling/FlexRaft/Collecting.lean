import FlexRaft.Turns

namespace FlexRaft

namespace RaftState

/-- `f` stands for the same command of the same term as `e`. -/
structure SameCommand (e f : LogEntry) : Prop where
  index : f.index = e.index
  term : f.term = e.term
  type : f.type = e.type
  command : f.commandDataField = e.commandDataField

theorem SameCommand.refl (e : LogEntry) : SameCommand e e := ⟨rfl, rfl, rfl, rfl⟩

theorem SameCommand.trans {e f g : LogEntry} (first : SameCommand e f) (second : SameCommand f g) : SameCommand e g :=
  ⟨second.index.trans first.index, second.term.trans first.term, second.type.trans first.type,
    second.command.trans first.command⟩

/-- The two logs hold the same commands at the same places. -/
structure SameCommands (lm lm' : LogManager) : Prop where
  length : lm'.entries.length = lm.entries.length
  entry : ∀ (j : Nat) f, lm'.entries[j]? = some f → ∃ e, lm.entries[j]? = some e ∧ SameCommand e f

theorem SameCommands.refl (lm : LogManager) : SameCommands lm lm := ⟨rfl, fun _ f at_j => ⟨f, at_j, .refl f⟩⟩

theorem SameCommands.trans {a b c : LogManager} (first : SameCommands a b) (second : SameCommands b c) :
    SameCommands a c := by
  refine ⟨second.length.trans first.length, fun j g at_j => ?_⟩
  obtain ⟨f, at_f, same⟩ := second.entry j g at_j
  obtain ⟨e, at_e, same'⟩ := first.entry j f at_f
  exact ⟨e, at_e, same'.trans same⟩

theorem SameCommands.indexed {lm lm' : LogManager} (same : SameCommands lm lm') (indexed : lm.Indexed) :
    lm'.Indexed := by
  intro j f at_j
  obtain ⟨e, at_e, f_e⟩ := same.entry j f at_j
  exact f_e.index.trans (indexed j e at_e)

/-- The stripe of an index at which server `id` has the full entry `e`. Full entries in the answers of
smaller ids stand for the same command. -/
structure OpenedBy (stripe : Stripe) (id : Nat) (e : LogEntry) : Prop where
  ascending : stripe.collectedFragments.Ascending
  own : (id, e) ∈ stripe.collectedFragments
  full : e.type = .kNormal
  smaller : ∀ p ∈ stripe.collectedFragments, p.1 < id → p.2.type = .kNormal → SameCommand e p.2

/-- `stripes` are those of the indices from `raftIndex` on. -/
def Opened (s : RaftState) (raftIndex : Nat) (stripes : List Stripe) : Prop :=
  ∀ (i : Nat) stripe, stripes[i]? = some stripe →
    ∃ e, s.lm.getSingleLogEntry (raftIndex + i) = some e ∧ OpenedBy stripe s.id e

/-- What a pre-leader has collected belongs to its own entries. -/
def Collecting (s : RaftState) : Prop := s.Opened s.preleaderStripeStore.startIndex s.preleaderStripeStore.stripes

/-- A log of full entries in which a collection finds all it asks for. -/
structure FullLog (s : RaftState) : Prop where
  indexed : s.lm.Indexed
  normal : ∀ (j : Nat) e, s.lm.entries[j]? = some e → e.type = .kNormal
  size : s.getClusterServerNumber ≤ 32

/-- A server that keeps the commands of its log, also if it recovers entries on the way. -/
structure KeepsLog (s s' : RaftState) : Prop where
  lm : SameCommands s.lm s'.lm
  collecting : s'.role = .kPreLeader → s'.Collecting

section Decode

variable {s : RaftState} {e : LogEntry}

theorem OpenedBy.findFullEntryInStripe_spec {stripe : Stripe} {id : Nat} (opened : OpenedBy stripe id e) :
    ∃ f, findFullEntryInStripe stripe = some f ∧ SameCommand e f := by
  obtain ⟨q, found, place⟩ := opened.ascending.find?_le (fun f => decide (f.type = .kNormal)) opened.own
    (by simp [opened.full])
  refine ⟨q.2, by rw [findFullEntryInStripe, found]; rfl, ?_⟩
  rcases place with rfl | less
  · exact .refl e
  · exact opened.smaller q (List.mem_of_find?_eq_some found) less (by simpa using List.find?_some found)

theorem overWriteLogEntry_same {lm : LogManager} (indexed : lm.Indexed) {j : Nat} {f : LogEntry}
    (found : lm.getSingleLogEntry j = some e) (same : SameCommand e f) :
    SameCommands lm (lm.overWriteLogEntry f j) ∧
      ∀ j' ≠ j, (lm.overWriteLogEntry f j).getSingleLogEntry j' = lm.getSingleLogEntry j' := by
  obtain ⟨low, at_j⟩ := indexed.getSingleLogEntry_eq_some.mp found
  obtain ⟨i, rfl⟩ := Nat.exists_eq_add_of_le' low
  have bound := (List.getElem?_eq_some_iff.mp at_j).1
  rw [Nat.add_sub_cancel] at at_j bound
  have entries := indexed.overWriteLogEntry_entries (e := f) bound
  have commands : SameCommands lm (lm.overWriteLogEntry f (i + 1)) := by
    refine ⟨by rw [entries, List.length_set], fun n g at_n => ?_⟩
    rw [entries, List.getElem?_set] at at_n
    split at at_n
    · subst n
      cases at_n
      exact ⟨e, at_j, same⟩
    · exact ⟨g, at_n, .refl g⟩
  refine ⟨commands, fun j' other => ?_⟩
  cases j' with
  | zero => simp
  | succ n =>
    rw [(commands.indexed indexed).getSingleLogEntry_succ, indexed.getSingleLogEntry_succ, entries,
      List.getElem?_set_ne (by omega)]

theorem decodeStripes_of_opened {stripes : List Stripe} {raftIndex : Nat} (indexed : s.lm.Indexed)
    (opened : s.Opened raftIndex stripes) :
    ∃ lm, decodeStripes stripes raftIndex s = { s with lm := lm } ∧ SameCommands s.lm lm := by
  induction stripes generalizing raftIndex s with
  | nil => exact ⟨s.lm, rfl, .refl _⟩
  | cons stripe rest ih =>
    obtain ⟨e, found, by_e⟩ := opened 0 stripe rfl
    rw [Nat.add_zero] at found
    obtain ⟨f, full, same⟩ := by_e.findFullEntryInStripe_spec
    obtain ⟨commands, others⟩ := overWriteLogEntry_same indexed found same
    have later : Opened { s with lm := s.lm.overWriteLogEntry f raftIndex } (raftIndex + 1) rest := fun i t at_i => by
      obtain ⟨e', found', by_e'⟩ := opened (i + 1) t at_i
      refine ⟨e', ?_, by_e'⟩
      rw [show raftIndex + 1 + i = raftIndex + (i + 1) by omega]
      exact (others _ (by omega)).trans found'
    obtain ⟨lm, decoded, kept⟩ := ih (commands.indexed indexed) later
    have nonempty : stripe.collectedFragments ≠ [] := List.ne_nil_of_mem by_e.own
    refine ⟨lm, ?_, commands.trans kept⟩
    simp only [decodeStripes, if_neg nonempty, decodingRaftEntry, full, decoded]

end Decode

section Collect

variable {s : RaftState}

theorem FullLog.found (log : s.FullLog) {j : Nat} (low : 1 ≤ j) (high : j ≤ s.lm.lastLogEntryIndex) :
    ∃ e, s.lm.getSingleLogEntry j = some e ∧ e.type = .kNormal := by
  rw [log.indexed.lastLogEntryIndex_eq] at high
  have bound : j - 1 < s.lm.entries.length := by omega
  exact ⟨_, log.indexed.getSingleLogEntry_eq_some.mpr ⟨low, List.getElem?_eq_getElem bound⟩,
    log.normal _ _ (List.getElem?_eq_getElem bound)⟩

theorem FullLog.addOwnEntries_spec (log : s.FullLog) (n start : Nat) (low : 1 ≤ start)
    (high : n ≤ s.lm.lastLogEntryIndex + 1 - start) :
    ∃ stripes, s.addOwnEntries start (List.replicate n {}) = some stripes ∧ s.Opened start stripes := by
  induction n generalizing start with
  | zero => exact ⟨[], rfl, fun i stripe at_i => by simp at at_i⟩
  | succ n ih =>
    obtain ⟨e, found, full⟩ := log.found low (by omega)
    obtain ⟨stripes, run, opened⟩ := ih (start + 1) (by omega) (by omega)
    rw [List.replicate_succ, addOwnEntries, found]
    refine ⟨_, by simp only [run, Option.map_some]; rfl, fun i stripe at_i => ?_⟩
    cases i with
    | zero =>
      cases at_i
      refine ⟨e, found, List.pairwise_singleton _ _, List.mem_singleton_self _, full, fun p member less => ?_⟩
      rw [List.mem_singleton.mp member] at less
      exact absurd less (Nat.lt_irrefl _)
    | succ i =>
      obtain ⟨e', found', by_e⟩ := opened i stripe at_i
      exact ⟨e', by rwa [show start + (i + 1) = start + 1 + i by omega], by_e⟩

theorem forEach_requestFragments (items : List Nat) (s : RaftState) :
    ∃ out, forEach requestFragments items s = { s with outbox := out } := by
  refine forEach_rel (R := fun s t => ∃ out, t = { s with outbox := out }) (fun s => ⟨s.outbox, rfl⟩) ?_ ?_
  · rintro a b c ⟨_, rfl⟩ ⟨out, rfl⟩
    exact ⟨out, rfl⟩
  · rintro t peer _ _
    unfold requestFragments
    split
    · exact ⟨t.outbox, rfl⟩
    · exact ⟨_, rfl⟩

theorem FullLog.collectFragments_keeps (log : s.FullLog) :
    s.collectFragments.lm = s.lm ∧ s.collectFragments.Collecting := by
  have fits : ¬PreLeaderStripeStore.kResponseCapacity < s.getClusterServerNumber := Nat.not_lt.mpr log.size
  obtain ⟨stripes, run, opened⟩ :=
    log.addOwnEntries_spec (s.lm.lastLogEntryIndex + 1 - (s.commitIndex + 1)) (s.commitIndex + 1) (by omega) le_rfl
  unfold collectFragments
  simp only [PreLeaderStripeStore.initRequestFragmentsTask, if_neg fits, run]
  obtain ⟨out, sent⟩ := forEach_requestFragments s.peers { s with preleaderStripeStore := _ }
  rw [sent]
  exact ⟨rfl, opened⟩

end Collect

section Answers

variable {s : RaftState} {replyId : Nat} {f : LogEntry} {st : PreLeaderStripeStore}

/-- A full entry in the answer of a smaller id stands for the command the asking server has itself. -/
def Corroborates (s : RaftState) (reply : RequestFragmentsReply) : Prop :=
  ∀ f ∈ reply.fragments, f.type = .kNormal → reply.replyId < s.id → ∀ e ∈ s.lm.getSingleLogEntry f.index,
    f.term = e.term ∧ f.commandDataField = e.commandDataField

instance (s : RaftState) (reply : RequestFragmentsReply) : Decidable (s.Corroborates reply) :=
  inferInstanceAs (Decidable (∀ f ∈ reply.fragments, f.type = .kNormal → reply.replyId < s.id →
    ∀ e ∈ s.lm.getSingleLogEntry f.index, f.term = e.term ∧ f.commandDataField = e.commandDataField))

/-- What `s` takes up from the message for its recovery corroborates its log. -/
def AnswerCorroborates (s : RaftState) : Message → Prop
  | .requestFragmentsReply reply => s.role = .kPreLeader → reply.term = s.currentTerm →
      s.preleaderStripeStore.isCollected reply.replyId = false → s.Corroborates reply
  | _ => True

instance (s : RaftState) : (msg : Message) → Decidable (s.AnswerCorroborates msg)
  | .requestFragmentsReply reply => inferInstanceAs (Decidable (s.role = .kPreLeader → reply.term = s.currentTerm →
      s.preleaderStripeStore.isCollected reply.replyId = false → s.Corroborates reply))
  | .requestVote _ | .requestVoteReply _ | .appendEntries _ | .appendEntriesReply _ | .requestFragments _ =>
    isTrue trivial

theorem OpenedBy.insert {stripe : Stripe} {id : Nat} {e : LogEntry} (opened : OpenedBy stripe id e)
    (other : replyId ≠ id) (agrees : replyId < id → f.type = .kNormal → SameCommand e f) :
    OpenedBy { stripe with collectedFragments := stripe.collectedFragments.insertOrAssign replyId f } id e := by
  refine ⟨opened.ascending.insertOrAssign replyId f, OrdMap.mem_insertOrAssign_of_ne opened.own (Ne.symm other),
    opened.full, fun p member less full => ?_⟩
  rcases OrdMap.mem_insertOrAssign member with rfl | old
  · exact agrees less full
  · exact opened.smaller p old less full

theorem Opened.addFragments (indexed : s.lm.Indexed)
    (opened : s.Opened st.startIndex st.stripes) (other : replyId ≠ s.id)
    (agrees : f.type = .kNormal → replyId < s.id → ∀ e ∈ s.lm.getSingleLogEntry f.index,
      f.term = e.term ∧ f.commandDataField = e.commandDataField) :
    s.Opened (st.addFragments f.index f replyId).startIndex (st.addFragments f.index f replyId).stripes := by
  unfold PreLeaderStripeStore.addFragments
  split
  · exact opened
  · rename_i inside
    intro i stripe at_i
    simp only [List.getElem?_modify] at at_i
    obtain ⟨old, at_old, rfl⟩ := Option.map_eq_some_iff.mp at_i
    obtain ⟨e, found, by_e⟩ := opened i old at_old
    refine ⟨e, found, ?_⟩
    split
    · rename_i here
      have place : f.index = st.startIndex + i := by omega
      refine by_e.insert other fun less full => ?_
      obtain ⟨term, command⟩ := agrees full less e (place ▸ found)
      obtain ⟨low, at_e⟩ := indexed.getSingleLogEntry_eq_some.mp found
      have own := indexed _ _ at_e
      exact ⟨by omega, term, full.trans by_e.full.symm, command⟩
    · exact by_e

theorem Opened.addAnswer {raftIndex : Nat} {fragments : List LogEntry} {st' : PreLeaderStripeStore}
    (indexed : s.lm.Indexed) (opened : s.Opened st.startIndex st.stripes) (other : replyId ≠ s.id)
    (agrees : ∀ f ∈ fragments, f.type = .kNormal → replyId < s.id → ∀ e ∈ s.lm.getSingleLogEntry f.index,
      f.term = e.term ∧ f.commandDataField = e.commandDataField)
    (run : RaftState.addAnswer replyId raftIndex fragments st = some st') :
    s.Opened st'.startIndex st'.stripes := by
  induction fragments generalizing raftIndex st with
  | nil =>
    cases run
    exact opened
  | cons f rest ih =>
    unfold RaftState.addAnswer at run
    split at run
    · cases run
    · exact ih (opened.addFragments indexed other (agrees f List.mem_cons_self))
        (fun e member => agrees e (List.mem_cons_of_mem f member)) run

theorem Opened.updateResponseState (opened : s.Opened st.startIndex st.stripes) (id : Nat) :
    s.Opened (st.updateResponseState id).startIndex (st.updateResponseState id).stripes := by
  unfold PreLeaderStripeStore.updateResponseState
  split
  · exact opened
  · exact opened

end Answers

section KeepsLog

variable {s : RaftState} {s' : RaftState}

theorem KeepsLog.of_role (lm : s'.lm = s.lm) (role : s'.role ≠ .kPreLeader) : KeepsLog s s' :=
  ⟨lm ▸ .refl _, fun pre => absurd pre role⟩

theorem FullLog.keeps (log : s.FullLog) (same : SameCommands s.lm s'.lm) (config : s'.config = s.config) :
    s'.FullLog := by
  refine ⟨same.indexed log.indexed, fun j f at_j => ?_, ?_⟩
  · obtain ⟨e, at_e, f_e⟩ := same.entry j f at_j
    exact f_e.type.trans (log.normal j e at_e)
  · rw [getClusterServerNumber, peers, config]
    exact log.size

theorem convertToLeaderInternal_keeps (s : RaftState) :
    s.convertToLeaderInternal.lm = s.lm ∧ s.convertToLeaderInternal.role ≠ .kPreLeader := by
  unfold convertToLeaderInternal
  split
  · exact ⟨rfl, ‹_›⟩
  · have core := (Asking.broadcastHeartbeat
      { s with role := .kLeader, electionRound := 0 }.resetNextIndexAndMatchIndex).core
    refine ⟨field_eq core (·.lm), ?_⟩
    rw [field_eq core (·.role)]
    exact nofun

theorem convertToPreLeader_keeps (log : s.FullLog) : KeepsLog s s.convertToPreLeader := by
  unfold convertToPreLeader
  simp only
  split
  · obtain ⟨lm, role⟩ := convertToLeaderInternal_keeps { s with role := .kPreLeader }
    exact .of_role lm role
  · obtain ⟨lm, collecting⟩ := FullLog.collectFragments_keeps (s := { s with role := .kPreLeader })
      ⟨log.indexed, log.normal, log.size⟩
    exact ⟨by rw [lm]; exact .refl _, fun _ => collecting⟩

theorem preLeaderBecomeLeader_keeps (running : s.stopped = false) (indexed : s.lm.Indexed) (collecting : s.Collecting) :
    KeepsLog s s.preLeaderBecomeLeader := by
  unfold preLeaderBecomeLeader
  split
  · obtain ⟨decodedLog, decoded, same⟩ := decodeStripes_of_opened indexed collecting
    rw [decodeCollectedStripe, decoded]
    unfold andThen
    split
    · rename_i stopped
      cases running.symm.trans stopped
    · obtain ⟨lm, role⟩ := convertToLeaderInternal_keeps { s with lm := decodedLog }
      exact ⟨lm ▸ same, fun pre => absurd pre role⟩
  · exact ⟨.refl _, fun _ => collecting⟩

theorem startElection_keeps (log : s.FullLog) (candidate : s.role = .kCandidate) : KeepsLog s s.startElection := by
  obtain ⟨u, part, role, _, _, won | asked⟩ := startElection_spec candidate
  · have lm : u.lm = s.lm := field_eq part (·.lm)
    rw [won]
    have kept := convertToPreLeader_keeps (log.keeps (lm ▸ .refl _) (field_eq part (·.config)))
    exact ⟨lm ▸ kept.lm, kept.collecting⟩
  · obtain ⟨out, sent, _⟩ := requestVotes_spec u
    rw [asked, sent]
    refine .of_role (field_eq part (·.lm)) ?_
    simp [role]

theorem convertToFollower_keeps {term : Nat} (le : s.currentTerm ≤ term) : KeepsLog s (s.convertToFollower term) := by
  obtain ⟨part, role, _⟩ := convertToFollower_spec le
  exact .of_role (field_eq part (·.lm)) (by simp [role])

theorem tick_keeps (log : s.FullLog) (collecting : s.role = .kPreLeader → s.Collecting) (running : s.stopped = false)
    (timers : Timers) : KeepsLog s (s.tick timers) := by
  have idle : KeepsLog s s := ⟨.refl _, collecting⟩
  unfold tick
  split
  · unfold tickOnFollower
    split
    · exact idle
    · split
      · exact idle
      · have kept := startElection_keeps (s := { s with role := .kCandidate, electionRound := s.electionRound + 1 })
          ⟨log.indexed, log.normal, log.size⟩ rfl
        exact ⟨kept.lm, kept.collecting⟩
  · rename_i candidate
    fun_cases tickOnCandidate
    · exact idle
    · have kept := convertToFollower_keeps (s := s) le_rfl
      exact ⟨kept.lm, kept.collecting⟩
    · exact startElection_keeps log candidate
  · rename_i pre
    have first := preLeaderBecomeLeader_keeps running log.indexed (collecting pre)
    unfold tickOnPreLeader andThen
    split
    · exact first
    · split
      · have log' := log.keeps first.lm (Presides.preLeaderBecomeLeader s).same.config
        obtain ⟨lm, again⟩ := log'.collectFragments_keeps
        exact ⟨by rw [lm]; exact first.lm, fun _ => again⟩
      · exact first
  · rename_i leads
    have core := (Asking.sendAsLeader running timers).core
    refine .of_role (field_eq core (·.lm)) ?_
    rw [field_eq core (·.role), leads]
    exact nofun

theorem processRequestVoteReply_keeps (log : s.FullLog) (collecting : s.role = .kPreLeader → s.Collecting)
    (reply : RequestVoteReply) (now : Nat) : KeepsLog s (s.processRequestVoteReply reply now) := by
  unfold processRequestVoteReply
  simp only
  split
  · exact ⟨.refl _, collecting⟩
  · split
    · rename_i newer
      have kept := convertToFollower_keeps (s := s.updateLiveness reply.replyId now) (Nat.le_of_lt newer)
      exact ⟨kept.lm, kept.collecting⟩
    · split
      · split
        · have kept := convertToPreLeader_keeps (s := (s.updateLiveness reply.replyId now).incrementVoteMeCnt)
            ⟨log.indexed, log.normal, log.size⟩
          exact ⟨kept.lm, kept.collecting⟩
        · exact ⟨.refl _, collecting⟩
      · exact ⟨.refl _, collecting⟩

theorem processAppendEntriesReply_keeps (collecting : s.role = .kPreLeader → s.Collecting)
    (reply : AppendEntriesReply) (now : Nat) : KeepsLog s (s.processAppendEntriesReply reply now) := by
  unfold processAppendEntriesReply
  simp only
  split
  · exact ⟨.refl _, collecting⟩
  · rename_i used
    have leader : s.role = .kLeader := Decidable.not_not.mp fun other => used (Or.inl other)
    have applied : ∀ u : RaftState, u.lm = s.lm → u.role = s.role → KeepsLog s u.tryApplyLogEntries := by
      intro u lm role
      refine .of_role ((field_eq (tryApplyLogEntries_unapplied u) (·.lm)).trans lm) ?_
      rw [field_eq (tryApplyLogEntries_unapplied u) (·.role), role, leader]
      exact nofun
    split
    · rename_i newer
      have kept := convertToFollower_keeps (s := s.updateLiveness reply.replyId now) (Nat.le_of_lt newer)
      exact ⟨kept.lm, kept.collecting⟩
    · split
      · exact ⟨.refl _, collecting⟩
      · split
        · obtain ⟨c, committed, _⟩ :=
            tryUpdateCommitIndex_spec ((s.updateLiveness reply.replyId now).recordReply reply)
          rw [committed]
          exact applied _ rfl rfl
        · split
          · exact applied _ rfl rfl
          · exact applied _ rfl rfl

theorem processRequestFragmentsReply_keeps (log : s.FullLog) (collecting : s.role = .kPreLeader → s.Collecting)
    (running : s.stopped = false) (reply : RequestFragmentsReply) (now : Nat) (other : reply.replyId ≠ s.id)
    (agrees : s.AnswerCorroborates (.requestFragmentsReply reply)) :
    KeepsLog s (s.processRequestFragmentsReply reply now) := by
  unfold processRequestFragmentsReply
  simp only
  split
  · exact ⟨.refl _, collecting⟩
  · rename_i used
    have pre : s.role = .kPreLeader := Decidable.not_not.mp fun no => used (Or.inl no)
    split
    · rename_i newer
      have kept := convertToFollower_keeps (s := s.updateLiveness reply.replyId now) (Nat.le_of_lt newer)
      exact ⟨kept.lm, kept.collecting⟩
    · rename_i notNewer
      have current : reply.term = s.currentTerm :=
        le_antisymm (Nat.le_of_not_lt notNewer) (Nat.le_of_not_lt fun older => used (Or.inr older))
      split
      · exact ⟨.refl _, collecting⟩
      · rename_i first
        split
        · exact ⟨.refl _, collecting⟩
        · rename_i store added
          have opened : s.Opened (store.updateResponseState reply.replyId).startIndex
              (store.updateResponseState reply.replyId).stripes :=
            (Opened.addAnswer log.indexed (collecting pre) other
              (agrees pre current (Bool.eq_false_iff.mpr first)) added).updateResponseState _
          have kept := preLeaderBecomeLeader_keeps
            (s := { s.updateLiveness reply.replyId now with
              preleaderStripeStore := store.updateResponseState reply.replyId }) running log.indexed opened
          exact ⟨kept.lm, kept.collecting⟩

theorem process_keeps (log : s.FullLog) (collecting : s.role = .kPreLeader → s.Collecting) (running : s.stopped = false)
    {q : Packet} (now : Nat) (answers : ¬q.msg.isRequest)
    (other : ∀ reply, q.msg = .requestFragmentsReply reply → reply.replyId ≠ s.id)
    (agrees : s.AnswerCorroborates q.msg) : KeepsLog s (s.process q.src q.msg now) := by
  cases msg : q.msg with
  | requestVote | appendEntries | requestFragments => simp [msg, Message.isRequest] at answers
  | requestVoteReply reply => exact processRequestVoteReply_keeps log collecting reply now
  | appendEntriesReply reply => exact processAppendEntriesReply_keeps collecting reply now
  | requestFragmentsReply reply =>
    exact processRequestFragmentsReply_keeps log collecting running reply now (other reply msg) (msg ▸ agrees)

end KeepsLog

end RaftState

end FlexRaft
