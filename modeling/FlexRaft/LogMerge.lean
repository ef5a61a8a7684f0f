import FlexRaft.Handlers
import FlexRaft.Cluster

namespace FlexRaft

section Again

variable {prev : Nat}

theorem keptEntry_again (old entry : LogEntry) :
    keptEntry (some (keptEntry (some old) entry)) entry = keptEntry (some old) entry := by
  by_cases smaller : needOverwriteLogEntry old.chunkInfo entry.chunkInfo = true <;> simp [keptEntry, smaller]

theorem laidOver_self (sent : List LogEntry) : laidOver sent sent = sent := by
  induction sent with
  | nil => rfl
  | cons entry sent ih =>
    rw [laidOver, if_pos rfl, ih]
    simp [keptEntry]

theorem laidOver_again (stored sent : List LogEntry) : laidOver (laidOver stored sent) sent = laidOver stored sent := by
  induction sent generalizing stored with
  | nil => exact laidOver_nil_right _
  | cons entry sent ih =>
    cases stored with
    | nil => exact laidOver_self (entry :: sent)
    | cons old stored =>
      rw [laidOver]
      split
      · rename_i same
        have term : entry.term = (keptEntry (some old) entry).term := by
          rcases keptEntry_eq_or (rfl : keptEntry (some old) entry = _) with new | kept
          · rw [new]
          · rw [← Option.some.inj kept, same]
        rw [laidOver, if_pos term, keptEntry_again, ih]
      · exact laidOver_self (entry :: sent)

theorem LogManager.mergeAfter_drop {lm : LogManager} (entries : List LogEntry) (reaches : prev ≤ lm.entries.length) :
    (lm.mergeAfter prev entries).entries.drop prev = laidOver (lm.entries.drop prev) entries :=
  List.drop_left' (List.length_take_of_le reaches)

theorem LogManager.mergeAfter_again {lm : LogManager} (entries : List LogEntry) (reaches : prev ≤ lm.entries.length) :
    (lm.mergeAfter prev entries).mergeAfter prev entries = lm.mergeAfter prev entries := by
  have below : (lm.mergeAfter prev entries).entries.take prev = lm.entries.take prev :=
    List.take_left' (List.length_take_of_le reaches)
  rw [mergeAfter, below, mergeAfter_drop entries reaches, laidOver_again]
  rfl

/-- A commit index that was taken over from a request is not changed by it any more. -/
theorem AppendEntriesArgs.followedCommit_again (args : AppendEntriesArgs) (commitIndex lastIndex : Nat) :
    args.followedCommit (args.followedCommit commitIndex lastIndex) lastIndex = args.followedCommit commitIndex lastIndex := by
  unfold followedCommit
  grind

end Again

namespace RaftState

section Again

variable {s t : RaftState} {args : AppendEntriesArgs}

/-- There is nothing to apply, or the loop stops at the next index. -/
def AppliedAll (s : RaftState) : Prop := s.commitIndex ≤ s.lastApplied ∨ s.applyNext = none

theorem appliedAll_applyTimes (n : Nat) (enough : s.commitIndex ≤ s.lastApplied + n) : (applyTimes n s).AppliedAll := by
  induction n generalizing s with
  | zero => exact Or.inl enough
  | succ n ih =>
    unfold applyTimes
    split
    · exact Or.inr (by assumption)
    · rename_i next
      obtain ⟨same, applied⟩ := applyNext_spec next
      have commit := field_eq same (·.commitIndex)
      exact ih (by omega)

theorem appliedAll_tryApplyLogEntries (s : RaftState) : s.tryApplyLogEntries.AppliedAll := appliedAll_applyTimes _ (by omega)

theorem AppliedAll.tryApplyLogEntries_eq (all : s.AppliedAll) : s.tryApplyLogEntries = s := by
  unfold tryApplyLogEntries
  cases rounds : s.commitIndex - s.lastApplied with
  | zero => rfl
  | succ n =>
    unfold applyTimes
    rw [all.resolve_left (by omega)]

theorem applyNext_eq_none_iff : s.applyNext = none ↔
    ¬ (!s.config.hasRsm && !s.config.hasBridge) ∧ s.lm.getSingleLogEntry (s.lastApplied + 1) = none := by
  unfold applyNext
  split <;> simp [*]

theorem AppliedAll.hearLeader (all : s.AppliedAll) (leaderId now : Nat) : (s.hearLeader leaderId now).AppliedAll := by
  unfold AppliedAll at all ⊢
  rw [applyNext_eq_none_iff] at all ⊢
  exact all

theorem stepDownFor_settles {term : Nat} (current : s.currentTerm ≤ term) :
    (s.stepDownFor term).currentTerm = term ∧ (s.stepDownFor term).role ≠ .kCandidate := by
  refine ⟨(stepDownFor_spec current).2.2.1, ?_⟩
  unfold stepDownFor
  split
  · rw [(convertToFollower_spec current).2.1]
    decide
  · rename_i stays
    exact fun candidate => stays (Or.inr candidate)

theorem stepDownFor_eq_self {term : Nat} (same : s.currentTerm = term) (role : s.role ≠ .kCandidate) : s.stepDownFor term = s :=
  if_neg fun steps => steps.elim (fun newer => by omega) role

/-- What a request does to term, role, vote, log, commit index and applied index, and its answer. -/
def outcome (result : RaftState × Option AppendEntriesReply) :
    Nat × RaftRole × Nat × LogManager × Nat × Nat × Option AppendEntriesReply :=
  (result.1.currentTerm, result.1.role, result.1.voteFor, result.1.lm, result.1.commitIndex, result.1.lastApplied, result.2)

theorem containEntry_mergeAfter (indexed : s.lm.Indexed) (entries : List LogEntry) {index term k : Nat}
    (reaches : index ≤ s.lm.entries.length) (merged : t.lm = s.lm.mergeAfter index entries)
    (places : ∀ n entry, entries[n]? = some entry → entry.index = index + 1 + n) :
    t.containEntry index term k = s.containEntry index term k := by
  unfold containEntry
  rw [merged]
  cases index with
  | zero => rfl
  | succ j =>
    rw [(indexed.mergeAfter reaches places).getSingleLogEntry_succ, indexed.getSingleLogEntry_succ,
      LogManager.mergeAfter_below (Nat.lt_succ_self j) reaches]
    rfl

section Answers

variable {u : RaftState} {now : Nat} (current : ¬ args.term < s.currentTerm)
  (steps : (s.hearLeader args.leaderId now).stepDownFor args.term = u)
include current steps

theorem processAppendEntries_missing (missing : u.containEntry args.prevLogIndex args.prevLogTerm args.prevK = false) :
    s.processAppendEntries args now = (u, some (u.refuseReply (min (u.lm.lastLogEntryIndex + 1) args.prevLogIndex))) := by
  subst steps
  exact (if_neg current).trans (if_pos (by rw [missing]; rfl))

variable (contains : u.containEntry args.prevLogIndex args.prevLogTerm args.prevK = true)
include contains

theorem processAppendEntries_miscounted (miscounted : args.entryCnt ≠ args.entries.length) :
    s.processAppendEntries args now = (u.stop, none) := by
  subst steps
  exact (if_neg current).trans ((if_neg (by rw [contains]; decide)).trans (if_pos miscounted))

theorem processAppendEntries_merged (counted : args.entryCnt = args.entries.length) {lm : LogManager} {infos : List ChunkInfo}
    (merged : u.lm.checkConflictEntryAndAppendNew (args.prevLogIndex + 1) args.entries = some (lm, infos)) :
    s.processAppendEntries args now =
      ({ u with lm := lm, commitIndex := args.followedCommit u.commitIndex lm.lastLogEntryIndex }.tryApplyLogEntries,
        some (u.acceptReply args infos)) := by
  subst steps
  unfold processAppendEntries
  dsimp only
  rw [if_neg (show ¬ args.term < (s.hearLeader args.leaderId now).currentTerm from current),
    if_neg (by rw [contains]; decide), if_neg (not_not_intro counted), merged]

end Answers

/-- A request that finds its entries in the log and its commit index taken over is only answered. -/
theorem processAppendEntries_settled (term : s.currentTerm = args.term) (role : s.role ≠ .kCandidate)
    (contains : s.containEntry args.prevLogIndex args.prevLogTerm args.prevK = true)
    (counted : args.entryCnt = args.entries.length) {infos : List ChunkInfo}
    (merged : s.lm.checkConflictEntryAndAppendNew (args.prevLogIndex + 1) args.entries = some (s.lm, infos))
    (commit : args.followedCommit s.commitIndex s.lm.lastLogEntryIndex = s.commitIndex) (all : s.AppliedAll) (now : Nat) :
    s.processAppendEntries args now = (s.hearLeader args.leaderId now, some (s.acceptReply args infos)) := by
  have steps : (s.hearLeader args.leaderId now).stepDownFor args.term = s.hearLeader args.leaderId now :=
    stepDownFor_eq_self term role
  rw [processAppendEntries_merged (by omega) steps contains counted merged, Prod.mk.injEq]
  refine ⟨?_, rfl⟩
  change RaftState.tryApplyLogEntries { s.hearLeader args.leaderId now with
    commitIndex := args.followedCommit s.commitIndex s.lm.lastLogEntryIndex } = _
  rw [commit]
  exact (all.hearLeader args.leaderId now).tryApplyLogEntries_eq

/-- A request that comes a second time has the outcome of the first. -/
theorem appendEntries_idempotent (s : RaftState) (args : AppendEntriesArgs) (now later : Nat) (indexed : s.lm.Indexed)
    (places : ∀ n entry, args.entries[n]? = some entry → entry.index = args.prevLogIndex + 1 + n) :
    outcome ((s.processAppendEntries args now).1.processAppendEntries args later) =
      outcome (s.processAppendEntries args now) := by
  by_cases older : args.term < s.currentTerm
  · have refused (t : RaftState) (time : Nat) (older : args.term < t.currentTerm) : t.processAppendEntries args time =
        (t.hearLeader args.leaderId time, some (t.refuseReply 0)) := if_pos older
    rw [refused s now older]
    exact (congrArg outcome (refused (s.hearLeader args.leaderId now) later older)).trans rfl
  obtain ⟨log, -⟩ := stepDownFor_spec (s := s.hearLeader args.leaderId now) (Nat.le_of_not_lt older)
  obtain ⟨term, role⟩ := stepDownFor_settles (s := s.hearLeader args.leaderId now) (Nat.le_of_not_lt older)
  generalize steps : (s.hearLeader args.leaderId now).stepDownFor args.term = u at log term role
  -- In the second round the server has the term of the request already.
  have again : (u.hearLeader args.leaderId later).stepDownFor args.term = u.hearLeader args.leaderId later :=
    stepDownFor_eq_self term role
  cases contains : u.containEntry args.prevLogIndex args.prevLogTerm args.prevK with
  | false =>
    rw [processAppendEntries_missing older steps contains, processAppendEntries_missing (by omega) again contains]
    rfl
  | true =>
    by_cases counted : args.entryCnt = args.entries.length
    · have lm : u.lm = s.lm := field_eq log (·.lm)
      rw [← lm] at indexed
      have reaches := containEntry_reaches indexed contains
      have longer : args.prevLogIndex ≤ (u.lm.mergeAfter args.prevLogIndex args.entries).entries.length := by
        change _ ≤ (u.lm.entries.take _ ++ _).length
        rw [List.length_append, List.length_take_of_le reaches]
        exact Nat.le_add_right _ _
      have remerged := (indexed.mergeAfter reaches places).checkConflictEntryAndAppendNew_eq longer places
      rw [LogManager.mergeAfter_again _ reaches, LogManager.mergeAfter_drop _ reaches, laidOver_again] at remerged
      rw [processAppendEntries_merged older steps contains counted (indexed.checkConflictEntryAndAppendNew_eq reaches places)]
      generalize applied : RaftState.tryApplyLogEntries { u with lm := _, commitIndex := _ } = w
      have all : w.AppliedAll := applied ▸ appliedAll_tryApplyLogEntries _
      have rest := tryApplyLogEntries_unapplied { u with
        lm := u.lm.mergeAfter args.prevLogIndex args.entries
        commitIndex := args.followedCommit u.commitIndex (u.lm.mergeAfter args.prevLogIndex args.entries).lastLogEntryIndex }
      rw [applied] at rest
      have taken : w.lm = u.lm.mergeAfter args.prevLogIndex args.entries := field_eq rest (·.lm)
      have commit := field_eq rest (·.commitIndex)
      have current : w.currentTerm = u.currentTerm := field_eq rest (·.currentTerm)
      have same : w.config = u.config := field_eq rest (·.config)
      rw [processAppendEntries_settled (s := w) (current.trans term) ?_
        ((containEntry_mergeAfter indexed args.entries reaches taken places).trans contains) counted (taken ▸ remerged) ?_ all]
      · change outcome (w, some (w.acceptReply args _)) = _
        simp only [acceptReply, RaftState.id, current, same]
      · rw [field_eq rest (·.role)]
        exact role
      · rw [commit, taken]
        exact args.followedCommit_again _ _
    · rw [processAppendEntries_miscounted older steps contains counted]
      have twice : u.stop.processAppendEntries args later = ((u.stop.hearLeader args.leaderId later).stop, none) :=
        processAppendEntries_miscounted (by change ¬ _ < u.currentTerm; omega) (stepDownFor_eq_self term role) contains counted
      exact (congrArg outcome twice).trans rfl

end Again

/-- Sent entry `n` meets an entry of another term at its index. -/
def Conflicts (s : RaftState) (args : AppendEntriesArgs) (n : Nat) : Prop :=
  ∃ old entry, s.lm.getSingleLogEntry (args.prevLogIndex + n + 1) = some old ∧ args.entries[n]? = some entry ∧
    entry.term ≠ old.term

theorem conflicts_iff {s : RaftState} {args : AppendEntriesArgs} {n : Nat} (indexed : s.lm.Indexed) :
    s.Conflicts args n ↔ ConflictAt (s.lm.entries.drop args.prevLogIndex) args.entries n := by
  unfold Conflicts ConflictAt
  rw [indexed.getSingleLogEntry_succ, List.getElem?_drop]

/-- A server whose log holds a fragment of term 1 and one of term 2. -/
def twoTermsHeld : RaftState :=
  newRaftState ((ClusterConfig.threeServers 0).serverConfig 1)
    (some { valid := true, persistedTerm := 2, persistedVoteFor := 0 })
    { entries := [{ term := 1, index := 1, chunkInfo := { k := 2, raftIndex := 1 } },
        { term := 2, index := 2, chunkInfo := { k := 1, raftIndex := 2 } }] } (Uninitialised.zero 1)

/-- Two fragments of term 2 with `k = 2`, the first of which conflicts with the log. -/
def overBothTerms : AppendEntriesArgs :=
  { term := 2
    groupId := 0
    leaderId := 0
    prevLogIndex := 0
    prevLogTerm := 0
    prevK := 0
    leaderCommit := 0
    entryCnt := 2
    entries := [{ term := 2, index := 1, chunkInfo := { k := 2, raftIndex := 1 } },
      { term := 2, index := 2, chunkInfo := { k := 2, raftIndex := 2 } }] }

theorem twoTermsHeld_indexed : twoTermsHeld.lm.Indexed := by
  intro j e at_j
  rcases j with _ | _ | j <;> cases at_j <;> rfl

theorem overBothTerms_places (n : Nat) (entry : LogEntry) (at_n : overBothTerms.entries[n]? = some entry) :
    entry.index = overBothTerms.prevLogIndex + 1 + n := by
  rcases n with _ | _ | n <;> cases at_n <;> rfl

theorem appendEntries_idempotent_overBothTerms :
    outcome ((twoTermsHeld.processAppendEntries overBothTerms 0).1.processAppendEntries overBothTerms 1) =
      outcome (twoTermsHeld.processAppendEntries overBothTerms 0) :=
  appendEntries_idempotent twoTermsHeld overBothTerms 0 1 twoTermsHeld_indexed overBothTerms_places

end RaftState

end FlexRaft
