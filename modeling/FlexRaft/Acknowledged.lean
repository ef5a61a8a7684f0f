import FlexRaft.StoredMirror

namespace FlexRaft

variable {ack : Nat × Nat}

namespace LogManager

/-- The terms of a log, index `i` at place `i - 1`. -/
def terms (lm : LogManager) : List Nat := lm.entries.map LogEntry.term

/-- The log has an entry of the term of the acknowledgement at its index. -/
def HasAck (lm : LogManager) (ack : Nat × Nat) : Prop := 1 ≤ ack.1 ∧ lm.terms[ack.1 - 1]? = some ack.2

section Terms

variable {lm mid lm' : LogManager} {entries : List LogEntry} {raftIndex : Nat}

theorem terms_length (lm : LogManager) : lm.terms.length = lm.entries.length := List.length_map _

theorem Indexed.termAt_eq (indexed : lm.Indexed) (positive : 1 ≤ raftIndex) (inside : raftIndex ≤ lm.entries.length) :
    lm.terms[raftIndex - 1]? = some (lm.termAt raftIndex) := by
  obtain ⟨n, rfl⟩ : ∃ n, raftIndex = n + 1 := ⟨raftIndex - 1, by omega⟩
  have at_n : lm.entries[n]? = some lm.entries[n] := List.getElem?_eq_getElem inside
  rw [indexed.termAt_succ at_n, Nat.add_sub_cancel, terms, List.getElem?_map, at_n]
  rfl

theorem conflictIndex_ge {c : Nat} (conflict : lm.conflictIndex raftIndex entries = some c) : raftIndex ≤ c := by
  induction entries generalizing raftIndex with
  | nil => cases conflict
  | cons entry rest ih =>
    unfold conflictIndex at conflict
    split at conflict
    · cases conflict
    · split at conflict
      · cases conflict
        omega
      · have := ih conflict
        omega

theorem conflictIndex_congr (indexed : lm.Indexed) (indexed' : mid.Indexed) (same : mid.terms = lm.terms)
    (positive : 1 ≤ raftIndex) : mid.conflictIndex raftIndex entries = lm.conflictIndex raftIndex entries := by
  have length : mid.entries.length = lm.entries.length := by rw [← terms_length, ← terms_length, same]
  induction entries generalizing raftIndex with
  | nil => rfl
  | cons entry rest ih =>
    unfold conflictIndex
    rw [indexed.lastLogEntryIndex_eq, indexed'.lastLogEntryIndex_eq, length]
    split
    · rfl
    · have term : mid.termAt raftIndex = lm.termAt raftIndex := by
        have here := indexed.termAt_eq positive (by omega)
        have here' := indexed'.termAt_eq positive (by omega)
        rw [same, here] at here'
        exact (Option.some.inj here').symm
      rw [term, ih (by omega)]

/-- What a request leaves of the terms: those it brings, and what stood before a conflict. -/
structure Laid (raftIndex : Nat) (entries : List LogEntry) (lm lm' : LogManager) : Prop where
  brought : ∀ i e, entries[i]? = some e → lm'.terms[raftIndex - 1 + i]? = some e.term
  kept : ∀ (j t : Nat), lm.terms[j]? = some t → (∀ c ∈ lm.conflictIndex raftIndex entries, j + 1 < c) →
    lm'.terms[j]? = some t

theorem terms_foldl (lm : LogManager) (entries : List LogEntry) :
    (entries.foldl appendLogEntry lm).terms = lm.terms ++ entries.map LogEntry.term := by
  rw [terms, foldl_appendLogEntry, List.map_append, terms]

theorem laid_of_joined {n : Nat} (joined : lm'.terms = lm.terms.take n ++ entries.map LogEntry.term)
    (start : n + 1 = raftIndex) (inside : n ≤ lm.terms.length)
    (conflict : ∀ (j t : Nat), lm.terms[j]? = some t → (∀ c ∈ lm.conflictIndex raftIndex entries, j + 1 < c) → j < n) :
    Laid raftIndex entries lm lm' := by
  have length : (lm.terms.take n).length = n := List.length_take_of_le inside
  refine ⟨fun i e at_i => ?_, fun j t at_j before => ?_⟩
  · rw [joined, List.getElem?_append_right (by omega), List.getElem?_map]
    have place : raftIndex - 1 + i - (lm.terms.take n).length = i := by omega
    rw [place, at_i]
    rfl
  · have low := conflict j t at_j before
    rw [joined, List.getElem?_append_left (by omega), List.getElem?_take_of_lt low]
    exact at_j

theorem Laid.cons {entry : LogEntry} {rest : List LogEntry} (indexed : lm.Indexed) (indexed' : mid.Indexed)
    (same : mid.terms = lm.terms) (positive : 1 ≤ raftIndex) (inside : raftIndex ≤ lm.entries.length)
    (term : entry.term = lm.termAt raftIndex) (laid : Laid (raftIndex + 1) rest mid lm') :
    Laid raftIndex (entry :: rest) lm lm' := by
  have later : lm.conflictIndex raftIndex (entry :: rest) = mid.conflictIndex (raftIndex + 1) rest := by
    rw [conflictIndex_congr indexed indexed' same (by omega)]
    unfold conflictIndex
    rw [indexed.lastLogEntryIndex_eq, if_neg (by omega), if_neg (not_not_intro term)]
    cases rest with
    | nil => rfl
    | cons => rfl
  have here : lm.terms[raftIndex - 1]? = some entry.term := by
    rw [term]
    exact indexed.termAt_eq positive inside
  refine ⟨fun i e at_i => ?_, fun j t at_j before => ?_⟩
  · cases i with
    | zero =>
      cases at_i
      refine laid.kept _ _ (same ▸ here) fun c conflict => ?_
      have := conflictIndex_ge conflict
      omega
    | succ i =>
      have place : raftIndex - 1 + (i + 1) = raftIndex + 1 - 1 + i := by omega
      rw [place]
      exact laid.brought i e at_i
  · exact laid.kept j t (same ▸ at_j) (later ▸ before)

theorem terms_deleteLogEntriesFrom (indexed : lm.Indexed) (positive : 1 ≤ raftIndex)
    (inside : raftIndex ≤ lm.entries.length) : (lm.deleteLogEntriesFrom raftIndex).terms = lm.terms.take (raftIndex - 1) := by
  rw [terms, indexed.deleteLogEntriesFrom_entries positive inside, List.map_take, terms]

theorem overWriteLogEntry_terms (indexed : lm.Indexed) (positive : 1 ≤ raftIndex)
    (inside : raftIndex ≤ lm.entries.length) {e : LogEntry} (place : e.index = raftIndex)
    (term : e.term = lm.termAt raftIndex) :
    (lm.overWriteLogEntry e raftIndex).Indexed ∧ (lm.overWriteLogEntry e raftIndex).terms = lm.terms := by
  refine ⟨indexed.overWriteLogEntry positive inside place, ?_⟩
  have here := indexed.termAt_eq positive inside
  rw [← term] at here
  obtain ⟨bound, value⟩ := List.getElem?_eq_some_iff.mp here
  rw [terms, indexed.overWriteLogEntry_at positive inside, List.map_set, ← value]
  exact List.set_getElem_self bound

theorem checkConflictEntryAndAppendNew_laid {infos : List ChunkInfo} (indexed : lm.Indexed) (positive : 1 ≤ raftIndex)
    (bound : raftIndex ≤ lm.entries.length + 1) (places : ∀ i e, entries[i]? = some e → e.index = raftIndex + i)
    (run : lm.checkConflictEntryAndAppendNew raftIndex entries = some (lm', infos)) : Laid raftIndex entries lm lm' := by
  induction entries generalizing raftIndex lm lm' infos with
  | nil =>
    cases run
    exact ⟨fun _ _ none => (nomatch none), fun _ _ at_j _ => at_j⟩
  | cons entry rest ih =>
    have placesRest : ∀ i e, rest[i]? = some e → e.index = raftIndex + 1 + i := by
      intro i e at_i
      have := places (i + 1) e at_i
      omega
    unfold checkConflictEntryAndAppendNew at run
    rw [indexed.lastLogEntryIndex_eq] at run
    split at run
    · cases run
      refine laid_of_joined (n := lm.entries.length) ?_ (by omega) (terms_length lm).ge fun j t at_j _ => ?_
      · rw [terms_foldl, List.take_of_length_le (terms_length lm).le]
      · have := (List.getElem?_eq_some_iff.mp at_j).1
        rwa [terms_length] at this
    · split at run
      · rename_i inside conflict
        cases run
        refine laid_of_joined (n := raftIndex - 1) ?_ (by omega) (by rw [terms_length]; omega) fun j t _ before => ?_
        · rw [terms_foldl, terms_deleteLogEntriesFrom indexed positive (by omega)]
        · have here : lm.conflictIndex raftIndex (entry :: rest) = some raftIndex := by
            unfold conflictIndex
            rw [indexed.lastLogEntryIndex_eq, if_neg inside, if_pos conflict]
          have := before raftIndex here
          omega
      · rename_i inside agrees
        have term := Decidable.not_not.mp agrees
        split at run
        · cases run
        · split at run
          · obtain ⟨⟨_, _⟩, rounds, result⟩ := Option.map_eq_some_iff.mp run
            cases result
            obtain ⟨indexed', same⟩ := overWriteLogEntry_terms indexed positive (by omega) (places 0 entry rfl) term
            have length : (lm.overWriteLogEntry entry raftIndex).entries.length = lm.entries.length := by
              rw [← terms_length, same, terms_length]
            exact (ih indexed' (by omega) (by omega) placesRest rounds).cons indexed indexed' same positive (by omega) term
          · obtain ⟨⟨_, _⟩, rounds, result⟩ := Option.map_eq_some_iff.mp run
            cases result
            exact (ih indexed (by omega) (by omega) placesRest rounds).cons indexed indexed rfl positive (by omega) term

end Terms

end LogManager

namespace RaftState

variable {s : RaftState} {ack : Nat × Nat} {raftIndex : Nat} {stripes : List Stripe}

/-- A decoding of stripes keeps an acknowledged entry: all stripes up to its index decode, and the one at its index
to an entry of its term. -/
def recoversAck (s : RaftState) (ack : Nat × Nat) : Nat → List Stripe → Prop
  | _, [] => True
  | raftIndex, stripe :: rest => ack.1 < raftIndex ∨
      (∃ ent, s.decodingRaftEntry stripe = .decoded ent ∧ (ack.1 = raftIndex → ent.term = ack.2)) ∧
        s.recoversAck ack (raftIndex + 1) rest

theorem recoversAck_of_lt (low : ack.1 < raftIndex) : s.recoversAck ack raftIndex stripes := by
  cases stripes with
  | nil => exact trivial
  | cons => exact Or.inl low

theorem decodeStripes_hasAck {f : StorageFormat} {lm : LogManager} {q : PersistQueue}
    (has : lm.HasAck ack) (rewriting : PersistQueue.Rewriting f lm q raftIndex)
    (ended : raftIndex + stripes.length = lm.entries.length + 1)
    (clean : PersistQueue.decodesCleanly f s raftIndex stripes) (keeps : s.recoversAck ack raftIndex stripes) :
    (decodeStripes stripes raftIndex { s with lm := lm }).lm.HasAck ack := by
  induction stripes generalizing lm q raftIndex with
  | nil => exact has
  | cons stripe rest ih =>
    obtain ⟨some, runs, decodes, clean⟩ := clean
    rw [List.length_cons] at ended
    have positive := rewriting.positive
    have inside : raftIndex ≤ lm.entries.length := by omega
    have same : decodingRaftEntry { s with lm := lm } stripe = s.decodingRaftEntry stripe := rfl
    unfold decodeStripes
    rw [if_neg some, same]
    cases outcome : s.decodingRaftEntry stripe with
    | stop => exact absurd outcome runs
    | failed =>
      -- what fails to decode lies behind the acknowledged entry
      have low : ack.1 < raftIndex := by
        rcases keeps with low | ⟨⟨ent, decoded, _⟩, _⟩
        · exact low
        · cases outcome.symm.trans decoded
      refine ⟨has.1, ?_⟩
      have positive' := has.1
      rw [LogManager.terms_deleteLogEntriesFrom rewriting.indexed positive inside, List.getElem?_take_of_lt (by omega)]
      exact has.2
    | decoded ent =>
      obtain ⟨place, fits⟩ := decodes ent outcome
      have next := rewriting.overwrite inside place fits
      have written := rewriting.indexed.overWriteLogEntry_at positive inside (e := ent)
      have length : (lm.overWriteLogEntry ent raftIndex).entries.length = lm.entries.length := by
        rw [written, List.length_set]
      have terms : (lm.overWriteLogEntry ent raftIndex).terms = lm.terms.set (raftIndex - 1) ent.term := by
        rw [LogManager.terms, written, List.map_set, LogManager.terms]
      have positive' := has.1
      have kept : (lm.overWriteLogEntry ent raftIndex).HasAck ack := by
        refine ⟨has.1, ?_⟩
        rw [terms, List.getElem?_set]
        split
        · rw [if_pos (by rw [LogManager.terms_length]; omega)]
          rcases keeps with low | ⟨⟨ent', decoded, term⟩, _⟩
          · omega
          · cases outcome.symm.trans decoded
            rw [term (by omega)]
        · exact has.2
      have later : s.recoversAck ack (raftIndex + 1) rest := by
        rcases keeps with low | ⟨_, later⟩
        · exact recoversAck_of_lt (by omega)
        · exact later
      exact ih kept next (show raftIndex + 1 + rest.length = (lm.overWriteLogEntry ent raftIndex).entries.length + 1 by omega)
        clean later

end RaftState

theorem LogManager.HasAck.le {lm : LogManager} (has : lm.HasAck ack) : ack.1 ≤ lm.entries.length := by
  have bound := (List.getElem?_eq_some_iff.mp has.2).1
  rw [LogManager.terms_length] at bound
  omega

theorem LogManager.HasAck.append {lm : LogManager} {e : LogEntry} (has : lm.HasAck ack) :
    (lm.appendLogEntry e).HasAck ack := by
  have longer : (lm.appendLogEntry e).terms = lm.terms ++ [e.term] := List.map_append
  refine ⟨has.1, ?_⟩
  rw [longer, List.getElem?_append_left (List.getElem?_eq_some_iff.mp has.2).1]
  exact has.2

theorem LogManager.HasAck.take {lm lm' : LogManager} {n : Nat} (has : lm.HasAck ack)
    (begins : lm'.entries = lm.entries.take n) (low : ack.1 ≤ n) : lm'.HasAck ack := by
  have positive := has.1
  refine ⟨has.1, ?_⟩
  rw [LogManager.terms, begins, List.map_take, List.getElem?_take_of_lt (by omega)]
  exact has.2

namespace PersistQueue

variable {f : StorageFormat} {lm : LogManager} {q q' : PersistQueue} {ack : Nat × Nat} {s : RaftState}

/-- The entry is in the log, and no longer to be written. -/
def Safe (lm : LogManager) (q : PersistQueue) (ack : Nat × Nat) : Prop := lm.HasAck ack ∧ ack.1 ≤ q.file.lastIndex

theorem Stores.safe (stores : Stores f lm q) (has : lm.HasAck ack) : Safe lm q ack :=
  ⟨has, stores.holds.lastIndex_eq ▸ has.le⟩

theorem persistBatch_lastIndex_le {lo : Nat} {batch : List LogEntry} {st st' : FileStorage}
    (run : st.persistBatch f lo batch = some st') : st.lastIndex ≤ st'.lastIndex := by
  induction batch generalizing lo st with
  | nil =>
    cases run
    exact Nat.le_refl _
  | cons ent rest ih =>
    unfold FileStorage.persistBatch at run
    split at run
    · cases run
    · refine Nat.le_trans ?_ (ih run)
      unfold FileStorage.maybeUpdateLastIndexAndTerm FileStorage.lastIndex
      split
      · rename_i later
        exact Nat.le_of_lt later
      · exact Nat.le_refl _

theorem write_lastIndex_le (writes : q.write f = some q') : q.file.lastIndex ≤ q'.file.lastIndex := by
  obtain ⟨_, _, file, _, _, persisted, rfl⟩ := of_write writes
  unfold FileStorage.persistEntries at persisted
  split at persisted
  · cases persisted
    exact Nat.le_refl _
  · obtain ⟨st', run, rfl⟩ := Option.map_eq_some_iff.mp persisted
    have grows := persistBatch_lastIndex_le run
    exact grows

theorem work_lastIndex_le (work : q.collect = some q' ∨ q.write f = some q' ∨ q.mark = some q') :
    q.file.lastIndex ≤ q'.file.lastIndex := by
  rcases work with collects | writes | marks
  · obtain ⟨_, _, _, rfl⟩ := of_collect collects
    exact Nat.le_refl _
  · exact write_lastIndex_le writes
  · obtain ⟨_, _, _, rfl⟩ := of_mark marks
    exact Nat.le_refl _

theorem saveState_lastIndex {s' : RaftState} {granted : Bool} :
    (q.saveState s s' granted).file.lastIndex = q.file.lastIndex := by
  unfold PersistQueue.saveState
  split
  · rfl
  · rfl

theorem unwritten_subset (q : PersistQueue) : q.unwritten ⊆ q.queue := by
  unfold unwritten
  split
  · exact (List.dropWhile_sublist _).subset
  · exact List.Subset.refl _

theorem Mirrors.written_below {n : Nat} (mirrors : Mirrors f lm q) (inside : n ≤ lm.entries.length)
    (free : ∀ item ∈ q.unwritten, n < item.index) : n ≤ q.file.lastIndex := by
  obtain ⟨log, holds, whole, _⟩ := mirrors.stored
  rw [holds.lastIndex_eq]
  cases items : q.unwritten with
  | nil =>
    rw [items, List.map_nil, List.append_nil] at whole
    rwa [whole] at inside
  | cons item rest =>
    have first : q.unwritten[0]? = some item := by rw [items]; rfl
    have member : item ∈ q.unwritten := List.mem_of_getElem? first
    have above := free item member
    have index := unwritten_index mirrors.indexed whole first
    rw [mirrors.own item (unwritten_subset q member)] at index
    omega

theorem Safe.preLeaderBecomeLeader (safe : Safe s.lm q ack)
    (mirrors : Mirrors f s.lm q) (clean : recoversCleanly f s q)
    (keeps : s.livenessLevel + 1 ≤ s.preleaderStripeStore.collectedFragmentsCnt →
      s.recoversAck ack s.preleaderStripeStore.startIndex s.preleaderStripeStore.stripes) :
    Safe s.preLeaderBecomeLeader.lm (q.preLeaderBecomeLeader f s) ack := by
  rw [RaftState.preLeaderBecomeLeader_lm]
  unfold PersistQueue.preLeaderBecomeLeader
  split
  · rename_i enough
    unfold RaftState.decodeCollectedStripe
    by_cases nothing : s.preleaderStripeStore.stripes = []
    · rw [nothing]
      exact safe
    · obtain ⟨settled, positive, ended, cuts, decodes⟩ := (clean enough).resolve_left nothing
      have some := List.length_pos_iff.mpr nothing
      rw [mirrors.indexed.lastLogEntryIndex_eq] at ended
      have rewriting := (mirrors.stores settled).rewriting positive (by omega) cuts
      exact (rewriting.decodeStripes ended decodes).safe
        (RaftState.decodeStripes_hasAck safe.1 rewriting ended decodes (keeps enough))
  · exact safe

end PersistQueue

namespace StoredServer

/-- A step that the storage can follow and that does not touch what was acknowledged: a request whose entries are all
there finds them written, and a takeover recovers the acknowledged entries. -/
def keepsAcks (f : StorageFormat) (σ : StoredServer) (l : Label) : Prop :=
  careful f σ l ∧
    (∀ t ∈ σ.takesOver l, t.livenessLevel + 1 ≤ t.preleaderStripeStore.collectedFragmentsCnt → ∀ ack ∈ σ.acks,
      t.recoversAck ack t.preleaderStripeStore.startIndex t.preleaderStripeStore.stripes) ∧
    match l with
    | .process _ (.appendEntries args) _ => σ.raft.takesEntries args = true →
        (σ.raft.lm.conflictIndex (args.prevLogIndex + 1) args.entries).isSome ∨
          ∀ item ∈ σ.disk.unwritten, args.prevLogIndex + args.entries.length < item.index
    | _ => True

/-- The file and the queue follow the log, and acknowledged entries are in the file. -/
structure Keeps (f : StorageFormat) (σ : StoredServer) : Prop where
  mirrors : σ.Mirrors f
  safe : ∀ ack ∈ σ.acks, PersistQueue.Safe σ.raft.lm σ.disk ack

section Keeps

variable {f : StorageFormat} {σ σ' : StoredServer} {args : AppendEntriesArgs} {ack : Nat × Nat}

theorem acknowledge_hasAck {acks : List (Nat × Nat)} {lm lm' : LogManager}
    (laid : LogManager.Laid (args.prevLogIndex + 1) args.entries lm lm') (has : ∀ ack ∈ acks, lm.HasAck ack)
    (member : ack ∈ acknowledge acks lm args) :
    lm'.HasAck ack ∧ (ack ∈ acks ∨ ack.1 ≤ args.prevLogIndex + args.entries.length) := by
  rcases List.mem_append.mp member with old | new
  · obtain ⟨inAcks, before⟩ := List.mem_filter.mp old
    obtain ⟨positive, at_ack⟩ := has ack inAcks
    refine ⟨⟨positive, laid.kept _ _ at_ack fun c conflict => ?_⟩, Or.inl inAcks⟩
    rw [Option.mem_def.mp conflict, Option.all_some, decide_eq_true_iff] at before
    omega
  · obtain ⟨i, bound, rfl⟩ := List.mem_mapIdx.mp new
    have brought := laid.brought i _ (List.getElem?_eq_getElem bound)
    refine ⟨⟨by omega, ?_⟩, Or.inr (by omega)⟩
    rwa [show args.prevLogIndex + 1 + i - 1 = args.prevLogIndex + 1 - 1 + i by omega]

theorem Keeps.taken (keeps : σ.Keeps f) {src now : Nat} {lm : LogManager} {infos : List ChunkInfo} (s s' : RaftState)
    (allowed : keepsAcks f σ (.process src (.appendEntries args) now)) (taken : σ.raft.takesEntries args = true)
    (run : σ.raft.lm.checkConflictEntryAndAppendNew (args.prevLogIndex + 1) args.entries = some (lm, infos))
    (member : ack ∈ acknowledge σ.acks σ.raft.lm args) :
    PersistQueue.Safe lm ((σ.disk.saveState s s' false).checkConflictEntryAndAppendNew f (args.prevLogIndex + 1)
      args.entries σ.raft.lm) ack := by
  have mirrors := keeps.mirrors
  have reaches := RaftState.takesEntries_reaches mirrors.indexed taken
  have clean := allowed.1.2 taken
  have laid := LogManager.checkConflictEntryAndAppendNew_laid mirrors.indexed (by omega) (by omega)
    (places_of_consecutive clean.1) run
  obtain ⟨has, cause⟩ := acknowledge_hasAck laid (fun ack old => (keeps.safe ack old).1) member
  obtain ⟨lm', infos', run', outcome⟩ := mirrors.taken s s' taken clean
  cases run.symm.trans run'
  rcases outcome with stores | ⟨same, idle, none, within⟩
  · exact stores.safe has
  · rw [idle]
    refine ⟨has, PersistQueue.saveState_lastIndex.symm ▸ ?_⟩
    rcases cause with old | new
    · exact (keeps.safe ack old).2
    · have free := (allowed.2.2 taken).resolve_left (by rw [none]; exact Bool.false_ne_true)
      have written := PersistQueue.Mirrors.written_below mirrors (by omega) free
      omega

theorem Keeps.step {l : Label} (keeps : σ.Keeps f) (allowed : keepsAcks f σ l) (steps : σ.step f l = some σ') :
    σ'.Keeps f := by
  refine ⟨keeps.mirrors.step allowed.1 steps, fun ack member => ?_⟩
  cases step_work steps with
  | saves s s' granted log disk acks =>
    have safe := keeps.safe ack (acks ▸ member)
    rw [log, disk]
    exact ⟨safe.1, PersistQueue.saveState_lastIndex.symm ▸ safe.2⟩
  | recovers taking same log disk acks =>
    rw [log, disk]
    rw [acks] at member
    refine PersistQueue.Safe.preLeaderBecomeLeader ?_ ?_ (allowed.1.1 _ taking) fun enough =>
      allowed.2.1 _ taking enough ack member
    · rw [same]
      exact keeps.safe ack member
    · rw [same]
      exact keeps.mirrors
  | takes s s' taken run log disk acks =>
    rw [log, disk]
    exact keeps.taken s s' allowed taken run (acks ▸ member)
  | stops taken run =>
    obtain ⟨_, _, run', _⟩ := keeps.mirrors.taken σ.raft σ.raft taken (allowed.1.2 taken)
    cases run.symm.trans run'
  | proposes index made log disk acks =>
    have safe := keeps.safe ack (acks ▸ member)
    rw [log, disk]
    refine ⟨safe.1.append, ?_⟩
    split
    · exact safe.2
    · exact safe.2
  | works work =>
    have safe := keeps.safe ack member
    exact ⟨safe.1, Nat.le_trans safe.2 (PersistQueue.work_lastIndex_le work)⟩
  | restarts opened =>
    have safe := keeps.safe ack member
    obtain ⟨lm', opened', stores, read⟩ := keeps.mirrors.reopened allowed.1.2.1 allowed.1.2.2
    cases opened.symm.trans opened'
    exact stores.safe (safe.1.take read safe.2)

end Keeps

/-- In every run whose steps keep what was acknowledged, an acknowledged entry that no conflict has removed is read
back after a crash that finds a current header on disk. -/
theorem acknowledged_entry_survives {f : StorageFormat} {config : RaftConfig} {buf buf' : List UInt8}
    {junk : RaftState.Uninitialised} {σ : StoredServer} {i t : Nat} (size : buf.length = f.initBufSize)
    (reach : Steps.Reach (step f) (keepsAcks f) (start f config buf junk) σ) (acked : (i, t) ∈ σ.acks)
    (size' : buf'.length = f.initBufSize) (synced : σ.disk.file.disk = σ.disk.file.header) :
    ∃ lm, LogManager.newLogManager f (σ.disk.file.reopen f buf') = some lm ∧
      ∃ e, lm.getSingleLogEntry i = some e ∧ e.term = t := by
  have keeps : σ.Keeps f := by
    refine reach.holds ⟨mirrors_start size, fun ack none => absurd none List.not_mem_nil⟩ ?_
    exact fun _ _ _ keeps allowed steps => keeps.step allowed steps
  obtain ⟨lm, opened, stores, read⟩ := keeps.mirrors.reopened size' synced
  have safe := keeps.safe _ acked
  obtain ⟨positive, term⟩ := safe.1.take read safe.2
  rw [LogManager.terms, List.getElem?_map] at term
  obtain ⟨e, at_i, same⟩ := Option.map_eq_some_iff.mp term
  exact ⟨lm, opened, e, stores.indexed.getSingleLogEntry_eq_some.mpr ⟨positive, at_i⟩, same⟩

/-- A candidate of term 2 asks for a vote. -/
def askForVote : Label :=
  .process 2 (.requestVote
    { term := 2, candidateId := 2, lastLogIndex := 1, lastLogTerm := 1, groupId := 0, candidatePriority := 0 }) 2

/-- The new term is written to the header, and with it the end of the log. -/
theorem acknowledged_entry_survives_newTerm : ∃ σ lm,
    Steps.Reach (step chunkFormat) (keepsAcks chunkFormat) freshFollower σ ∧ (1, 1) ∈ σ.acks ∧
    LogManager.newLogManager chunkFormat (σ.disk.file.reopen chunkFormat [0, 0, 0, 0]) = some lm ∧
    ∃ e, lm.getSingleLogEntry 1 = some e ∧ e.term = 1 := by
  have fits : ∀ e ∈ [chunkEntry 1 1 2], chunkFormat.Fits e := by
    intro e member
    rw [List.mem_singleton.mp member]
    exact chunkFormat_fits (by decide) (by decide) (by decide)
  have run : Steps.Reach (step chunkFormat) (keepsAcks chunkFormat) freshFollower _ :=
    (Steps.Reach.refl.next (l := sendFirst [chunkEntry 1 1 2])
      ⟨⟨fun _ none => (nomatch none), fun _ => ⟨rfl, fits, by decide +kernel⟩⟩, fun _ none => (nomatch none),
        fun _ => Or.inr (by decide +kernel)⟩ rfl).next
      (l := askForVote) ⟨⟨fun _ none => (nomatch none), trivial⟩, fun _ none => (nomatch none), trivial⟩ rfl
  obtain ⟨lm, opened, found⟩ := acknowledged_entry_survives rfl run (show (1, 1) ∈ _ by decide +kernel)
    (show [0, 0, 0, 0].length = 4 from rfl) (by decide +kernel)
  exact ⟨_, lm, run, by decide +kernel, opened, found⟩

/-- A server acknowledges an entry and crashes: the header on disk still ends before the entry. -/
theorem acknowledged_entry_lost : ∃ σ,
    Steps.Reach (step chunkFormat) (fun _ _ => True) freshFollower σ ∧ (1, 1) ∈ σ.acks ∧
    LogManager.newLogManager chunkFormat (σ.disk.file.reopen chunkFormat [0, 0, 0, 0]) = some {} :=
  ⟨_, Steps.Reach.refl.next (l := sendFirst [chunkEntry 1 1 2]) trivial rfl, by decide +kernel, by decide +kernel⟩

end StoredServer

end FlexRaft
