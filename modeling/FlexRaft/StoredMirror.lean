import FlexRaft.Cluster
import FlexRaft.QueueMirror

namespace FlexRaft

namespace StoredServer

/-- The server that looks in this step whether it can take over. -/
def takesOver (σ : StoredServer) : Label → Option RaftState
  | .tick _ => if σ.raft.role = .kPreLeader then some σ.raft else none
  | .process _ (.requestFragmentsReply reply) now => σ.raft.withAnswer reply now
  | _ => none

/-- The steps that the storage can follow. The entries of a request stand behind the one it refers to, and whatever
comes into the log survives the serializer and fits the read buffer. A crash finds a current header on disk. -/
def careful (f : StorageFormat) (σ : StoredServer) (l : Label) : Prop :=
  (∀ t ∈ σ.takesOver l, σ.disk.recoversCleanly f t) ∧
    match l with
    | .process _ (.appendEntries args) _ => σ.raft.takesEntries args = true →
        args.entries.map LogEntry.index = List.range' (args.prevLogIndex + 1) args.entries.length ∧
          (∀ e ∈ args.entries, f.Fits e) ∧ σ.disk.rewritesCleanly f (args.prevLogIndex + 1) args.entries σ.raft.lm
    | .propose command => ∀ e ∈ (σ.raft.propose command).1.lm.entries, f.Fits e
    | .restart buf _ => buf.length = f.initBufSize ∧ σ.disk.file.disk = σ.disk.file.header
    | _ => True

/-- What a step does to log, storage and acknowledgements. -/
inductive Work (f : StorageFormat) (σ : StoredServer) : Label → StoredServer → Prop
  | saves {l : Label} {σ' : StoredServer} (s s' : RaftState) (granted : Bool) (log : σ'.raft.lm = σ.raft.lm)
      (disk : σ'.disk = σ.disk.saveState s s' granted) (acks : σ'.acks = σ.acks) : Work f σ l σ'
  | recovers {l : Label} {σ' : StoredServer} {t : RaftState} (taking : t ∈ σ.takesOver l) (same : t.lm = σ.raft.lm)
      (log : σ'.raft.lm = t.preLeaderBecomeLeader.lm) (disk : σ'.disk = σ.disk.preLeaderBecomeLeader f t)
      (acks : σ'.acks = σ.acks) : Work f σ l σ'
  | takes {src now : Nat} {args : AppendEntriesArgs} {σ' : StoredServer} {lm : LogManager} {infos : List ChunkInfo}
      (s s' : RaftState) (taken : σ.raft.takesEntries args = true)
      (run : σ.raft.lm.checkConflictEntryAndAppendNew (args.prevLogIndex + 1) args.entries = some (lm, infos))
      (log : σ'.raft.lm = lm)
      (disk : σ'.disk = (σ.disk.saveState s s' false).checkConflictEntryAndAppendNew f (args.prevLogIndex + 1)
        args.entries σ.raft.lm)
      (acks : σ'.acks = acknowledge σ.acks σ.raft.lm args) : Work f σ (.process src (.appendEntries args) now) σ'
  | stops {src now : Nat} {args : AppendEntriesArgs} {σ' : StoredServer} (taken : σ.raft.takesEntries args = true)
      (run : σ.raft.lm.checkConflictEntryAndAppendNew (args.prevLogIndex + 1) args.entries = none) :
      Work f σ (.process src (.appendEntries args) now) σ'
  | proposes {command : CommandData} {σ' : StoredServer} {e : LogEntry}
      (index : e.index = σ.raft.lm.lastLogEntryIndex + 1)
      (made : (σ.raft.propose command).1.lm = σ.raft.lm.appendLogEntry e)
      (log : σ'.raft.lm = σ.raft.lm.appendLogEntry e)
      (disk : σ'.disk = match (σ.raft.lm.appendLogEntry e).getSingleLogEntry (σ.raft.lm.lastLogEntryIndex + 1) with
        | none => σ.disk
        | some entry => σ.disk.push entry (σ.raft.lm.lastLogEntryIndex + 1))
      (acks : σ'.acks = σ.acks) : Work f σ (.propose command) σ'
  | works {l : Label} {disk : PersistQueue}
      (work : σ.disk.collect = some disk ∨ σ.disk.write f = some disk ∨ σ.disk.mark = some disk) :
      Work f σ l { σ with disk := disk }
  | restarts {buf : List UInt8} {junk : RaftState.Uninitialised} {lm : LogManager}
      (opened : LogManager.newLogManager f (σ.disk.file.reopen f buf) = some lm) :
      Work f σ (.restart buf junk) (boot σ.raft.config (σ.disk.file.reopen f buf) lm junk σ.acks)

section Work

variable {f : StorageFormat} {σ σ' : StoredServer}

theorem saveState_self (q : PersistQueue) (s : RaftState) : q.saveState s s false = q := if_neg (by simp)

theorem tick_work {timers : Timers} (running : σ.raft.stopped = false) :
    Work f σ (.tick timers) (σ.tick f timers) := by
  have log : (σ.tick f timers).raft.lm = _ := RaftState.tick_lm running timers
  by_cases waits : σ.raft.role = .kPreLeader
  · rw [if_pos waits] at log
    have disk : (σ.tick f timers).disk = σ.disk.preLeaderBecomeLeader f σ.raft := by
      unfold StoredServer.tick
      rw [waits]
    exact .recovers (if_pos waits) rfl log disk rfl
  · rw [if_neg waits] at log
    have disk : (σ.tick f timers).disk = σ.disk.saveState σ.raft (σ.raft.tick timers) false := by
      unfold StoredServer.tick
      cases role : σ.raft.role with
      | kPreLeader => exact absurd role waits
      | kFollower | kCandidate | kLeader => rfl
    exact .saves _ _ _ log disk rfl

theorem appendEntries_work (src : Nat) (args : AppendEntriesArgs) (now : Nat) :
    Work f σ (.process src (.appendEntries args) now) (σ.processAppendEntries f src args now) := by
  have answered : (σ.processAppendEntries f src args now).raft.lm = (σ.raft.processAppendEntries args now).1.lm :=
    RaftState.answer_lm _
  rcases RaftState.processAppendEntries_log σ.raft args now with ⟨refused, log, failed⟩ | ⟨taken, outcome⟩
  · refine .saves _ _ false (answered.trans log) (if_neg ?_) (if_neg ?_)
    · rw [refused]
      exact Bool.false_ne_true
    · rw [failed]
      exact Bool.false_ne_true
  · cases run : σ.raft.lm.checkConflictEntryAndAppendNew (args.prevLogIndex + 1) args.entries with
    | none => exact .stops taken run
    | some result =>
      rw [run] at outcome
      exact .takes _ _ taken run (answered.trans outcome.1) (if_pos taken) (if_pos outcome.2)

theorem process_work (src : Nat) (msg : Message) (now : Nat) :
    Work f σ (.process src msg now) (σ.process f src msg now) := by
  cases msg with
  | appendEntries args => exact appendEntries_work src args now
  | requestFragmentsReply reply =>
    have log : (σ.process f src (.requestFragmentsReply reply) now).raft.lm = _ :=
      RaftState.processRequestFragmentsReply_lm reply now
    cases answer : σ.raft.withAnswer reply now with
    | none =>
      rw [answer] at log
      refine .saves σ.raft (σ.raft.process src (.requestFragmentsReply reply) now) false log ?_ rfl
      change (σ.processRequestFragmentsReply f src reply now).disk = _
      unfold StoredServer.processRequestFragmentsReply
      rw [answer]
    | some t =>
      rw [answer] at log
      refine .recovers answer (RaftState.withAnswer_lm answer) log ?_ rfl
      change (σ.processRequestFragmentsReply f src reply now).disk = _
      unfold StoredServer.processRequestFragmentsReply
      rw [answer]
  | requestVote args =>
    exact .saves _ _ _ ((RaftState.answer_lm _).trans (RaftState.processRequestVote_lm args now)) rfl rfl
  | requestVoteReply reply => exact .saves _ _ false (RaftState.processRequestVoteReply_lm reply now) rfl rfl
  | appendEntriesReply reply => exact .saves _ _ false (RaftState.processAppendEntriesReply_lm reply now) rfl rfl
  | requestFragments args =>
    exact .saves _ _ false ((RaftState.answer_lm _).trans (RaftState.processRequestFragments_lm args now)) rfl rfl

theorem propose_work (command : CommandData) : Work f σ (.propose command) (σ.propose command) := by
  rcases RaftState.propose_spec σ.raft command with ⟨refused, same⟩ | ⟨accepted, _, place, _, e, made, run⟩
  · have log : (σ.raft.propose command).1.lm = σ.raft.lm := by
      rcases same with same | stopped
      · exact congrArg RaftState.lm same
      · exact (congrArg RaftState.lm stopped).trans rfl
    have disk : (σ.propose command).disk = σ.disk := by
      unfold StoredServer.propose
      dsimp only
      rw [if_neg (by rw [refused]; exact Bool.false_ne_true)]
    exact .saves σ.raft σ.raft false log (disk.trans (saveState_self _ _).symm) rfl
  · have log : (σ.raft.propose command).1.lm = σ.raft.lm.appendLogEntry e := congrArg RaftState.lm run
    refine .proposes made.index log log ?_ rfl
    unfold StoredServer.propose
    cases found : (σ.raft.lm.appendLogEntry e).getSingleLogEntry (σ.raft.lm.lastLogEntryIndex + 1) with
    | none => simp only [accepted, if_true, log, place, found]
    | some entry => simp only [accepted, if_true, log, place, found]

theorem of_running {s : RaftState} {next : Option StoredServer}
    (steps : (if s.stopped = true then none else next) = some σ') : s.stopped = false ∧ next = some σ' := by
  split at steps
  · cases steps
  · exact ⟨Bool.eq_false_iff.mpr ‹_›, steps⟩

theorem step_work {l : Label} (steps : σ.step f l = some σ') : Work f σ l σ' := by
  cases l with
  | restart buf junk =>
    obtain ⟨lm, opened, rfl⟩ := Option.map_eq_some_iff.mp steps
    exact .restarts opened
  | tick timers =>
    obtain ⟨running, next⟩ := of_running steps
    cases next
    exact tick_work running
  | process src msg now =>
    obtain ⟨_, next⟩ := of_running steps
    cases next
    exact process_work src msg now
  | propose command =>
    obtain ⟨_, next⟩ := of_running steps
    cases next
    exact propose_work command
  | replicate raftIndex =>
    obtain ⟨running, next⟩ := of_running steps
    cases next
    have log : (σ.raft.replicateNewProposeEntry raftIndex).lm = σ.raft.lm :=
      RaftState.field_eq (RaftState.Asking.replicateNewProposeEntry running raftIndex).core (·.lm)
    exact .saves σ.raft σ.raft false log (saveState_self _ _).symm rfl
  | collect =>
    obtain ⟨disk, collects, rfl⟩ := Option.map_eq_some_iff.mp (of_running steps).2
    exact .works (Or.inl collects)
  | write =>
    obtain ⟨disk, writes, rfl⟩ := Option.map_eq_some_iff.mp (of_running steps).2
    exact .works (Or.inr (Or.inl writes))
  | mark =>
    obtain ⟨disk, marks, rfl⟩ := Option.map_eq_some_iff.mp (of_running steps).2
    exact .works (Or.inr (Or.inr marks))

end Work

/-- The file and the queue follow the log. -/
def Mirrors (f : StorageFormat) (σ : StoredServer) : Prop := σ.disk.Mirrors f σ.raft.lm

section Mirrors

variable {f : StorageFormat} {σ σ' : StoredServer} {buf : List UInt8}

theorem Mirrors.push (mirrors : σ.Mirrors f) {e : LogEntry} (index : e.index = σ.raft.lm.lastLogEntryIndex + 1)
    (fits : f.Fits e) : PersistQueue.Mirrors f (σ.raft.lm.appendLogEntry e)
      (match (σ.raft.lm.appendLogEntry e).getSingleLogEntry (σ.raft.lm.lastLogEntryIndex + 1) with
        | none => σ.disk
        | some entry => σ.disk.push entry (σ.raft.lm.lastLogEntryIndex + 1)) := by
  rw [mirrors.indexed.lastLogEntryIndex_eq] at index ⊢
  have found : (σ.raft.lm.appendLogEntry e).getSingleLogEntry (σ.raft.lm.entries.length + 1) = some e := by
    refine (mirrors.indexed.appendLogEntry index).getSingleLogEntry_eq_some.mpr ⟨by omega, ?_⟩
    exact List.getElem?_concat_length
  rw [found]
  exact PersistQueue.Mirrors.push mirrors index fits

/-- What a restart reads is what the file holds, the beginning of the log there was. -/
theorem Mirrors.reopened (mirrors : σ.Mirrors f) (size : buf.length = f.initBufSize)
    (synced : σ.disk.file.disk = σ.disk.file.header) :
    ∃ lm, LogManager.newLogManager f (σ.disk.file.reopen f buf) = some lm ∧
      PersistQueue.Stores f lm (PersistQueue.start (σ.disk.file.reopen f buf)) ∧
      lm.entries = σ.raft.lm.entries.take σ.disk.file.lastIndex := by
  obtain ⟨log, holds, whole, _⟩ := mirrors.stored
  have holds' := holds.reopen synced size
  have indexed : LogManager.Indexed { entries := log } := by
    have begins := mirrors.indexed.take log.length
    rwa [whole, List.take_left] at begins
  have read : ((σ.disk.file.reopen f buf).logEntries f).tail.foldl LogManager.appendLogEntry {} = { entries := log } := by
    rw [LogManager.mk.injEq, LogManager.foldl_appendLogEntry, holds'.logEntries_eq]
    rfl
  refine ⟨{ entries := log }, ?_, ⟨⟨rfl, rfl⟩, indexed, holds'⟩, ?_⟩
  · unfold LogManager.newLogManager
    dsimp only
    rw [read, indexed.lastLogEntryIndex_eq, holds'.lastIndex_eq, if_pos rfl]
  · rw [whole, holds.lastIndex_eq, List.take_left]

/-- An accepted request that the storage can follow leaves everything stored, or has changed nothing. -/
theorem Mirrors.taken (mirrors : σ.Mirrors f) (s s' : RaftState) {args : AppendEntriesArgs}
    (taken : σ.raft.takesEntries args = true)
    (clean : args.entries.map LogEntry.index = List.range' (args.prevLogIndex + 1) args.entries.length ∧
      (∀ e ∈ args.entries, f.Fits e) ∧ σ.disk.rewritesCleanly f (args.prevLogIndex + 1) args.entries σ.raft.lm) :
    ∃ lm' infos, σ.raft.lm.checkConflictEntryAndAppendNew (args.prevLogIndex + 1) args.entries = some (lm', infos) ∧
      (PersistQueue.Stores f lm' ((σ.disk.saveState s s' false).checkConflictEntryAndAppendNew f (args.prevLogIndex + 1)
          args.entries σ.raft.lm) ∨
        lm' = σ.raft.lm ∧ (σ.disk.saveState s s' false).checkConflictEntryAndAppendNew f (args.prevLogIndex + 1)
            args.entries σ.raft.lm = σ.disk.saveState s s' false ∧
          σ.raft.lm.conflictIndex (args.prevLogIndex + 1) args.entries = none ∧
          args.prevLogIndex + 1 + args.entries.length ≤ σ.raft.lm.entries.length + 1) := by
  obtain ⟨consecutive, fits, follows⟩ := clean
  have reaches := RaftState.takesEntries_reaches mirrors.indexed taken
  have saved : PersistQueue.Mirrors f σ.raft.lm (σ.disk.saveState s s' false) := PersistQueue.Mirrors.saveState mirrors
  exact saved.checkConflictEntryAndAppendNew (by omega) (by omega) (places_of_consecutive consecutive) fits
    (PersistQueue.rewritesCleanly_saveState follows)

theorem Mirrors.step {l : Label} (mirrors : σ.Mirrors f) (clean : careful f σ l) (steps : σ.step f l = some σ') :
    σ'.Mirrors f := by
  have work := step_work steps
  unfold Mirrors
  cases work with
  | saves s s' granted log disk =>
    rw [log, disk]
    exact PersistQueue.Mirrors.saveState mirrors
  | recovers taking same log disk =>
    rw [log, disk]
    refine PersistQueue.Mirrors.preLeaderBecomeLeader ?_ (clean.1 _ taking)
    rw [same]
    exact mirrors
  | takes s s' taken run log disk =>
    obtain ⟨lm', infos', run', outcome⟩ := mirrors.taken s s' taken (clean.2 taken)
    cases run.symm.trans run'
    rw [log, disk]
    rcases outcome with stores | ⟨same, idle, _⟩
    · exact stores.mirrors
    · rw [idle, same]
      exact PersistQueue.Mirrors.saveState mirrors
  | stops taken run =>
    obtain ⟨_, _, run', _⟩ := mirrors.taken σ.raft σ.raft taken (clean.2 taken)
    cases run.symm.trans run'
  | proposes index made log disk =>
    rw [log, disk]
    refine mirrors.push index (clean.2 _ ?_)
    rw [made]
    exact List.mem_append_right _ List.mem_cons_self
  | works work =>
    rcases work with collects | writes | marks
    · exact PersistQueue.Mirrors.collect mirrors collects
    · exact PersistQueue.Mirrors.write mirrors writes
    · exact PersistQueue.Mirrors.mark mirrors marks
  | restarts opened =>
    obtain ⟨lm', opened', stores, _⟩ := mirrors.reopened clean.2.1 clean.2.2
    cases opened.symm.trans opened'
    exact stores.mirrors.withFile fun _ holds => holds.congr rfl rfl rfl rfl

theorem mirrors_start {config : RaftConfig} {junk : RaftState.Uninitialised}
    (size : buf.length = f.initBufSize) : (start f config buf junk).Mirrors f := by
  have stores : PersistQueue.Stores f {} (PersistQueue.start (.openNew f buf)) :=
    ⟨⟨rfl, rfl⟩, LogManager.indexed_nil, FileStorage.holds_openNew size⟩
  exact stores.mirrors.withFile fun _ holds => holds.congr rfl rfl rfl rfl

end Mirrors

/-- In every run whose steps the storage can follow, the file of a settled server reads as its log. -/
theorem settled_file_is_log {f : StorageFormat} {config : RaftConfig} {buf : List UInt8}
    {junk : RaftState.Uninitialised} {σ : StoredServer} (size : buf.length = f.initBufSize)
    (reach : Steps.Reach (step f) (careful f) (start f config buf junk) σ) (settled : σ.disk.Settled) :
    σ.disk.file.logEntries f = {} :: σ.raft.lm.entries ∧ σ.disk.file.lastIndex = σ.raft.lm.lastLogEntryIndex := by
  have mirrors : σ.Mirrors f :=
    reach.holds (mirrors_start size) fun _ _ _ mirrors clean steps => mirrors.step clean steps
  have stores := PersistQueue.Mirrors.stores mirrors settled
  refine ⟨stores.holds.logEntries_eq, ?_⟩
  rw [stores.indexed.lastLogEntryIndex_eq]
  obtain ⟨_, _, _, last⟩ := stores.holds
  exact last

/-- A serializer that keeps term, index and `k` of an entry, for entries that have nothing else. -/
def chunkFormat : StorageFormat where
  codec :=
    { headSize := 3
      headSize_pos := Nat.succ_pos 2
      size := fun _ => 3
      headSize_le := fun _ => Nat.le_refl 3
      encode := fun ent => [UInt8.ofNat ent.term, UInt8.ofNat ent.index, UInt8.ofNat ent.chunkInfo.k]
      encode_length := fun _ => rfl
      decode := fun
        | term :: index :: k :: _ =>
          { term := term.toNat, index := index.toNat, chunkInfo := { k := k.toNat, raftIndex := index.toNat } }
        | _ => {} }
  initBufSize := 4

def chunkEntry (term index k : Nat) : LogEntry :=
  { term := term, index := index, chunkInfo := { k := k, raftIndex := index } }

theorem chunkFormat_fits {term index k : Nat} (term_lt : term < 256) (index_lt : index < 256) (k_lt : k < 256) :
    chunkFormat.Fits (chunkEntry term index k) := by
  refine ⟨show 3 ≤ 4 by decide, fun rest => ?_⟩
  change chunkEntry (UInt8.ofNat term).toNat (UInt8.ofNat index).toNat (UInt8.ofNat k).toNat = _
  rw [UInt8.toNat_ofNat', UInt8.toNat_ofNat', UInt8.toNat_ofNat', Nat.mod_eq_of_lt term_lt, Nat.mod_eq_of_lt index_lt,
    Nat.mod_eq_of_lt k_lt]

/-- Server 1 of three with a new log file. -/
def freshFollower : StoredServer :=
  start chunkFormat ((ClusterConfig.threeServers 2).serverConfig 1) [0, 0, 0, 0] (.zero 1)

/-- The leader of term 1 sends entries from index 1 on. -/
def sendFirst (entries : List LogEntry) : Label :=
  .process 0 (.appendEntries
    { term := 1, groupId := 0, leaderId := 0, prevLogIndex := 0, prevLogTerm := 0, prevK := 0, leaderCommit := 0,
      entryCnt := entries.length, entries := entries }) 1

/-- Two entries are stored and then both replaced. -/
theorem settled_file_is_log_bothReplaced : ∃ σ,
    Steps.Reach (step chunkFormat) (careful chunkFormat) freshFollower σ ∧ σ.disk.Settled ∧
    σ.disk.file.logEntries chunkFormat = [{}, chunkEntry 1 1 1, chunkEntry 1 2 1] := by
  have fits : ∀ k < 256, ∀ e ∈ [chunkEntry 1 1 k, chunkEntry 1 2 k], chunkFormat.Fits e := by
    intro k k_lt e member
    rcases List.mem_pair.mp member with rfl | rfl
    · exact chunkFormat_fits (by decide) (by decide) k_lt
    · exact chunkFormat_fits (by decide) (by decide) k_lt
  have run : Steps.Reach (step chunkFormat) (careful chunkFormat) freshFollower _ :=
    (Steps.Reach.refl.next (l := sendFirst [chunkEntry 1 1 2, chunkEntry 1 2 2])
      ⟨fun _ none => (nomatch none), fun _ => ⟨rfl, fits 2 (by decide), by decide +kernel⟩⟩ rfl).next
      (l := sendFirst [chunkEntry 1 1 1, chunkEntry 1 2 1])
      ⟨fun _ none => (nomatch none), fun _ => ⟨rfl, fits 1 (by decide), by decide +kernel⟩⟩ rfl
  have mirrored := settled_file_is_log rfl run (by decide +kernel)
  exact ⟨_, run, by decide +kernel, mirrored.1.trans (by decide +kernel)⟩

/-- Only the first of two entries is replaced: the file loses the second. -/
theorem overwrite_drops_tail : ∃ σ, Steps.Reach (step chunkFormat) (fun _ _ => True) freshFollower σ ∧ σ.disk.Settled ∧
    σ.raft.lm.entries = [chunkEntry 1 1 1, chunkEntry 1 2 2] ∧
    σ.disk.file.logEntries chunkFormat = [{}, chunkEntry 1 1 1] :=
  ⟨_, (Steps.Reach.refl.next (l := sendFirst [chunkEntry 1 1 2, chunkEntry 1 2 2]) trivial rfl).next
    (l := sendFirst [chunkEntry 1 1 1]) trivial rfl, by decide +kernel, by decide +kernel, by decide +kernel⟩

end StoredServer

end FlexRaft
