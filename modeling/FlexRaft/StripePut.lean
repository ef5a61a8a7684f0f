import FlexRaft.Seclusion
import FlexRaft.StateLock
import FlexRaft.StripeFormat

namespace FlexRaft

/-- The results of the modelled requests. -/
inductive ErrorType
  | kNotALeader
  | kKeyNotExist
  | kRequestExecTimeout
  | kOk
  deriving DecidableEq, Repr

/-- Where a `StripePut` call is: before `Propose`, in the loop that waits for the commit index, or back with a
result. Index and term are those that `Propose` returned. -/
inductive PutPhase
  | proposing
  | waiting (index term retry : Nat)
  | returned (err : ErrorType) (index term : Nat)
  deriving DecidableEq, Repr

structure PutCall where
  server : Nat
  cmd : StripeWriteCommand
  phase : PutPhase
  deriving DecidableEq, Repr

def PutCall.isReturned (put : PutCall) : Bool :=
  match put.phase with
  | .returned _ _ _ => true
  | _ => false

/-- The command of a put; the value starts behind its length. -/
def StripeWriteCommand.commandData (cmd : StripeWriteCommand) : CommandData :=
  { startFragmentOffset := 4 + 8 + 1 + 8 + cmd.userKey.length + 8, commandData := cmd.serialize }

def Message.isFragmentsAnswer : Message → Bool
  | .requestFragmentsReply _ => true
  | _ => false

/-- A group of a `RaftStore` with the `StripePut` calls made so far. A server is `hung` if one of its threads waits
for the mutex `mtx_` that it holds itself. -/
structure PutGroup where
  cluster : Cluster
  hung : List Nat
  puts : List PutCall

/-- A step of the group itself, the answer to a `RequestFragments` call, a restart or a step of one of the puts. -/
inductive PutLabel
  | raft (l : Label)
  | answer (n : Nat)
  | restart (server : Nat) (junk : RaftState.Uninitialised)
  | startPut (server : Nat) (key value : Slice)
  | proposePut (n : Nat)
  | pollPut (n : Nat)

namespace PutGroup

open RaftState

def init (c : ClusterConfig) (junk : Nat → Uninitialised) : PutGroup :=
  { cluster := Cluster.init c junk, hung := [], puts := [] }

def kMaxRetries : Nat := 50

/-- The mutex of the server can be taken. -/
def free (γ : PutGroup) (server : Nat) : Bool := !γ.hung.contains server

/-- `Tick`, `Propose` and `Process` take the mutex of the server, the replication of a new entry does not. -/
def runs (γ : PutGroup) : Label → Bool
  | .tick i _ | .propose i _ => γ.free i
  | .replicate _ => true
  | .deliver n _ => (γ.cluster.net[n]?).all fun p => γ.free p.dst && !p.msg.isFragmentsAnswer
  | .restart _ _ _ => false

def raftStep (γ : PutGroup) (l : Label) : Option PutGroup :=
  if γ.runs l then (γ.cluster.step l).map fun σ => { γ with cluster := σ } else none

/-- The thread that has sent a `RequestFragments` message holds the mutex in `collectFragments`. It waits for the
answer and hands it to `Process`, which takes the mutex a second time (`Thread.collectFragments_deadlocks`). -/
def answer (γ : PutGroup) (n : Nat) : Option PutGroup :=
  match γ.cluster.net[n]? with
  | none => none
  | some p =>
    if γ.cluster.isUp p.dst && γ.free p.dst && p.msg.isFragmentsAnswer then
      some { γ with cluster.net := γ.cluster.net.eraseIdx n, hung := p.dst :: γ.hung }
    else none

/-- The servers of a `RaftStore` have no storage, so a new process starts with an empty log. The calls on a server
end with its process. -/
def restart (γ : PutGroup) (server : Nat) (junk : Uninitialised) : Option PutGroup :=
  (γ.cluster.step (.restart server {} junk)).map fun σ =>
    { cluster := σ
      hung := γ.hung.filter fun other => other != server
      puts := γ.puts.filter fun put => put.server != server || put.isReturned }

/-- `StripePut` up to the construction of the command. -/
def startPut (γ : PutGroup) (server : Nat) (key value : Slice) : Option PutGroup :=
  if γ.cluster.isUp server then
    let cmd : StripeWriteCommand :=
      { groupId := γ.cluster.config.groupId
        userKey := key
        userValue := value
        encodingMode := γ.cluster.config.encodingMode }
    let phase := if (γ.cluster.servers server).role = .kLeader then .proposing else .returned .kNotALeader 0 0
    some { γ with puts := γ.puts ++ [{ server := server, cmd := cmd, phase := phase }] }
  else none

def proposePut (γ : PutGroup) (n : Nat) : Option PutGroup :=
  match γ.puts[n]? with
  | some { server, cmd, phase := .proposing } =>
    let result := ((γ.cluster.servers server).propose cmd.commandData).2
    let phase := if result.isLeader then .waiting result.proposeIndex result.proposeTerm 0
      else .returned .kNotALeader 0 0
    (γ.raftStep (.propose server cmd.commandData)).map fun γ' =>
      { γ' with puts := γ.puts.set n { server := server, cmd := cmd, phase := phase } }
  | _ => none

/-- One round of the loop. Only the commit index is looked at. -/
def pollPut (γ : PutGroup) (n : Nat) : Option PutGroup :=
  match γ.puts[n]? with
  | some { server, cmd, phase := .waiting index term retry } =>
    if γ.cluster.isUp server then
      let phase := if retry = kMaxRetries then .returned .kRequestExecTimeout index term
        else if index ≤ (γ.cluster.servers server).commitIndex then .returned .kOk index term
        else .waiting index term (retry + 1)
      some { γ with puts := γ.puts.set n { server := server, cmd := cmd, phase := phase } }
    else none
  | _ => none

def step (γ : PutGroup) : PutLabel → Option PutGroup
  | .raft l => γ.raftStep l
  | .answer n => γ.answer n
  | .restart server junk => γ.restart server junk
  | .startPut server key value => γ.startPut server key value
  | .proposePut n => γ.proposePut n
  | .pollPut n => γ.pollPut n

/-- The entry at `index` in the log of the server that the put was sent to is the put's, of the given term. -/
def IsEntry (γ : PutGroup) (put : PutCall) (index term : Nat) : Prop :=
  ∃ e, (γ.cluster.servers put.server).lm.getSingleLogEntry index = some e ∧ e.term = term ∧
    e.commandData = put.cmd.serialize

/-- A put waits on the preferred server, whose log has its entry. -/
structure Waits (σ : Cluster) (put : PutCall) (index term : Nat) : Prop where
  server : put.server = σ.config.groupId
  member : σ.config.groupId < σ.config.size
  entry : ∃ j e, index = j + 1 ∧ σ.preferred.lm.entries[j]? = some e ∧ e.term = term ∧
    e.commandDataField = put.cmd.serialize

structure Keeping (γ : PutGroup) : Prop where
  secluded : γ.cluster.Secluded
  intact : γ.cluster.config.groupId < γ.cluster.config.size → γ.cluster.preferred.Intact
  waits : ∀ put ∈ γ.puts, ∀ index term retry, put.phase = .waiting index term retry →
    Waits γ.cluster put index term

section Run

variable {γ γ' : PutGroup} {σ' : Cluster} {l : Label} {put : PutCall} {index term n : Nat} {server : Nat}

theorem of_raftStep (step : γ.raftStep l = some γ') :
    ∃ σ', γ.runs l = true ∧ γ.cluster.step l = some σ' ∧ γ' = { γ with cluster := σ' } := by
  unfold raftStep at step
  split at step
  · obtain ⟨σ', steps, rfl⟩ := Option.map_eq_some_iff.mp step
    exact ⟨σ', ‹_›, steps, rfl⟩
  · cases step

theorem answerCorroborates_of_not_answer {s : RaftState} {msg : Message} (other : msg.isFragmentsAnswer = false) :
    s.AnswerCorroborates msg := by
  cases msg with
  | requestFragmentsReply reply => cases other
  | _ => trivial

/-- No answer reaches the stripe store of a pre-leader. -/
theorem attested_of_runs (runs : γ.runs l = true) : γ.cluster.attested l := by
  cases l with
  | tick | propose | replicate => exact ⟨trivial, by simp [Cluster.delivered]⟩
  | deliver n now =>
    refine ⟨trivial, fun p found => ?_⟩
    have at_n : γ.cluster.net[n]? = some p := found
    simp only [PutGroup.runs, at_n, Option.all_some, Bool.and_eq_true, Bool.not_eq_true'] at runs
    exact answerCorroborates_of_not_answer runs.2
  | restart => cases runs

theorem attested_restart (server : Nat) (junk : Uninitialised) : γ.cluster.attested (.restart server {} junk) :=
  ⟨fun _ => List.nil_prefix, by simp [Cluster.delivered]⟩

theorem Keeping.waits_step (inv : γ.Keeping) (allowed : γ.cluster.attested l) (step : γ.cluster.step l = some σ')
    (alive : ∀ lm junk, l ≠ .restart put.server lm junk) (waits : Waits γ.cluster put index term) :
    Waits σ' put index term := by
  have config := (Cluster.step_happens inv.secluded.outbox step).config_eq
  obtain ⟨server, member, j, e, place, at_j, ofTerm, command⟩ := waits
  rw [server] at alive
  obtain ⟨f, at_f, same⟩ := inv.secluded.keeps_entry (inv.intact member) allowed alive step at_j
  refine ⟨config ▸ server, config ▸ member, j, f, place, at_f, ?_, ?_⟩
  · rw [same.term, ofTerm]
  · rw [same.command, command]

theorem Keeping.cluster_step (inv : γ.Keeping) (allowed : γ.cluster.attested l) (step : γ.cluster.step l = some σ')
    {hung : List Nat} {puts : List PutCall} (old : ∀ put ∈ puts, put ∈ γ.puts)
    (alive : ∀ put ∈ puts, put.isReturned = false → ∀ lm junk, l ≠ .restart put.server lm junk) :
    Keeping { cluster := σ', hung := hung, puts := puts } := by
  have happens := Cluster.step_happens inv.secluded.outbox step
  refine ⟨inv.secluded.happens happens, fun member => ?_, fun put inside index term retry phase => ?_⟩
  · rw [happens.config_eq] at member
    exact inv.secluded.intact_step (inv.intact member) allowed step
  · refine inv.waits_step allowed step (alive put inside ?_) (inv.waits put (old put inside) index term retry phase)
    rw [PutCall.isReturned, phase]

theorem Keeping.raftStep (inv : γ.Keeping) (step : γ.raftStep l = some γ') : γ'.Keeping := by
  obtain ⟨σ', runs, steps, rfl⟩ := of_raftStep step
  refine inv.cluster_step (attested_of_runs runs) steps (fun _ inside => inside) fun _ _ _ lm junk same => ?_
  subst same
  cases runs

theorem Keeping.restart (inv : γ.Keeping) {junk : Uninitialised}
    (step : γ.restart server junk = some γ') : γ'.Keeping := by
  obtain ⟨σ', steps, rfl⟩ := Option.map_eq_some_iff.mp step
  refine inv.cluster_step (attested_restart server junk) steps (fun _ inside => List.mem_of_mem_filter inside) ?_
  rintro put inside waits lm junk' same
  cases same
  have survives := List.of_mem_filter inside
  simp [waits] at survives

theorem Keeping.answer (inv : γ.Keeping) (step : γ.answer n = some γ') : γ'.Keeping := by
  unfold PutGroup.answer at step
  split at step
  · cases step
  · split at step
    · cases step
      have kept : ∀ p ∈ γ.cluster.net.eraseIdx n, p ∈ γ.cluster.net := fun p => List.mem_of_mem_eraseIdx
      refine ⟨⟨inv.secluded.config, inv.secluded.outbox, inv.secluded.followers,
        fun p onWire => inv.secluded.requests p (kept p onWire), fun p onWire => inv.secluded.answers p (kept p onWire),
        inv.secluded.calls⟩, inv.intact, fun put inside index term retry phase => ?_⟩
      obtain ⟨server, member, entry⟩ := inv.waits put inside index term retry phase
      exact ⟨server, member, entry⟩
    · cases step

theorem Keeping.startPut (inv : γ.Keeping) {key value : Slice}
    (step : γ.startPut server key value = some γ') : γ'.Keeping := by
  unfold PutGroup.startPut at step
  split at step
  · cases step
    refine ⟨inv.secluded, inv.intact, fun put inside index term retry phase => ?_⟩
    rcases List.mem_append.mp inside with old | new
    · exact inv.waits put old index term retry phase
    · rw [List.mem_singleton.mp new] at phase
      dsimp only at phase
      split at phase <;> cases phase
  · cases step

/-- Replacing one call by another that waits, if at all, for an entry of its own. -/
theorem Keeping.set (inv : γ.Keeping) (waits : ∀ index term retry, put.phase = .waiting index term retry →
    Waits γ.cluster put index term) : Keeping { γ with puts := γ.puts.set n put } := by
  refine ⟨inv.secluded, inv.intact, fun other inside => ?_⟩
  rcases List.mem_or_eq_of_mem_set inside with old | rfl
  · exact inv.waits other old
  · exact waits

theorem Keeping.pollPut (inv : γ.Keeping) (step : γ.pollPut n = some γ') : γ'.Keeping := by
  unfold PutGroup.pollPut at step
  split at step
  · rename_i server cmd index term retry found
    split at step
    · cases step
      refine inv.set fun index' term' retry' phase => ?_
      obtain ⟨server, member, entry⟩ := inv.waits _ (List.mem_of_getElem? found) index term retry rfl
      dsimp only at phase
      split at phase
      · cases phase
      · split at phase
        · cases phase
        · cases phase
          exact ⟨server, member, entry⟩
    · cases step
  · cases step

/-- `Propose` puts the command behind the log of the preferred server and returns where. -/
theorem Keeping.waits_proposed (inv : γ.Keeping) {cmd : StripeWriteCommand} {phase : PutPhase}
    (step : γ.cluster.stepPropose server cmd.commandData = some σ')
    (accepted : ((γ.cluster.servers server).propose cmd.commandData).2.isLeader = true) :
    Waits σ' { server := server, cmd := cmd, phase := phase }
      ((γ.cluster.servers server).propose cmd.commandData).2.proposeIndex
      ((γ.cluster.servers server).propose cmd.commandData).2.proposeTerm := by
  rcases propose_spec (γ.cluster.servers server) cmd.commandData with
    ⟨refused, _⟩ | ⟨_, leads, index, term, e, entry, run⟩
  · cases accepted.symm.trans refused
  have same : server = γ.cluster.config.groupId := inv.secluded.leader_eq fun follower => by
    cases leads.symm.trans follower
  subst same
  unfold Cluster.stepPropose at step
  split at step
  · rename_i up
    have member : γ.cluster.config.groupId < γ.cluster.config.size := by
      simp only [Cluster.isUp, Bool.and_eq_true, decide_eq_true_eq] at up
      exact up.1
    simp only [accepted, if_true, Option.some.injEq, run] at step
    subst step
    refine ⟨rfl, member, γ.cluster.preferred.lm.entries.length, e, ?_, ?_, entry.term.trans term.symm,
      entry.commandData⟩
    · rw [index, ← (inv.intact member).log.indexed.lastLogEntryIndex_eq]
      rfl
    · simp [Cluster.preferred, Cluster.run, Cluster.record, flush, LogManager.appendLogEntry]
  · cases step

theorem Keeping.proposePut (inv : γ.Keeping) (step : γ.proposePut n = some γ') : γ'.Keeping := by
  unfold PutGroup.proposePut at step
  split at step
  · rename_i server cmd found
    obtain ⟨γ₁, proposes, rfl⟩ := Option.map_eq_some_iff.mp step
    have kept := inv.raftStep proposes
    obtain ⟨σ', _, proposed, rfl⟩ := of_raftStep proposes
    refine kept.set fun index term retry phase => ?_
    dsimp only at phase
    split at phase
    · cases phase
      exact inv.waits_proposed proposed ‹_›
    · cases phase
  · cases step

theorem Keeping.step (inv : γ.Keeping) {l : PutLabel} (step : γ.step l = some γ') : γ'.Keeping := by
  cases l with
  | raft l => exact inv.raftStep step
  | answer n => exact inv.answer step
  | restart server junk => exact inv.restart step
  | startPut server key value => exact inv.startPut step
  | proposePut n => exact inv.proposePut step
  | pollPut n => exact inv.pollPut step

theorem keeping_init (c : ClusterConfig) (junk : Nat → Uninitialised) : (init c junk).Keeping :=
  ⟨Cluster.secluded_init c junk, Cluster.intact_init junk, nofun⟩

/-- Runs of the group with its puts. -/
abbrev Reach : PutGroup → PutGroup → Prop := Steps.Reach PutGroup.step fun _ _ => True

abbrev exec : PutGroup → List PutLabel → Option PutGroup := Steps.exec PutGroup.step fun _ _ => True

theorem Reach.keeping {c : ClusterConfig} {junk : Nat → Uninitialised} (reach : Reach (init c junk) γ) : γ.Keeping :=
  reach.holds (keeping_init c junk) fun _ _ _ inv _ step => inv.step step

/-- A put that returns `kOk` has found its index committed, and the log has the put's own entry there. -/
theorem put_ok_commits_own_entry {c : ClusterConfig} {junk : Nat → Uninitialised} (reach : Reach (init c junk) γ)
    (poll : γ.step (.pollPut n) = some γ') (returns : γ'.puts[n]? = some put)
    (ok : put.phase = .returned .kOk index term) :
    index ≤ (γ'.cluster.servers put.server).commitIndex ∧ γ'.IsEntry put index term := by
  have inv := reach.keeping
  change γ.pollPut n = some γ' at poll
  unfold PutGroup.pollPut at poll
  split at poll
  · rename_i server cmd index' term' retry found
    split at poll
    · cases poll
      rw [List.getElem?_set_self (List.getElem?_eq_some_iff.mp found).1] at returns
      cases returns
      dsimp only at ok
      split at ok
      · cases ok
      · split at ok
        · rename_i committed
          cases ok
          obtain ⟨same, member, j, e, rfl, at_j, ofTerm, command⟩ :=
            inv.waits _ (List.mem_of_getElem? found) _ _ retry rfl
          obtain ⟨log, _⟩ := inv.intact member
          dsimp only at same
          subst same
          refine ⟨committed, e, ?_, ofTerm, ?_⟩
          · exact (log.indexed.getSingleLogEntry_succ j).trans at_j
          · rw [LogEntry.commandData, if_pos (log.normal j e at_j), command]
        · cases ok
    · cases poll
  · cases poll

end Run

/-- Three servers of a `RaftStore`, which have no storage; server 0 is preferred. -/
def threeStores : ClusterConfig :=
  { ClusterConfig.threeServers 0 with
    hasRsm := fun _ => false
    hasBridge := fun _ => true
    hasStorage := fun _ => false }

/-- Server 0 restarts with term 0, while server 2 has its vote of term 2. It leads in term 1 and proposes a put, which
server 1 stores. Then it hears of term 2 and leads again in term 3. -/
def ledTwice : List PutLabel :=
  [.raft (.tick 0 { electionExpired := true }), .raft (.tick 0 { electionExpired := true }), .raft (.deliver 3 1),
    .restart 0 (.zero 0), .raft (.tick 0 { electionExpired := true }), .raft (.deliver 4 1), .raft (.deliver 5 1),
    .startPut 0 [97] [1, 2], .proposePut 0, .raft (.replicate 0), .raft (.deliver 7 1), .raft (.deliver 10 1),
    .raft (.deliver 6 1), .raft (.deliver 9 1), .raft (.tick 0 { electionExpired := true }), .raft (.deliver 9 1),
    .raft (.deliver 10 1)]

theorem put_ok_commits_own_entry_ledTwice : ∃ γ γ' put, Reach (init threeStores .zero) γ ∧
    (γ.cluster.servers 0).role = .kLeader ∧ (γ.cluster.servers 0).currentTerm = 3 ∧
    γ.step (.pollPut 0) = some γ' ∧ γ'.puts[0]? = some put ∧ put.cmd.userKey = [97] ∧ put.cmd.userValue = [1, 2] ∧
    put.phase = .returned .kOk 1 1 ∧ γ'.IsEntry put 1 1 := by
  refine ⟨(exec (init threeStores .zero) ledTwice).get (by decide +kernel),
    (step ((exec (init threeStores .zero) ledTwice).get (by decide +kernel)) (.pollPut 0)).get (by decide +kernel),
    { server := 0, cmd := { groupId := 0, userKey := [97], userValue := [1, 2], encodingMode := 0 },
      phase := .returned .kOk 1 1 }, .of_get _, by decide +kernel, by decide +kernel, (Option.some_get _).symm,
    by decide +kernel, rfl, rfl, rfl, ?_⟩
  exact (put_ok_commits_own_entry (.of_get _) (Option.some_get _).symm (by decide +kernel) rfl).2

end PutGroup

end FlexRaft
