import FlexRaft.Cluster
import FlexRaft.Turns

namespace FlexRaft

variable {call : Call} {replies : Replies} {now : Nat} {s : RaftState}

/-- A thread inside a call: the server it works on, whether it holds `mtx_`, and whether it waits for
`mtx_` while it holds it. -/
structure Thread where
  server : RaftState
  holds : Bool
  deadlocked : Bool

/-- What the peers answer to a synchronous `RequestFragments` call; `none` is an exception. -/
abbrev Replies := Nat → Option RequestFragmentsReply

/-- A call into a server. `read` is the role that `Tick` has seen before it takes the lock. -/
inductive Call
  | tick (read : RaftRole) (timers : Timers)
  | propose (command : CommandData)
  | process (src : Nat) (msg : Message)

namespace RaftState

/-- `collectFragments` before its requests. -/
def openCollectTask (s : RaftState) : RaftState :=
  let store := s.preleaderStripeStore.initRequestFragmentsTask (s.commitIndex + 1) s.lm.lastLogEntryIndex
    s.getClusterServerNumber s.id
  match s.addOwnEntries store.startIndex store.stripes with
  | none => { s with preleaderStripeStore := store }.stop
  | some stripes => { s with preleaderStripeStore := { store with stripes := stripes } }

/-- `startElection` before it looks at the number of votes. -/
def standForElection (s : RaftState) : RaftState :=
  { s with currentTerm := s.currentTerm + 1, voteFor := s.id, voteMeCnt := 1 }.persistRaftState

end RaftState

namespace Thread

def enter (s : RaftState) : Thread := { server := s, holds := false, deadlocked := false }

/-- Code that neither takes nor releases the lock. -/
def work (f : RaftState → RaftState) (t : Thread) : Thread := { t with server := f t.server }

/-- A thread that waits for itself and a process that has stopped execute nothing further. -/
def andThen (t : Thread) (f : Thread → Thread) : Thread := if t.deadlocked || t.server.stopped then t else f t

def forEach (f : Thread → Nat → Thread) : List Nat → Thread → Thread
  | [], t => t
  | peer :: rest, t => (f t peer).andThen (forEach f rest)

def lock (t : Thread) : Thread := if t.holds then { t with deadlocked := true } else { t with holds := true }

def unlock (t : Thread) : Thread := { t with holds := false }

/-- The scope of a `std::scoped_lock` on `mtx_`. -/
def underLock (body : Thread → Thread) (t : Thread) : Thread := (t.lock.andThen body).andThen unlock

section Calls

variable (replies : Replies) (now : Nat)

def processRequestFragmentsReply (reply : RequestFragmentsReply) (t : Thread) : Thread :=
  t.underLock (work fun s => s.processRequestFragmentsReply reply now)

/-- `RCFRpcClient::sendMessage` with `RequestFragmentsArgs`: the thread waits for the peer and handles
the reply itself. -/
def sendRequestFragments (t : Thread) (peer : Nat) : Thread :=
  if peer = t.server.id then t
  else
    let t := t.work fun s => s.requestFragments peer
    match replies peer with
    | none => t
    | some reply => t.processRequestFragmentsReply now reply

def collectFragments (t : Thread) : Thread :=
  (t.work RaftState.openCollectTask).andThen fun t =>
    forEach (sendRequestFragments replies now) t.server.peers t

def convertToPreLeader (t : Thread) : Thread :=
  let t := t.work fun s => { s with role := .kPreLeader }
  if t.server.commitIndex = t.server.lm.lastLogEntryIndex then t.work RaftState.convertToLeaderInternal
  else t.collectFragments replies now

def startElection (t : Thread) : Thread :=
  if t.server.role ≠ .kCandidate then t.work RaftState.stop
  else
    let t := t.work RaftState.standForElection
    if t.server.livenessLevel + 1 ≤ t.server.voteMeCnt then t.convertToPreLeader replies now
    else t.work fun s => RaftState.forEach RaftState.requestVote s.peers s

def convertToCandidate (t : Thread) : Thread :=
  (t.work fun s => { s with role := .kCandidate, electionRound := s.electionRound + 1 }).startElection replies now

def tickOnFollower (timers : Timers) (t : Thread) : Thread :=
  if !timers.electionExpired then t
  else if !t.server.isEligibleForElection then t
  else t.convertToCandidate replies now

def tickOnCandidate (timers : Timers) (t : Thread) : Thread :=
  if !timers.electionExpired then t
  else if !t.server.isEligibleForElection then
    t.work fun s => { s.convertToFollower s.currentTerm with electionRound := s.electionRound + 1 }
  else t.startElection replies now

def tickOnPreLeader (timers : Timers) (t : Thread) : Thread :=
  (t.work RaftState.preLeaderBecomeLeader).andThen fun t =>
    if timers.collectDue then t.collectFragments replies now else t

/-- The role is read again under the lock, and the messages go out after its release. -/
def tickOnLeader (timers : Timers) (t : Thread) : Thread :=
  (t.underLock fun t => t).andThen fun t =>
    if t.server.role ≠ .kLeader then t else t.work fun s => s.sendAsLeader timers

def tick (read : RaftRole) (timers : Timers) (t : Thread) : Thread :=
  match read with
  | .kFollower => t.underLock (tickOnFollower replies now timers)
  | .kCandidate => t.underLock (tickOnCandidate replies now timers)
  | .kPreLeader => t.underLock (tickOnPreLeader replies now timers)
  | .kLeader => t.tickOnLeader timers

/-- The body of `Process(RequestVoteReply *)` under the lock. -/
def processRequestVoteReply (reply : RequestVoteReply) (t : Thread) : Thread :=
  let t := t.work fun s => s.updateLiveness reply.replyId now
  if t.server.role ≠ .kCandidate ∨ reply.term < t.server.currentTerm then t
  else if t.server.currentTerm < reply.term then t.work fun s => s.convertToFollower reply.term
  else if reply.voteGranted then
    let t := t.work RaftState.incrementVoteMeCnt
    if t.server.livenessLevel + 1 ≤ t.server.voteMeCnt then t.convertToPreLeader replies now else t
  else t

/-- Every handler takes the lock for its whole body; the update of the liveness before it has no part in this. -/
def process (src : Nat) (msg : Message) (t : Thread) : Thread :=
  match msg with
  | .requestVoteReply reply => t.underLock (processRequestVoteReply replies now reply)
  | .requestFragmentsReply reply => t.processRequestFragmentsReply now reply
  | msg => t.underLock (work fun s => s.process src msg now)

/-- The new entry is replicated after the critical section. -/
def propose (command : CommandData) (t : Thread) : Thread :=
  let result := (t.server.propose command).2
  (t.underLock (work fun s => (s.propose command).1)).andThen fun t =>
    if result.isLeader then t.work fun s => s.replicateNewProposeEntry result.proposeIndex else t

end Calls

end Thread

namespace Call

/-- A whole call by a thread that holds nothing. The peers it asks answer `replies`. -/
def run (call : Call) (replies : Replies) (now : Nat) (s : RaftState) : Thread :=
  match call with
  | .tick read timers => (Thread.enter s).tick replies now read timers
  | .propose command => (Thread.enter s).propose command
  | .process src msg => (Thread.enter s).process replies now src msg

/-- What a call does to the server as long as no peer answers. -/
def effect (now : Nat) (s : RaftState) : Call → RaftState
  | .tick .kFollower timers => s.tickOnFollower timers
  | .tick .kCandidate timers => s.tickOnCandidate timers
  | .tick .kPreLeader timers => s.tickOnPreLeader timers
  | .tick .kLeader timers => if s.role ≠ .kLeader then s else s.sendAsLeader timers
  | .propose command =>
    let (s, result) := s.propose command
    s.andThen fun s => if result.isLeader then s.replicateNewProposeEntry result.proposeIndex else s
  | .process src msg => s.process src msg now

/-- The call gets to `collectFragments` while it holds the lock. A `Tick` does so where a single vote is
enough to win, or when a pre-leader asks again; the vote that wins an election does so too. -/
def collects (s : RaftState) : Call → Bool
  | .tick .kFollower timers => timers.electionExpired && s.isEligibleForElection && decide (s.livenessLevel = 0) &&
      decide (s.commitIndex ≠ s.lm.lastLogEntryIndex)
  | .tick .kCandidate timers => timers.electionExpired && s.isEligibleForElection && decide (s.role = .kCandidate) &&
      decide (s.livenessLevel = 0) && decide (s.commitIndex ≠ s.lm.lastLogEntryIndex)
  | .tick .kPreLeader timers => timers.collectDue && !s.preLeaderBecomeLeader.stopped
  | .process _ (.requestVoteReply reply) => decide (s.role = .kCandidate) && decide (reply.term = s.currentTerm) &&
      reply.voteGranted && decide (s.livenessLevel ≤ s.voteMeCnt) && decide (s.commitIndex ≠ s.lm.lastLogEntryIndex)
  | _ => false

end Call

namespace RaftState

variable {s : RaftState}

theorem collectFragments_eq (running : s.stopped = false) :
    s.collectFragments = s.openCollectTask.andThen fun s => forEach requestFragments s.peers s := by
  unfold collectFragments openCollectTask
  dsimp only
  generalize s.preleaderStripeStore.initRequestFragmentsTask (s.commitIndex + 1) s.lm.lastLogEntryIndex
    s.getClusterServerNumber s.id = store
  cases added : s.addOwnEntries store.startIndex store.stripes with
  | none => rfl
  | some stripes =>
    simp only [running]
    rfl

theorem openCollectTask_peers (s : RaftState) : s.openCollectTask.peers = s.peers := by
  unfold openCollectTask
  dsimp only
  split <;> rfl

theorem startElection_of_candidate (candidate : s.role = .kCandidate) :
    s.startElection = if s.livenessLevel + 1 ≤ 1 then s.standForElection.convertToPreLeader
      else forEach requestVote s.peers s.standForElection := by
  unfold startElection
  rw [if_neg (not_not_intro candidate)]
  rfl

end RaftState

namespace Thread

variable (replies : Replies) (now : Nat) {t : Thread} {timers : Timers}

theorem work_andThen_work (awake : t.deadlocked = false) (f g : RaftState → RaftState) :
    (t.work f).andThen (work g) = t.work fun s => (f s).andThen g := by
  unfold andThen RaftState.andThen work
  simp only [awake, Bool.false_or]
  split <;> rfl

theorem forEach_eq_work {f : Thread → Nat → Thread} {g : RaftState → Nat → RaftState} (rounds : List Nat)
    (awake : t.deadlocked = false)
    (plain : ∀ t, t.deadlocked = false → ∀ peer ∈ rounds, f t peer = t.work fun s => g s peer) :
    forEach f rounds t = t.work (RaftState.forEach g rounds) := by
  induction rounds generalizing t with
  | nil => rfl
  | cons peer rest ih =>
    have first := plain t awake peer List.mem_cons_self
    have others : ∀ t, t.deadlocked = false → forEach f rest t = t.work (RaftState.forEach g rest) :=
      fun t awake => ih awake fun t awake p member => plain t awake p (List.mem_cons_of_mem peer member)
    unfold forEach andThen
    rw [first]
    split
    · rename_i ended
      have stopped : (g t.server peer).stopped = true := by simpa [work, awake] using ended
      simp [work, RaftState.forEach, RaftState.andThen, stopped]
    · rename_i goes
      have running : (g t.server peer).stopped = false := by simpa [work, awake] using goes
      rw [others (t.work fun s => g s peer) awake]
      simp [work, RaftState.forEach, RaftState.andThen, running]

/-- A request that ends in an exception leaves the lock alone. -/
theorem sendRequestFragments_eq {peer : Nat} (silent : replies peer = none) :
    t.sendRequestFragments replies now peer = t.work fun s => s.requestFragments peer := by
  unfold sendRequestFragments
  rw [silent]
  split
  · rename_i self
    simp [work, RaftState.requestFragments, self]
  · rfl

theorem collectFragments_eq (awake : t.deadlocked = false) (running : t.server.stopped = false)
    (silent : ∀ peer ∈ t.server.peers, replies peer = none) :
    t.collectFragments replies now = t.work RaftState.collectFragments := by
  have loop : ∀ u : Thread, u.deadlocked = false → u.server.peers = t.server.peers →
      forEach (sendRequestFragments replies now) u.server.peers u =
        u.work fun s => RaftState.forEach RaftState.requestFragments s.peers s := by
    intro u awake same
    exact forEach_eq_work _ awake fun v _ peer member => sendRequestFragments_eq replies now (silent peer (same ▸ member))
  have asked := loop (t.work RaftState.openCollectTask) awake (RaftState.openCollectTask_peers _)
  have whole := work_andThen_work awake RaftState.openCollectTask
    fun s => RaftState.forEach RaftState.requestFragments s.peers s
  unfold collectFragments
  rw [show t.work RaftState.collectFragments = t.work fun s => s.openCollectTask.andThen
    fun s => RaftState.forEach RaftState.requestFragments s.peers s by
      simp only [work, RaftState.collectFragments_eq running], ← whole]
  unfold andThen
  split
  · rfl
  · exact asked

theorem convertToPreLeader_eq (awake : t.deadlocked = false) (running : t.server.stopped = false)
    (silent : t.server.commitIndex ≠ t.server.lm.lastLogEntryIndex →
      ∀ peer ∈ t.server.peers, replies peer = none) :
    t.convertToPreLeader replies now = t.work RaftState.convertToPreLeader := by
  unfold convertToPreLeader RaftState.convertToPreLeader
  by_cases complete : t.server.commitIndex = t.server.lm.lastLogEntryIndex
  · simp [work, complete]
  · have collected := collectFragments_eq replies now
      (t := t.work fun s => { s with role := .kPreLeader }) awake running (silent complete)
    simp only [work, complete] at collected ⊢
    exact collected

theorem startElection_eq (awake : t.deadlocked = false) (running : t.server.stopped = false)
    (silent : t.server.role = .kCandidate → t.server.livenessLevel = 0 →
      t.server.commitIndex ≠ t.server.lm.lastLogEntryIndex → ∀ peer ∈ t.server.peers, replies peer = none) :
    t.startElection replies now = t.work RaftState.startElection := by
  by_cases candidate : t.server.role = .kCandidate
  · have stands := RaftState.startElection_of_candidate candidate
    unfold startElection
    rw [if_neg (not_not_intro candidate)]
    -- the only vote so far is the server's own
    change (if t.server.livenessLevel + 1 ≤ 1 then _ else _) = _
    by_cases alone : t.server.livenessLevel = 0
    · have converted := convertToPreLeader_eq replies now
        (t := t.work RaftState.standForElection) awake running (silent candidate alone)
      rw [if_pos (by omega)] at stands ⊢
      rw [converted]
      simp only [work, stands]
    · rw [if_neg (by omega)] at stands ⊢
      simp only [work, stands]
      rfl
  · simp [startElection, RaftState.startElection, work, candidate]

theorem convertToCandidate_eq (awake : t.deadlocked = false) (running : t.server.stopped = false)
    (silent : t.server.livenessLevel = 0 → t.server.commitIndex ≠ t.server.lm.lastLogEntryIndex →
      ∀ peer ∈ t.server.peers, replies peer = none) :
    t.convertToCandidate replies now = t.work RaftState.convertToCandidate :=
  startElection_eq replies now (t := t.work fun s => { s with role := .kCandidate, electionRound := s.electionRound + 1 })
    awake running fun _ => silent

theorem tickOnFollower_eq (awake : t.deadlocked = false) (running : t.server.stopped = false)
    (silent : (Call.tick .kFollower timers).collects t.server = true → ∀ peer ∈ t.server.peers, replies peer = none) :
    t.tickOnFollower replies now timers = t.work fun s => s.tickOnFollower timers := by
  unfold tickOnFollower RaftState.tickOnFollower
  by_cases expired : timers.electionExpired = true
  · by_cases eligible : t.server.isEligibleForElection = true
    · have converted := convertToCandidate_eq replies now awake running fun alone incomplete =>
        silent (by simp [Call.collects, expired, eligible, alone, incomplete])
      simp [work, expired, eligible, converted]
    · simp [work, eligible]
  · simp [work, expired]

theorem tickOnCandidate_eq (awake : t.deadlocked = false) (running : t.server.stopped = false)
    (silent : (Call.tick .kCandidate timers).collects t.server = true → ∀ peer ∈ t.server.peers, replies peer = none) :
    t.tickOnCandidate replies now timers = t.work fun s => s.tickOnCandidate timers := by
  unfold tickOnCandidate RaftState.tickOnCandidate
  by_cases expired : timers.electionExpired = true
  · by_cases eligible : t.server.isEligibleForElection = true
    · have started := startElection_eq replies now awake running fun candidate alone incomplete =>
        silent (by simp [Call.collects, expired, eligible, candidate, alone, incomplete])
      simp [work, expired, eligible, started]
    · simp [work, expired, eligible]
  · simp [work, expired]

theorem tickOnPreLeader_eq (awake : t.deadlocked = false)
    (silent : (Call.tick .kPreLeader timers).collects t.server = true → ∀ peer ∈ t.server.peers, replies peer = none) :
    t.tickOnPreLeader replies now timers = t.work fun s => s.tickOnPreLeader timers := by
  unfold RaftState.tickOnPreLeader tickOnPreLeader
  rw [← work_andThen_work awake]
  unfold andThen
  split
  · rfl
  · rename_i goes
    have running : t.server.preLeaderBecomeLeader.stopped = false := by simpa [work, awake] using goes
    have config := (RaftState.Presides.preLeaderBecomeLeader t.server).same.config
    by_cases due : timers.collectDue = true
    · have collected := collectFragments_eq replies now
        (t := t.work RaftState.preLeaderBecomeLeader) awake running fun peer member =>
          silent (by simp [Call.collects, due, running]) peer (by simpa [RaftState.peers, work, config] using member)
      simpa only [due, if_true] using collected
    · simp [work, due]

theorem processRequestVoteReply_eq (src : Nat) {reply : RequestVoteReply} (awake : t.deadlocked = false)
    (running : t.server.stopped = false)
    (silent : (Call.process src (.requestVoteReply reply)).collects t.server = true →
      ∀ peer ∈ t.server.peers, replies peer = none) :
    t.processRequestVoteReply replies now reply = t.work fun s => s.processRequestVoteReply reply now := by
  unfold processRequestVoteReply RaftState.processRequestVoteReply
  dsimp only [work]
  split
  · rfl
  · rename_i current
    split
    · rfl
    · rename_i older
      split
      · rename_i granted
        split
        · rename_i won
          have counted := convertToPreLeader_eq replies now
            (t := (t.work fun s => s.updateLiveness reply.replyId now).work RaftState.incrementVoteMeCnt)
            awake running fun incomplete => silent ?_
          · exact counted
          · simp only [RaftState.updateLiveness, not_or, not_not, not_lt] at current older
            have enough : t.server.livenessLevel ≤ t.server.voteMeCnt := Nat.le_of_succ_le_succ won
            have same : reply.term = t.server.currentTerm := Nat.le_antisymm older current.2
            have open_ : t.server.commitIndex ≠ t.server.lm.lastLogEntryIndex := incomplete
            simp [Call.collects, current.1, same, granted, enough, open_]
        · rfl
      · rfl

theorem underLock_plain (body : Thread → Thread) (f : RaftState → RaftState) (free : t.holds = false)
    (awake : t.deadlocked = false) (running : t.server.stopped = false)
    (plain : ∀ u : Thread, u.deadlocked = false → u.server = t.server → body u = u.work f) :
    (t.underLock body).deadlocked = false ∧ (t.underLock body).server = f t.server := by
  have inside : t.lock.andThen body = { t with server := f t.server, holds := true } := by
    simp [lock, free, andThen, awake, running, plain, work]
  unfold underLock
  rw [inside]
  unfold andThen
  split
  · exact ⟨awake, rfl⟩
  · exact ⟨awake, rfl⟩

theorem andThen_plain {g : Thread → Thread} {h : RaftState → RaftState} (awake : t.deadlocked = false)
    (plain : g t = t.work h) : (t.andThen g).deadlocked = false ∧ (t.andThen g).server = t.server.andThen h := by
  unfold andThen RaftState.andThen
  rw [awake, Bool.false_or, plain]
  split
  · exact ⟨awake, rfl⟩
  · exact ⟨awake, rfl⟩

end Thread

/-- A call during which no peer answers a request made under the lock never waits for itself, and does to
the server what the model of the call says. -/
theorem Call.run_effect (running : s.stopped = false)
    (silent : call.collects s = true → ∀ peer ∈ s.peers, replies peer = none) :
    (call.run replies now s).deadlocked = false ∧ (call.run replies now s).server = call.effect now s := by
  have underLock := fun body f => Thread.underLock_plain (t := Thread.enter s) body f rfl rfl running
  cases call with
  | tick read timers =>
    cases read with
    | kFollower =>
      exact underLock _ _ fun u awake same => Thread.tickOnFollower_eq replies now awake (same ▸ running) (same ▸ silent)
    | kCandidate =>
      exact underLock _ _ fun u awake same => Thread.tickOnCandidate_eq replies now awake (same ▸ running) (same ▸ silent)
    | kPreLeader =>
      exact underLock _ _ fun u awake same => Thread.tickOnPreLeader_eq replies now awake (same ▸ silent)
    | kLeader =>
      obtain ⟨awake, same⟩ := underLock (fun u => u) id fun _ _ _ => rfl
      have sent := Thread.andThen_plain (g := fun u => if u.server.role ≠ .kLeader then u
          else u.work fun s => s.sendAsLeader timers)
        (h := fun s => if s.role ≠ .kLeader then s else s.sendAsLeader timers) awake (by
          split <;> rename_i leads <;> simp [Thread.work, leads])
      rw [same] at sent
      refine ⟨sent.1, sent.2.trans ?_⟩
      change s.andThen _ = if s.role ≠ .kLeader then s else s.sendAsLeader timers
      simp [RaftState.andThen, running]
  | propose command =>
    obtain ⟨awake, same⟩ := underLock _ (fun s => (s.propose command).1) fun _ _ _ => rfl
    have sent := Thread.andThen_plain (g := fun u => if (s.propose command).2.isLeader
        then u.work fun s' => s'.replicateNewProposeEntry (s.propose command).2.proposeIndex else u)
      (h := fun s' => if (s.propose command).2.isLeader
        then s'.replicateNewProposeEntry (s.propose command).2.proposeIndex else s') awake (by
        split <;> rfl)
    rw [same] at sent
    exact sent
  | process src msg =>
    cases msg with
    | requestVoteReply reply =>
      exact underLock _ _ fun u awake same =>
        Thread.processRequestVoteReply_eq replies now src awake (same ▸ running) (same ▸ silent)
    | _ => exact underLock _ _ fun u _ _ => rfl

/-- A process that has stopped does not get into a critical section. -/
theorem Call.run_of_stopped (stopped : s.stopped = true) : (call.run replies now s).deadlocked = false := by
  have skipped : ∀ body, (Thread.enter s).underLock body = { server := s, holds := true, deadlocked := false } := by
    simp [Thread.underLock, Thread.lock, Thread.andThen, Thread.enter, stopped]
  cases call with
  | tick read timers =>
    cases read <;>
      simp [Call.run, Thread.tick, Thread.tickOnLeader, skipped, Thread.andThen, stopped]
  | propose command => simp [Call.run, Thread.propose, skipped, Thread.andThen, stopped]
  | process src msg =>
    cases msg <;> simp [Call.run, Thread.process, Thread.processRequestFragmentsReply, skipped]

/-- The answers the other servers of the group give at once. -/
def Cluster.repliesTo (σ : Cluster) (args : RequestFragmentsArgs) (now : Nat) : Replies := fun peer =>
  ((σ.servers peer).processRequestFragments args now).2

/-- The leader has restarted with its log and its first vote is on the way. -/
def leaderRestarted : List Label :=
  firstEntryCommitted ++
    [.restart 0 { entries := [{ term := 1, index := 1, commandSize := 2, commandDataField := [1, 2] }] }
        (RaftState.Uninitialised.zero 0),
      .tick 0 { electionExpired := true }, .deliver 5 4]

/-- The vote of server 1 in the second election. -/
def secondVote : RequestVoteReply := { term := 2, voteGranted := true, replyId := 1, groupId := 0 }

end FlexRaft
