import FlexRaft.Asking
import FlexRaft.Handlers

namespace FlexRaft

namespace RaftState

variable {s s' : RaftState}

/-- `p` answers the message `taken` in the current term of `s` and grants no vote. -/
def Answers (s : RaftState) (taken : Option Packet) (p : Packet) : Prop :=
  p.src = s.id ∧ (∃ q ∈ taken, q.msg.isRequest ∧ p.dst = q.src) ∧ p.msg.term = s.currentTerm ∧
    match p.msg with
    | .requestVoteReply reply => reply.voteGranted = false
    | .appendEntriesReply _ => True
    | .requestFragmentsReply reply => reply.replyId = s.id
    | _ => False

/-- The server has won the election of its term. -/
def isElected (s : RaftState) : Prop := s.role = .kPreLeader ∨ s.role = .kLeader

/-- Only a server that has won its election asks, and only as a leader for entries to be stored. -/
def RightlyAsks (s : RaftState) (p : Packet) : Prop :=
  s.Asks p ∧ s.isElected ∧ (p.msg.isAppendEntries → s.role = .kLeader)

/-- What a server may send in a handler that neither stands for election nor grants a vote. -/
def Speaks (s : RaftState) (taken : Option Packet) (p : Packet) : Prop := s.RightlyAsks p ∨ s.Answers taken p

/-- What the storage should hold. -/
def header (s : RaftState) : PersistRaftState :=
  { valid := true, persistedTerm := s.currentTerm, persistedVoteFor := s.voteFor }

/-- Term and vote are as before, or the storage has their new values. -/
def Saves (s s' : RaftState) : Prop :=
  s'.storage = s.storage ∧ s'.header = s.header ∨ s'.storage = s.storage.map fun _ => s'.header

def voteRequest (s : RaftState) (peer : Nat) : Packet :=
  { src := s.id
    dst := peer
    msg := .requestVote
      { term := s.currentTerm
        candidateId := s.id
        lastLogIndex := s.lm.lastLogEntryIndex
        lastLogTerm := s.lm.lastLogEntryTerm
        groupId := s.config.groupId
        candidatePriority := s.getPriorityRank } }

/-- What a candidate sends to the given peers. -/
def voteRequests (s : RaftState) (peers : List Nat) : List Packet :=
  (peers.filter fun peer => decide (peer ≠ s.id ∧ peer < 32)).map s.voteRequest

/-- The part of a server that says which term it is in and whom it voted for. -/
structure SameBallot (s s' : RaftState) : Prop where
  config : s'.config = s.config
  header : s'.header = s.header
  storage : s'.storage = s.storage
  count : s'.voteMeCnt = s.voteMeCnt

/-- What one handler, `Propose` call or tick does to term, vote and role of a server that has nothing to
send yet. The sends of a leader outside of its lock are not part of it. -/
inductive Turn (s : RaftState) (taken : Option Packet) (s' : RaftState) : Prop
  | stays (same : SameBallot s s') (role : s'.role = s.role ∨ s.role = .kPreLeader ∧ s'.role = .kLeader)
      (round : s'.electionRound = s.electionRound ∨ s'.electionRound = 0)
      (outbox : ∀ p ∈ s'.outbox, s'.Speaks taken p)
  | follows (config : s'.config = s.config) (role : s'.role = .kFollower)
      (cause : s.role = .kCandidate ∧ s'.header = s.header ∨ s.currentTerm < s'.currentTerm ∧
        s'.voteFor = kNotVoted ∧ ∃ q ∈ taken, s'.currentTerm = q.msg.term)
      (saves : Saves s s') (round : s.role = .kFollower → s'.electionRound = s.electionRound ∨ s'.electionRound = 0)
      (outbox : ∀ p ∈ s'.outbox, s'.Answers taken p)
  | grants {q : Packet} {args : RequestVoteArgs} {reply : RequestVoteReply} (config : s'.config = s.config)
      (received : taken = some q) (msg : q.msg = .requestVote args) (term : s'.currentTerm = args.term)
      (later : s.currentTerm ≤ args.term) (vote : s'.voteFor = args.candidateId)
      (free : s.currentTerm = args.term → s.voteFor = kNotVoted ∨ s.voteFor = args.candidateId)
      (role : s'.role = .kFollower ∨ s'.role = s.role ∧ s.role ≠ .kCandidate ∧ s.currentTerm = args.term)
      (round : s'.electionRound = s.electionRound) (saves : Saves s s') (granted : reply.voteGranted = true)
      (replyTerm : reply.term = args.term)
      (outbox : s'.outbox = [{ src := s.id, dst := q.src, msg := .requestVoteReply reply }])
  | stands (config : s'.config = s.config) (eligible : s.isEligibleForElection = true)
      (passive : s.role = .kFollower ∨ s.role = .kCandidate) (term : s'.currentTerm = s.currentTerm + 1)
      (vote : s'.voteFor = s.id) (saves : Saves s s') (count : s'.voteMeCnt = 1)
      (campaign : s'.role = .kCandidate ∧ s'.outbox = s'.voteRequests s'.peers ∨
        s'.isElected ∧ s.livenessLevel + 1 ≤ 1 ∧ ∀ p ∈ s'.outbox, s'.Speaks taken p)
  | counts {q : Packet} {reply : RequestVoteReply} (config : s'.config = s.config) (candidate : s.role = .kCandidate)
      (received : taken = some q) (msg : q.msg = .requestVoteReply reply) (granted : reply.voteGranted = true)
      (replyTerm : reply.term = s.currentTerm) (ballot : s'.header = s.header) (storage : s'.storage = s.storage)
      (count : s'.voteMeCnt = s.voteMeCnt + 1)
      (role : s'.role = .kCandidate ∨ s'.isElected ∧ s.livenessLevel + 1 ≤ s'.voteMeCnt)
      (outbox : ∀ p ∈ s'.outbox, s'.Speaks taken p)

theorem Turn.config {taken : Option Packet} (turn : Turn s taken s') : s'.config = s.config := by
  cases turn with
  | stays same => exact same.config
  | follows config | grants config | stands config | counts config => exact config

theorem Turn.saves {taken : Option Packet} (turn : Turn s taken s') : Saves s s' := by
  cases turn with
  | stays same => exact Or.inl ⟨same.storage, same.header⟩
  | follows _ _ _ saves | grants _ _ _ _ _ _ _ _ _ saves | stands _ _ _ _ _ saves => exact saves
  | counts _ _ _ _ _ _ ballot storage => exact Or.inl ⟨storage, ballot⟩

section Presides

variable {s s' : RaftState}

/-- What a server that has won its election does while it recovers entries and takes over. -/
structure Presides (s s' : RaftState) : Prop where
  same : SameBallot s s'
  role : s'.role = s.role ∨ s.role = .kPreLeader ∧ s'.role = .kLeader
  round : s'.electionRound = s.electionRound ∨ s'.electionRound = 0
  outbox : ∀ p ∈ s'.outbox, p ∈ s.outbox ∨ s'.RightlyAsks p

theorem SameBallot.asks (same : SameBallot s s') {p : Packet} (asks : s.Asks p) : s'.Asks p := by
  have term : s'.currentTerm = s.currentTerm := congrArg PersistRaftState.persistedTerm same.header
  simpa only [Asks, id, peers, same.config, term] using asks

theorem SameBallot.trans {a b c : RaftState} (first : SameBallot a b) (second : SameBallot b c) : SameBallot a c :=
  ⟨second.config.trans first.config, second.header.trans first.header, second.storage.trans first.storage,
    second.count.trans first.count⟩

theorem SameBallot.of_core (core : s'.core = s.core) : SameBallot s s' :=
  ⟨field_eq core RaftState.config (fun _ => rfl), field_eq core RaftState.header (fun _ => rfl),
    field_eq core RaftState.storage (fun _ => rfl), field_eq core RaftState.voteMeCnt (fun _ => rfl)⟩

namespace Presides

variable {s s' : RaftState}

theorem refl (s : RaftState) : Presides s s :=
  ⟨⟨rfl, rfl, rfl, rfl⟩, Or.inl rfl, Or.inl rfl, fun _ member => Or.inl member⟩

theorem trans {a b c : RaftState} (first : Presides a b) (second : Presides b c) : Presides a c := by
  refine ⟨first.same.trans second.same, ?_, ?_, fun p member => ?_⟩
  · rcases second.role with kept | ⟨pre, leader⟩
    · rw [kept]
      exact first.role
    · rcases first.role with kept | ⟨_, already⟩
      · exact Or.inr ⟨kept ▸ pre, leader⟩
      · cases pre.symm.trans already
  · rcases second.round with kept | zero
    · rw [kept]
      exact first.round
    · exact Or.inr zero
  · rcases second.outbox p member with old | new
    · refine (first.outbox p old).imp_right fun asks => ⟨second.same.asks asks.1, ?_⟩
      rcases second.role with kept | ⟨_, leader⟩
      · simpa only [RaftState.isElected, kept] using asks.2
      · exact ⟨Or.inr leader, fun _ => leader⟩
    · exact Or.inr new

theorem of_asking (step : Asking s s') (leader : s.role = .kLeader) : Presides s s' := by
  have role : s'.role = s.role := field_eq step.core RaftState.role fun _ => rfl
  have same := SameBallot.of_core step.core
  refine ⟨same, Or.inl role, Or.inl (field_eq step.core RaftState.electionRound fun _ => rfl), fun p member => ?_⟩
  exact (step.outbox p member).imp_right fun asks =>
    ⟨same.asks asks, Or.inr (role.trans leader), fun _ => role.trans leader⟩

theorem isElected_of (step : Presides s s') (elected : s.isElected) : s'.isElected := by
  rcases step.role with kept | ⟨_, leader⟩
  · simpa only [RaftState.isElected, kept] using elected
  · exact Or.inr leader

theorem requestFragments {peer : Nat} (member : peer ∈ s.peers) (elected : s.isElected) :
    Presides s (s.requestFragments peer) := by
  unfold RaftState.requestFragments
  split
  · exact refl s
  · refine ⟨⟨rfl, rfl, rfl, rfl⟩, Or.inl rfl, Or.inl rfl, fun p sent => ?_⟩
    rcases List.mem_append.mp sent with old | new
    · exact Or.inl old
    · rw [List.mem_singleton.mp new]
      exact Or.inr ⟨⟨rfl, member, rfl, trivial⟩, elected, fun append => by cases append⟩

theorem collectFragments (elected : s.isElected) : Presides s s.collectFragments := by
  unfold RaftState.collectFragments
  simp only
  split
  · exact ⟨⟨rfl, rfl, rfl, rfl⟩, Or.inl rfl, Or.inl rfl, fun _ member => Or.inl member⟩
  · generalize started : { s with preleaderStripeStore := _ } = t
    have start : Presides s t := by
      subst started
      exact ⟨⟨rfl, rfl, rfl, rfl⟩, Or.inl rfl, Or.inl rfl, fun _ member => Or.inl member⟩
    refine start.trans (forEach_rel refl (fun h k => h.trans k) fun u peer reached member => requestFragments ?_ ?_)
    · rw [peers, reached.same.config, start.same.config]
      exact member
    · exact reached.isElected_of (start.isElected_of elected)

theorem convertToLeaderInternal (s : RaftState) : Presides s s.convertToLeaderInternal := by
  unfold RaftState.convertToLeaderInternal
  split
  · exact refl s
  · rename_i pre
    have promoted : Presides s { s with role := .kLeader, electionRound := 0 }.resetNextIndexAndMatchIndex :=
      ⟨⟨rfl, rfl, rfl, rfl⟩, Or.inr ⟨Decidable.not_not.mp pre, rfl⟩, Or.inr rfl, fun _ member => Or.inl member⟩
    exact promoted.trans (of_asking (.broadcastHeartbeat _) rfl)

theorem decodeStripes (stripes : List Stripe) (raftIndex : Nat) (s : RaftState) :
    Presides s (RaftState.decodeStripes stripes raftIndex s) := by
  induction stripes generalizing raftIndex s with
  | nil => exact refl s
  | cons stripe rest ih =>
    unfold RaftState.decodeStripes
    split
    · exact ih (raftIndex + 1) s
    · split
      · exact ⟨⟨rfl, rfl, rfl, rfl⟩, Or.inl rfl, Or.inl rfl, fun _ member => Or.inl member⟩
      · exact ⟨⟨rfl, rfl, rfl, rfl⟩, Or.inl rfl, Or.inl rfl, fun _ member => Or.inl member⟩
      · rename_i ent _
        have written : Presides s { s with lm := s.lm.overWriteLogEntry ent raftIndex } :=
          ⟨⟨rfl, rfl, rfl, rfl⟩, Or.inl rfl, Or.inl rfl, fun _ member => Or.inl member⟩
        exact written.trans (ih (raftIndex + 1) _)

theorem preLeaderBecomeLeader (s : RaftState) : Presides s s.preLeaderBecomeLeader := by
  unfold RaftState.preLeaderBecomeLeader
  split
  · exact andThen_rel (fun h k => h.trans k) (decodeStripes _ _ s) (convertToLeaderInternal _)
  · exact refl s

theorem convertToPreLeader (s : RaftState) : Presides { s with role := .kPreLeader } s.convertToPreLeader := by
  unfold RaftState.convertToPreLeader
  simp only
  split
  · exact convertToLeaderInternal _
  · exact collectFragments (Or.inl rfl)

theorem speaks (step : Presides s s') (quiet : s.outbox = []) (taken : Option Packet) :
    ∀ p ∈ s'.outbox, s'.Speaks taken p := by
  intro p member
  rcases step.outbox p member with old | new
  · rw [quiet] at old
    cases old
  · exact Or.inl new

theorem turn (step : Presides s s') (quiet : s.outbox = []) (taken : Option Packet) : Turn s taken s' :=
  .stays step.same step.role step.round (step.speaks quiet taken)

end Presides

end Presides

/-- What is left of a server without its log, its clocks and what it knows of its peers. -/
def votePart (s : RaftState) : RaftState :=
  { s with
    commitIndex := 0
    lastApplied := 0
    lm := {}
    liveMonitor := { nodeNum := 0, response := fun _ => false, responseTime := fun _ => 0, me := 0 }
    encodedStripe := fun _ => none
    lastEncoding := fun _ => none
    preleaderStripeStore :=
      { startIndex := 0, endIndex := 0, stripes := [], response := fun _ => false, nodeNum := 0, me := 0 }
    raftPeer := fun _ => {}
    aliveServersOfLastPoint := 0
    rsm := []
    bridge := []
    stopped := false }

theorem tryApplyLogEntries_votePart (s : RaftState) : s.tryApplyLogEntries.votePart = s.votePart :=
  field_eq (tryApplyLogEntries_unapplied s) votePart fun _ => rfl

section Turns

variable {s s' : RaftState} {q : Packet} {t : Nat} {msg : Message}

theorem convertToFollower_saves (le : s.currentTerm ≤ t) : Saves s (s.convertToFollower t) := by
  unfold convertToFollower
  rw [if_neg (by omega)]
  simp only
  split
  · exact Or.inr rfl
  · exact Or.inl ⟨rfl, rfl⟩

theorem convertToFollower_voteFor (newer : s.currentTerm < t) : (s.convertToFollower t).voteFor = kNotVoted := by
  unfold convertToFollower
  rw [if_neg (by omega)]
  simp only
  rw [if_pos newer]
  rfl

/-- A server that takes over the term `t` stays as it is or becomes a follower. -/
theorem stepDownFor_cases (le : s.currentTerm ≤ t) : s.stepDownFor t = s ∧ s.currentTerm = t ∧ s.role ≠ .kCandidate ∨
    (s.stepDownFor t).role = .kFollower ∧ Saves s (s.stepDownFor t) ∧
      (s.role = .kCandidate ∧ (s.stepDownFor t).header = s.header ∨
        s.currentTerm < t ∧ (s.stepDownFor t).voteFor = kNotVoted) := by
  unfold stepDownFor
  split
  · rename_i needed
    refine Or.inr ⟨(convertToFollower_spec le).2.1, convertToFollower_saves le, ?_⟩
    by_cases newer : s.currentTerm < t
    · exact Or.inr ⟨newer, convertToFollower_voteFor newer⟩
    · left
      refine ⟨needed.resolve_left newer, ?_⟩
      unfold convertToFollower
      rw [if_neg (by omega)]
      simp only
      rw [if_neg newer]
      rfl
  · rename_i keep
    exact Or.inl ⟨rfl, by omega, fun candidate => keep (Or.inr candidate)⟩

theorem stepDownFor_voteFor (same : s.currentTerm = t) : (s.stepDownFor t).voteFor = s.voteFor := by
  rcases stepDownFor_cases same.le with ⟨kept, _⟩ | ⟨_, _, candidate | newer⟩
  · rw [kept]
  · exact congrArg PersistRaftState.persistedVoteFor candidate.2
  · exact absurd same (Nat.ne_of_lt newer.1)

/-- Which header was stored last does not matter for the next one. -/
theorem stepDownFor_stored (le : s.currentTerm ≤ t) (header : PersistRaftState) :
    (s.stepDownFor t).storage.map (fun _ => header) = s.storage.map fun _ => header := by
  rcases stepDownFor_cases le with ⟨kept, _⟩ | ⟨_, ⟨kept, _⟩ | written, _⟩
  · rw [kept]
  · rw [kept]
  · rw [written, Option.map_map]
    rfl

theorem speaks_of_quiet {taken : Option Packet} (quiet : s.outbox = []) : ∀ p ∈ s.outbox, s.Speaks taken p := by
  rw [quiet]
  exact nofun

theorem Turn.of_same {taken : Option Packet} (round : Nat) (zero : round = s.electionRound ∨ round = 0)
    (after : s'.votePart = { s with electionRound := round, outbox := s'.outbox }.votePart)
    (outbox : ∀ p ∈ s'.outbox, s'.Speaks taken p) : Turn s taken s' := by
  refine .stays ⟨field_eq after RaftState.config (fun _ => rfl), field_eq after RaftState.header (fun _ => rfl),
    field_eq after RaftState.storage (fun _ => rfl), field_eq after RaftState.voteMeCnt (fun _ => rfl)⟩
    (Or.inl (field_eq after RaftState.role fun _ => rfl)) ?_ outbox
  rw [field_eq after RaftState.electionRound fun _ => rfl]
  exact zero

/-- The server heard of a newer term and has nothing to say. -/
theorem Turn.of_newer {id now : Nat} (newer : s.currentTerm < q.msg.term) (quiet : s.outbox = []) :
    Turn s (some q) ((s.updateLiveness id now).convertToFollower q.msg.term) := by
  have le : (s.updateLiveness id now).currentTerm ≤ q.msg.term := Nat.le_of_lt newer
  obtain ⟨log, role, term, round, out, _⟩ := convertToFollower_spec le
  refine .follows (field_eq log RaftState.config fun _ => rfl) role
    (Or.inr ⟨?_, convertToFollower_voteFor newer, q, rfl, term⟩) (convertToFollower_saves le) (fun _ => Or.inl round) ?_
  · rw [term]
    exact newer
  · rw [out, show (s.updateLiveness id now).outbox = [] from quiet]
    simp

/-- A request handler: it takes over the term of the request and answers, without granting a vote. -/
theorem Turn.of_stepDown (b : RaftState) (round : Nat) (zero : round = s.electionRound ∨ round = 0)
    (base : b.votePart = { s with electionRound := round }.votePart) (le : s.currentTerm ≤ q.msg.term)
    (after : s'.votePart = { b.stepDownFor q.msg.term with outbox := s'.outbox }.votePart)
    (outbox : ∀ p ∈ s'.outbox, s'.Answers (some q) p) : Turn s (some q) s' := by
  have baseTerm : b.currentTerm = s.currentTerm := field_eq base RaftState.currentTerm fun _ => rfl
  have le' : b.currentTerm ≤ q.msg.term := baseTerm.trans_le le
  obtain ⟨log, _, term, sameRound, _, _⟩ := stepDownFor_spec le'
  rcases stepDownFor_cases le' with ⟨same, _, _⟩ | ⟨role, saves, cause⟩
  · rw [same] at after
    refine .of_same round zero ?_ fun p member => Or.inr (outbox p member)
    exact after.trans (congrArg (fun t : RaftState => { t with outbox := s'.outbox }) base)
  · have header : s'.header = (b.stepDownFor q.msg.term).header := field_eq after RaftState.header fun _ => rfl
    have baseHeader : b.header = s.header := field_eq base RaftState.header fun _ => rfl
    have storage : s'.storage = (b.stepDownFor q.msg.term).storage := field_eq after RaftState.storage fun _ => rfl
    have baseStorage : b.storage = s.storage := field_eq base RaftState.storage fun _ => rfl
    have vote : s'.voteFor = (b.stepDownFor q.msg.term).voteFor := field_eq after RaftState.voteFor fun _ => rfl
    have newTerm : s'.currentTerm = q.msg.term := (field_eq after RaftState.currentTerm fun _ => rfl).trans term
    refine .follows ?_ ((field_eq after RaftState.role fun _ => rfl).trans role) ?_ ?_ (fun _ => ?_) outbox
    · exact (field_eq after RaftState.config fun _ => rfl).trans
        ((field_eq log RaftState.config fun _ => rfl).trans (field_eq base RaftState.config fun _ => rfl))
    · refine cause.imp (fun stepped => ⟨?_, header.trans (stepped.2.trans baseHeader)⟩) fun newer => ?_
      · exact (field_eq base RaftState.role fun _ => rfl).symm.trans stepped.1
      · exact ⟨by rw [newTerm, ← baseTerm]; exact newer.1, vote.trans newer.2, q, rfl, newTerm⟩
    · refine saves.imp (fun kept => ⟨storage.trans (kept.1.trans baseStorage), header.trans (kept.2.trans baseHeader)⟩)
        fun written => ?_
      rw [storage, written, baseStorage, header]
    · rw [field_eq after RaftState.electionRound fun _ => rfl]
      change (b.stepDownFor q.msg.term).electionRound = _ ∨ (b.stepDownFor q.msg.term).electionRound = 0
      rw [sameRound, field_eq base RaftState.electionRound fun _ => rfl]
      exact zero

/-- The only packet of a request handler is its reply. -/
theorem answers_of_send {t : RaftState} {dst : Nat} (quiet : t.outbox = [])
    (answers : t.Answers (some q) { src := t.id, dst := dst, msg := msg }) :
    ∀ p ∈ (t.send dst msg).outbox, (t.send dst msg).Answers (some q) p := by
  intro p member
  simp only [send, quiet, List.nil_append, List.mem_singleton] at member
  subst member
  exact answers

theorem Turn.of_answer {u : RaftState} (b : RaftState) (round : Nat)
    (zero : round = s.electionRound ∨ round = 0) (base : b.votePart = { s with electionRound := round }.votePart)
    (le : s.currentTerm ≤ q.msg.term)
    (quiet : s.outbox = []) (after : u.votePart = (b.stepDownFor q.msg.term).votePart)
    (answers : u.Answers (some q) { src := u.id, dst := q.src, msg := msg }) : Turn s (some q) (u.send q.src msg) := by
  have baseTerm : b.currentTerm = s.currentTerm := field_eq base RaftState.currentTerm fun _ => rfl
  have quiet' : u.outbox = [] := by
    rw [field_eq after RaftState.outbox (fun _ => rfl), (stepDownFor_spec (baseTerm.trans_le le)).2.2.2.2.1,
      field_eq base RaftState.outbox fun _ => rfl]
    exact quiet
  refine .of_stepDown b round zero base le ?_ (answers_of_send quiet' answers)
  exact congrArg (fun v : RaftState => { v with outbox := (u.send q.src msg).outbox }) after

theorem requestVote_turn {args : RequestVoteArgs} (now : Nat) (quiet : s.outbox = [])
    (msg : q.msg = .requestVote args) :
    Turn s (some q) (answer q.src .requestVoteReply (s.processRequestVote args now)) := by
  have request : q.msg.isRequest := by simp [msg, Message.isRequest]
  have term : q.msg.term = args.term := by simp [msg, Message.term]
  fun_cases processRequestVote
  · refine .of_same s.electionRound (Or.inl rfl) rfl fun p member => Or.inr (answers_of_send quiet ?_ p member)
    exact ⟨rfl, ⟨q, rfl, request, rfl⟩, rfl, rfl⟩
  · refine .of_same s.electionRound (Or.inl rfl) rfl fun p member => Or.inr (answers_of_send quiet ?_ p member)
    exact ⟨rfl, ⟨q, rfl, request, rfl⟩, rfl, rfl⟩
  · rename_i current _ _ _ grant
    have le : (s.updateLiveness args.candidateId now).currentTerm ≤ args.term := Nat.le_of_not_lt current
    obtain ⟨log, _, newTerm, round, out, _⟩ := stepDownFor_spec le
    have config := field_eq log RaftState.config fun _ => rfl
    have quiet' : ((s.updateLiveness args.candidateId now).stepDownFor args.term).outbox = [] := out.trans quiet
    refine .grants (q := q) config rfl msg newTerm le rfl (fun same => ?_) ?_ round (Or.inr (stepDownFor_stored le _)) rfl
      newTerm (congrArg₂ (fun out (config : RaftConfig) => out ++ [{ src := config.id, dst := q.src, msg := _ : Packet }])
        quiet' config)
    · have vote := stepDownFor_voteFor (s := s.updateLiveness args.candidateId now) same
      rw [← show _ = s.voteFor from vote]
      exact grant.1
    · rcases stepDownFor_cases le with ⟨kept, same, passive⟩ | ⟨follower, _⟩
      · exact Or.inr ⟨(congrArg RaftState.role kept :), passive, same⟩
      · exact Or.inl follower
  · rename_i current _ _ _ _
    exact .of_answer (s.updateLiveness args.candidateId now) s.electionRound (Or.inl rfl) rfl
      (term ▸ Nat.le_of_not_lt current) quiet (by rw [term]) ⟨rfl, ⟨q, rfl, request, rfl⟩, rfl, rfl⟩

theorem requestVoteReply_turn {reply : RequestVoteReply} (now : Nat) (quiet : s.outbox = [])
    (msg : q.msg = .requestVoteReply reply) : Turn s (some q) (s.processRequestVoteReply reply now) := by
  have term : q.msg.term = reply.term := by simp [msg, Message.term]
  have counted (used : ¬(s.role ≠ .kCandidate ∨ reply.term < s.currentTerm)) (notNewer : ¬ s.currentTerm < reply.term) :
      s.role = .kCandidate ∧ reply.term = s.currentTerm :=
    ⟨Decidable.not_not.mp fun other => used (Or.inl other),
      le_antisymm (Nat.le_of_not_lt notNewer) (Nat.le_of_not_lt fun older => used (Or.inr older))⟩
  fun_cases processRequestVoteReply
  · exact .of_same s.electionRound (Or.inl rfl) rfl (speaks_of_quiet quiet)
  · rename_i newer
    rw [← term] at newer ⊢
    exact .of_newer newer quiet
  · rename_i used notNewer granted _ enough
    obtain ⟨candidate, current⟩ := counted used notNewer
    have presides := Presides.convertToPreLeader (s.updateLiveness reply.replyId now).incrementVoteMeCnt
    exact .counts presides.same.config candidate rfl msg granted current presides.same.header
      presides.same.storage presides.same.count
      (Or.inr ⟨presides.isElected_of (Or.inl rfl), by rw [presides.same.count]; exact enough⟩) (presides.speaks quiet _)
  · rename_i used notNewer granted _ _
    obtain ⟨candidate, current⟩ := counted used notNewer
    exact .counts rfl candidate rfl msg granted current rfl rfl rfl (Or.inl candidate)
      (speaks_of_quiet quiet)
  · exact .of_same s.electionRound (Or.inl rfl) rfl (speaks_of_quiet quiet)

theorem appendEntries_turn {args : AppendEntriesArgs} (now : Nat) (quiet : s.outbox = [])
    (msg : q.msg = .appendEntries args) :
    Turn s (some q) (answer q.src .appendEntriesReply (s.processAppendEntries args now)) := by
  have request : q.msg.isRequest := by simp [msg, Message.isRequest]
  have term : q.msg.term = args.term := by simp [msg, Message.term]
  have current (reached : ¬ args.term < s.currentTerm) : s.currentTerm ≤ q.msg.term := term ▸ Nat.le_of_not_lt reached
  have halts (le : s.currentTerm ≤ q.msg.term) :
      Turn s (some q) ((s.hearLeader args.leaderId now).stepDownFor q.msg.term).stop := by
    refine .of_stepDown (s.hearLeader args.leaderId now) 0 (Or.inr rfl) rfl le rfl fun p member => ?_
    have out := (stepDownFor_spec (s := s.hearLeader args.leaderId now) le).2.2.2.2.1.trans quiet
    simp [stop, out] at member
  rw [term] at halts
  fun_cases processAppendEntries
  · refine .of_same 0 (Or.inr rfl) rfl fun p member => Or.inr (answers_of_send quiet ?_ p member)
    exact ⟨rfl, ⟨q, rfl, request, rfl⟩, rfl, trivial⟩
  · rename_i reached _ _
    exact .of_answer (s.hearLeader args.leaderId now) 0 (Or.inr rfl) rfl (current reached) quiet (by rw [term])
      ⟨rfl, ⟨q, rfl, request, rfl⟩, rfl, trivial⟩
  · rename_i reached _ _ _
    exact halts (Nat.le_of_not_lt reached)
  · rename_i reached _ _ _ _
    exact halts (Nat.le_of_not_lt reached)
  · rename_i reached _ _ _ _ _ _ _
    refine .of_answer (s.hearLeader args.leaderId now) 0 (Or.inr rfl) rfl (current reached) quiet
      ((tryApplyLogEntries_votePart _).trans (by rw [term]; rfl)) ⟨rfl, ⟨q, rfl, request, rfl⟩, ?_, trivial⟩
    rw [field_eq (tryApplyLogEntries_votePart _) RaftState.currentTerm fun _ => rfl]
    rfl

theorem requestFragments_turn {args : RequestFragmentsArgs} (now : Nat) (quiet : s.outbox = [])
    (msg : q.msg = .requestFragments args) :
    Turn s (some q) (answer q.src .requestFragmentsReply (s.processRequestFragments args now)) := by
  have request : q.msg.isRequest := by simp [msg, Message.isRequest]
  have term : q.msg.term = args.term := by simp [msg, Message.term]
  unfold processRequestFragments
  simp only
  split
  · refine .of_same s.electionRound (Or.inl rfl) rfl fun p member => Or.inr (answers_of_send quiet ?_ p member)
    exact ⟨rfl, ⟨q, rfl, request, rfl⟩, rfl, rfl⟩
  · rename_i current
    rw [← term]
    refine .of_answer (s.updateLiveness args.leaderId now) s.electionRound (Or.inl rfl) rfl ?_ quiet rfl
      ⟨rfl, ⟨q, rfl, request, rfl⟩, rfl, rfl⟩
    rw [term]
    exact Nat.le_of_not_lt current

theorem appendEntriesReply_turn {reply : AppendEntriesReply} (now : Nat) (quiet : s.outbox = [])
    (msg : q.msg = .appendEntriesReply reply) : Turn s (some q) (s.processAppendEntriesReply reply now) := by
  have term : q.msg.term = reply.term := by simp [msg, Message.term]
  by_cases newer : s.currentTerm < reply.term
  · unfold processAppendEntriesReply
    simp only
    split
    · exact .of_same s.electionRound (Or.inl rfl) rfl (speaks_of_quiet quiet)
    · rw [if_pos (show (s.updateLiveness reply.replyId now).currentTerm < reply.term from newer), ← term]
      exact .of_newer (by rwa [term]) quiet
  · have silent : (s.processAppendEntriesReply reply now).votePart = s.votePart := by
      have outcome := processAppendEntriesReply_spec now (Nat.le_of_not_lt newer)
      rcases outcome with same | ⟨_, _, _, _, acked⟩ | ⟨_, u, run, noted⟩
      · rw [same]
        rfl
      · obtain ⟨c, committed, _⟩ := tryUpdateCommitIndex_spec ((s.updateLiveness reply.replyId now).recordReply reply)
        rw [acked, tryApplyLogEntries_votePart, committed]
        rfl
      · rw [run, tryApplyLogEntries_votePart]
        rcases noted with rfl | ⟨_, rfl⟩ <;> rfl
    have out : (s.processAppendEntriesReply reply now).outbox = [] :=
      (field_eq silent RaftState.outbox fun _ => rfl).trans quiet
    refine .of_same s.electionRound (Or.inl rfl) ?_ (by simp [out])
    rw [silent, out, ← quiet]

theorem requestFragmentsReply_turn {reply : RequestFragmentsReply} (now : Nat) (quiet : s.outbox = [])
    (msg : q.msg = .requestFragmentsReply reply) : Turn s (some q) (s.processRequestFragmentsReply reply now) := by
  have term : q.msg.term = reply.term := by simp [msg, Message.term]
  fun_cases processRequestFragmentsReply
  · exact .of_same s.electionRound (Or.inl rfl) rfl (speaks_of_quiet quiet)
  · rename_i newer
    rw [← term] at newer ⊢
    exact .of_newer newer quiet
  · exact .of_same s.electionRound (Or.inl rfl) rfl (speaks_of_quiet quiet)
  · exact .of_same s.electionRound (Or.inl rfl) rfl (speaks_of_quiet quiet)
  · rename_i store _
    have presides := Presides.preLeaderBecomeLeader { s.updateLiveness reply.replyId now with
      preleaderStripeStore := store.updateResponseState reply.replyId }
    exact .stays ⟨presides.same.config, presides.same.header, presides.same.storage, presides.same.count⟩
      presides.role presides.round (presides.speaks quiet _)

theorem process_turn (now : Nat) (quiet : s.outbox = []) (q : Packet) : Turn s (some q) (s.process q.src q.msg now) := by
  unfold process
  split
  · exact requestVote_turn now quiet ‹_›
  · exact requestVoteReply_turn now quiet ‹_›
  · exact appendEntries_turn now quiet ‹_›
  · exact appendEntriesReply_turn now quiet ‹_›
  · exact requestFragments_turn now quiet ‹_›
  · exact requestFragmentsReply_turn now quiet ‹_›

theorem requestVote_eq (s : RaftState) (peer : Nat) :
    s.requestVote peer = { s with outbox := s.outbox ++ s.voteRequests [peer] } := by
  unfold requestVote
  split
  · rename_i skipped
    have none : s.voteRequests [peer] = [] := by
      have left : ¬(peer ≠ s.id ∧ peer < 32) := by omega
      simp [voteRequests, left]
    rw [none, List.append_nil]
  · rename_i asked
    have one : s.voteRequests [peer] = [s.voteRequest peer] := by
      have kept : peer ≠ s.id ∧ peer < 32 := by omega
      simp [voteRequests, kept]
    rw [one]
    rfl

theorem forEach_requestVote (items : List Nat) (running : s.stopped = false) :
    forEach requestVote items s = { s with outbox := s.outbox ++ s.voteRequests items } := by
  induction items generalizing s with
  | nil => simp [forEach, voteRequests]
  | cons peer rest ih =>
    have split : s.voteRequests (peer :: rest) = s.voteRequests [peer] ++ s.voteRequests rest := by
      simp only [voteRequests, ← List.map_append, ← List.filter_append, List.singleton_append]
    have later := ih (s := { s with outbox := s.outbox ++ s.voteRequests [peer] }) running
    rw [forEach, requestVote_eq, andThen, if_neg (by simp [running]), later, split, ← List.append_assoc]
    rfl

theorem startElection_turn {b : RaftState}
    (base : b.votePart = { s with role := .kCandidate, electionRound := b.electionRound }.votePart)
    (running : b.stopped = false) (quiet : s.outbox = []) (eligible : s.isEligibleForElection = true)
    (passive : s.role = .kFollower ∨ s.role = .kCandidate) : Turn s none b.startElection := by
  have candidate : b.role = .kCandidate := field_eq base RaftState.role fun _ => rfl
  have config : b.config = s.config := field_eq base RaftState.config fun _ => rfl
  have term : b.currentTerm = s.currentTerm := field_eq base RaftState.currentTerm fun _ => rfl
  have storage : b.storage = s.storage := field_eq base RaftState.storage fun _ => rfl
  have quiet' : b.outbox = [] := (field_eq base RaftState.outbox fun _ => rfl).trans quiet
  unfold startElection
  rw [if_neg (not_not_intro candidate)]
  simp only
  generalize standing :
    { b with currentTerm := b.currentTerm + 1, voteFor := b.id, voteMeCnt := 1 }.persistRaftState = u
  have uConfig : u.config = s.config := by rw [← standing]; exact config
  have uTerm : u.currentTerm = s.currentTerm + 1 := by rw [← standing, ← term]; rfl
  have uVote : u.voteFor = s.id := by rw [← standing, show s.id = b.id by rw [id, id, config]]; rfl
  have uCount : u.voteMeCnt = 1 := by rw [← standing]; rfl
  have uStored : u.storage = s.storage.map fun _ => u.header := by rw [← standing, ← storage]; rfl
  have uQuiet : u.outbox = [] := by rw [← standing]; exact quiet'
  split
  · rename_i enough
    have presides := Presides.convertToPreLeader u
    have header : u.convertToPreLeader.header = u.header := presides.same.header
    refine .stands (presides.same.config.trans uConfig) eligible passive
      ((congrArg PersistRaftState.persistedTerm header).trans uTerm)
      ((congrArg PersistRaftState.persistedVoteFor header).trans uVote) (Or.inr ?_) (presides.same.count.trans uCount)
      (Or.inr ⟨presides.isElected_of (Or.inl rfl), ?_, presides.speaks uQuiet none⟩)
    · rw [presides.same.storage, header]
      exact uStored
    · rw [uCount] at enough
      simpa only [livenessLevel, peers, uConfig] using enough
  · have alive : u.stopped = false := by rw [← standing]; exact running
    rw [forEach_requestVote u.peers alive]
    refine .stands uConfig eligible passive uTerm uVote (Or.inr uStored) uCount (Or.inl ⟨?_, ?_⟩)
    · rw [← standing]
      exact candidate
    · simp only [uQuiet, List.nil_append]
      rfl

theorem tick_turn (timers : Timers) (quiet : s.outbox = []) (running : s.stopped = false) (other : s.role ≠ .kLeader) :
    Turn s none (s.tick timers) := by
  have idle : Turn s none s := .of_same s.electionRound (Or.inl rfl) rfl (speaks_of_quiet quiet)
  unfold tick
  split
  · rename_i follower
    unfold tickOnFollower
    split
    · exact idle
    · split
      · exact idle
      · rename_i eligible
        exact startElection_turn rfl running quiet (by simpa using eligible) (Or.inl follower)
  · rename_i candidate
    unfold tickOnCandidate
    split
    · exact idle
    · split
      · have same : s.convertToFollower s.currentTerm = { s with role := .kFollower } := by simp [convertToFollower]
        rw [same]
        refine .follows rfl rfl (Or.inl ⟨candidate, rfl⟩) (Or.inl ⟨rfl, rfl⟩) (fun follower => ?_) (by simp [quiet])
        cases candidate.symm.trans follower
      · rename_i eligible
        refine startElection_turn ?_ running quiet (by simpa using eligible) (Or.inr candidate)
        rw [← candidate]
  · rename_i pre
    unfold tickOnPreLeader
    have first := Presides.preLeaderBecomeLeader s
    refine (andThen_rel (fun h k => h.trans k) first ?_).turn quiet none
    split
    · exact .collectFragments (first.isElected_of (Or.inl pre))
    · exact .refl _
  · exact absurd ‹_› other

theorem propose_turn (command : CommandData) (quiet : s.outbox = []) : Turn s none (s.propose command).1 := by
  rcases propose_spec s command with ⟨_, same | stopped⟩ | ⟨_, _, _, _, e, _, appended⟩
  · rw [same]
    exact .of_same s.electionRound (Or.inl rfl) rfl (speaks_of_quiet quiet)
  · rw [stopped]
    exact .of_same s.electionRound (Or.inl rfl) rfl (by simp [stop, quiet])
  · rw [appended]
    exact .of_same s.electionRound (Or.inl rfl) rfl (speaks_of_quiet quiet)

end Turns

end RaftState

end FlexRaft
