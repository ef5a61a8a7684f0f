import FlexRaft.Leader
import FlexRaft.Tick

namespace FlexRaft

/-- What the code of a leader does one after the other once it has released `mtx_`. -/
inductive SendAction
  | heartbeat (peer : Nat)
  | replicateEntries
  | maybeReEncode
  | reEncode (k raftIndex : Nat)
  | reverse (peer : Nat)
  | send (peer : Nat)
  | replicateNew (raftIndex : Nat)
  | encodeNew (raftIndex liveServers : Nat)
  | sendNewLrc (grouper : LrcGrouper) (raftIndex peer : Nat)

/-- The peer that the action is for. -/
def SendAction.peer? : SendAction → Option Nat
  | .heartbeat peer | .reverse peer | .send peer | .sendNewLrc _ _ peer => some peer
  | _ => none

/-- The actions that read or write what is known about a peer are for peers of the server. -/
def SendAction.Addressed (peers : List Nat) : SendAction → Prop
  | .send peer | .reverse peer => peer ∈ peers
  | _ => True

namespace RaftState

/-- The Reed-Solomon branch of `ReplicateNewProposeEntry` from its reading of the live count on. -/
def encodeActions (s : RaftState) (raftIndex : Nat) : RaftState × List SendAction :=
  let liveServers := s.liveMonitor.liveNumber
  let rest := .encodeNew raftIndex liveServers :: s.peers.map .send
  if liveServers ≠ s.aliveServersOfLastPoint then (s.updateAliveServers liveServers, .maybeReEncode :: rest)
  else (s, rest)

/-- One action and the actions it decides to do next. Between two actions any handler may run. -/
def act (s : RaftState) : SendAction → RaftState × List SendAction
  | .heartbeat peer => (if peer = s.id then s else s.sendHeartBeat peer, [])
  | .replicateEntries =>
    let liveServers := s.liveMonitor.liveNumber
    if liveServers ≠ s.aliveServersOfLastPoint then (s.updateAliveServers liveServers, [.maybeReEncode])
    else (s, s.peers.map .send)
  | .maybeReEncode =>
    let liveServers := s.liveMonitor.liveNumber
    if liveServers ≤ s.livenessLevel then (s, [])
    else
      (s, (indexRange (s.commitIndex + 1) s.lm.lastLogEntryIndex).map (.reEncode (s.encodingK liveServers)) ++
        s.peers.flatMap fun peer => [.reverse peer, .send peer])
  | .reEncode k raftIndex => (reEncode k s raftIndex, [])
  | .reverse peer =>
    (if peer = s.id then s
      else s.updatePeer peer fun p => { p with nextIndex := s.commitIndex + 1, matchIndex := s.commitIndex }, [])
  | .send peer => (s.sendToPeer peer, [])
  | .replicateNew raftIndex =>
    match s.lm.getSingleLogEntry raftIndex with
    | none => (s, [])
    | some ent =>
      match s.config.lrcGrouper with
      | none => s.encodeActions raftIndex
      | some grouper =>
        if s.config.encodingMode = 2 ∧ ent.isLrcEncoded then
          (s.updateLastEncodingK raftIndex ent.chunkInfo.k, s.peers.map (.sendNewLrc grouper raftIndex))
        else s.encodeActions raftIndex
  | .encodeNew raftIndex liveServers =>
    (if (s.encodedStripe raftIndex).isSome then s else s.encodeAndRecord (s.encodingK liveServers) raftIndex, [])
  | .sendNewLrc grouper raftIndex peer => (sendNewLrcEntry grouper raftIndex s peer, [])

/-- The entries of a request to `peer`: none, those from its `NextIndex` on, or a new one with its fragments. -/
def EntriesFor (s : RaftState) (peer : Nat) (entries : List LogEntry) : Prop :=
  entries = [] ∨
    (∃ indices, (if s.config.lrcMode then s.lrcEntriesFor peer indices else s.encodedEntriesFor peer indices) =
      some entries) ∨
    ∃ ent j, ∃ frags : List (Nat × Slice), s.lm.getSingleLogEntry j = some ent ∧
      entries = [frags.foldl (fun e p => e.addFragmentWithId p.1 p.2) (keyOnlyEntry ent j)]

/-- An `AppendEntries` request that the leader `s` makes up for `peer`. -/
structure Request (s : RaftState) (peer : Nat) (args : AppendEntriesArgs) : Prop where
  term : args.term = s.currentTerm
  groupId : args.groupId = s.config.groupId
  leaderId : args.leaderId = s.id
  entries : s.EntriesFor peer args.entries

/-- The request ends at the last index at most. -/
def EndsInside (s : RaftState) (args : AppendEntriesArgs) : Prop :=
  args.prevLogIndex + args.entryCnt ≤ s.lm.lastLogEntryIndex

/-- The `NextIndex` of the peer points into the log or right behind it. -/
def NextInside (s : RaftState) (peer : Nat) : Prop :=
  1 ≤ (s.raftPeer peer).nextIndex ∧ (s.raftPeer peer).nextIndex ≤ s.lm.lastLogEntryIndex + 1

theorem predIndex_add_one {j : Nat} (positive : 1 ≤ j) : predIndex j + 1 = j := by
  unfold predIndex
  rw [if_neg (by omega)]
  omega

section Requests

variable (s : RaftState) (peer : Nat)

theorem sendHeartBeat_cases : s.sendHeartBeat peer = s ∨ ∃ args, s.sendHeartBeat peer = s.send peer (.appendEntries args) ∧
    peer ∈ s.peers ∧ s.Request peer args ∧ (s.NextInside peer → s.EndsInside args) := by
  fun_cases RaftState.sendHeartBeat
  · exact Or.inl rfl
  · rename_i valid _
    refine Or.inr ⟨_, rfl, Decidable.not_not.mp fun outside => valid (Or.inr outside), ⟨rfl, rfl, rfl, Or.inl rfl⟩, ?_⟩
    rintro ⟨positive, bound⟩
    have before := predIndex_add_one positive
    dsimp only [EndsInside]
    omega

theorem sendAppendEntries_cases : s.sendAppendEntries peer = s.stop ∨
    ∃ args, s.sendAppendEntries peer = s.send peer (.appendEntries args) ∧ s.Request peer args ∧
      (s.NextInside peer → s.EndsInside args) := by
  fun_cases RaftState.sendAppendEntries
  · exact Or.inl rfl
  · exact Or.inl rfl
  · exact Or.inl rfl
  · rename_i nextIndex prevIndex lastIndex _ _ entries built full
    refine Or.inr ⟨_, rfl, ⟨rfl, rfl, rfl, Or.inr (Or.inl ⟨_, built⟩)⟩, ?_⟩
    rintro ⟨positive, bound⟩
    have before : prevIndex + 1 = nextIndex := predIndex_add_one positive
    change nextIndex ≤ lastIndex + 1 at bound
    change prevIndex + entries.length ≤ lastIndex
    omega

theorem sendNewLrcEntry_cases (grouper : LrcGrouper) (j : Nat) :
    s.sendNewLrcEntry grouper j peer = s ∨ s.sendNewLrcEntry grouper j peer = s.stop ∨
      ∃ args, s.sendNewLrcEntry grouper j peer = s.send peer (.appendEntries args) ∧ s.Request peer args ∧
        s.EndsInside args := by
  fun_cases RaftState.sendNewLrcEntry
  · exact Or.inl rfl
  · exact Or.inl rfl
  · exact Or.inl rfl
  · exact Or.inr (Or.inl rfl)
  · rename_i ent found _ _ _ prevIndex _ _
    refine Or.inr (Or.inr ⟨_, rfl, ⟨rfl, rfl, rfl, Or.inr (Or.inr ⟨ent, j, _, found, rfl⟩)⟩, ?_⟩)
    have inside : 1 ≤ j ∧ j ≤ s.lm.lastLogEntryIndex := by
      unfold LogManager.getSingleLogEntry at found
      split at found
      · cases found
      · omega
    have before := predIndex_add_one inside.1
    dsimp only [EndsInside]
    omega

end Requests

/-- A send goes to a peer. -/
def Allowed (s : RaftState) : SendAction → Prop
  | .send peer | .sendNewLrc _ _ peer => peer ∈ s.peers
  | _ => True

/-- An action touches none of the log, the role and the messages, and at most sets a peer back to the commit index,
or it sends one request. -/
inductive Acts (s : RaftState) (a : SendAction) (t : RaftState) : Prop
  | silent (core : t.core = s.core) (outbox : t.outbox = s.outbox)
      (next : ∀ p, t.raftPeer p = s.raftPeer p ∨ (t.raftPeer p).nextIndex = s.commitIndex + 1)
  | sends {peer : Nat} {args : AppendEntriesArgs} (sent : t = s.send peer (.appendEntries args))
      (request : s.Request peer args) (dst : s.Allowed a → peer ∈ s.peers)
      (inside : (∀ p ∈ s.peers, s.NextInside p) → a.Addressed s.peers → s.EndsInside args)

section Acts

variable {s t : RaftState} {a : SendAction}

theorem Acts.same (core : t.core = s.core) (outbox : t.outbox = s.outbox) (peers : t.raftPeer = s.raftPeer) : s.Acts a t :=
  .silent core outbox fun p => Or.inl (congrFun peers p)

theorem Acts.heartbeat (s : RaftState) (a : SendAction) (peer : Nat) : s.Acts a (s.sendHeartBeat peer) := by
  rcases s.sendHeartBeat_cases peer with same | ⟨args, sent, member, request, inside⟩
  · rw [same]
    exact .same rfl rfl rfl
  · exact .sends sent request (fun _ => member) fun next _ => inside (next peer member)

theorem Acts.encodeAndRecord (s : RaftState) (a : SendAction) (k j : Nat) : s.Acts a (s.encodeAndRecord k j) := by
  unfold RaftState.encodeAndRecord
  split <;> exact .same rfl rfl rfl

theorem Acts.encodeActions (s : RaftState) (a : SendAction) (j : Nat) : s.Acts a (s.encodeActions j).1 := by
  fun_cases RaftState.encodeActions <;> exact .same rfl rfl rfl

theorem acts (s : RaftState) (a : SendAction) : s.Acts a (s.act a).1 := by
  have idle {a : SendAction} : s.Acts a s := .same rfl rfl rfl
  fun_cases RaftState.act
  case case1 peer =>
    dsimp only
    split
    · exact idle
    · exact .heartbeat s _ peer
  case case6 k j =>
    fun_cases RaftState.reEncode
    · exact idle
    · exact .encodeAndRecord s _ k j
  case case7 peer =>
    dsimp only
    split
    · exact idle
    · refine .silent rfl rfl fun p => ?_
      dsimp only [updatePeer]
      split
      · exact Or.inr rfl
      · exact Or.inl rfl
  case case8 peer =>
    fun_cases RaftState.sendToPeer
    · exact idle
    · rcases s.sendAppendEntries_cases peer with stop | ⟨args, sent, request, inside⟩
      · rw [stop]
        exact .same rfl rfl rfl
      · exact .sends sent request (fun allowed => allowed) fun next addressed => inside (next peer addressed)
    · exact .heartbeat s _ peer
  case case10 j _ _ _ => exact .encodeActions s _ j
  case case12 j _ _ _ _ _ => exact .encodeActions s _ j
  case case13 j live =>
    dsimp only
    split
    · exact idle
    · exact .encodeAndRecord s _ _ j
  case case14 grouper j peer =>
    rcases s.sendNewLrcEntry_cases peer grouper j with same | stop | ⟨args, sent, request, inside⟩
    · rw [same]
      exact idle
    · rw [stop]
      exact .same rfl rfl rfl
    · exact .sends sent request (fun allowed => allowed) fun _ _ => inside
  all_goals exact .same rfl rfl rfl

theorem act_core (s : RaftState) (a : SendAction) : (s.act a).1.core = s.core := by
  cases s.acts a with
  | silent core => exact core
  | sends sent => rw [sent]; rfl

theorem act_peers (s : RaftState) (a : SendAction) : (s.act a).1.peers = s.peers := field_eq (act_core s a) (·.peers)

theorem sends_peer (s : RaftState) : ∀ b ∈ s.peers.map SendAction.send, ∀ p ∈ b.peer?, p ∈ s.peers :=
  List.forall_mem_map.mpr fun peer member p same => by
    cases same
    exact member

theorem encodeActions_peer (s : RaftState) (j : Nat) : ∀ b ∈ (s.encodeActions j).2, ∀ p ∈ b.peer?, p ∈ s.peers := by
  have rest (live : Nat) : ∀ b ∈ SendAction.encodeNew j live :: s.peers.map .send, ∀ p ∈ b.peer?, p ∈ s.peers :=
    List.forall_mem_cons.mpr ⟨(fun _ none => by cases none), sends_peer s⟩
  fun_cases RaftState.encodeActions
  · exact List.forall_mem_cons.mpr ⟨(fun _ none => by cases none), rest _⟩
  · exact rest _

theorem act_peer (s : RaftState) (a : SendAction) : ∀ b ∈ (s.act a).2, ∀ p ∈ b.peer?, p ∈ s.peers := by
  fun_cases RaftState.act
  case case3 => exact sends_peer s
  case case5 =>
    intro b member p named
    rcases List.mem_append.mp member with encodes | sends
    · obtain ⟨j, -, rfl⟩ := List.mem_map.mp encodes
      cases named
    · obtain ⟨peer, inside, pair⟩ := List.mem_flatMap.mp sends
      rcases List.mem_pair.mp pair with rfl | rfl
      all_goals
        cases named
        exact inside
  case case10 j _ _ _ => exact encodeActions_peer s j
  case case11 =>
    refine List.forall_mem_map.mpr fun peer member p named => ?_
    cases named
    exact member
  case case12 j _ _ _ _ _ => exact encodeActions_peer s j
  all_goals simp [SendAction.peer?]

theorem allowed_of_peer (peer : ∀ p ∈ a.peer?, p ∈ s.peers) : s.Allowed a := by
  cases a with
  | send p | sendNewLrc _ _ p => exact peer p rfl
  | _ => trivial

theorem addressed_of_peer (peer : ∀ p ∈ a.peer?, p ∈ s.peers) : a.Addressed s.peers := by
  cases a with
  | send p | reverse p => exact peer p rfl
  | _ => trivial

end Acts

/-- What `tickOnLeader` has decided to do when it releases the lock. -/
def tickActions (s : RaftState) (timers : Timers) : List SendAction :=
  (if timers.heartbeatDue then s.peers.map .heartbeat else []) ++
    if timers.replicateDue then [.replicateEntries] else []

theorem tickActions_peer (s : RaftState) (timers : Timers) : ∀ b ∈ s.tickActions timers, ∀ p ∈ b.peer?, p ∈ s.peers := by
  intro b member p named
  rcases List.mem_append.mp member with beats | replicates
  · split at beats
    · obtain ⟨peer, inside, rfl⟩ := List.mem_map.mp beats
      cases named
      exact inside
    · cases beats
  · split at replicates
    · cases List.mem_singleton.mp replicates
      cases named
    · cases replicates

/-- The actions run one after the other with nothing in between, until they are done or the server stops. -/
inductive Performs : RaftState → List SendAction → RaftState → Prop
  | done {s : RaftState} : Performs s [] s
  | stopped {s : RaftState} {todo : List SendAction} (stopped : s.stopped = true) : Performs s todo s
  | next {s s' : RaftState} {a : SendAction} {rest : List SendAction} (running : s.stopped = false)
      (later : Performs (s.act a).1 ((s.act a).2 ++ rest) s') : Performs s (a :: rest) s'

section Performs

variable {a : SendAction} {α : Type} {f : RaftState → α → RaftState} {items : List α}

theorem andThen_andThen (s : RaftState) (f g : RaftState → RaftState) :
    (s.andThen f).andThen g = s.andThen fun t => (f t).andThen g := by
  cases stopped : s.stopped <;> simp [andThen, stopped]

variable {s s' t : RaftState}

theorem Performs.append {first second : List SendAction} {f : RaftState → RaftState} (one : Performs s first t)
    (two : t.stopped = false → Performs t second (f t)) : Performs s (first ++ second) (t.andThen f) := by
  induction one with
  | @done s =>
    cases running : s.stopped with
    | true =>
      simp only [andThen, running, if_true]
      exact .stopped running
    | false =>
      simp only [andThen, running, Bool.false_eq_true, if_false]
      exact two running
  | stopped halted =>
    simp only [andThen, halted, if_true]
    exact .stopped halted
  | next running _ ih =>
    rw [List.append_assoc] at ih
    exact .next running (ih two)

theorem Performs.single (running : s.stopped = false) (last : (s.act a).2 = []) : Performs s [a] (s.act a).1 := by
  refine .next running ?_
  rw [last]
  exact .done

theorem Performs.forEach {todo : α → List SendAction}
    (round : ∀ t, t.stopped = false → ∀ a ∈ items, Performs t (todo a) (f t a)) (running : s.stopped = false) :
    Performs s (items.flatMap todo) (RaftState.forEach f items s) := by
  induction items generalizing s with
  | nil => exact .done
  | cons a rest ih =>
    rw [List.flatMap_cons]
    exact (round s running a List.mem_cons_self).append fun running' =>
      ih (fun t alive b member => round t alive b (List.mem_cons_of_mem a member)) running'

theorem Performs.forEach_map {action : α → SendAction}
    (round : ∀ t, ∀ a ∈ items, t.act (action a) = (f t a, [])) (running : s.stopped = false) :
    Performs s (items.map action) (RaftState.forEach f items s) := by
  rw [List.map_eq_flatMap]
  refine .forEach (fun t running' a member => ?_) running
  have act := round t a member
  have single := Performs.single (a := action a) running' (by rw [act])
  rwa [act] at single

theorem Performs.decide {todo : List SendAction} (running : s.stopped = false)
    (decides : s.act a = (t, todo)) (later : Performs t todo s') : Performs s [a] s' := by
  refine .next running ?_
  rw [decides, List.append_nil]
  exact later

variable (running : s.stopped = false)
include running

theorem performs_sendToPeers : Performs s (s.peers.map .send) (RaftState.forEach sendToPeer s.peers s) :=
  .forEach_map (fun _ _ _ => rfl) running

theorem performs_broadcastHeartbeat : Performs s (s.peers.map .heartbeat) s.broadcastHeartbeat :=
  .forEach_map (fun _ _ _ => rfl) running

theorem performs_reverseAndSend (peer : Nat) : Performs s [.reverse peer, .send peer] (s.reverseAndSend peer) := by
  unfold reverseAndSend
  by_cases own : peer = s.id
  · rw [if_pos own]
    refine .next running ?_
    refine .next (by simpa [act, own] using running) ?_
    simpa [act, own, sendToPeer] using Performs.done
  · rw [if_neg own]
    refine .next running ?_
    refine .next (by simpa [act, own, updatePeer] using running) ?_
    simpa [act, own] using Performs.done

omit running in
theorem reEncodes_peers (k : Nat) (items : List Nat) (s : RaftState) :
    (RaftState.forEach (reEncode k) items s).peers = s.peers := by
  refine forEach_rel (R := fun s t => t.peers = s.peers) (fun _ => rfl) (fun h k => k.trans h) fun t j _ _ => ?_
  unfold reEncode encodeAndRecord
  simp only
  split
  · rfl
  · split <;> rfl

theorem performs_maybeReEncode : Performs s [.maybeReEncode] s.maybeReEncodingAndReplicate := by
  unfold maybeReEncodingAndReplicate
  simp only
  split
  · rename_i few
    exact .decide running (by simp only [act, if_pos few]) .done
  · rename_i enough
    refine .decide (t := s) running (by simp only [act, if_neg enough]; rfl) ?_
    refine Performs.append (.forEach_map (fun _ _ _ => rfl) running) fun running' => ?_
    rw [reEncodes_peers]
    exact .forEach (fun t running'' peer _ => performs_reverseAndSend running'' peer) running'

theorem performs_replicateEntries : Performs s [.replicateEntries] s.replicateEntries := by
  unfold replicateEntries
  simp only
  split
  · rename_i changed
    exact .decide running (by simp only [act, if_pos changed]) (performs_maybeReEncode running)
  · rename_i same
    exact .decide running (by simp only [act, if_neg same]) (performs_sendToPeers running)

/-- Without a handler in between, the actions of a tick are what `sendAsLeader` does at once. -/
theorem performs_sendAsLeader (timers : Timers) : Performs s (s.tickActions timers) (s.sendAsLeader timers) := by
  unfold tickActions sendAsLeader
  refine Performs.append ?_ fun running' => ?_
  · split
    · exact performs_broadcastHeartbeat running
    · exact .done
  · cases timers.replicateDue with
    | true => exact performs_replicateEntries running'
    | false => exact .done

/-- The end of the Reed-Solomon branch: encode unless that has been done, and send. -/
theorem performs_encodeNew (raftIndex liveServers : Nat) :
    Performs s (.encodeNew raftIndex liveServers :: s.peers.map .send)
      ((if (s.encodedStripe raftIndex).isSome then s
        else s.encodeAndRecord (s.encodingK liveServers) raftIndex).andThen
          fun t => RaftState.forEach sendToPeer t.peers t) := by
  have peers : (s.act (.encodeNew raftIndex liveServers)).1.peers = s.peers := by
    simp only [act]
    split
    · rfl
    · unfold encodeAndRecord
      split <;> rfl
  have encoded : Performs s [.encodeNew raftIndex liveServers] (s.act (.encodeNew raftIndex liveServers)).1 :=
    .single running rfl
  rw [← peers]
  exact encoded.append performs_sendToPeers

theorem performs_encodeActions (raftIndex : Nat) : Performs (s.encodeActions raftIndex).1 (s.encodeActions raftIndex).2
      ((s.encodeNewEntry raftIndex).andThen fun t => RaftState.forEach sendToPeer t.peers t) := by
  unfold encodeActions encodeNewEntry
  simp only
  rw [andThen_andThen]
  split
  · have peers := (LeaderStep.maybeReEncodingAndReplicate (s.updateAliveServers s.liveMonitor.liveNumber)).peers_eq
    have first := performs_maybeReEncode (s := s.updateAliveServers s.liveMonitor.liveNumber) running
    refine first.append fun running' => ?_
    rw [show s.peers = _ from peers.symm]
    exact performs_encodeNew running' raftIndex _
  · rw [andThen, if_neg (by simp [running])]
    exact performs_encodeNew running raftIndex _

/-- Without a handler in between, the replication of a new entry is `replicateNewProposeEntry`. -/
theorem performs_replicateNew (raftIndex : Nat) :
    Performs s [.replicateNew raftIndex] (s.replicateNewProposeEntry raftIndex) := by
  unfold replicateNewProposeEntry
  split
  · rename_i missing
    exact .decide running (by simp only [act, missing]) .done
  · rename_i ent found
    split
    · rename_i noGrouper
      exact .decide running (by simp only [act, found, noGrouper]) (performs_encodeActions running raftIndex)
    · rename_i grouper some_grouper
      split
      · rename_i lrc
        refine .decide (t := s.updateLastEncodingK raftIndex ent.chunkInfo.k) running
          (by simp only [act, found, some_grouper, if_pos lrc]; rfl) ?_
        exact .forEach_map (fun _ _ _ => rfl) running
      · rename_i rs
        exact .decide running (by simp only [act, found, some_grouper, if_neg rs])
          (performs_encodeActions running raftIndex)

end Performs

end RaftState

end FlexRaft
