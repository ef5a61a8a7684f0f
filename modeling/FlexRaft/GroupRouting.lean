import FlexRaft.Asking
import FlexRaft.Cluster
import FlexRaft.GroupTags

namespace FlexRaft

/-- A message between two nodes. `group` is the group it belongs to: that of the RaftState which sent it, or, where
a service answered without one, that of the request. `unsetGroupId` is what a request for fragments has in its
`group_id`. -/
structure GroupPacket where
  group : Nat
  unsetGroupId : Nat
  packet : Packet

/-- Memory that is sent without having been written. -/
structure Garbage where
  groupId : Nat
  voteReply : RequestVoteReply
  appendReply : AppendEntriesReply
  fragmentsReply : RequestFragmentsReply

/-- What a service answers that no RaftState is registered with. -/
def Garbage.defaultReply (garbage : Garbage) : Message → Option Message
  | .requestVote _ => some (.requestVoteReply { garbage.voteReply with voteGranted := false, term := 0, groupId := 0 })
  | .appendEntries _ =>
    some (.appendEntriesReply { garbage.appendReply with success := false, term := 0, groupId := 0, chunkInfos := [] })
  | .requestFragments _ => some (.requestFragmentsReply garbage.fragmentsReply)
  | _ => none

/-- The `group_id` that `RaftUnifiedRPCService` finds in a request. -/
def GroupPacket.groupId (m : GroupPacket) : Nat := m.packet.msg.groupId?.getD m.unsetGroupId

/-- Nodes that run one RaftState for each of their groups: `raftStates` are the groups in the map of a node's
`RaftUnifiedRPCService`, `transportHandlers` those its `AsyncBatchRpcSenderImpl` hands replies to. -/
structure MultiRaft where
  states : Nat → Nat → RaftState
  raftStates : Nat → List Nat
  transportHandlers : Nat → List Nat
  net : List GroupPacket

inductive GroupLabel
  | registerRaftState (node group : Nat)
  | unregisterRaftState (node group : Nat)
  | setTransportHandler (node group : Nat)
  | removeTransportHandler (node group : Nat)
  | tick (node group : Nat) (timers : Timers) (garbage : Garbage)
  | propose (node group : Nat) (command : CommandData) (garbage : Garbage)
  | replicate (node group raftIndex : Nat) (garbage : Garbage)
  | deliver (n now : Nat) (garbage : Garbage)

/-- What each RaftState is made from. -/
structure GroupSetup where
  config : Nat → Nat → RaftConfig
  storage : Nat → Nat → Option PersistRaftState
  lm : Nat → Nat → LogManager
  junk : Nat → Nat → RaftState.Uninitialised

namespace MultiRaft

/-- Each RaftState has been given the id of its group; nothing is registered yet. -/
def init (setup : GroupSetup) : MultiRaft :=
  { states := fun node group =>
      RaftState.newRaftState { setup.config node group with id := node, groupId := group } (setup.storage node group)
        (setup.lm node group) (setup.junk node group)
    raftStates := fun _ => []
    transportHandlers := fun _ => []
    net := [] }

/-- Adds a key to the map of one node. -/
def withKey (maps : Nat → List Nat) (node group : Nat) : Nat → List Nat :=
  fun n => if n = node then (maps n).insert group else maps n

def withoutKey (maps : Nat → List Nat) (node group : Nat) : Nat → List Nat :=
  fun n => if n = node then (maps n).filter (· != group) else maps n

/-- A RaftState ran a handler that ended in `s`: its messages go on the wire. -/
def run (σ : MultiRaft) (node group : Nat) (s : RaftState) (garbage : Garbage) : MultiRaft :=
  { σ with
    states := fun n g => if n = node ∧ g = group then s.flush else σ.states n g
    net := σ.net ++ s.outbox.map fun p => { group := group, unsetGroupId := garbage.groupId, packet := p } }

def act (σ : MultiRaft) (node group : Nat) (handler : RaftState → RaftState) (garbage : Garbage) : Option MultiRaft :=
  if (σ.states node group).stopped then none else some (σ.run node group (handler (σ.states node group)) garbage)

/-- The RaftState that gets a request: the one of its `group_id`, else the first in the map, which is ordered by
group id whatever the order of registration was. -/
def targetRaft (registered : List Nat) (groupId : Nat) : Option Nat :=
  if groupId ∈ registered then some groupId else registered.min?

/-- `RequestVote`, `AppendEntries` and `RequestFragments` of `RaftUnifiedRPCService`. -/
def handleRequest (σ : MultiRaft) (m : GroupPacket) (now : Nat) (garbage : Garbage) : Option MultiRaft :=
  match targetRaft (σ.raftStates m.packet.dst) m.groupId with
  | some group => σ.act m.packet.dst group (fun s => s.process m.packet.src m.packet.msg now) garbage
  | none =>
    let replies := (garbage.defaultReply m.packet.msg).toList.map fun reply =>
      { group := m.group
        unsetGroupId := garbage.groupId
        packet := { src := m.packet.dst, dst := m.packet.src, msg := reply } }
    some { σ with net := σ.net ++ replies }

/-- `HandleRequestVoteReply` and `HandleAppendEntriesReply` of the sender look for the group of the reply;
`HandleRequestFragmentsReply` hands the reply to everyone. -/
def handleReply (σ : MultiRaft) (m : GroupPacket) (now : Nat) (garbage : Garbage) : Option MultiRaft :=
  let handle (σ : MultiRaft) (group : Nat) : Option MultiRaft :=
    σ.act m.packet.dst group (fun s => s.process m.packet.src m.packet.msg now) garbage
  match m.packet.msg.groupId? with
  | some group => if group ∈ σ.transportHandlers m.packet.dst then handle σ group else some σ
  | none => (σ.transportHandlers m.packet.dst).foldlM handle σ

def stepDeliver (σ : MultiRaft) (n now : Nat) (garbage : Garbage) : Option MultiRaft :=
  match σ.net[n]? with
  | none => none
  | some m =>
    let σ := { σ with net := σ.net.eraseIdx n }
    if m.packet.msg.isRequest then σ.handleRequest m now garbage else σ.handleReply m now garbage

def step (σ : MultiRaft) : GroupLabel → Option MultiRaft
  | .registerRaftState node group => some { σ with raftStates := withKey σ.raftStates node group }
  | .unregisterRaftState node group => some { σ with raftStates := withoutKey σ.raftStates node group }
  | .setTransportHandler node group => some { σ with transportHandlers := withKey σ.transportHandlers node group }
  | .removeTransportHandler node group => some { σ with transportHandlers := withoutKey σ.transportHandlers node group }
  | .tick node group timers garbage => σ.act node group (fun s => s.tick timers) garbage
  | .propose node group command garbage => σ.act node group (fun s => (s.propose command).1) garbage
  | .replicate node group raftIndex garbage =>
    σ.act node group (fun s => s.replicateNewProposeEntry raftIndex) garbage
  | .deliver n now garbage => σ.stepDeliver n now garbage

/-- Where the code finds the group of a message. A vote or append request needs its group to be registered at the
receiver; a service with no RaftState at all answers for group 0. The unset id of a request for fragments has to
lead to the group of the request as well, and an answer with fragments goes to every handler of a node. -/
def Addressed (σ : MultiRaft) (m : GroupPacket) : Prop :=
  let registered := σ.raftStates m.packet.dst
  match m.packet.msg with
  | .requestVote _ | .appendEntries _ => m.group ∈ registered ∨ registered = [] ∧ m.group = 0
  | .requestFragments _ => registered = [] ∨ m.group ∈ registered ∧
      (m.unsetGroupId = m.group ∨ m.unsetGroupId ∉ registered ∧ ∀ h ∈ registered, m.group ≤ h)
  | .requestVoteReply _ | .appendEntriesReply _ => True
  | .requestFragmentsReply _ => ∀ h ∈ σ.transportHandlers m.packet.dst, h = m.group

instance (σ : MultiRaft) : (m : GroupPacket) → Decidable (σ.Addressed m)
  | ⟨g, _, _, dst, .requestVote _⟩ | ⟨g, _, _, dst, .appendEntries _⟩ =>
    inferInstanceAs (Decidable (g ∈ σ.raftStates dst ∨ σ.raftStates dst = [] ∧ g = 0))
  | ⟨g, unset, _, dst, .requestFragments _⟩ =>
    inferInstanceAs (Decidable (σ.raftStates dst = [] ∨ g ∈ σ.raftStates dst ∧
      (unset = g ∨ unset ∉ σ.raftStates dst ∧ ∀ h ∈ σ.raftStates dst, g ≤ h)))
  | ⟨_, _, _, _, .requestVoteReply _⟩ | ⟨_, _, _, _, .appendEntriesReply _⟩ => isTrue trivial
  | ⟨g, _, _, dst, .requestFragmentsReply _⟩ => inferInstanceAs (Decidable (∀ h ∈ σ.transportHandlers dst, h = g))

/-- Only messages whose group the code finds are delivered. -/
def addressed (σ : MultiRaft) : GroupLabel → Prop
  | .deliver n _ _ => ∀ m ∈ σ.net[n]?, σ.Addressed m
  | _ => True

instance (σ : MultiRaft) : (l : GroupLabel) → Decidable (addressed σ l)
  | .deliver n _ _ => inferInstanceAs (Decidable (∀ m ∈ σ.net[n]?, σ.Addressed m))
  | .registerRaftState _ _ | .unregisterRaftState _ _ | .setTransportHandler _ _ | .removeTransportHandler _ _
  | .tick _ _ _ _ | .propose _ _ _ _ | .replicate _ _ _ _ => isTrue trivial

abbrev Reach (ok : MultiRaft → GroupLabel → Prop) : MultiRaft → MultiRaft → Prop := Steps.Reach step ok

abbrev exec (ok : MultiRaft → GroupLabel → Prop) [∀ σ l, Decidable (ok σ l)] :
    MultiRaft → List GroupLabel → Option MultiRaft :=
  Steps.exec step ok

/-- RaftStates know their group and have nothing left to send; messages name no group but their own. -/
structure Tagged (σ : MultiRaft) : Prop where
  group : ∀ node g, (σ.states node g).config.groupId = g
  outbox : ∀ node g, (σ.states node g).outbox = []
  net : ∀ m ∈ σ.net, m.packet.msg.Names m.group

variable {σ σ' : MultiRaft} {m : GroupPacket} {now : Nat} {garbage : Garbage}

section Keeping

variable {node g : Nat}

theorem Tagged.state (tagged : σ.Tagged) (node g : Nat) : (σ.states node g).Tagged g :=
  ⟨tagged.group node g, by simp [tagged.outbox node g]⟩

theorem Tagged.run (tagged : σ.Tagged) {s : RaftState} (ran : s.Tagged g) (garbage : Garbage) :
    (σ.run node g s garbage).Tagged := by
  refine ⟨fun n h => ?_, fun n h => ?_, fun m member => ?_⟩
  · simp only [MultiRaft.run]
    split
    · rename_i here
      rw [here.2]
      exact ran.group
    · exact tagged.group n h
  · simp only [MultiRaft.run]
    split
    · rfl
    · exact tagged.outbox n h
  · rcases List.mem_append.mp member with old | new
    · exact tagged.net m old
    · obtain ⟨p, sent, rfl⟩ := List.mem_map.mp new
      exact ran.outbox p sent

theorem Tagged.act (tagged : σ.Tagged) {handler : RaftState → RaftState}
    (keeps : ∀ s, s.stopped = false → s.Tagged g → (handler s).Tagged g) (acts : σ.act node g handler garbage = some σ') :
    σ'.Tagged := by
  unfold MultiRaft.act at acts
  split at acts
  · cases acts
  · rename_i running
    cases acts
    exact tagged.run (keeps _ (Bool.eq_false_iff.mpr running) (tagged.state node g)) garbage

theorem Tagged.process (tagged : σ.Tagged) {src : Nat} {msg : Message}
    (acts : σ.act node g (fun s => s.process src msg now) garbage = some σ') : σ'.Tagged :=
  tagged.act (fun _ _ holds => holds.process src msg now) acts

/-- A service without a RaftState answers in the name of group 0; such an answer is only made for requests of this
group, and for requests whose answer names no group. -/
theorem Addressed.defaultReply {reply : Message} (addressed : σ.Addressed m)
    (empty : σ.raftStates m.packet.dst = []) (made : garbage.defaultReply m.packet.msg = some reply) :
    reply.Names m.group := by
  unfold Addressed at addressed
  unfold Garbage.defaultReply at made
  split at made
  · rename_i args request
    cases made
    simp only [request, empty, List.not_mem_nil, false_or, true_and] at addressed
    exact Message.names_self (addressed ▸ rfl)
  · rename_i args request
    cases made
    simp only [request, empty, List.not_mem_nil, false_or, true_and] at addressed
    exact Message.names_self (addressed ▸ rfl)
  · cases made
    exact nofun
  · cases made

theorem Tagged.handleRequest (tagged : σ.Tagged) (addressed : σ.Addressed m)
    (handles : σ.handleRequest m now garbage = some σ') : σ'.Tagged := by
  unfold MultiRaft.handleRequest at handles
  split at handles
  · exact tagged.process handles
  · rename_i noTarget
    cases handles
    have empty : σ.raftStates m.packet.dst = [] := by
      unfold targetRaft at noTarget
      split at noTarget
      · cases noTarget
      · exact List.min?_eq_none_iff.mp noTarget
    refine ⟨tagged.group, tagged.outbox, fun sent member => ?_⟩
    rcases List.mem_append.mp member with old | new
    · exact tagged.net sent old
    · obtain ⟨reply, made, rfl⟩ := List.mem_map.mp new
      exact addressed.defaultReply empty (Option.mem_toList.mp made)

theorem Tagged.handleReply (tagged : σ.Tagged) (handles : σ.handleReply m now garbage = some σ') : σ'.Tagged := by
  unfold MultiRaft.handleReply at handles
  dsimp only at handles
  split at handles
  · split at handles
    · exact tagged.process handles
    · cases handles
      exact tagged
  · generalize σ.transportHandlers m.packet.dst = groups at handles
    -- each handler of the loop finds the nodes as the one before has left them
    induction groups generalizing σ with
    | nil =>
      cases handles
      exact tagged
    | cons g rest ih =>
      rw [List.foldlM_cons] at handles
      obtain ⟨mid, first, later⟩ := Option.bind_eq_some_iff.mp handles
      exact ih (tagged.process first) later

theorem Tagged.take (tagged : σ.Tagged) (n : Nat) : { σ with net := σ.net.eraseIdx n }.Tagged :=
  ⟨tagged.group, tagged.outbox, fun m member => tagged.net m (List.mem_of_mem_eraseIdx member)⟩

theorem Tagged.step (tagged : σ.Tagged) {l : GroupLabel} (ok : σ.addressed l) (steps : σ.step l = some σ') : σ'.Tagged := by
  cases l with
  | registerRaftState | unregisterRaftState | setTransportHandler | removeTransportHandler =>
    cases steps
    exact ⟨tagged.group, tagged.outbox, tagged.net⟩
  | tick node g timers garbage => exact tagged.act (fun _ running holds => holds.tick running timers) steps
  | propose node g command garbage => exact tagged.act (fun _ _ holds => holds.propose command) steps
  | replicate node g j garbage => exact tagged.act (fun _ running holds => holds.replicateNewProposeEntry running j) steps
  | deliver n now garbage =>
    change σ.stepDeliver n now garbage = some σ' at steps
    unfold stepDeliver at steps
    split at steps
    · cases steps
    · rename_i m inFlight
      dsimp only at steps
      split at steps
      · exact (tagged.take n).handleRequest (ok m inFlight) steps
      · exact (tagged.take n).handleReply steps

theorem tagged_init (setup : GroupSetup) : (init setup).Tagged :=
  ⟨fun _ _ => rfl, fun _ _ => rfl, nofun⟩

theorem Reach.tagged {setup : GroupSetup} (reach : Reach addressed (init setup) σ) : σ.Tagged :=
  reach.holds (tagged_init setup) fun _ _ _ holds ok steps => holds.step ok steps

end Keeping

section Isolation

variable {g : Nat}

/-- No RaftState has changed but that of group `g` at `node`. -/
def OnlyAt (σ σ' : MultiRaft) (node g : Nat) : Prop :=
  ∀ n h, ¬(n = node ∧ h = g) → σ'.states n h = σ.states n h

theorem OnlyAt.act {node : Nat} {handler : RaftState → RaftState} (acts : σ.act node g handler garbage = some σ') :
    σ.OnlyAt σ' node g := by
  intro n h other
  unfold MultiRaft.act at acts
  split at acts
  · cases acts
  · cases acts
    exact if_neg other

theorem targetRaft_eq {registered : List Nat} {groupId : Nat} (member : g ∈ registered)
    (leads : groupId = g ∨ groupId ∉ registered ∧ ∀ h ∈ registered, g ≤ h) : targetRaft registered groupId = some g := by
  unfold targetRaft
  rcases leads with rfl | ⟨unknown, least⟩
  · rw [if_pos member]
  · rw [if_neg unknown]
    exact List.min?_eq_some_iff.mpr ⟨member, least⟩

theorem targetRaft_nil (groupId : Nat) : targetRaft [] groupId = none := rfl

theorem Addressed.target (addressed : σ.Addressed m) (names : m.packet.msg.Names m.group)
    (request : m.packet.msg.isRequest) {h : Nat}
    (target : targetRaft (σ.raftStates m.packet.dst) m.groupId = some h) : h = m.group := by
  have found (member : m.group ∈ σ.raftStates m.packet.dst)
      (leads : m.groupId = m.group ∨
        m.groupId ∉ σ.raftStates m.packet.dst ∧ ∀ h ∈ σ.raftStates m.packet.dst, m.group ≤ h) : h = m.group := by
    rw [targetRaft_eq member leads] at target
    exact (Option.some.inj target).symm
  have nobody (empty : σ.raftStates m.packet.dst = []) : h = m.group := by
    rw [empty, targetRaft_nil] at target
    cases target
  unfold Addressed at addressed
  dsimp only at addressed
  cases msg : m.packet.msg with
  | requestVote args =>
    rw [msg] at addressed names
    refine addressed.elim (fun member => found member (Or.inl ?_)) fun none => nobody none.1
    rw [GroupPacket.groupId, msg]
    exact names _ rfl
  | appendEntries args =>
    rw [msg] at addressed names
    refine addressed.elim (fun member => found member (Or.inl ?_)) fun none => nobody none.1
    rw [GroupPacket.groupId, msg]
    exact names _ rfl
  | requestFragments args =>
    rw [msg] at addressed
    have field : m.groupId = m.unsetGroupId := by
      rw [GroupPacket.groupId, msg]
      rfl
    refine addressed.elim nobody fun leads => found leads.1 ?_
    rw [field]
    exact leads.2
  | requestVoteReply | appendEntriesReply | requestFragmentsReply =>
    rw [msg] at request
    cases request

theorem OnlyAt.handleRequest (addressed : σ.Addressed m) (names : m.packet.msg.Names m.group)
    (request : m.packet.msg.isRequest) (handles : σ.handleRequest m now garbage = some σ') :
    σ.OnlyAt σ' m.packet.dst m.group := by
  unfold MultiRaft.handleRequest at handles
  split at handles
  · rename_i h target
    have same := addressed.target names request target
    subst same
    exact OnlyAt.act handles
  · cases handles
    exact fun _ _ _ => rfl

theorem OnlyAt.handleReply (addressed : σ.Addressed m) (names : m.packet.msg.Names m.group)
    (reply : ¬m.packet.msg.isRequest) (handles : σ.handleReply m now garbage = some σ') :
    σ.OnlyAt σ' m.packet.dst m.group := by
  unfold MultiRaft.handleReply at handles
  dsimp only at handles
  split at handles
  · rename_i g named
    have same : g = m.group := names g named
    subst same
    split at handles
    · exact OnlyAt.act handles
    · cases handles
      exact fun _ _ _ => rfl
  · rename_i unnamed
    have own : ∀ h ∈ σ.transportHandlers m.packet.dst, h = m.group := by
      unfold Addressed at addressed
      dsimp only at addressed
      cases msg : m.packet.msg with
      | requestFragmentsReply answer =>
        rw [msg] at addressed
        exact addressed
      | requestVote | appendEntries | requestFragments =>
        rw [msg] at reply
        exact absurd rfl reply
      | requestVoteReply | appendEntriesReply =>
        rw [msg] at unnamed
        cases unnamed
    generalize σ.transportHandlers m.packet.dst = groups at handles own
    clear addressed
    induction groups generalizing σ with
    | nil =>
      cases handles
      exact fun _ _ _ => rfl
    | cons g rest ih =>
      rw [List.foldlM_cons] at handles
      obtain ⟨mid, first, later⟩ := Option.bind_eq_some_iff.mp handles
      have same : g = m.group := own g List.mem_cons_self
      subst same
      intro n h other
      rw [ih later (fun h member => own h (List.mem_cons_of_mem _ member)) n h other]
      exact OnlyAt.act first n h other

/-- Whatever was registered in which order, and whatever was sent and delivered before: a message changes no RaftState
but the one of its group at its receiver. -/
theorem groups_isolated {setup : GroupSetup} {n : Nat} (reach : Reach addressed (init setup) σ)
    (inFlight : σ.net[n]? = some m) (addressed : σ.Addressed m) (step : σ.step (.deliver n now garbage) = some σ') :
    ∀ node h, ¬(node = m.packet.dst ∧ h = m.group) → σ'.states node h = σ.states node h := by
  have names := reach.tagged.net m (List.mem_of_getElem? inFlight)
  have taken : MultiRaft.Addressed { σ with net := σ.net.eraseIdx n } m := addressed
  change σ.stepDeliver n now garbage = some σ' at step
  unfold stepDeliver at step
  rw [inFlight] at step
  dsimp only at step
  split at step
  · rename_i request
    have only := OnlyAt.handleRequest taken names request step
    exact only
  · rename_i reply
    have only := OnlyAt.handleReply taken names reply step
    exact only

/-- Nodes 0, 1 and 2 run groups 0 and 1. The RaftState of group 1 at node 1 has an entry that it does not know to be
committed. -/
def sharedNodes : GroupSetup :=
  { config := fun node _ => (ClusterConfig.threeServers 1).serverConfig node
    storage := fun _ _ => none
    lm := fun node group => if node = 1 ∧ group = 1 then { entries := [{ index := 1 }] } else {}
    junk := fun node _ => RaftState.Uninitialised.zero node }

def zeroGarbage : Garbage :=
  { groupId := 0
    voteReply := { term := 0, voteGranted := false, replyId := 0, groupId := 0 }
    appendReply := { term := 0, success := false, expectIndex := 0, replyId := 0, groupId := 0, chunkInfos := [] }
    fragmentsReply := { replyId := 0, term := 0, startIndex := 0, success := false, entryCnt := 0, fragments := [] } }

/-- Node 0 serves both groups, registered in descending order, and the RaftState of group 1 at node 1 stands for
election. -/
def voteAsked : List GroupLabel :=
  [.registerRaftState 0 1, .registerRaftState 0 0, .setTransportHandler 1 1, .setTransportHandler 1 0,
    .tick 1 1 { electionExpired := true } zeroGarbage]

theorem groups_isolated_vote : let σ := (exec addressed (init sharedNodes) voteAsked).get (by decide)
    let σ' := (exec addressed (init sharedNodes) (voteAsked ++ [.deliver 0 1 zeroGarbage])).get (by decide)
    (∀ node h, ¬(node = 0 ∧ h = 1) → σ'.states node h = σ.states node h) ∧
      (σ.states 0 1).voteFor = kNotVoted ∧ (σ'.states 0 1).voteFor = 1 := by
  intro σ σ'
  refine ⟨?_, by decide, by decide⟩
  have reach : Reach addressed (init sharedNodes) σ := Steps.Reach.of_get (by decide)
  have step : σ.step (.deliver 0 1 zeroGarbage) = some σ' := rfl
  exact groups_isolated reach rfl (by decide) step

/-- The vote of node 0 makes node 1 the pre-leader of group 1, which asks for fragments with a group id of 0. -/
def fragmentsAsked : List GroupLabel := voteAsked ++ [.deliver 0 1 zeroGarbage, .deliver 1 2 zeroGarbage]

/-- The request of group 1 takes the RaftState of group 0 at node 0 to another term, and the answer of that RaftState
makes the pre-leader of group 1 a leader. A vote request to a node without group 1 gets the vote of its group 0. -/
theorem groups_interfere : let before := (exec (fun _ _ => True) (init sharedNodes) fragmentsAsked).get (by decide)
    let asked := (before.step (.deliver 1 3 zeroGarbage)).get (by decide)
    let answered := (asked.step (.deliver 2 4 zeroGarbage)).get (by decide)
    let strange := (exec (fun _ _ => True) (init sharedNodes) [.registerRaftState 0 0,
      .tick 1 1 { electionExpired := true } zeroGarbage]).get (by decide)
    let voted := (strange.step (.deliver 0 1 zeroGarbage)).get (by decide)
    before.net[1]?.map GroupPacket.group = some 1 ∧ (before.states 0 0).currentTerm = 0 ∧
      (asked.states 0 0).currentTerm = 1 ∧ asked.net[2]?.map GroupPacket.group = some 0 ∧
      (asked.states 1 1).role = .kPreLeader ∧ (answered.states 1 1).role = .kLeader ∧
      strange.net[0]?.map GroupPacket.group = some 1 ∧ (strange.states 0 0).voteFor = kNotVoted ∧
      (voted.states 0 0).voteFor = 1 := by
  decide

end Isolation

end MultiRaft

end FlexRaft
