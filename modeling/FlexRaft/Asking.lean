import FlexRaft.Unlocked

namespace FlexRaft

namespace Message

def term : Message → Nat
  | .requestVote args => args.term
  | .requestVoteReply reply => reply.term
  | .appendEntries args => args.term
  | .appendEntriesReply reply => reply.term
  | .requestFragments args => args.term
  | .requestFragmentsReply reply => reply.term

def isRequest : Message → Bool
  | .requestVote _ | .appendEntries _ | .requestFragments _ => true
  | _ => false

def isAppendEntries : Message → Bool
  | .appendEntries _ => true
  | _ => false

end Message

namespace RaftState

/-- `p` is a request for entries to be stored or returned, in the current term of `s`. -/
def Asks (s : RaftState) (p : Packet) : Prop :=
  p.src = s.id ∧ p.dst ∈ s.peers ∧ p.msg.term = s.currentTerm ∧
    match p.msg with
    | .appendEntries args => args.leaderId = s.id
    | .requestFragments _ => True
    | _ => False

/-- `s'` is `s` after it has encoded and sent some entries. -/
structure Asking (s s' : RaftState) : Prop where
  core : s'.core = s.core
  outbox : ∀ p ∈ s'.outbox, p ∈ s.outbox ∨ s.Asks p

namespace Asking

variable {s : RaftState} {s' : RaftState}

theorem refl (s : RaftState) : Asking s s := ⟨rfl, fun _ member => Or.inl member⟩

theorem asks (step : Asking s s') {p : Packet} (asks : s'.Asks p) : s.Asks p := by
  have config : s'.config = s.config := field_eq step.core (·.config)
  have term : s'.currentTerm = s.currentTerm := field_eq step.core (·.currentTerm)
  simpa only [Asks, id, peers, config, term] using asks

theorem trans {a b c : RaftState} (first : Asking a b) (second : Asking b c) : Asking a c := by
  refine ⟨second.core.trans first.core, fun p member => ?_⟩
  rcases second.outbox p member with old | new
  · exact first.outbox p old
  · exact Or.inr (first.asks new)

theorem peers_eq (step : Asking s s') : s'.peers = s.peers :=
  field_eq step.core (·.peers)

theorem forEach {α : Type} {f : RaftState → α → RaftState} {items : List α}
    (round : ∀ t a, Asking s t → a ∈ items → Asking t (f t a)) : Asking s (RaftState.forEach f items s) :=
  forEach_rel refl (fun h k => h.trans k) round

theorem silent (core : s'.core = s.core) (outbox : s'.outbox = s.outbox) : Asking s s' :=
  ⟨core, fun _ member => Or.inl (outbox ▸ member)⟩

theorem send {dst : Nat} {msg : Message} (asks : s.Asks { src := s.id, dst := dst, msg := msg }) :
    Asking s (s.send dst msg) := by
  exact ⟨rfl, List.forall_mem_append.mpr ⟨fun _ => Or.inl, List.forall_mem_singleton.mpr (Or.inr asks)⟩⟩

theorem sendHeartBeat (s : RaftState) (peer : Nat) : Asking s (s.sendHeartBeat peer) := by
  unfold RaftState.sendHeartBeat
  split
  · exact refl s
  · rename_i valid
    exact send ⟨rfl, Decidable.not_not.mp fun outside => valid (Or.inr outside), rfl, rfl⟩

theorem broadcastHeartbeat (s : RaftState) : Asking s s.broadcastHeartbeat := by
  refine forEach fun t peer _ _ => ?_
  split
  · exact refl t
  · exact sendHeartBeat t peer

end Asking

theorem Allowed.congr {s s' : RaftState} {a : SendAction} (peers : s'.peers = s.peers) (allowed : s.Allowed a) :
    s'.Allowed a := by
  cases a with
  | send peer | sendNewLrc _ _ peer =>
    change peer ∈ s'.peers
    rw [peers]
    exact allowed
  | _ => trivial

section Actions

variable {s : RaftState}

theorem act_asking {a : SendAction} (allowed : s.Allowed a) :
    Asking s (s.act a).1 ∧ ∀ b ∈ (s.act a).2, s.Allowed b := by
  refine ⟨?_, fun b member => allowed_of_peer (act_peer s a b member)⟩
  cases s.acts a with
  | silent core outbox => exact .silent core outbox
  | sends sent request dst =>
    rw [sent]
    exact .send ⟨rfl, dst allowed, request.term, request.leaderId⟩

theorem Performs.asking {s' : RaftState} {todo : List SendAction} (performs : Performs s todo s')
    (allowed : ∀ a ∈ todo, s.Allowed a) : Asking s s' := by
  induction performs with
  | done => exact .refl _
  | stopped => exact .refl _
  | @next s s' a rest running later ih =>
    obtain ⟨asking, more⟩ := act_asking (allowed a List.mem_cons_self)
    refine asking.trans (ih fun b member => ?_)
    refine .congr asking.peers_eq ?_
    rcases List.mem_append.mp member with new | old
    · exact more b new
    · exact allowed b (List.mem_cons_of_mem a old)

theorem tickActions_allowed (s : RaftState) (timers : Timers) : ∀ a ∈ s.tickActions timers, s.Allowed a :=
  fun a member => allowed_of_peer (tickActions_peer s timers a member)

theorem Asking.sendAsLeader (running : s.stopped = false) (timers : Timers) : Asking s (s.sendAsLeader timers) :=
  (performs_sendAsLeader running timers).asking (tickActions_allowed s timers)

theorem Asking.replicateNewProposeEntry (running : s.stopped = false) (j : Nat) :
    Asking s (s.replicateNewProposeEntry j) :=
  (performs_replicateNew running j).asking (by simp [Allowed])

end Actions

end RaftState

end FlexRaft
