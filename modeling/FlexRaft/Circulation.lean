import FlexRaft.Seclusion

namespace FlexRaft

/-- The entries inside a message. -/
def Message.carried : Message → List LogEntry
  | .appendEntries args => args.entries
  | .requestFragmentsReply reply => reply.fragments
  | _ => []

/-- A property of entries that LRC replication hands down: from an entry to its key-only copy, with any of the
fragments added to it. -/
structure Inherited (P : LogEntry → Prop) : Prop where
  normal : ∀ e, P e → e.type = .kNormal
  keyOnly : ∀ e j, P e → P (RaftState.keyOnlyEntry e j)
  withFragment : ∀ e fragId frag, P e → P (e.addFragmentWithId fragId frag)

theorem Inherited.addAll {P : LogEntry → Prop} (inherited : Inherited P) {α : Type} (items : List α)
    (fragId : LogEntry → α → Nat) (frag : α → Slice) {e : LogEntry} (holds : P e) :
    P (items.foldl (fun e a => e.addFragmentWithId (fragId e a) (frag a)) e) := by
  induction items generalizing e with
  | nil => exact holds
  | cons a rest ih => exact ih (inherited.withFragment e _ _ holds)

namespace RaftState

/-- A server in LRC mode has `P` of the entries in its log and in the messages it is about to send. -/
structure Circulates (P : LogEntry → Prop) (s : RaftState) : Prop where
  mode : s.config.lrcMode = true
  log : ∀ e ∈ s.lm.entries, P e
  sent : ∀ p ∈ s.outbox, ∀ e ∈ p.msg.carried, P e

/-- The answers of a collection have it too. -/
def Collected (P : LogEntry → Prop) (s : RaftState) : Prop :=
  ∀ stripe ∈ s.preleaderStripeStore.stripes, ∀ p ∈ stripe.collectedFragments, P p.2

variable {P : LogEntry → Prop} {s s' : RaftState}

theorem Circulates.entry (circulates : s.Circulates P) {j : Nat} {e : LogEntry}
    (at_j : s.lm.getSingleLogEntry j = some e) : P e := by
  unfold LogManager.getSingleLogEntry at at_j
  split at at_j
  · cases at_j
  · exact circulates.log e (List.mem_of_getElem? at_j)

theorem Circulates.silent (circulates : s.Circulates P) (config : s'.config = s.config) (lm : s'.lm = s.lm)
    (outbox : s'.outbox = s.outbox) : s'.Circulates P :=
  ⟨config ▸ circulates.mode, lm ▸ circulates.log, outbox ▸ circulates.sent⟩

theorem Circulates.send (circulates : s.Circulates P) {dst : Nat} {msg : Message}
    (carried : ∀ e ∈ msg.carried, P e) : (s.send dst msg).Circulates P :=
  ⟨circulates.mode, circulates.log,
    List.forall_mem_append.mpr ⟨circulates.sent, List.forall_mem_singleton.mpr carried⟩⟩

section Sending

theorem lrcEntriesFor_inherit (inherited : Inherited P) (circulates : s.Circulates P) {peer : Nat} {indices : List Nat}
    {entries : List LogEntry} (built : s.lrcEntriesFor peer indices = some entries) : ∀ e ∈ entries, P e := by
  induction indices generalizing entries with
  | nil =>
    cases built
    exact nofun
  | cons j rest ih =>
    unfold lrcEntriesFor at built
    split at built
    · exact ih built
    · rename_i ent at_j
      dsimp only at built
      split at built
      · cases built
      · obtain ⟨later, builtLater, rfl⟩ := Option.map_eq_some_iff.mp built
        refine List.forall_mem_cons.mpr ⟨?_, ih builtLater⟩
        exact inherited.addAll _ (fun e _ => e.fragments.length) (fun frag => frag)
          (inherited.keyOnly ent j (circulates.entry at_j))

theorem Circulates.sendHeartBeat (circulates : s.Circulates P) (peer : Nat) : (s.sendHeartBeat peer).Circulates P := by
  unfold RaftState.sendHeartBeat
  split
  · exact circulates
  · exact circulates.send nofun

variable (inherited : Inherited P)
include inherited

/-- No action of a leader gives away anything else. -/
theorem Circulates.act (circulates : s.Circulates P) (a : SendAction) : (s.act a).1.Circulates P := by
  cases s.acts a with
  | silent core outbox => exact circulates.silent (field_eq core (·.config)) (field_eq core (·.lm)) outbox
  | @sends peer args sent request =>
    rw [sent]
    refine circulates.send ?_
    rcases request.entries with none | ⟨indices, built⟩ | ⟨ent, j, frags, found, one⟩
    · simp [Message.carried, none]
    · rw [if_pos circulates.mode] at built
      exact lrcEntriesFor_inherit inherited circulates built
    · rw [Message.carried, one]
      refine List.forall_mem_singleton.mpr ?_
      exact inherited.addAll _ (fun _ p => p.1) Prod.snd (inherited.keyOnly ent j (circulates.entry found))

theorem Performs.circulates {todo : List SendAction} (performs : Performs s todo s') (circulates : s.Circulates P) :
    s'.Circulates P := by
  induction performs with
  | done => exact circulates
  | stopped => exact circulates
  | next _ _ ih => exact ih (circulates.act inherited _)

end Sending

section Collection

theorem collected_addOwnEntries (circulates : s.Circulates P) {stripes filled : List Stripe} {raftIndex : Nat}
    (before : ∀ stripe ∈ stripes, stripe.collectedFragments = [])
    (run : s.addOwnEntries raftIndex stripes = some filled) :
    ∀ stripe ∈ filled, ∀ p ∈ stripe.collectedFragments, P p.2 := by
  induction stripes generalizing raftIndex filled with
  | nil =>
    cases run
    exact nofun
  | cons stripe rest ih =>
    obtain ⟨here, later⟩ := List.forall_mem_cons.mp before
    unfold addOwnEntries at run
    split at run
    · cases run
    · rename_i ent at_j
      obtain ⟨filledLater, runLater, rfl⟩ := Option.map_eq_some_iff.mp run
      refine List.forall_mem_cons.mpr ⟨fun p member => ?_, ih later runLater⟩
      rcases OrdMap.mem_insertOrAssign member with new | old
      · rw [new]
        exact circulates.entry at_j
      · rw [here] at old
        cases old

theorem Circulates.requestFragments (circulates : s.Circulates P) (items : List Nat) :
    (forEach RaftState.requestFragments items s).Circulates P := by
  refine forEach_rel (R := fun s t => s.Circulates P → t.Circulates P) (fun _ h => h) (fun h k c => k (h c)) ?_ circulates
  intro t peer _ _ holds
  unfold RaftState.requestFragments
  split
  · exact holds
  · exact holds.send nofun

theorem Circulates.collectFragments (circulates : s.Circulates P) (size : s.getClusterServerNumber ≤ 32) :
    s.collectFragments.Circulates P ∧ s.collectFragments.Collected P := by
  have fits : ¬PreLeaderStripeStore.kResponseCapacity < s.getClusterServerNumber := Nat.not_lt.mpr size
  have empty : ∀ stripe ∈ List.replicate (s.lm.lastLogEntryIndex + 1 - (s.commitIndex + 1)) ({} : Stripe),
      stripe.collectedFragments = [] := fun stripe member => by rw [List.eq_of_mem_replicate member]
  unfold RaftState.collectFragments
  simp only [PreLeaderStripeStore.initRequestFragmentsTask, if_neg fits]
  split
  · refine ⟨circulates.silent rfl rfl rfl, fun stripe member p inside => ?_⟩
    rw [empty stripe member] at inside
    cases inside
  · rename_i filled run
    refine ⟨Circulates.requestFragments ?_ _, ?_⟩
    · exact circulates.silent rfl rfl rfl
    obtain ⟨out, sent⟩ := forEach_requestFragments s.peers { s with preleaderStripeStore := _ }
    rw [sent]
    exact collected_addOwnEntries circulates empty run

end Collection

/-- Whatever entry a server may come to use has `P`. -/
structure Stocked (P : LogEntry → Prop) (s : RaftState) : Prop where
  circulates : s.Circulates P
  collected : s.role = .kPreLeader → s.Collected P
  size : s.getClusterServerNumber ≤ 32

section Takeover

theorem Stocked.keeps (stocked : s.Stocked P) (config : s'.config = s.config) (lm : s'.lm = s.lm)
    (outbox : s'.outbox = s.outbox) (store : s'.preleaderStripeStore = s.preleaderStripeStore)
    (role : s'.role = .kPreLeader → s.role = .kPreLeader) : s'.Stocked P := by
  refine ⟨stocked.circulates.silent config lm outbox, fun pre => ?_, ?_⟩
  · rw [Collected, store]
    exact stocked.collected (role pre)
  · rw [getClusterServerNumber, peers, config]
    exact stocked.size

theorem Stocked.asks (stocked : s.Stocked P) (asking : Asking s s') (circulates : s'.Circulates P) : s'.Stocked P := by
  have role : s'.role = s.role := field_eq asking.core (·.role)
  have store : s'.preleaderStripeStore = s.preleaderStripeStore :=
    field_eq asking.core (·.preleaderStripeStore)
  refine ⟨circulates, fun pre => ?_, ?_⟩
  · rw [Collected, store]
    exact stocked.collected (role.symm.trans pre)
  · rw [getClusterServerNumber, asking.peers_eq]
    exact stocked.size

variable (circulates : s.Circulates P) (size : s.getClusterServerNumber ≤ 32)
include circulates size

theorem stocked_convertToLeaderInternal : s.convertToLeaderInternal.Stocked P := by
  unfold convertToLeaderInternal
  split
  · rename_i other
    exact ⟨circulates, fun pre => absurd pre other, size⟩
  · have leader : { s with role := .kLeader, electionRound := 0 }.resetNextIndexAndMatchIndex.Stocked P :=
      ⟨circulates.silent rfl rfl rfl, nofun, size⟩
    refine leader.asks (Asking.broadcastHeartbeat _) ?_
    refine forEach_rel (R := fun s t => s.Circulates P → t.Circulates P) (fun _ h => h) (fun h k c => k (h c)) ?_
      leader.circulates
    intro t peer _ _ holds
    split
    · exact holds
    · exact holds.sendHeartBeat peer

theorem stocked_collectFragments : s.collectFragments.Stocked P := by
  obtain ⟨keeps, collected⟩ := circulates.collectFragments size
  refine ⟨keeps, fun _ => collected, ?_⟩
  have config : s.collectFragments.config = s.config := by
    unfold collectFragments
    dsimp only
    split
    · rfl
    · obtain ⟨out, sent⟩ := forEach_requestFragments s.peers { s with preleaderStripeStore := _ }
      rw [sent]
  rw [getClusterServerNumber, peers, config]
  exact size

theorem stocked_convertToPreLeader : s.convertToPreLeader.Stocked P := by
  have pre : { s with role := .kPreLeader }.Circulates P := circulates.silent rfl rfl rfl
  unfold convertToPreLeader
  dsimp only
  split
  · exact stocked_convertToLeaderInternal pre size
  · exact stocked_collectFragments pre size

end Takeover

section Election

variable {f : LogEntry} {j : Nat}

theorem Stocked.startElection (stocked : s.Stocked P) : s.startElection.Stocked P := by
  unfold RaftState.startElection
  split
  · exact stocked.keeps rfl rfl rfl rfl fun pre => pre
  · have stands : { s with currentTerm := s.currentTerm + 1, voteFor := s.id, voteMeCnt := 1 }.persistRaftState.Stocked P :=
      stocked.keeps rfl rfl rfl rfl fun pre => pre
    dsimp only
    split
    · exact stocked_convertToPreLeader stands.circulates stands.size
    · obtain ⟨out, sent, votes⟩ := requestVotes_spec
        { s with currentTerm := s.currentTerm + 1, voteFor := s.id, voteMeCnt := 1 }.persistRaftState
      rw [sent]
      refine ⟨⟨stands.circulates.mode, stands.circulates.log, fun p member => ?_⟩, stands.collected, stands.size⟩
      rcases votes p member with old | ⟨_, _, args, msg, _⟩
      · exact stands.circulates.sent p old
      · rw [msg]
        exact nofun

theorem mem_overWriteLogEntry {lm : LogManager} {e : LogEntry}
    (member : f ∈ (lm.overWriteLogEntry e j).entries) : f ∈ lm.entries ∨ f = e := by
  unfold LogManager.overWriteLogEntry at member
  split at member
  · exact Or.inl member
  · exact List.mem_or_eq_of_mem_set member

theorem mem_deleteLogEntriesFrom {lm : LogManager}
    (member : f ∈ (lm.deleteLogEntriesFrom j).entries) : f ∈ lm.entries := by
  unfold LogManager.deleteLogEntriesFrom at member
  split at member
  · exact member
  · exact List.mem_of_mem_take member

theorem decodingRaftEntry_full (full : ∀ e, P e → e.type = .kNormal) {stripe : Stripe}
    (collected : ∀ p ∈ stripe.collectedFragments, P p.2) (some_answer : stripe.collectedFragments ≠ []) :
    ∃ e, s.decodingRaftEntry stripe = .decoded e ∧ P e := by
  obtain ⟨p, rest, shape⟩ := List.exists_cons_of_ne_nil some_answer
  have normal : p.2.type = .kNormal := full p.2 (collected p (shape ▸ List.mem_cons_self))
  have found : findFullEntryInStripe stripe = some p.2 := by
    simp [findFullEntryInStripe, shape, normal]
  refine ⟨p.2, ?_, collected p (shape ▸ List.mem_cons_self)⟩
  unfold decodingRaftEntry
  rw [found]

theorem decodeStripes_circulates (full : ∀ e, P e → e.type = .kNormal) {stripes : List Stripe} {raftIndex : Nat}
    (circulates : s.Circulates P) (collected : ∀ stripe ∈ stripes, ∀ p ∈ stripe.collectedFragments, P p.2) :
    ∃ lm, decodeStripes stripes raftIndex s = { s with lm := lm } ∧ ∀ e ∈ lm.entries, P e := by
  induction stripes generalizing raftIndex s with
  | nil => exact ⟨s.lm, rfl, circulates.log⟩
  | cons stripe rest ih =>
    obtain ⟨here, later⟩ := List.forall_mem_cons.mp collected
    unfold decodeStripes
    split
    · exact ih circulates later
    · rename_i some_answer
      obtain ⟨e, decoded, holds⟩ := decodingRaftEntry_full (s := s) full here some_answer
      rw [decoded]
      have next : { s with lm := s.lm.overWriteLogEntry e raftIndex }.Circulates P := by
        refine ⟨circulates.mode, fun f member => ?_, circulates.sent⟩
        rcases mem_overWriteLogEntry member with old | rfl
        · exact circulates.log f old
        · exact holds
      exact ih next later

theorem Stocked.preLeaderBecomeLeader (full : ∀ e, P e → e.type = .kNormal) (stocked : s.Stocked P)
    (pre : s.role = .kPreLeader) : s.preLeaderBecomeLeader.Stocked P := by
  unfold RaftState.preLeaderBecomeLeader
  split
  · obtain ⟨lm, decoded, log⟩ : ∃ lm, s.decodeCollectedStripe = { s with lm := lm } ∧ ∀ e ∈ lm.entries, P e :=
      decodeStripes_circulates full stocked.circulates (stocked.collected pre)
    have filled : { s with lm := lm }.Circulates P := ⟨stocked.circulates.mode, log, stocked.circulates.sent⟩
    rw [decoded]
    unfold andThen
    split
    · exact ⟨filled, fun _ => stocked.collected pre, stocked.size⟩
    · exact stocked_convertToLeaderInternal filled stocked.size
  · exact stocked

end Election

section Handlers

variable {f : LogEntry} {entries : List LogEntry} {raftIndex : Nat}

theorem Stocked.convertToFollower (stocked : s.Stocked P) (term : Nat) : (s.convertToFollower term).Stocked P := by
  fun_cases RaftState.convertToFollower
  · exact stocked.keeps rfl rfl rfl rfl fun pre => pre
  · exact stocked.keeps rfl rfl rfl rfl nofun
  · exact stocked.keeps rfl rfl rfl rfl nofun

theorem Stocked.stepDownFor (stocked : s.Stocked P) (term : Nat) : (s.stepDownFor term).Stocked P := by
  fun_cases RaftState.stepDownFor
  · exact stocked.convertToFollower term
  · exact stocked

theorem Stocked.updateLiveness (stocked : s.Stocked P) (id now : Nat) : (s.updateLiveness id now).Stocked P :=
  stocked.keeps rfl rfl rfl rfl fun pre => pre

theorem Stocked.tryApplyLogEntries (stocked : s.Stocked P) : s.tryApplyLogEntries.Stocked P := by
  have part := tryApplyLogEntries_unapplied s
  refine stocked.keeps (field_eq part (·.config)) (field_eq part (·.lm))
    (field_eq part (·.outbox)) (field_eq part (·.preleaderStripeStore)) fun pre => ?_
  rw [← pre]
  exact (field_eq part (·.role)).symm

theorem Stocked.answer {α : Type} {src : Nat} {wrap : α → Message} {result : RaftState × Option α}
    (stocked : result.1.Stocked P) (carried : ∀ reply ∈ result.2, ∀ e ∈ (wrap reply).carried, P e) :
    (RaftState.answer src wrap result).Stocked P := by
  unfold RaftState.answer
  split
  · exact stocked
  · rename_i reply isReply
    exact ⟨stocked.circulates.send (carried reply isReply), stocked.collected, stocked.size⟩

theorem Stocked.processRequestVote (stocked : s.Stocked P) (args : RequestVoteArgs) (now : Nat) :
    (s.processRequestVote args now).1.Stocked P := by
  have heard := stocked.updateLiveness args.candidateId now
  fun_cases RaftState.processRequestVote
  · exact heard
  · exact heard
  · exact (heard.stepDownFor args.term).keeps rfl rfl rfl rfl fun pre => pre
  · exact heard.stepDownFor args.term

theorem Stocked.processRequestVoteReply (stocked : s.Stocked P) (reply : RequestVoteReply) (now : Nat) :
    (s.processRequestVoteReply reply now).Stocked P := by
  have heard := stocked.updateLiveness reply.replyId now
  have counted : (s.updateLiveness reply.replyId now).incrementVoteMeCnt.Stocked P :=
    heard.keeps rfl rfl rfl rfl fun pre => pre
  fun_cases RaftState.processRequestVoteReply
  · exact heard
  · exact heard.convertToFollower reply.term
  · exact stocked_convertToPreLeader counted.circulates counted.size
  · exact counted
  · exact heard

theorem Stocked.processAppendEntriesReply (stocked : s.Stocked P) (reply : AppendEntriesReply) (now : Nat) :
    (s.processAppendEntriesReply reply now).Stocked P := by
  have heard := stocked.updateLiveness reply.replyId now
  fun_cases RaftState.processAppendEntriesReply
  · exact heard
  · exact heard.convertToFollower reply.term
  · exact heard
  · obtain ⟨c, committed, _⟩ := tryUpdateCommitIndex_spec ((s.updateLiveness reply.replyId now).recordReply reply)
    rw [committed]
    exact Stocked.tryApplyLogEntries (heard.keeps rfl rfl rfl rfl fun pre => pre)
  · refine Stocked.tryApplyLogEntries ?_
    change Stocked P (ite _ _ _)
    split
    · exact heard.keeps rfl rfl rfl rfl fun pre => pre
    · exact heard

theorem mem_appendNew (lm : LogManager) (entries : List LogEntry)
    (member : f ∈ (lm.appendNew entries).1.entries) : f ∈ lm.entries ∨ f ∈ entries := by
  rw [LogManager.appendNew_eq] at member
  exact List.mem_append.mp member

theorem mem_checkConflictEntryAndAppendNew {lm lm' : LogManager}
    {infos : List ChunkInfo} (merged : lm.checkConflictEntryAndAppendNew raftIndex entries = some (lm', infos))
    (member : f ∈ lm'.entries) : f ∈ lm.entries ∨ f ∈ entries := by
  induction entries generalizing raftIndex lm lm' infos with
  | nil =>
    cases merged
    exact Or.inl member
  | cons entry rest ih =>
    unfold LogManager.checkConflictEntryAndAppendNew at merged
    split at merged
    · cases merged
      exact mem_appendNew lm (entry :: rest) member
    split at merged
    · cases merged
      exact (mem_appendNew _ (entry :: rest) member).imp_left mem_deleteLogEntriesFrom
    split at merged
    · cases merged
    split at merged
    · obtain ⟨⟨_, _⟩, later, same⟩ := Option.map_eq_some_iff.mp merged
      cases same
      rcases ih later member with old | new
      · rcases mem_overWriteLogEntry old with before | rfl
        · exact Or.inl before
        · exact Or.inr List.mem_cons_self
      · exact Or.inr (List.mem_cons_of_mem entry new)
    · obtain ⟨⟨_, _⟩, later, same⟩ := Option.map_eq_some_iff.mp merged
      cases same
      exact (ih later member).imp_right (List.mem_cons_of_mem entry)

theorem Stocked.processAppendEntries (stocked : s.Stocked P) (args : AppendEntriesArgs) (now : Nat)
    (carried : ∀ e ∈ args.entries, P e) : (s.processAppendEntries args now).1.Stocked P := by
  have heard : (s.hearLeader args.leaderId now).Stocked P := stocked.keeps rfl rfl rfl rfl fun pre => pre
  have steps := heard.stepDownFor args.term
  fun_cases RaftState.processAppendEntries
  · exact heard
  · exact steps
  · exact steps.keeps rfl rfl rfl rfl fun pre => pre
  · exact steps.keeps rfl rfl rfl rfl fun pre => pre
  · rename_i lm infos merged _
    refine Stocked.tryApplyLogEntries ⟨⟨steps.circulates.mode, fun f member => ?_, steps.circulates.sent⟩,
      steps.collected, steps.size⟩
    exact (mem_checkConflictEntryAndAppendNew merged member).elim (steps.circulates.log f) (carried f)

theorem mem_fragmentsFrom {lm : LogManager} {count : Nat}
    (member : f ∈ fragmentsFrom lm raftIndex count) : f ∈ lm.entries := by
  induction count generalizing raftIndex with
  | zero => cases member
  | succ count ih =>
    unfold fragmentsFrom at member
    split at member
    · cases member
    · rename_i ent at_j
      rcases List.mem_cons.mp member with rfl | later
      · unfold LogManager.getSingleLogEntry at at_j
        split at at_j
        · cases at_j
        · exact List.mem_of_getElem? at_j
      · exact ih later

theorem Stocked.processRequestFragments (stocked : s.Stocked P) (args : RequestFragmentsArgs) (now : Nat) :
    (s.processRequestFragments args now).1.Stocked P ∧
      ∀ reply ∈ (s.processRequestFragments args now).2, ∀ e ∈ reply.fragments, P e := by
  have heard := stocked.updateLiveness args.leaderId now
  have steps := heard.stepDownFor args.term
  unfold RaftState.processRequestFragments
  dsimp only
  split
  · refine ⟨heard, fun reply isReply => ?_⟩
    cases isReply
    exact nofun
  · refine ⟨steps, fun reply isReply e member => ?_⟩
    cases isReply
    exact steps.circulates.log e (mem_fragmentsFrom member)

theorem addAnswer_collected {replyId : Nat} {store store' : PreLeaderStripeStore}
    (collected : ∀ stripe ∈ store.stripes, ∀ p ∈ stripe.collectedFragments, P p.2) (carried : ∀ e ∈ entries, P e)
    (added : addAnswer replyId raftIndex entries store = some store') :
    ∀ stripe ∈ store'.stripes, ∀ p ∈ stripe.collectedFragments, P p.2 := by
  induction entries generalizing raftIndex store with
  | nil =>
    cases added
    exact collected
  | cons entry rest ih =>
    obtain ⟨here, later⟩ := List.forall_mem_cons.mp carried
    unfold addAnswer at added
    split at added
    · cases added
    · refine ih ?_ later added
      unfold PreLeaderStripeStore.addFragments
      split
      · exact collected
      · intro stripe member
        obtain ⟨i, at_i⟩ := List.mem_iff_getElem?.mp member
        rw [List.getElem?_modify] at at_i
        obtain ⟨old, at_old, rfl⟩ := Option.map_eq_some_iff.mp at_i
        have before := collected old (List.mem_of_getElem? at_old)
        split
        · intro p inside
          rcases OrdMap.mem_insertOrAssign inside with new | old
          · rw [new]
            exact here
          · exact before p old
        · exact before

theorem Stocked.processRequestFragmentsReply (full : ∀ e, P e → e.type = .kNormal) (stocked : s.Stocked P)
    (reply : RequestFragmentsReply) (now : Nat) (carried : ∀ e ∈ reply.fragments, P e) :
    (s.processRequestFragmentsReply reply now).Stocked P := by
  have heard := stocked.updateLiveness reply.replyId now
  fun_cases RaftState.processRequestFragmentsReply
  · exact heard
  · exact heard.convertToFollower reply.term
  · exact heard
  · exact heard.keeps rfl rfl rfl rfl fun pre => pre
  · rename_i used _ _ store added
    have pre : (s.updateLiveness reply.replyId now).role = .kPreLeader :=
      Decidable.not_not.mp fun other => used (Or.inl other)
    have collected := addAnswer_collected (heard.collected pre) carried added
    have kept : (store.updateResponseState reply.replyId).stripes = store.stripes := by
      unfold PreLeaderStripeStore.updateResponseState
      split <;> rfl
    refine Stocked.preLeaderBecomeLeader full ⟨heard.circulates.silent rfl rfl rfl, fun _ => ?_, heard.size⟩ pre
    rw [Collected]
    rw [kept]
    exact collected

theorem Stocked.tick (inherited : Inherited P) (stocked : s.Stocked P) (running : s.stopped = false) (timers : Timers) :
    (s.tick timers).Stocked P := by
  unfold RaftState.tick
  split
  · fun_cases RaftState.tickOnFollower
    · exact stocked
    · exact stocked
    · exact Stocked.startElection (stocked.keeps rfl rfl rfl rfl nofun)
  · fun_cases RaftState.tickOnCandidate
    · exact stocked
    · exact (stocked.convertToFollower s.currentTerm).keeps rfl rfl rfl rfl fun pre => pre
    · exact stocked.startElection
  · rename_i pre
    have takes := stocked.preLeaderBecomeLeader inherited.normal pre
    unfold tickOnPreLeader andThen
    split
    · exact takes
    · split
      · exact stocked_collectFragments takes.circulates takes.size
      · exact takes
  · exact stocked.asks (Asking.sendAsLeader running timers)
      ((performs_sendAsLeader running timers).circulates inherited stocked.circulates)

theorem Stocked.process (full : ∀ e, P e → e.type = .kNormal) (stocked : s.Stocked P) (src : Nat) (msg : Message)
    (now : Nat) (carried : ∀ e ∈ msg.carried, P e) : (s.process src msg now).Stocked P := by
  cases msg with
  | requestVote args => exact (stocked.processRequestVote args now).answer fun _ _ => nofun
  | requestVoteReply reply => exact stocked.processRequestVoteReply reply now
  | appendEntries args => exact (stocked.processAppendEntries args now carried).answer fun _ _ => nofun
  | appendEntriesReply reply => exact stocked.processAppendEntriesReply reply now
  | requestFragments args =>
    obtain ⟨kept, sent⟩ := stocked.processRequestFragments args now
    exact kept.answer sent
  | requestFragmentsReply reply => exact stocked.processRequestFragmentsReply full reply now carried

theorem Stocked.replicateNewProposeEntry (inherited : Inherited P) (stocked : s.Stocked P) (running : s.stopped = false)
    (j : Nat) : (s.replicateNewProposeEntry j).Stocked P :=
  stocked.asks (Asking.replicateNewProposeEntry running j)
    ((performs_replicateNew running j).circulates inherited stocked.circulates)

end Handlers

end RaftState

namespace Cluster

open RaftState

/-- A proposal of a member of the group adds nothing but entries that have `P`. -/
def Originates (P : LogEntry → Prop) (c : ClusterConfig) : Prop :=
  ∀ i < c.size, ∀ s : RaftState, s.config = c.serverConfig i → ∀ command, ∀ e ∈ (s.propose command).1.lm.entries,
    e ∈ s.lm.entries ∨ P e

/-- Every entry that a member of the group has or that is on its way to one has `P`. -/
structure Circulating (P : LogEntry → Prop) (σ : Cluster) : Prop where
  secluded : σ.Secluded
  stocked : ∀ i < σ.config.size, (σ.servers i).Stocked P
  net : ∀ p ∈ σ.net, ∀ e ∈ p.msg.carried, P e

/-- A server comes back with some of the entries that it had. -/
def restoresEntries (σ : Cluster) : Label → Prop
  | .restart i lm _ => lm.entries ⊆ (σ.servers i).lm.entries
  | _ => True

instance (σ : Cluster) : (l : Label) → Decidable (restoresEntries σ l)
  | .restart i lm _ => inferInstanceAs (Decidable (lm.entries ⊆ (σ.servers i).lm.entries))
  | .tick _ _ | .propose _ _ | .replicate _ | .deliver _ _ => isTrue trivial

section Runs

variable {P : LogEntry → Prop} {σ σ' : Cluster} {l : Label} {c : ClusterConfig} {junk : Nat → Uninitialised} {i : Nat}

theorem Circulating.acts {s : RaftState} (inv : σ.Circulating P) (secluded : σ'.Secluded)
    (stocked : s.Stocked P) (config : σ'.config = σ.config)
    (servers : σ'.servers = fun j => if j = i then s.flush else σ.servers j)
    (net : ∀ p ∈ σ'.net, p ∈ σ.net ∨ p ∈ s.outbox) : σ'.Circulating P := by
  refine ⟨secluded, fun j member => ?_, fun p onWire => ?_⟩
  · rw [servers]
    dsimp only
    split
    · exact ⟨⟨stocked.circulates.mode, stocked.circulates.log, nofun⟩, stocked.collected, stocked.size⟩
    · exact inv.stocked j (config ▸ member)
  · exact (net p onWire).elim (inv.net p) (stocked.circulates.sent p)

theorem Circulating.propose (origin : Originates P σ.config) (inv : σ.Circulating P) (member : i < σ.config.size)
    (command : CommandData) : ((σ.servers i).propose command).1.Stocked P := by
  have stocked := inv.stocked i member
  rcases propose_spec (σ.servers i) command with ⟨_, same | stopped⟩ | ⟨_, _, _, _, e, _, run⟩
  · rw [same]
    exact stocked
  · rw [stopped]
    exact stocked.keeps rfl rfl rfl rfl fun pre => pre
  · have added := origin i member _ (inv.secluded.config i) command
    rw [run] at added ⊢
    refine ⟨⟨stocked.circulates.mode, fun f inside => ?_, stocked.circulates.sent⟩, stocked.collected, stocked.size⟩
    exact (added f inside).elim (stocked.circulates.log f) fun holds => holds

theorem Circulating.step (inherited : Inherited P) (origin : Originates P σ.config) (inv : σ.Circulating P)
    (allowed : restoresEntries σ l) (step : σ.step l = some σ') : σ'.Circulating P := by
  have secluded := inv.secluded.happens (step_happens inv.secluded.outbox step)
  obtain ⟨i, s, net, pending, events, handles, rfl⟩ := step_handles step
  cases handles with
  | ticks up =>
    exact inv.acts secluded ((inv.stocked i (lt_size_of_isUp up)).tick inherited (stopped_of_isUp up) _) rfl rfl
      fun p onWire => List.mem_append.mp onWire
  | refuses up | accepts up =>
    exact inv.acts secluded (inv.propose origin (lt_size_of_isUp up) _) rfl rfl
      fun p onWire => List.mem_append.mp onWire
  | @replicates n call found up =>
    have stocked := inv.stocked call.server (lt_size_of_isUp up)
    exact inv.acts secluded (stocked.replicateNewProposeEntry inherited (stopped_of_isUp up) call.index) rfl rfl
      fun p onWire => List.mem_append.mp onWire
  | @delivers n now q found up =>
    have carried := inv.net q (List.mem_of_getElem? found)
    have stocked := inv.stocked q.dst (lt_size_of_isUp up)
    exact inv.acts secluded (stocked.process inherited.normal q.src q.msg now carried) rfl rfl
      fun p onWire => (List.mem_append.mp onWire).imp_left List.mem_of_mem_eraseIdx
  | restarts member =>
    have stocked := inv.stocked i member
    refine inv.acts secluded ?_ rfl rfl fun p onWire => List.mem_append.mp onWire
    exact ⟨⟨stocked.circulates.mode, fun f inside => stocked.circulates.log f (allowed inside), nofun⟩, nofun, stocked.size⟩

theorem circulating_init (mode : c.encodingMode = 2) (grouped : c.lrcGrouper.isSome) :
    (init c junk).Circulating P := by
  refine ⟨secluded_init c junk, fun i member => ⟨⟨?_, nofun, nofun⟩, nofun, ?_⟩, nofun⟩
  · simp [init, newRaftState, persistRaftState, ClusterConfig.serverConfig, RaftConfig.lrcMode, mode, grouped]
  · have peers := c.serverConfig_peers_length i
    have size := c.size_le
    have member : i < c.size := member
    rw [if_pos member] at peers
    change (c.serverConfig i).peers.length + 1 ≤ 32
    omega

theorem Reach.circulating (inherited : Inherited P) (origin : Originates P c) (mode : c.encodingMode = 2)
    (grouped : c.lrcGrouper.isSome) (reach : Reach restoresEntries (init c junk) σ) :
    σ.config = c ∧ σ.Circulating P := by
  refine reach.holds (P := fun σ => σ.config = c ∧ σ.Circulating P) ⟨rfl, circulating_init mode grouped⟩ ?_
  rintro σ₁ l σ₂ ⟨config, inv⟩ allowed step
  have happens := step_happens inv.secluded.outbox step
  exact ⟨happens.config_eq.trans config, inv.step inherited (config ▸ origin) allowed step⟩

end Runs

end Cluster

end FlexRaft
