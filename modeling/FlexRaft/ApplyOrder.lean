import FlexRaft.ApplyPool
import FlexRaft.DbKeys
import Mathlib.Data.List.Range
import Mathlib.Data.List.Sort

namespace FlexRaft

namespace Database

theorem write_of_forall_ne {batch : List (Slice × Slice)} {key : Slice} (db : Database)
    (other : ∀ p ∈ batch, p.1 ≠ key) : db.write batch key = db key := by
  induction batch generalizing db with
  | nil => rfl
  | cons p rest ih =>
    rw [write, List.foldl_cons, ← write, ih _ fun q inside => other q (List.mem_cons_of_mem p inside), put,
      if_neg (Ne.symm (other p List.mem_cons_self))]

theorem write_of_mem {batch : List (Slice × Slice)} {p : Slice × Slice} (db : Database) (member : p ∈ batch)
    (only : ∀ q ∈ batch, q.1 = p.1 → q.2 = p.2) : db.write batch p.1 = some p.2 := by
  induction batch generalizing db with
  | nil => cases member
  | cons q rest ih =>
    obtain ⟨_, later⟩ := List.forall_mem_cons.mp only
    rw [write, List.foldl_cons, ← write]
    by_cases again : ∃ q ∈ rest, q.1 = p.1
    · obtain ⟨q, inside, same⟩ := again
      have copy : q = p := Prod.ext same (later q inside same)
      exact ih _ (copy ▸ inside) later
    · have other : ∀ q ∈ rest, q.1 ≠ p.1 := fun q inside same => again ⟨q, inside, same⟩
      rcases List.mem_cons.mp member with rfl | inside
      · rw [write_of_forall_ne _ other, put, if_pos rfl]
      · exact absurd rfl (other p inside)

end Database

theorem legacyKey_ne_stripeMetaDbKey (m : MsgApplyCommitted) {groupId : Nat} {userKey : Slice} :
    ApplyFsm.legacyKey m ≠ stripeMetaDbKey groupId userKey := by
  simp [ApplyFsm.legacyKey, stripeMetaDbKey, ascii]

section Messages

variable {groupId : Nat} {e : LogEntry} {m : MsgApplyCommitted} {kind : UInt8} {payload : Slice}

/-- A message of the bridge starts with the magic, the version and one of two kinds. -/
structure Framed (m : MsgApplyCommitted) (kind : UInt8) : Prop where
  length : 9 ≤ m.data.length
  magic : m.data.take 4 = kApplyMagic
  version : decodeFixed32 (m.data.drop 4) = 1
  kind : m.data[8]? = some kind

theorem Framed.of_eq (data : m.data = kApplyMagic ++ encodeFixed32 1 ++ kind :: payload) : Framed m kind := by
  have bytes : m.data = [65, 80, 76, 89, 1, 0, 0, 0, kind] ++ payload := data
  refine ⟨?_, ?_, ?_, ?_⟩
  · rw [bytes]
    simp
  · rw [bytes]
    rfl
  · rw [bytes]
    rfl
  · rw [bytes]
    rfl

theorem entryId_of_applyMessage (message : applyMessage groupId e = some m) : m.entryId = e.index := by
  obtain ⟨_, _, rfl⟩ := Option.map_eq_some_iff.mp message
  rfl

theorem framed_of_applyMessage (message : applyMessage groupId e = some m) : Framed m 3 ∨ Framed m 0 := by
  obtain ⟨⟨userKey, originalSize⟩, _, rfl⟩ := Option.map_eq_some_iff.mp message
  by_cases lrc : e.isLrcEncoded = true
  · have data : serializeForApply e userKey originalSize =
        kApplyMagic ++ encodeFixed32 1 ++ 3 :: serializeLrcFragments e userKey originalSize := by
      simp [serializeForApply, lrc]
    exact Or.inl (.of_eq data)
  · have data : serializeForApply e userKey originalSize = kApplyMagic ++ encodeFixed32 1 ++
        0 :: (encodeFixed32 e.commandData.length ++ e.commandData.take (e.commandData.length % UInt32.size)) := by
      simp [serializeForApply, lrc]
    exact Or.inr (.of_eq data)

theorem data_ne_nil_of_applyMessage (message : applyMessage groupId e = some m) : m.data ≠ [] := by
  intro empty
  have length : 9 ≤ m.data.length := (framed_of_applyMessage message).elim Framed.length Framed.length
  simp [empty] at length

theorem Framed.writes_eq (framed : Framed m kind) (fsm : ApplyFsm) : fsm.writes m =
    if kind = 3 then ((ApplyFsm.payload? m).map (fsm.stripeWrites m)).getD []
    else if kind = 0 then ApplyFsm.legacyWrites m (m.data.drop 9) else [] := by
  obtain ⟨length, magic, version, kindAt⟩ := framed
  cases data : m.data with
  | nil => simp [data] at length
  | cons b rest =>
    unfold ApplyFsm.writes ApplyFsm.payload?
    rw [data] at length magic version kindAt
    simp only [data, length, magic, version, kindAt, if_true, ne_eq, not_true_eq_false, if_false,
      Option.some.injEq, true_and]
    split
    · cases LrcPayload.parse (List.drop 9 (b :: rest)) <;> rfl
    · rfl

theorem key_of_mem_legacyWrites {q : Slice × Slice} (member : q ∈ ApplyFsm.legacyWrites m payload) :
    q.1 = ApplyFsm.legacyKey m := by
  unfold ApplyFsm.legacyWrites at member
  dsimp only at member
  split at member
  · cases member
  · split at member
    · rw [List.mem_singleton.mp member]
    · cases member

namespace ApplyFsm

variable {fsm : ApplyFsm} {p : LrcPayload}

theorem writes_of_payload (payload : payload? m = some p) : fsm.writes m = fsm.stripeWrites m p := by
  have framed : Framed m 3 := by
    unfold payload? at payload
    split at payload
    · rename_i header
      exact ⟨header.1, header.2.1, header.2.2.1, header.2.2.2⟩
    · cases payload
  rw [framed.writes_eq, if_pos rfl, payload]
  rfl

theorem mem_localFragments {q : Slice × Slice} : q ∈ fsm.localFragments m p ↔ ∃ fp ∈ p.placement,
    fp.nodeId = fsm.nodeId ∧ p.fragment fp.fragId = some q.2 ∧ fragDbKey fsm.groupId m.stripeId fp.fragId = q.1 := by
  obtain ⟨key, frag⟩ := q
  simp only [localFragments, List.mem_filterMap]
  refine exists_congr fun fp => and_congr_right fun _ => ?_
  by_cases here : fp.nodeId = fsm.nodeId
  · rw [if_neg (not_not.mpr here), Option.map_eq_some_iff]
    simp only [here, true_and, Prod.mk.injEq]
    constructor
    · rintro ⟨_, found, key, rfl⟩
      exact ⟨found, key⟩
    · rintro ⟨found, key⟩
      exact ⟨frag, found, key, rfl⟩
  · simp [here]

theorem write_stripeWrites_meta (db : Database) (userKey : Slice) :
    db.write (fsm.stripeWrites m p) (stripeMetaDbKey fsm.groupId userKey) =
      if p.userKey = userKey then some (fsm.stripeMeta m p).serialize else db (stripeMetaDbKey fsm.groupId userKey) := by
  have fragments : ∀ q ∈ fsm.localFragments m p, q.1 ≠ stripeMetaDbKey fsm.groupId userKey := by
    intro q inside
    obtain ⟨fp, _, _, _, key⟩ := mem_localFragments.mp inside
    rw [← key]
    exact fragDbKey_ne_stripeMetaDbKey _ _ _
  change (db.put _).write (fsm.localFragments m p) _ = _
  rw [Database.write_of_forall_ne _ fragments]
  simp only [Database.put, stripeMetaDbKey_inj, eq_comm (a := userKey)]

theorem write_stripeWrites_fragment (db : Database) (words : ∀ fp ∈ p.placement, fp.fragId < UInt32.size)
    {fp : StripePlacement} (placed : fp ∈ p.placement) (here : fp.nodeId = fsm.nodeId) {frag : Slice}
    (found : p.fragment fp.fragId = some frag) :
    db.write (fsm.stripeWrites m p) (fragDbKey fsm.groupId m.stripeId fp.fragId) = some frag := by
  have listed : (fragDbKey fsm.groupId m.stripeId fp.fragId, frag) ∈ fsm.stripeWrites m p :=
    List.mem_cons_of_mem _ (mem_localFragments.mpr ⟨fp, placed, here, found, rfl⟩)
  refine Database.write_of_mem db listed fun q written same => ?_
  -- All placements of this node that go by the key are of this fragment.
  rcases List.mem_cons.mp written with rfl | fragment
  · exact absurd same.symm (fragDbKey_ne_stripeMetaDbKey _ _ _)
  · obtain ⟨fp', placed', _, found', key⟩ := mem_localFragments.mp fragment
    have id : fp'.fragId = fp.fragId := fragDbKey_inj (words fp' placed') (words fp placed) (key.trans same)
    rw [id, found] at found'
    exact (Option.some.inj found').symm

end ApplyFsm

theorem write_writes_meta (message : applyMessage groupId e = some m) (fsm : ApplyFsm) (db : Database) (userKey : Slice) :
    db.write (fsm.writes m) (stripeMetaDbKey fsm.groupId userKey) =
      match ApplyFsm.payload? m with
      | none => db (stripeMetaDbKey fsm.groupId userKey)
      | some p => if p.userKey = userKey then some (fsm.stripeMeta m p).serialize
          else db (stripeMetaDbKey fsm.groupId userKey) := by
  rcases framed_of_applyMessage message with framed | framed
  · cases payload : ApplyFsm.payload? m with
    | none =>
      rw [framed.writes_eq, if_pos rfl, payload]
      rfl
    | some p =>
      rw [ApplyFsm.writes_of_payload payload]
      exact ApplyFsm.write_stripeWrites_meta db userKey
  · have none : ApplyFsm.payload? m = none := by
      unfold ApplyFsm.payload?
      rw [if_neg]
      rintro ⟨_, _, _, three⟩
      cases framed.kind.symm.trans three
    rw [framed.writes_eq, none]
    refine Database.write_of_forall_ne db fun q inside => ?_
    have legacy : q ∈ ApplyFsm.legacyWrites m (m.data.drop 9) := inside
    rw [key_of_mem_legacyWrites legacy]
    exact legacyKey_ne_stripeMetaDbKey m

end Messages

namespace ApplyPool

/-- The committed messages among some messages. -/
def queued (msgs : List ApplyMsg) : List MsgApplyCommitted :=
  msgs.filterMap fun
    | .committed m => some m
    | .stop => none

/-- The messages that a thread will get to: those in front of a `MsgApplyStop`. -/
def pending : List ApplyMsg → List MsgApplyCommitted
  | .committed m :: rest => m :: pending rest
  | _ => []

theorem pending_sublist (batch : List ApplyMsg) : (pending batch).Sublist (queued batch) := by
  induction batch with
  | nil => exact .slnil
  | cons msg rest ih =>
    cases msg with
    | committed m => exact ih.cons_cons m
    | stop => exact List.nil_sublist _

end ApplyPool

/-- What a thread has drained and not yet written. -/
def ApplyThread.unwritten : ApplyThread → List MsgApplyCommitted
  | .handling batch | .updating _ batch | .storing _ _ batch => ApplyPool.pending batch

namespace ApplyPool

/-- A thread drains messages only if no thread has messages left to write. -/
def oneBatch (σ : ApplyPool) : Label → Prop
  | .drain _ => σ.mailbox = [] ∨ ∀ t < σ.config.threadCount, (σ.threads t).unwritten = []
  | _ => True

instance (σ : ApplyPool) : (l : Label) → Decidable (σ.oneBatch l)
  | .drain _ => inferInstanceAs (Decidable (σ.mailbox = [] ∨ ∀ t < σ.config.threadCount, (σ.threads t).unwritten = []))
  | .applyEntry _ | .registerMailbox | .unregisterMailbox | .handle _ | .loadIndex _ | .storeIndex _ | .stop =>
    isTrue trivial

/-- The messages of the committed entries, as the bridge makes them. -/
def messages (σ : ApplyPool) : List MsgApplyCommitted := σ.committed.filterMap (applyMessage σ.config.fsm.groupId)

/-- Entries come in index order, and so do the writes: at most one thread has messages to write, and they stand
between those that were written and those in the mailbox. -/
structure InOrder (σ : ApplyPool) : Prop where
  numbered : σ.committed.map LogEntry.index = List.range' 1 σ.committed.length
  spare : ∀ t, σ.config.threadCount ≤ t → σ.threads t = .handling []
  alone : ∀ t t', t ≠ t' → (σ.threads t).unwritten = [] ∨ (σ.threads t').unwritten = []
  queue : ∀ t, (σ.written ++ (σ.threads t).unwritten ++ queued σ.mailbox).Sublist σ.messages

section InOrder

variable {σ σ' : ApplyPool} {l : Label} {t : Nat} {thread : ApplyThread}

@[simp] theorem setThread_self (σ : ApplyPool) (t : Nat) (thread : ApplyThread) :
    (σ.setThread t thread).threads t = thread := by simp [setThread]

theorem setThread_of_ne {t' : Nat} (other : t' ≠ t) : (σ.setThread t thread).threads t' = σ.threads t' := by
  simp [setThread, other]

theorem InOrder.lt_threadCount (inv : σ.InOrder) (busy : σ.threads t ≠ .handling []) : t < σ.config.threadCount := by
  by_contra above
  exact busy (inv.spare t (Nat.not_lt.mp above))

theorem InOrder.setThread (inv : σ.InOrder) (exists_t : t < σ.config.threadCount)
    (fewer : thread.unwritten.Sublist (σ.threads t).unwritten) : (σ.setThread t thread).InOrder := by
  refine ⟨inv.numbered, fun t' above => ?_, fun t₁ t₂ other => ?_, fun t' => ?_⟩
  · rw [setThread_of_ne (Nat.ne_of_gt (Nat.lt_of_lt_of_le exists_t above))]
    exact inv.spare t' above
  · have empties : ∀ i, (σ.threads i).unwritten = [] → ((σ.setThread t thread).threads i).unwritten = [] := by
      intro i empty
      by_cases same : i = t
      · subst same
        rw [setThread_self]
        rw [empty] at fewer
        exact List.eq_nil_of_sublist_nil fewer
      · rw [setThread_of_ne same, empty]
    exact (inv.alone t₁ t₂ other).imp (empties t₁) (empties t₂)
  · by_cases same : t' = t
    · subst same
      rw [setThread_self]
      exact (((List.Sublist.refl σ.written).append fewer).append (.refl _)).trans (inv.queue t')
    · rw [setThread_of_ne same]
      exact inv.queue t'

theorem queued_append (msgs msgs' : List ApplyMsg) : queued (msgs ++ msgs') = queued msgs ++ queued msgs' :=
  List.filterMap_append

theorem InOrder.drains (inv : σ.InOrder) (exists_t : t < σ.config.threadCount)
    (done : ∀ t, (σ.threads t).unwritten = []) :
    ({ σ with mailbox := σ.mailbox.drop σ.config.maxBatch }.setThread t
      (.handling (σ.mailbox.take σ.config.maxBatch))).InOrder := by
  have parts : queued σ.mailbox =
      queued (σ.mailbox.take σ.config.maxBatch) ++ queued (σ.mailbox.drop σ.config.maxBatch) := by
    rw [← queued_append, List.take_append_drop]
  have whole : (σ.written ++ queued σ.mailbox).Sublist σ.messages := by
    simpa [done t] using inv.queue t
  rw [parts, ← List.append_assoc] at whole
  refine ⟨inv.numbered, fun t' above => ?_, fun t₁ t₂ other => ?_, fun t' => ?_⟩
  · rw [setThread_of_ne (Nat.ne_of_gt (Nat.lt_of_lt_of_le exists_t above))]
    exact inv.spare t' above
  · by_cases same : t₁ = t
    · right
      rw [setThread_of_ne (same ▸ Ne.symm other)]
      exact done t₂
    · left
      rw [setThread_of_ne same]
      exact done t₁
  · by_cases same : t' = t
    · subst same
      rw [setThread_self]
      exact (((List.Sublist.refl σ.written).append (pending_sublist _)).append (.refl _)).trans whole
    · rw [setThread_of_ne same]
      rw [done t', List.append_nil]
      exact ((List.sublist_append_left σ.written _).append (.refl _)).trans whole

theorem InOrder.writes (inv : σ.InOrder) {m : MsgApplyCommitted} {rest : List ApplyMsg}
    (here : σ.threads t = .handling (.committed m :: rest)) (db : Database) :
    ({ σ with db := db, written := σ.written ++ [m] }.setThread t (.updating m.entryId rest)).InOrder := by
  have todo : (σ.threads t).unwritten = m :: pending rest := by
    rw [here]
    rfl
  have whole := inv.queue t
  rw [todo] at whole
  have others : ∀ t' ≠ t, (σ.threads t').unwritten = [] := by
    intro t' other
    rcases inv.alone t' t other with empty | empty
    · exact empty
    · rw [todo] at empty
      cases empty
  refine ⟨inv.numbered, fun t' above => ?_, fun t₁ t₂ other => ?_, fun t' => ?_⟩
  · have exists_t := inv.lt_threadCount (t := t) (by simp [here])
    rw [setThread_of_ne (Nat.ne_of_gt (Nat.lt_of_lt_of_le exists_t above))]
    exact inv.spare t' above
  · by_cases same : t₁ = t
    · right
      rw [setThread_of_ne (same ▸ Ne.symm other)]
      exact others t₂ (same ▸ Ne.symm other)
    · left
      rw [setThread_of_ne same]
      exact others t₁ same
  · by_cases same : t' = t
    · subst same
      rw [setThread_self]
      change (σ.written ++ [m] ++ pending rest ++ queued σ.mailbox).Sublist σ.messages
      simpa using whole
    · rw [setThread_of_ne same]
      rw [others t' same, List.append_nil]
      refine List.Sublist.trans ?_ whole
      exact ((List.Sublist.refl σ.written).append (List.singleton_sublist.mpr List.mem_cons_self)).append (.refl _)

theorem InOrder.applies (inv : σ.InOrder) {e : LogEntry} (index : e.index = σ.committed.length + 1) {msgs : List ApplyMsg}
    (sent : (queued msgs).Sublist (applyMessage σ.config.fsm.groupId e).toList) :
    { σ with committed := σ.committed ++ [e], mailbox := σ.mailbox ++ msgs }.InOrder := by
  refine ⟨?_, inv.spare, inv.alone, fun t => ?_⟩
  · rw [List.map_append, inv.numbered, List.length_append, List.length_singleton, List.range'_1_concat,
      List.map_singleton, index, Nat.add_comm 1]
  · change (σ.written ++ (σ.threads t).unwritten ++ queued (σ.mailbox ++ msgs)).Sublist
      ((σ.committed ++ [e]).filterMap (applyMessage σ.config.fsm.groupId))
    rw [queued_append, ← List.append_assoc, List.filterMap_append]
    refine (inv.queue t).append ?_
    cases message : applyMessage σ.config.fsm.groupId e with
    | none => simpa [message] using sent
    | some m => simpa [message] using sent

theorem InOrder.step (inv : σ.InOrder) (allowed : σ.oneBatch l) (steps : σ.step l = some σ') : σ'.InOrder := by
  cases step_action steps with
  | @drops e index =>
    have nothing : (queued []).Sublist (applyMessage σ.config.fsm.groupId e).toList := List.nil_sublist _
    have same := inv.applies index nothing
    rwa [List.append_nil] at same
  | pushes index message => exact inv.applies index (by simp [queued, message])
  | registers => exact ⟨inv.numbered, inv.spare, inv.alone, inv.queue⟩
  | unregisters => exact ⟨inv.numbered, inv.spare, inv.alone, inv.queue⟩
  | @drains t exists_t idle =>
    rcases allowed with empty | done
    · have same : InOrder { σ with mailbox := σ.mailbox.drop σ.config.maxBatch } := by
        refine ⟨inv.numbered, inv.spare, inv.alone, fun t => ?_⟩
        rw [empty, List.drop_nil, ← empty]
        exact inv.queue t
      exact same.setThread exists_t (by simp [empty, idle])
    · refine inv.drains exists_t fun t' => ?_
      by_cases inside : t' < σ.config.threadCount
      · exact done t' inside
      · rw [inv.spare t' (Nat.not_lt.mp inside)]
        rfl
  | skips here =>
    refine inv.setThread (inv.lt_threadCount (by simp [here])) ?_
    rw [here]
    exact List.sublist_cons_self _ _
  | writes here => exact inv.writes here _
  | quits here => exact inv.setThread (inv.lt_threadCount (by simp [here])) (List.nil_sublist _)
  | loads here =>
    refine inv.setThread (inv.lt_threadCount (by simp [here])) ?_
    rw [here]
    exact .refl _
  | @stores t index prev rest here =>
    have same : InOrder { σ with appliedIndex := if prev < index then index else σ.appliedIndex } :=
      ⟨inv.numbered, inv.spare, inv.alone, inv.queue⟩
    refine same.setThread (inv.lt_threadCount (by simp [here])) ?_
    rw [here]
    exact .refl _
  | stops =>
    refine ⟨inv.numbered, inv.spare, inv.alone, fun t => ?_⟩
    rw [queued_append, show queued [.stop] = [] from rfl, List.append_nil]
    exact inv.queue t

end InOrder

section Runs

variable {σ : ApplyPool} {config : ApplyConfig} {db : Database} {m : MsgApplyCommitted} {p : LrcPayload}

theorem inOrder_start (config : ApplyConfig) (db : Database) : (start config db).InOrder :=
  ⟨rfl, fun _ _ => rfl, fun _ _ _ => Or.inl rfl, fun _ => .slnil⟩

theorem db_of_reach {ok : ApplyPool → Label → Prop} (reach : Steps.Reach step ok (start config db) σ) :
    σ.config = config ∧ σ.db = σ.written.foldl (fun db m => db.write (config.fsm.writes m)) db := by
  refine reach.holds (P := fun σ => σ.config = config ∧
    σ.db = σ.written.foldl (fun db m => db.write (config.fsm.writes m)) db) ⟨rfl, rfl⟩ ?_
  rintro σ l σ' ⟨same, content⟩ - steps
  cases step_action steps with
  | @writes t m rest =>
    refine ⟨same, ?_⟩
    change σ.db.write (σ.config.fsm.writes m) = (σ.written ++ [m]).foldl _ db
    rw [List.foldl_append, ← content, same]
    rfl
  | _ => exact ⟨same, content⟩

theorem foldl_writes_meta {fsm : ApplyFsm} {groupId : Nat} {written : List MsgApplyCommitted}
    (made : ∀ m ∈ written, ∃ e, applyMessage groupId e = some m)
    (ascending : written.Pairwise fun m m' => m.entryId < m'.entryId) (member : m ∈ written)
    (carries : ApplyFsm.payload? m = some p)
    (latest : ∀ m' ∈ written, ∀ p', ApplyFsm.payload? m' = some p' → p'.userKey = p.userKey → m'.entryId ≤ m.entryId) :
    written.foldl (fun db m => db.write (fsm.writes m)) db (stripeMetaDbKey fsm.groupId p.userKey) =
      some (fsm.stripeMeta m p).serialize := by
  induction written using List.reverseRecOn with
  | nil => cases member
  | append_singleton before last ih =>
    obtain ⟨e, message⟩ := made last (List.mem_append_right _ List.mem_cons_self)
    obtain ⟨earlier, _, newest⟩ := List.pairwise_append.mp ascending
    rw [List.foldl_append, List.foldl_cons, List.foldl_nil, write_writes_meta message]
    rcases List.mem_append.mp member with old | here
    · -- The last message has a larger index than `m`, so it does not carry the key.
      have above := newest m old last List.mem_cons_self
      have rest := ih (fun m inside => made m (List.mem_append_left _ inside)) earlier old
        fun m' inside => latest m' (List.mem_append_left _ inside)
      split
      · exact rest
      · rename_i p' payload
        rw [if_neg, rest]
        intro same
        have bound := latest last (List.mem_append_right _ List.mem_cons_self) p' payload same
        omega
    · rw [List.mem_singleton.mp here] at carries ⊢
      simp only [carries, if_true]

theorem written_sublist (reach : Steps.Reach step oneBatch (start config db) σ) :
    σ.written.Sublist (σ.committed.filterMap (applyMessage config.fsm.groupId)) := by
  have inv : σ.InOrder := reach.holds (inOrder_start config db) fun _ _ _ inv allowed steps => inv.step allowed steps
  have queue := inv.queue 0
  rw [List.append_assoc, messages, (db_of_reach reach).1] at queue
  exact (List.sublist_append_left _ _).trans queue

theorem written_ascending (reach : Steps.Reach step oneBatch (start config db) σ) :
    σ.written.Pairwise fun m m' => m.entryId < m'.entryId := by
  have inv : σ.InOrder := reach.holds (inOrder_start config db) fun _ _ _ inv allowed steps => inv.step allowed steps
  have entries : σ.committed.Pairwise fun e e' => e.index < e'.index := by
    rw [← List.pairwise_map, inv.numbered]
    exact List.pairwise_lt_range'
  refine List.Pairwise.sublist (written_sublist reach) (List.Pairwise.filterMap _ ?_ entries)
  intro e e' below m message m' message'
  rw [entryId_of_applyMessage message, entryId_of_applyMessage message']
  exact below

theorem meta_of_reach (reach : Steps.Reach step oneBatch (start config db) σ)
    (member : m ∈ σ.written) (carries : ApplyFsm.payload? m = some p)
    (latest : ∀ m' ∈ σ.written, ∀ p', ApplyFsm.payload? m' = some p' → p'.userKey = p.userKey → m'.entryId ≤ m.entryId) :
    σ.db (stripeMetaDbKey config.fsm.groupId p.userKey) = some (config.fsm.stripeMeta m p).serialize := by
  have made : ∀ m ∈ σ.written, ∃ e, applyMessage config.fsm.groupId e = some m := by
    intro m inside
    obtain ⟨e, _, message⟩ := List.mem_filterMap.mp ((written_sublist reach).subset inside)
    exact ⟨e, message⟩
  rw [(db_of_reach reach).2]
  exact foldl_writes_meta made (written_ascending reach) member carries latest

/-- With one batch of the group in flight at a time, its entries are written in index order, and the metadata of
each key is that of the entry with the highest index. -/
theorem writes_in_index_order (reach : Steps.Reach step oneBatch (start config db) σ) :
    σ.written.Sublist (σ.committed.filterMap (applyMessage config.fsm.groupId)) ∧
      (σ.written.map MsgApplyCommitted.entryId).Pairwise (· < ·) ∧
      ∀ m ∈ σ.written, ∀ p, ApplyFsm.payload? m = some p →
        (∀ m' ∈ σ.written, ∀ p', ApplyFsm.payload? m' = some p' → p'.userKey = p.userKey → m'.entryId ≤ m.entryId) →
        σ.db (stripeMetaDbKey config.fsm.groupId p.userKey) = some (config.fsm.stripeMeta m p).serialize :=
  ⟨written_sublist reach, List.pairwise_map.mpr (written_ascending reach),
    fun _ member _ carries latest => meta_of_reach reach member carries latest⟩

/-- Two threads, which drain one message at a time. -/
def twoThreads : ApplyConfig :=
  { fsm := { groupId := 0, nodeId := 0, encMode := 2, applyStripePacked := fun _ => [], applyStripeCommand := fun _ _ => [] }
    threadCount := 2
    maxBatch := 1 }

/-- A put of the key `a`, with one fragment. -/
def putEntry (index : Nat) (value : UInt8) : LogEntry :=
  { term := 1
    index := index
    chunkInfo := { k := 1, raftIndex := index, l := 1, lrcGroupId := 0, keySize := 1, totalSize := 1 }
    commandDataField := ascii "a"
    fragments := [[value]]
    fragIds := [0]
    placement := [⟨0, 0, 0, .kData⟩] }

def putMessage (index : Nat) (value : UInt8) : MsgApplyCommitted :=
  (applyMessage 0 (putEntry index value)).getD { entryId := 0, stripeId := 0, groupId := 0, data := [] }

/-- Two puts of one key; the second thread takes up the second one when the first has been written. -/
def putTwice : List Label :=
  [.applyEntry (putEntry 1 5), .applyEntry (putEntry 2 6), .drain 0, .handle 0, .drain 1, .handle 1]

theorem writes_in_index_order_putTwice : ∃ σ, Steps.Reach step oneBatch (start twoThreads fun _ => none) σ ∧
    σ.written = [putMessage 1 5, putMessage 2 6] ∧ (σ.written.map MsgApplyCommitted.entryId).Pairwise (· < ·) ∧
    ∃ p, ApplyFsm.payload? (putMessage 2 6) = some p ∧ p.userKey = ascii "a" ∧
      σ.db (stripeMetaDbKey 0 p.userKey) = some (twoThreads.fsm.stripeMeta (putMessage 2 6) p).serialize := by
  refine ⟨(Steps.exec step oneBatch (start twoThreads fun _ => none) putTwice).get (by decide +kernel), .of_get _,
    by decide +kernel, (writes_in_index_order (.of_get _)).2.1,
    (ApplyFsm.payload? (putMessage 2 6)).get (by decide +kernel), (Option.some_get _).symm, by decide +kernel, ?_⟩
  refine (writes_in_index_order (.of_get _)).2.2 (putMessage 2 6) (by decide +kernel) _ (Option.some_get _).symm ?_
  have ids : ∀ m' ∈ ((Steps.exec step oneBatch (start twoThreads fun _ => none) putTwice).get
      (by decide +kernel)).written, m'.entryId ≤ (putMessage 2 6).entryId := by decide +kernel
  exact fun m' inside _ _ _ => ids m' inside

/-- Each thread has drained one of the two messages, and the second thread is faster. -/
def putTwiceOvertaken : List Label :=
  [.applyEntry (putEntry 1 5), .applyEntry (putEntry 2 6), .drain 0, .drain 1, .handle 1, .handle 0]

theorem overtaken_write_leaves_old_meta : ∃ σ, Steps.Reach step (fun _ _ => True) (start twoThreads fun _ => none) σ ∧
    σ.written = [putMessage 2 6, putMessage 1 5] ∧ ¬(σ.written.map MsgApplyCommitted.entryId).Pairwise (· < ·) ∧
    ((σ.db (stripeMetaDbKey 0 (ascii "a"))).bind StripeLogMeta.deserialize).map StripeLogMeta.entryId = some 1 :=
  ⟨(Steps.exec step (fun _ _ => True) (start twoThreads fun _ => none) putTwiceOvertaken).get (by decide +kernel),
    .of_get _, by decide +kernel, by decide +kernel, by decide +kernel⟩

end Runs

end ApplyPool

end FlexRaft
