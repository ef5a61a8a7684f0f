import FlexRaft.ApplyOrder

namespace FlexRaft

def ApplyThread.batch : ApplyThread → List ApplyMsg
  | .handling batch | .updating _ batch | .storing _ _ batch => batch

namespace ApplyPool

variable {msgs : List ApplyMsg}

/-- No committed message stands behind a `MsgApplyStop`. -/
def Unbroken (msgs : List ApplyMsg) : Prop := pending msgs = queued msgs

theorem unbroken_of_sublist {part : List ApplyMsg} (none : queued msgs = []) (fewer : part.Sublist msgs) :
    Unbroken part := by
  have empty : queued part = [] := by
    have smaller : (queued part).Sublist (queued msgs) := fewer.filterMap _
    rw [none] at smaller
    exact List.eq_nil_of_sublist_nil smaller
  have within := pending_sublist part
  rw [empty] at within
  rw [Unbroken, empty, List.eq_nil_of_sublist_nil within]

theorem Unbroken.of_append {front back : List ApplyMsg} (unbroken : Unbroken (front ++ back)) :
    Unbroken front ∧ Unbroken back := by
  induction front with
  | nil => exact ⟨rfl, unbroken⟩
  | cons msg rest ih =>
    cases msg with
    | committed m =>
      have tail : m :: pending (rest ++ back) = m :: queued (rest ++ back) := unbroken
      obtain ⟨front, back⟩ := ih (List.tail_eq_of_cons_eq tail)
      refine ⟨?_, back⟩
      change m :: pending rest = m :: queued rest
      rw [front]
    | stop =>
      have none : queued (rest ++ back) = [] := Eq.symm unbroken
      rw [queued_append, List.append_eq_nil_iff] at none
      exact ⟨Eq.symm none.1, unbroken_of_sublist none.2 (.refl _)⟩

theorem unbroken_of_notMem (none : .stop ∉ msgs) : Unbroken msgs := by
  induction msgs with
  | nil => rfl
  | cons msg rest ih =>
    cases msg with
    | committed m =>
      change m :: pending rest = m :: queued rest
      rw [ih fun inside => none (List.mem_cons_of_mem _ inside)]
    | stop => exact absurd List.mem_cons_self none

theorem Unbroken.append_stop (unbroken : Unbroken msgs) : Unbroken (msgs ++ [.stop]) := by
  induction msgs with
  | nil => rfl
  | cons msg rest ih =>
    cases msg with
    | committed m =>
      have tail : m :: pending rest = m :: queued rest := unbroken
      change m :: pending (rest ++ [.stop]) = m :: queued (rest ++ [.stop])
      rw [ih (List.tail_eq_of_cons_eq tail)]
    | stop =>
      have none : queued rest = [] := Eq.symm unbroken
      change [] = queued (rest ++ [.stop])
      rw [queued_append, none]
      rfl

/-- All threads are between two batches when one of them drains messages, and no committed entry is dropped. -/
def oneAtATime (σ : ApplyPool) : Label → Prop
  | .drain _ => σ.mailbox = [] ∨ ∀ t < σ.config.threadCount, σ.threads t = .handling []
  | .applyEntry e => σ.registered = true ∧ (applyMessage σ.config.fsm.groupId e).isSome ∧ .stop ∉ σ.mailbox
  | _ => True

instance (σ : ApplyPool) : (l : Label) → Decidable (σ.oneAtATime l)
  | .drain _ => inferInstanceAs (Decidable (σ.mailbox = [] ∨ ∀ t < σ.config.threadCount, σ.threads t = .handling []))
  | .applyEntry e => inferInstanceAs
      (Decidable (σ.registered = true ∧ (applyMessage σ.config.fsm.groupId e).isSome ∧ .stop ∉ σ.mailbox))
  | .registerMailbox | .unregisterMailbox | .handle _ | .loadIndex _ | .storeIndex _ | .stop => isTrue trivial

/-- The published index next to the number of written messages, as far as a thread has got with the last one. -/
def Published (σ : ApplyPool) : ApplyThread → Prop
  | .handling _ => σ.appliedIndex = σ.written.length
  | .updating index _ => index = σ.written.length ∧ σ.appliedIndex + 1 = σ.written.length
  | .storing index prev _ => index = σ.written.length ∧ prev = σ.appliedIndex ∧ σ.appliedIndex + 1 = σ.written.length

/-- Thread `t` is the only one at work. The messages of the committed entries are those that were written, those it
has in its hands and those in the mailbox. -/
structure Tracked (σ : ApplyPool) (t : Nat) : Prop where
  others : ∀ t' ≠ t, σ.threads t' = .handling []
  spare : ∀ t, σ.config.threadCount ≤ t → σ.threads t = .handling []
  numbered : σ.committed.map LogEntry.index = List.range' 1 σ.committed.length
  whole : (σ.written ++ (σ.threads t).unwritten ++ queued σ.mailbox).map some =
    σ.committed.map (applyMessage σ.config.fsm.groupId)
  hand : Unbroken (σ.threads t).batch
  mail : Unbroken σ.mailbox
  published : σ.Published (σ.threads t)

section Tracked

variable {σ σ' : ApplyPool} {l : Label} {t : Nat} {m : MsgApplyCommitted}

theorem Tracked.eq_of_busy (inv : σ.Tracked t) (t' : Nat) (busy : σ.threads t' ≠ .handling []) : t' = t := by
  by_contra other
  exact busy (inv.others t' other)

theorem Tracked.next_index (inv : σ.Tracked t) {rest : List MsgApplyCommitted}
    (here : (σ.threads t).unwritten = m :: rest) :
    (∃ e, applyMessage σ.config.fsm.groupId e = some m) ∧ m.entryId = σ.written.length + 1 := by
  have at_m : (σ.committed.map (applyMessage σ.config.fsm.groupId))[σ.written.length]? = some (some m) := by
    rw [← inv.whole, here]
    simp
  rw [List.getElem?_map] at at_m
  obtain ⟨e, at_e, message⟩ := Option.map_eq_some_iff.mp at_m
  refine ⟨⟨e, message⟩, ?_⟩
  have index : (σ.committed.map LogEntry.index)[σ.written.length]? = some e.index := by
    rw [List.getElem?_map, at_e]
    rfl
  obtain ⟨bound, _⟩ := List.getElem?_eq_some_iff.mp at_e
  rw [inv.numbered, List.getElem?_range' bound, Option.some.injEq] at index
  rw [entryId_of_applyMessage message]
  omega

theorem Tracked.setThread (inv : σ.Tracked t) (busy : σ.threads t ≠ .handling []) {thread : ApplyThread} {a : Nat}
    (same : thread.unwritten = (σ.threads t).unwritten) (hand : Unbroken thread.batch)
    (published : { σ with appliedIndex := a }.Published thread) :
    ({ σ with appliedIndex := a }.setThread t thread).Tracked t := by
  refine ⟨fun t' other => ?_, fun t' above => ?_, inv.numbered, ?_, ?_, inv.mail, ?_⟩
  · rw [setThread_of_ne other]
    exact inv.others t' other
  · have other : t' ≠ t := fun eq => busy (eq ▸ inv.spare t' above)
    rw [setThread_of_ne other]
    exact inv.spare t' above
  · rw [setThread_self, same]
    exact inv.whole
  · rw [setThread_self]
    exact hand
  · rw [setThread_self]
    exact published

theorem Tracked.writes (inv : σ.Tracked t) {rest : List ApplyMsg} (db : Database)
    (here : σ.threads t = .handling (.committed m :: rest)) :
    ({ σ with db := db, written := σ.written ++ [m] }.setThread t (.updating m.entryId rest)).Tracked t := by
  have todo : (σ.threads t).unwritten = m :: pending rest := by
    rw [here]
    rfl
  have index := (inv.next_index todo).2
  have published : σ.Published (σ.threads t) := inv.published
  have whole := inv.whole
  have hand : m :: pending rest = m :: queued rest := by
    have hand := inv.hand
    rw [here] at hand
    exact hand
  rw [here] at published
  rw [todo] at whole
  refine ⟨fun t' other => ?_, fun t' above => ?_, inv.numbered, ?_, ?_, inv.mail, ?_⟩
  · rw [setThread_of_ne other]
    exact inv.others t' other
  · have other : t' ≠ t := fun eq => by
      have idle := inv.spare t' above
      rw [eq, here] at idle
      cases idle
    rw [setThread_of_ne other]
    exact inv.spare t' above
  · rw [setThread_self]
    change (σ.written ++ [m] ++ pending rest ++ queued σ.mailbox).map some =
      σ.committed.map (applyMessage σ.config.fsm.groupId)
    simpa using whole
  · rw [setThread_self]
    exact List.tail_eq_of_cons_eq hand
  · rw [setThread_self]
    change m.entryId = (σ.written ++ [m]).length ∧ σ.appliedIndex + 1 = (σ.written ++ [m]).length
    have count : σ.appliedIndex = σ.written.length := published
    rw [List.length_append, List.length_singleton]
    omega

theorem Tracked.drains (inv : σ.Tracked t) {t' : Nat} (exists_t : t' < σ.config.threadCount)
    (idle : ∀ t, σ.threads t = .handling []) :
    ({ σ with mailbox := σ.mailbox.drop σ.config.maxBatch }.setThread t'
      (.handling (σ.mailbox.take σ.config.maxBatch))).Tracked t' := by
  have mail := inv.mail
  rw [← List.take_append_drop σ.config.maxBatch σ.mailbox] at mail
  obtain ⟨front, back⟩ := mail.of_append
  have whole := inv.whole
  have published : σ.Published (σ.threads t) := inv.published
  rw [idle t] at whole published
  have parts : queued σ.mailbox =
      pending (σ.mailbox.take σ.config.maxBatch) ++ queued (σ.mailbox.drop σ.config.maxBatch) := by
    rw [front, ← queued_append, List.take_append_drop]
  refine ⟨fun t'' other => ?_, fun t'' above => ?_, inv.numbered, ?_, ?_, back, ?_⟩
  · rw [setThread_of_ne other]
    exact idle t''
  · rw [setThread_of_ne (Nat.ne_of_gt (Nat.lt_of_lt_of_le exists_t above))]
    exact idle t''
  · rw [setThread_self]
    change (σ.written ++ pending (σ.mailbox.take σ.config.maxBatch) ++ queued (σ.mailbox.drop σ.config.maxBatch)).map
      some = σ.committed.map (applyMessage σ.config.fsm.groupId)
    rw [List.append_assoc, ← parts, ← whole]
    change _ = (σ.written ++ [] ++ queued σ.mailbox).map some
    rw [List.append_nil]
  · rw [setThread_self]
    exact front
  · rw [setThread_self]
    exact published

theorem Tracked.pushes (inv : σ.Tracked t) {e : LogEntry}
    (index : e.index = σ.committed.length + 1) (message : applyMessage σ.config.fsm.groupId e = some m)
    (running : .stop ∉ σ.mailbox) :
    { σ with committed := σ.committed ++ [e], mailbox := σ.mailbox ++ [ApplyMsg.committed m] }.Tracked t := by
  refine ⟨inv.others, inv.spare, ?_, ?_, inv.hand, unbroken_of_notMem ?_, inv.published⟩
  · change (σ.committed ++ [e]).map LogEntry.index = List.range' 1 (σ.committed ++ [e]).length
    rw [List.map_append, inv.numbered, List.length_append, List.length_singleton, List.range'_1_concat,
      List.map_singleton, index, Nat.add_comm 1]
  · change (σ.written ++ (σ.threads t).unwritten ++ queued (σ.mailbox ++ [ApplyMsg.committed m])).map some =
      (σ.committed ++ [e]).map (applyMessage σ.config.fsm.groupId)
    rw [queued_append, ← List.append_assoc, List.map_append, inv.whole, List.map_append, List.map_singleton, message]
    rfl
  · simpa using running

theorem Tracked.step (inv : σ.Tracked t) (allowed : σ.oneAtATime l) (steps : σ.step l = some σ') :
    (∃ t, σ'.Tracked t) ∧ σ.appliedIndex ≤ σ'.appliedIndex := by
  have published : σ.Published (σ.threads t) := inv.published
  cases step_action steps with
  | drops _ unusable =>
    obtain ⟨registered, message, _⟩ := allowed
    rcases unusable with unregistered | none
    · cases registered.symm.trans unregistered
    · simp [none] at message
  | pushes index message => exact ⟨⟨t, inv.pushes index message allowed.2.2⟩, le_rfl⟩
  | registers => exact ⟨⟨t, inv.others, inv.spare, inv.numbered, inv.whole, inv.hand, inv.mail, inv.published⟩, le_rfl⟩
  | unregisters => exact ⟨⟨t, inv.others, inv.spare, inv.numbered, inv.whole, inv.hand, inv.mail, inv.published⟩, le_rfl⟩
  | @drains t' exists_t here =>
    refine ⟨?_, le_rfl⟩
    rcases allowed with empty | idle
    · -- Nothing is drained, and the thread stays where it is.
      have same : { σ with mailbox := σ.mailbox.drop σ.config.maxBatch }.setThread t'
          (.handling (σ.mailbox.take σ.config.maxBatch)) = σ := by
        have threads : (fun i => if i = t' then ApplyThread.handling [] else σ.threads i) = σ.threads := by
          funext i
          split
          · rw [‹i = t'›, here]
          · rfl
        simp only [ApplyPool.setThread, empty, List.take_nil, List.drop_nil, threads]
        rw [← empty]
      rw [same]
      exact ⟨t, inv⟩
    · refine ⟨t', inv.drains exists_t fun i => ?_⟩
      by_cases inside : i < σ.config.threadCount
      · exact idle i inside
      · exact inv.spare i (Nat.not_lt.mp inside)
  | @skips t' m rest here empty =>
    have same := inv.eq_of_busy t' (by simp [here])
    subst same
    have todo : (σ.threads t').unwritten = m :: pending rest := by
      rw [here]
      rfl
    obtain ⟨⟨e, message⟩, _⟩ := inv.next_index todo
    exact absurd empty (data_ne_nil_of_applyMessage message)
  | @writes t' m rest here =>
    have same := inv.eq_of_busy t' (by simp [here])
    subst same
    exact ⟨⟨t', inv.writes _ here⟩, le_rfl⟩
  | @quits t' rest here =>
    have same := inv.eq_of_busy t' (by simp [here])
    subst same
    rw [here] at published
    refine ⟨⟨t', inv.setThread (by simp [here]) ?_ rfl published⟩, le_rfl⟩
    rw [here]
    rfl
  | @loads t' index rest here =>
    have same := inv.eq_of_busy t' (by simp [here])
    subst same
    have hand := inv.hand
    rw [here] at published hand
    refine ⟨⟨t', inv.setThread (by simp [here]) ?_ hand ⟨published.1, rfl, published.2⟩⟩, le_rfl⟩
    rw [here]
    rfl
  | @stores t' index prev rest here =>
    have same := inv.eq_of_busy t' (by simp [here])
    subst same
    have hand := inv.hand
    rw [here] at published hand
    obtain ⟨last, loaded, behind⟩ := published
    have next : (if prev < index then index else σ.appliedIndex) = σ.written.length := by
      rw [if_pos (by omega), last]
    refine ⟨⟨t', inv.setThread (by simp [here]) ?_ hand next⟩, ?_⟩
    · rw [here]
      rfl
    · change σ.appliedIndex ≤ if prev < index then index else σ.appliedIndex
      rw [next]
      omega
  | stops =>
    refine ⟨⟨t, inv.others, inv.spare, inv.numbered, ?_, inv.hand, inv.mail.append_stop, inv.published⟩, le_rfl⟩
    change (σ.written ++ (σ.threads t).unwritten ++ queued (σ.mailbox ++ [.stop])).map some = _
    rw [queued_append, show queued [.stop] = [] from rfl, List.append_nil]
    exact inv.whole

end Tracked

section Runs

variable {σ σ' : ApplyPool} {config : ApplyConfig} {db : Database} {t : Nat}

theorem tracked_start (config : ApplyConfig) (db : Database) : (start config db).Tracked 0 :=
  ⟨fun _ _ => rfl, fun _ _ => rfl, rfl, rfl, rfl, rfl, rfl⟩

theorem Tracked.appliedIndex_le (inv : σ.Tracked t) : σ.appliedIndex ≤ σ.written.length := by
  have published := inv.published
  cases here : σ.threads t with
  | handling =>
    rw [here] at published
    exact Nat.le_of_eq published
  | updating =>
    rw [here] at published
    obtain ⟨_, behind⟩ := published
    omega
  | storing =>
    rw [here] at published
    obtain ⟨_, _, behind⟩ := published
    omega

theorem Tracked.written_of_index_le (inv : σ.Tracked t) {e : LogEntry} (member : e ∈ σ.committed)
    (bound : e.index ≤ σ.written.length) : ∃ m ∈ σ.written, applyMessage σ.config.fsm.groupId e = some m := by
  obtain ⟨j, at_j⟩ := List.mem_iff_getElem?.mp member
  obtain ⟨inside, _⟩ := List.getElem?_eq_some_iff.mp at_j
  have index : (σ.committed.map LogEntry.index)[j]? = some e.index := by
    rw [List.getElem?_map, at_j]
    rfl
  rw [inv.numbered, List.getElem?_range' inside, Option.some.injEq] at index
  have message : ((σ.written ++ (σ.threads t).unwritten ++ queued σ.mailbox).map some)[j]? =
      some (applyMessage σ.config.fsm.groupId e) := by
    rw [inv.whole, List.getElem?_map, at_j]
    rfl
  have written : j < σ.written.length := by omega
  rw [List.getElem?_map, List.append_assoc, List.getElem?_append_left written] at message
  obtain ⟨m, at_m, same⟩ := Option.map_eq_some_iff.mp message
  exact ⟨m, List.mem_of_getElem? at_m, same.symm⟩

theorem tracked_of_reach (reach : Steps.Reach step oneAtATime (start config db) σ) : ∃ t, σ.Tracked t :=
  reach.holds (P := fun σ => ∃ t, σ.Tracked t) ⟨0, tracked_start config db⟩
    fun _ _ _ ⟨_, inv⟩ allowed steps => (inv.step allowed steps).1

/-- With one batch of the group in flight at a time and no committed entry dropped, the published index never
decreases, and the entries up to it have been written to the database. -/
theorem applied_index_trustworthy (reach : Steps.Reach step oneAtATime (start config db) σ)
    (later : Steps.Reach step oneAtATime σ σ') :
    σ.lastApplyIndex ≤ σ'.lastApplyIndex ∧
      (∀ i ≤ σ'.lastApplyIndex, ∀ e ∈ σ'.committed, e.index ≤ i →
        ∃ m ∈ σ'.written, applyMessage config.fsm.groupId e = some m) ∧
      σ'.db = σ'.written.foldl (fun db m => db.write (config.fsm.writes m)) db := by
  obtain ⟨same, content⟩ := db_of_reach (reach.trans later)
  refine ⟨?_, fun i published e member bound => ?_, content⟩
  · have kept := later.holds (P := fun σ' => (∃ t, σ'.Tracked t) ∧ σ.appliedIndex ≤ σ'.appliedIndex)
      ⟨tracked_of_reach reach, le_rfl⟩ fun _ _ _ ⟨⟨_, inv⟩, before⟩ allowed steps => by
        obtain ⟨next, grows⟩ := inv.step allowed steps
        exact ⟨next, before.trans grows⟩
    exact kept.2
  · obtain ⟨t, inv⟩ := tracked_of_reach (reach.trans later)
    have count := inv.appliedIndex_le
    change i ≤ σ'.appliedIndex at published
    have written := inv.written_of_index_le member (by omega)
    rwa [same] at written

/-- Two puts, each handled to its end before the next drain. -/
def putTwiceInTurn : List Label :=
  [.applyEntry (putEntry 1 5), .applyEntry (putEntry 2 6), .drain 0, .handle 0, .loadIndex 0, .storeIndex 0, .drain 1,
    .handle 1, .loadIndex 1, .storeIndex 1]

theorem applied_index_trustworthy_putTwice : ∃ σ, Steps.Reach step oneAtATime (start twoThreads fun _ => none) σ ∧
    σ.lastApplyIndex = 2 ∧ putEntry 1 5 ∈ σ.committed ∧ 0 ≤ σ.lastApplyIndex ∧
    ∃ m ∈ σ.written, applyMessage 0 (putEntry 1 5) = some m := by
  have reach : Steps.Reach step oneAtATime (start twoThreads fun _ => none)
      ((Steps.exec step oneAtATime (start twoThreads fun _ => none) putTwiceInTurn).get (by decide +kernel)) := .of_get _
  obtain ⟨grows, written, _⟩ := applied_index_trustworthy .refl reach
  exact ⟨_, reach, by decide +kernel, by decide +kernel, grows, written 1 (by decide +kernel) _ (by decide +kernel) le_rfl⟩

/-- The first thread has loaded the index before the second one stores its own. -/
def putTwiceRacing : List Label :=
  [.applyEntry (putEntry 1 5), .applyEntry (putEntry 2 6), .drain 0, .drain 1, .handle 0, .loadIndex 0, .handle 1,
    .loadIndex 1, .storeIndex 1]

/-- The second thread is done before the first has begun. -/
def putTwiceAhead : List Label :=
  [.applyEntry (putEntry 1 5), .applyEntry (putEntry 2 6), .drain 0, .drain 1, .handle 1, .loadIndex 1, .storeIndex 1]

/-- The published index goes back, and it covers an entry that has not been written. -/
theorem applied_index_untrustworthy : (∃ σ σ', Steps.Reach step (fun _ _ => True) (start twoThreads fun _ => none) σ ∧
      σ.step (.storeIndex 0) = some σ' ∧ σ.lastApplyIndex = 2 ∧ σ'.lastApplyIndex = 1) ∧
    ∃ σ, Steps.Reach step (fun _ _ => True) (start twoThreads fun _ => none) σ ∧ σ.lastApplyIndex = 2 ∧
      putEntry 1 5 ∈ σ.committed ∧ applyMessage 0 (putEntry 1 5) = some (putMessage 1 5) ∧
      putMessage 1 5 ∉ σ.written := by
  refine ⟨⟨(Steps.exec step (fun _ _ => True) (start twoThreads fun _ => none) putTwiceRacing).get (by decide +kernel),
    (step ((Steps.exec step (fun _ _ => True) (start twoThreads fun _ => none) putTwiceRacing).get (by decide +kernel))
      (.storeIndex 0)).get (by decide +kernel), .of_get _, (Option.some_get _).symm, by decide +kernel,
      by decide +kernel⟩,
    (Steps.exec step (fun _ _ => True) (start twoThreads fun _ => none) putTwiceAhead).get (by decide +kernel), .of_get _,
    by decide +kernel, by decide +kernel, by decide +kernel, by decide +kernel⟩

end Runs

end ApplyPool

end FlexRaft
