import FlexRaft.Seclusion

namespace FlexRaft

namespace Cluster

open RaftState

/-- The log of the preferred server in a run with restarts: each of its entries holds a command that was
proposed at its index in its term, and no other command ever was. -/
structure Recovering (σ : Cluster) : Prop where
  log : σ.preferred.FullLog
  collecting : σ.preferred.role = .kPreLeader → σ.preferred.Collecting
  origin : ∀ (j : Nat) e, σ.preferred.lm.entries[j]? = some e → ∃ command,
    .proposed σ.config.groupId (j + 1) e.term command ∈ σ.history ∧ e.commandDataField = command.commandData
  past : ∀ i j t command, .proposed i j t command ∈ σ.history → t ≤ σ.preferred.currentTerm ∧
    (t = σ.preferred.currentTerm → σ.preferred.role = .kFollower ∨
      σ.preferred.role = .kLeader ∧ j ≤ σ.preferred.lm.entries.length)
  once : ∀ i i' j t command command', .proposed i j t command ∈ σ.history → .proposed i' j t command' ∈ σ.history →
    command = command'

/-- A server finds its term again after a crash, and the preferred server, whose log only grows, the part of
its log that was written. -/
def logSurvives (σ : Cluster) (l : Label) : Prop :=
  match l with
  | .restart i lm _ => σ.config.hasStorage i = true ∧
      (i = σ.config.groupId → lm.entries <+: (σ.servers i).lm.entries)
  | _ => True

instance (σ : Cluster) : (l : Label) → Decidable (logSurvives σ l)
  | .restart i lm _ => inferInstanceAs (Decidable (σ.config.hasStorage i = true ∧
      (i = σ.config.groupId → lm.entries <+: (σ.servers i).lm.entries)))
  | .tick _ _ | .propose _ _ | .replicate _ | .deliver _ _ => isTrue trivial

/-- Moreover, what a pre-leader takes up from a smaller id corroborates its own log. -/
def corroborated (σ : Cluster) (l : Label) : Prop :=
  logSurvives σ l ∧ ∀ p ∈ σ.delivered l, AnswerCorroborates (σ.servers p.dst) p.msg

instance (σ : Cluster) (l : Label) : Decidable (corroborated σ l) :=
  inferInstanceAs (Decidable (logSurvives σ l ∧ ∀ p ∈ σ.delivered l, AnswerCorroborates (σ.servers p.dst) p.msg))

section Runs

variable {σ σ' : Cluster} {l : Label} {c : ClusterConfig} {junk : Nat → Uninitialised}

/-- Within one term the preferred server gives up a role only for that of a follower or a later one. -/
theorem Solo.rank (solo : σ.Solo) (survives : headerSurvives σ l) (happens : Happens σ l σ') :
    σ.preferred.currentTerm ≤ σ'.preferred.currentTerm ∧
      (σ'.preferred.currentTerm = σ.preferred.currentTerm → σ'.preferred.role = .kFollower ∨
        σ.preferred.role ≠ .kFollower ∧ (σ.preferred.role = .kLeader → σ'.preferred.role = .kLeader)) := by
  obtain ⟨member, deed, left, calls, leaders⟩ := happens
  rename_i i s events net pending
  refine ⟨(solo.deed survives left.received deed).term_le, ?_⟩
  by_cases same : i = σ.config.groupId
  · rw [preferred_after_self same]
    subst same
    change s.currentTerm = σ.preferred.currentTerm → s.role = .kFollower ∨
      σ.preferred.role ≠ .kFollower ∧ (σ.preferred.role = .kLeader → s.role = .kLeader)
    intro sameTerm
    cases deed with
    | restarts label fresh =>
      subst fresh
      exact Or.inl rfl
    | sends asking =>
      rw [show s.role = σ.preferred.role from field_eq asking.core (·.role)]
      exact or_iff_not_imp_left.mpr fun other => ⟨other, fun leads => leads⟩
    | turn turn =>
      cases turn with
      | stays _ role =>
        rcases role with kept | ⟨pre, leads⟩
        · rw [kept]
          exact or_iff_not_imp_left.mpr fun other => ⟨other, fun leads => leads⟩
        · exact Or.inr ⟨fun follower => (by cases pre.symm.trans follower), fun _ => leads⟩
      | follows _ role => exact Or.inl role
      | grants _ isTaken msg =>
        obtain ⟨onWire, dst⟩ := left.received _ isTaken
        exact absurd dst ((solo.packets _ onWire).request (by simp [msg, Message.isRequest]))
      | stands _ _ _ term =>
        change s.currentTerm = σ.preferred.currentTerm + 1 at term
        omega
      | counts _ candidate =>
        change σ.preferred.role = .kCandidate at candidate
        rw [candidate]
        simp
  · rw [preferred_after_other same]
    exact fun _ => or_iff_not_imp_left.mpr fun other => ⟨other, fun leads => leads⟩

theorem Recovering.intact (inv : σ.Recovering) : σ.preferred.Intact := ⟨inv.log, inv.collecting⟩

theorem corroborated.attested (allowed : corroborated σ l) : attested σ l := by
  refine ⟨?_, allowed.2⟩
  cases l with
  | restart => exact allowed.1.2
  | _ => trivial

theorem corroborated.headerSurvives (allowed : corroborated σ l) : headerSurvives σ l := by
  cases l with
  | restart => exact allowed.1.1
  | _ => trivial

theorem Recovering.past_happens (inv : σ.Recovering) (solo : σ.Solo) (survives : Cluster.headerSurvives σ l)
    (happens : Happens σ l σ') {i j t : Nat} {command : CommandData}
    (recorded : .proposed i j t command ∈ σ.history)
    (grows : σ'.preferred.role ≠ .kFollower → σ.preferred.lm.entries.length ≤ σ'.preferred.lm.entries.length) :
    t ≤ σ'.preferred.currentTerm ∧ (t = σ'.preferred.currentTerm → σ'.preferred.role = .kFollower ∨
      σ'.preferred.role = .kLeader ∧ j ≤ σ'.preferred.lm.entries.length) := by
  obtain ⟨later, rank⟩ := solo.rank survives happens
  obtain ⟨old, place⟩ := inv.past i j t command recorded
  refine ⟨old.trans later, fun current => ?_⟩
  have sameTerm : σ'.preferred.currentTerm = σ.preferred.currentTerm := by omega
  rcases rank sameTerm with follower | ⟨active, leads⟩
  · exact Or.inl follower
  · rcases place (current.trans sameTerm) with follower | ⟨leader, inLog⟩
    · exact absurd follower active
    · refine Or.inr ⟨leads leader, inLog.trans (grows ?_)⟩
      rw [leads leader]
      exact nofun

theorem Recovering.keeps (inv : σ.Recovering) (solo : σ.Solo) (survives : Cluster.headerSurvives σ l)
    (happens : Happens σ l σ') (intact : σ'.preferred.Intact) (same : KeepsLog σ.preferred σ'.preferred)
    (proposals : ∀ i j t command, .proposed i j t command ∈ σ'.history → .proposed i j t command ∈ σ.history) :
    σ'.Recovering := by
  refine ⟨intact.log, intact.collecting, fun j f at_j => ?_, fun i j t command recorded => ?_,
    fun i i' j t command command' first second => ?_⟩
  · obtain ⟨e, at_e, f_e⟩ := same.lm.entry j f at_j
    obtain ⟨command, recorded, data⟩ := inv.origin j e at_e
    rw [f_e.term, f_e.command, happens.config_eq]
    exact ⟨command, happens.history_subset recorded, data⟩
  · exact inv.past_happens solo survives happens (proposals i j t command recorded) fun _ => same.lm.length.ge
  · exact inv.once i i' j t command command' (proposals _ _ _ _ first) (proposals _ _ _ _ second)

theorem Recovering.proposes (inv : σ.Recovering) (solo : σ.Solo) (survives : Cluster.headerSurvives σ l)
    (happens : Happens σ l σ') (intact : σ'.preferred.Intact) {command : CommandData} {e : LogEntry}
    (leads : σ.preferred.role = .kLeader) (entry : ProposedEntry σ.preferred command e)
    (after : σ'.preferred = { σ.preferred with lm := σ.preferred.lm.appendLogEntry e })
    (history : σ'.history = σ.history ++
      [.proposed σ.config.groupId (σ.preferred.lm.lastLogEntryIndex + 1) σ.preferred.currentTerm command]) :
    σ'.Recovering := by
  have last := inv.log.indexed.lastLogEntryIndex_eq
  have role : σ'.preferred.role = .kLeader := by rw [after]; exact leads
  have log : σ'.preferred.lm = σ.preferred.lm.appendLogEntry e := by rw [after]
  have term : σ'.preferred.currentTerm = σ.preferred.currentTerm := by rw [after]
  have length : σ'.preferred.lm.entries.length = σ.preferred.lm.entries.length + 1 := by
    simp [log, LogManager.appendLogEntry]
  rw [last] at history
  have new : ∀ i j t d, .proposed i j t d ∈ σ'.history → .proposed i j t d ∈ σ.history ∨
      j = σ.preferred.lm.entries.length + 1 ∧ t = σ.preferred.currentTerm ∧ d = command := by
    intro i j t d recorded
    rw [history] at recorded
    rcases List.mem_append.mp recorded with old | here
    · exact Or.inl old
    · cases List.mem_singleton.mp here
      exact Or.inr ⟨rfl, rfl, rfl⟩
  -- The index of the new entry is beyond every index that was proposed in this term.
  have fresh : ∀ i j t d, .proposed i j t d ∈ σ.history →
      ¬(j = σ.preferred.lm.entries.length + 1 ∧ t = σ.preferred.currentTerm) := by
    rintro i j t d old ⟨place, current⟩
    rcases (inv.past i j t d old).2 current with follower | ⟨_, inLog⟩
    · cases leads.symm.trans follower
    · omega
  refine ⟨intact.log, intact.collecting, fun j f at_j => ?_, fun i j t d recorded => ?_,
    fun i i' j t d d' first second => ?_⟩
  · rw [log] at at_j
    rw [happens.config_eq]
    rcases LogManager.appendLogEntry_getElem? at_j with old | ⟨rfl, rfl⟩
    · obtain ⟨d, recorded, data⟩ := inv.origin j f old
      exact ⟨d, happens.history_subset recorded, data⟩
    · refine ⟨command, ?_, entry.commandData⟩
      rw [history, entry.term]
      exact List.mem_append_right _ (List.mem_singleton_self _)
  · rcases new i j t d recorded with old | ⟨place, current, _⟩
    · exact inv.past_happens solo survives happens old fun _ => by omega
    · exact ⟨by omega, fun _ => Or.inr ⟨role, by omega⟩⟩
  · rcases new i j t d first with old | ⟨place, current, rfl⟩ <;>
      rcases new i' j t d' second with old' | ⟨place', current', rfl⟩
    · exact inv.once i i' j t d d' old old'
    · exact absurd ⟨place', current'⟩ (fresh i j t d old)
    · exact absurd ⟨place, current⟩ (fresh i' j t d' old')
    · rfl

theorem Recovering.restarts (inv : σ.Recovering) (solo : σ.Solo) (survives : Cluster.headerSurvives σ l)
    (happens : Happens σ l σ') (intact : σ'.preferred.Intact)
    (log : σ'.preferred.lm.entries <+: σ.preferred.lm.entries) (role : σ'.preferred.role = .kFollower)
    (proposals : ∀ i j t command, .proposed i j t command ∈ σ'.history → .proposed i j t command ∈ σ.history) :
    σ'.Recovering := by
  refine ⟨intact.log, intact.collecting, fun j e at_j => ?_, fun i j t command recorded => ?_,
    fun i i' j t command command' first second => ?_⟩
  · obtain ⟨command, recorded, data⟩ := inv.origin j e (getElem?_of_written log at_j)
    rw [happens.config_eq]
    exact ⟨command, happens.history_subset recorded, data⟩
  · exact inv.past_happens solo survives happens (proposals i j t command recorded) fun active => absurd role active
  · exact inv.once i i' j t command command' (proposals _ _ _ _ first) (proposals _ _ _ _ second)

theorem Recovering.step (inv : σ.Recovering) (solo : σ.Solo) (allowed : corroborated σ l)
    (step : σ.step l = some σ') : σ'.Recovering := by
  have survives := allowed.headerSurvives
  have happens := step_happens solo.outbox step
  have intact := solo.secluded.intact_step inv.intact allowed.attested step
  cases solo.secluded.step_logStep inv.intact allowed.attested step with
  | keeps same proposals => exact inv.keeps solo survives happens intact same proposals
  | proposes leads entry after history => exact inv.proposes solo survives happens intact leads entry after history
  | restarts _ log role proposals => exact inv.restarts solo survives happens intact log role proposals

theorem recovering_init (member : c.groupId < c.size) : (init c junk).Recovering := by
  have intact := intact_init junk member
  refine ⟨intact.log, intact.collecting, fun j e at_j => ?_, by simp [init], by simp [init]⟩
  have none : ([] : List LogEntry)[j]? = some e := at_j
  simp at none

theorem Reach.recovering (reach : Reach corroborated (init c junk) σ) :
    σ.Solo ∧ (σ.preferred.role ≠ .kFollower → σ.Recovering) := by
  by_cases member : c.groupId < c.size
  · have inv : σ.config = c ∧ σ.Solo ∧ σ.Recovering := by
      refine reach.holds (P := fun σ => σ.config = c ∧ σ.Solo ∧ σ.Recovering)
        ⟨rfl, solo_init c junk, recovering_init member⟩ ?_
      rintro σ₁ l σ₂ ⟨config, solo, inv⟩ allowed step
      have happens := step_happens solo.outbox step
      exact ⟨happens.config_eq.trans config, solo.happens allowed.headerSurvives happens, inv.step solo allowed step⟩
    exact ⟨inv.2.1, fun _ => inv.2.2⟩
  · -- A server outside of the group never acts.
    have idle : σ.config = c ∧ σ.Solo ∧ σ.preferred.role = .kFollower := by
      refine reach.holds (P := fun σ => σ.config = c ∧ σ.Solo ∧ σ.preferred.role = .kFollower)
        ⟨rfl, solo_init c junk, rfl⟩ ?_
      rintro σ₁ l σ₂ ⟨config, solo, follower⟩ allowed step
      have happens := step_happens solo.outbox step
      refine ⟨happens.config_eq.trans config, solo.happens allowed.headerSurvives happens, ?_⟩
      obtain ⟨acts, deed, left, calls, leaders⟩ := happens
      rename_i i s events net pending
      have other : i ≠ σ₁.config.groupId := by
        rintro rfl
        rw [config] at acts
        exact member acts
      rw [preferred_after_other other]
      exact follower
    exact ⟨idle.2.1, fun active => absurd idle.2.2 active⟩

end Runs

section Recovery

variable {σ σ' : Cluster} {c : ClusterConfig} {junk : Nat → Uninitialised} {j : Nat} {s : RaftState}

/-- In `s`, server `i` still has each entry above its commit index, with the bytes that were proposed, or
lost it together with all later ones. -/
def RecoversTo (σ : Cluster) (i : Nat) (s : RaftState) : Prop :=
  ∀ j, (σ.servers i).commitIndex < j → j ≤ (σ.servers i).lm.lastLogEntryIndex →
    (∃ e e', (σ.servers i).lm.getSingleLogEntry j = some e ∧ s.lm.getSingleLogEntry j = some e' ∧ e'.term = e.term ∧
      (∃ command, .proposed i j e.term command ∈ σ.history) ∧
      ∀ server command, .proposed server j e.term command ∈ σ.history → e'.commandData = command.commandData) ∨
    ∀ j' ≥ j, s.lm.getSingleLogEntry j' = none

theorem Recovering.entry_recovered (inv : σ.Recovering) {e e' : LogEntry}
    (at_e : σ.preferred.lm.entries[j]? = some e) (same : SameCommand e e') :
    (∃ command, .proposed σ.config.groupId (j + 1) e.term command ∈ σ.history) ∧
      ∀ server command, .proposed server (j + 1) e.term command ∈ σ.history → e'.commandData = command.commandData := by
  obtain ⟨origin, recorded, data⟩ := inv.origin j e at_e
  refine ⟨⟨origin, recorded⟩, fun server command recorded' => ?_⟩
  rw [LogEntry.commandData, if_pos (same.type.trans (inv.log.normal j e at_e)), same.command, data,
    inv.once _ _ _ _ _ _ recorded recorded']

theorem Recovering.recoversTo_of_same (inv : σ.Recovering) (same : SameCommands σ.preferred.lm s.lm) :
    σ.RecoversTo σ.config.groupId s := by
  intro j above inLog
  change j ≤ σ.preferred.lm.lastLogEntryIndex at inLog
  rw [inv.log.indexed.lastLogEntryIndex_eq] at inLog
  obtain ⟨n, rfl⟩ := Nat.exists_eq_add_of_lt above
  have bound : σ.preferred.commitIndex + n < s.lm.entries.length := by
    rw [same.length]
    exact inLog
  obtain ⟨e', at_e'⟩ : ∃ e', s.lm.entries[σ.preferred.commitIndex + n]? = some e' := ⟨_, List.getElem?_eq_getElem bound⟩
  obtain ⟨e, at_e, e_e'⟩ := same.entry _ _ at_e'
  obtain ⟨proposed, recovered⟩ := inv.entry_recovered at_e e_e'
  refine Or.inl ⟨e, e', ?_, ?_, e_e'.term, proposed, recovered⟩
  · exact (inv.log.indexed.getSingleLogEntry_succ _).trans at_e
  · exact ((same.indexed inv.log.indexed).getSingleLogEntry_succ _).trans at_e'

theorem Recovering.recoversTo_of_written (inv : σ.Recovering)
    (written : s.lm.entries <+: σ.preferred.lm.entries) : σ.RecoversTo σ.config.groupId s := by
  have indexed : s.lm.Indexed := fun j e at_j => inv.log.indexed j e (getElem?_of_written written at_j)
  intro j above inLog
  obtain ⟨n, rfl⟩ := Nat.exists_eq_add_of_lt above
  by_cases bound : σ.preferred.commitIndex + n < s.lm.entries.length
  · obtain ⟨e, at_e⟩ : ∃ e, s.lm.entries[σ.preferred.commitIndex + n]? = some e := ⟨_, List.getElem?_eq_getElem bound⟩
    have before := getElem?_of_written written at_e
    obtain ⟨proposed, recovered⟩ := inv.entry_recovered before (.refl e)
    refine Or.inl ⟨e, e, ?_, ?_, rfl, proposed, recovered⟩
    · exact (inv.log.indexed.getSingleLogEntry_succ _).trans before
    · exact (indexed.getSingleLogEntry_succ _).trans at_e
  · refine Or.inr fun j' later => ?_
    obtain ⟨m, rfl⟩ := Nat.exists_eq_add_of_le later
    change s.lm.getSingleLogEntry (σ.preferred.commitIndex + n + 1 + m) = none
    rw [show σ.preferred.commitIndex + n + 1 + m = σ.preferred.commitIndex + n + m + 1 by omega,
      indexed.getSingleLogEntry_succ]
    exact List.getElem?_eq_none (by omega)

/-- A pre-leader has collected answers. Whenever it decodes them, and whatever the group does next. -/
theorem recovery_faithful {i : Nat} (reach : Reach corroborated (init c junk) σ)
    (pre : (σ.servers i).role = .kPreLeader) :
    σ.RecoversTo i (σ.servers i).decodeCollectedStripe ∧
      ∀ l σ', corroborated σ l → σ.step l = some σ' → σ.RecoversTo i (σ'.servers i) := by
  obtain ⟨solo, recovering⟩ := reach.recovering
  have active : (σ.servers i).role ≠ .kFollower := by simp [pre]
  have same := solo.leader_eq active
  subst same
  have inv := recovering active
  constructor
  · obtain ⟨lm, decoded, kept⟩ := decodeStripes_of_opened inv.log.indexed (inv.collecting pre)
    refine inv.recoversTo_of_same (s := σ.preferred.decodeCollectedStripe) ?_
    rw [decodeCollectedStripe, decoded]
    exact kept
  · intro l σ' allowed step
    have here : σ'.servers σ.config.groupId = σ'.preferred := by
      rw [Cluster.preferred, (step_happens solo.outbox step).config_eq]
    rw [here]
    cases solo.secluded.step_logStep inv.intact allowed.attested step with
    | keeps kept => exact inv.recoversTo_of_same kept.lm
    | proposes leads => cases leads.symm.trans pre
    | restarts _ written => exact inv.recoversTo_of_written written

/-- The log of the leader that `firstEntryStored` has brought about. -/
def firstLog : LogManager :=
  { entries := [{ term := 1, index := 1, type := .kNormal, commandSize := 2, commandDataField := [1, 2] }] }

/-- This leader crashes, comes back with its log, wins the next election and has asked for fragments. -/
def firstEntryCollected : List Label :=
  firstEntryStored ++ [.restart 0 firstLog (.zero 0), .tick 0 { electionExpired := true }, .deliver 6 4, .deliver 7 5,
    .deliver 7 6]

theorem recovery_faithful_threeServers : ∃ σ σ', Reach corroborated (init (.threeServers 0) .zero) σ ∧
    (σ.servers 0).role = .kPreLeader ∧ (σ.servers 0).lm.lastLogEntryIndex = 1 ∧ σ.step (.deliver 8 7) = some σ' ∧
    (σ'.servers 0).role = .kLeader ∧ σ.RecoversTo 0 (σ'.servers 0) := by
  refine ⟨(exec corroborated (init (.threeServers 0) .zero) firstEntryCollected).get (by decide +kernel),
    (step ((exec corroborated (init (.threeServers 0) .zero) firstEntryCollected).get (by decide +kernel))
      (.deliver 8 7)).get (by decide +kernel), .of_get _, by decide +kernel, by decide +kernel,
    (Option.some_get _).symm, by decide +kernel, ?_⟩
  exact (recovery_faithful (.of_get _) (by decide +kernel)).2 (.deliver 8 7) _ (by decide +kernel)
    (Option.some_get _).symm

/-- The grouping `LRC(4, 2, 8)` of seven nodes at equal distances, groups `{0, 2, 4, 6}` and `{1, 3, 5}`; the
fragments are those of payloads of zeros. -/
def sevenNodes : LrcGrouper :=
  { n := 7
    k := 4
    l := 2
    r := 8
    k_pos := by decide
    fragmentsForNode := fun node =>
      (([[0, 6], [2, 10], [1, 7], [3, 11], [8, 13], [5, 12], [4, 9]] : List (List Nat))[node]?).getD []
    nodePlacementsVector :=
      [⟨0, 0, 0, .kData⟩, ⟨1, 0, 2, .kData⟩, ⟨2, 1, 1, .kData⟩, ⟨3, 1, 3, .kData⟩, ⟨4, 0, 6, .kLocalParity⟩,
        ⟨5, 1, 5, .kLocalParity⟩, ⟨6, -1, 0, .kGlobalParity⟩, ⟨10, -1, 1, .kGlobalParity⟩, ⟨7, -1, 2, .kGlobalParity⟩,
        ⟨11, -1, 3, .kGlobalParity⟩, ⟨8, -1, 4, .kGlobalParity⟩, ⟨13, -1, 4, .kGlobalParity⟩,
        ⟨12, -1, 5, .kGlobalParity⟩, ⟨9, -1, 6, .kGlobalParity⟩]
    lrcGroupIdForNode := fun node => if node % 2 = 0 then 0 else 1
    encodeStripe := fun data => some (List.replicate 14 (List.replicate ((data.length + 3) / 4) 0)) }

/-- Seven servers in LRC mode; server 1 is preferred. -/
def sevenServers : ClusterConfig :=
  { size := 7
    size_pos := by decide
    size_le := by decide
    groupId := 1
    dynamicK := 0
    encodingMode := 2
    lrcGrouper := some sevenNodes
    hasRsm := fun _ => true
    hasBridge := fun _ => false
    hasStorage := fun _ => true
    isal := xorIsal }

/-- A command with the key `a`, the byte at position 21; the value starts at position 30. -/
def putA : CommandData :=
  { startFragmentOffset := 30, commandData := [83, 84, 82, 73] ++ List.replicate 17 0 ++ [97] ++ List.replicate 12 0 }

/-- Server 1 is elected and proposes; server 0 stores its fragments and the key. -/
def keyStored : List Label :=
  [.tick 1 { electionExpired := true }, .deliver 0 1, .deliver 0 1, .deliver 0 1, .deliver 3 1, .deliver 3 1,
    .deliver 3 1, .propose 1 putA, .replicate 0, .deliver 9 1]

/-- What server 1 has written by then. -/
def writtenLog : LogManager :=
  ((exec logSurvives (init sevenServers .zero) keyStored).map fun σ => (σ.servers 1).lm).getD {}

/-- Server 1 comes back, is elected again and has the answers of two servers, one of them server 0. -/
def keyCollected : List Label :=
  keyStored ++ [.restart 1 writtenLog (.zero 1), .tick 1 { electionExpired := true }, .deliver 15 1, .deliver 15 1,
    .deliver 15 1, .deliver 18 1, .deliver 18 1, .deliver 18 1, .deliver 18 1, .deliver 18 1, .deliver 18 1,
    .deliver 21 1, .deliver 21 1]

theorem not_recoversTo {i term server : Nat} {command : CommandData} {data : Slice}
    (above : (σ.servers i).commitIndex < j) (inLog : j ≤ (σ.servers i).lm.lastLogEntryIndex)
    (old : ((σ.servers i).lm.getSingleLogEntry j).map LogEntry.term = some term)
    (recorded : .proposed server j term command ∈ σ.history)
    (new : (s.lm.getSingleLogEntry j).map LogEntry.commandData = some data) (other : data ≠ command.commandData) :
    ¬σ.RecoversTo i s := by
  intro recovers
  rcases recovers j above inLog with ⟨e, e', found, found', _, _, same⟩ | gone
  · rw [found] at old
    rw [found'] at new
    cases old
    cases new
    exact other (same server command recorded)
  · rw [gone j le_rfl] at new
    cases new

/-- Recovery replaces the command of the leader by the key that server 0 has. -/
theorem recovery_keeps_only_key : ∃ σ σ', Reach logSurvives (init sevenServers .zero) σ ∧
    (σ.servers 1).role = .kPreLeader ∧ .proposed 1 1 1 putA ∈ σ.history ∧
    (σ.servers 1).lm.entries.map (fun e => (e.term, e.commandData)) = [(1, putA.commandData)] ∧
    σ.step (.deliver 21 1) = some σ' ∧ (σ'.servers 1).role = .kLeader ∧
    (σ'.servers 1).lm.entries.map (fun e => (e.term, e.commandData)) = [(1, [97])] ∧
    ¬σ.RecoversTo 1 (σ'.servers 1) := by
  refine ⟨(exec logSurvives (init sevenServers .zero) keyCollected).get (by decide +kernel),
    (step ((exec logSurvives (init sevenServers .zero) keyCollected).get (by decide +kernel))
      (.deliver 21 1)).get (by decide +kernel), .of_get _, by decide +kernel, by decide +kernel, by decide +kernel,
    (Option.some_get _).symm, by decide +kernel, by decide +kernel, ?_⟩
  exact not_recoversTo (j := 1) (by decide +kernel) (by decide +kernel) (by decide +kernel)
    (show Event.proposed 1 1 1 putA ∈ _ by decide +kernel) (show _ = some [97] by decide +kernel) (by decide +kernel)

end Recovery

end Cluster

end FlexRaft
