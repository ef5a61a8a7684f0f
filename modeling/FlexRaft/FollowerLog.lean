import FlexRaft.AppendEntries

namespace FlexRaft

/-- What stands at a place after an accepted entry was laid over the one stored there. -/
def keptEntry (stored : Option LogEntry) (entry : LogEntry) : LogEntry :=
  match stored with
  | none => entry
  | some old => if needOverwriteLogEntry old.chunkInfo entry.chunkInfo then entry else old

theorem keptEntry_eq_or {stored : Option LogEntry} {entry kept : LogEntry} (h : keptEntry stored entry = kept) :
    kept = entry ∨ stored = some kept := by
  unfold keptEntry at h
  cases stored with
  | none => exact Or.inl h.symm
  | some old =>
    simp only at h
    split at h
    · exact Or.inl h.symm
    · exact Or.inr (congrArg some h)

theorem keptEntry_k_le_stored {old entry : LogEntry} : (keptEntry (some old) entry).chunkInfo.k ≤ old.chunkInfo.k := by
  simp only [keptEntry]
  split
  · rename_i smaller
    exact Nat.le_of_lt (by simpa [needOverwriteLogEntry] using smaller)
  · exact le_rfl

/-- The entries of a message laid over those stored behind the previous index: at each place the encoding with
the smaller `k` stays, and from the first entry of another term on only the message counts. -/
def laidOver : List LogEntry → List LogEntry → List LogEntry
  | stored, [] => stored
  | [], entry :: sent => entry :: sent
  | old :: stored, entry :: sent =>
    if entry.term = old.term then keptEntry (some old) entry :: laidOver stored sent else entry :: sent

/-- A sent entry meets an entry of another term at its place. -/
def ConflictAt (stored sent : List LogEntry) (i : Nat) : Prop :=
  ∃ old entry, stored[i]? = some old ∧ sent[i]? = some entry ∧ entry.term ≠ old.term

section LaidOver

variable {stored sent : List LogEntry} {i : Nat} {entry : LogEntry}

theorem laidOver_nil_right (stored : List LogEntry) : laidOver stored [] = stored := by
  cases stored <;> rfl

theorem conflictAt_succ {old : LogEntry} (conflict : ConflictAt stored sent i) :
    ConflictAt (old :: stored) (entry :: sent) (i + 1) := conflict

theorem laidOver_sent (free : ∀ j ≤ i, ¬ ConflictAt stored sent j) (at_i : sent[i]? = some entry) :
    (laidOver stored sent)[i]? = some (keptEntry stored[i]? entry) := by
  induction sent generalizing stored i with
  | nil => exact absurd at_i (by simp)
  | cons first sent ih =>
    cases stored with
    | nil => exact at_i
    | cons old stored =>
      have same : first.term = old.term := by
        by_contra other
        exact free 0 (Nat.zero_le i) ⟨old, first, rfl, rfl, other⟩
      rw [laidOver, if_pos same]
      cases i with
      | zero =>
        cases at_i
        rfl
      | succ i => exact ih (fun j low conflict => free (j + 1) (by omega) (conflictAt_succ conflict)) at_i

theorem laidOver_conflict {j : Nat} (conflict : ConflictAt stored sent j) (behind : j ≤ i) :
    (laidOver stored sent)[i]? = sent[i]? := by
  induction sent generalizing stored i j with
  | nil =>
    obtain ⟨_, _, _, none, _⟩ := conflict
    exact absurd none (by simp)
  | cons first sent ih =>
    cases stored with
    | nil => rfl
    | cons old stored =>
      rw [laidOver]
      split
      · rename_i same
        cases j with
        | zero =>
          obtain ⟨_, _, storedFirst, sentFirst, other⟩ := conflict
          cases storedFirst
          cases sentFirst
          exact absurd same other
        | succ j =>
          obtain ⟨i, rfl⟩ := Nat.exists_eq_add_of_le' (Nat.le_trans (Nat.succ_le_succ (Nat.zero_le j)) behind)
          exact ih (show ConflictAt stored sent j from conflict) (by omega)
      · rfl

theorem laidOver_behind (free : ∀ j, ¬ ConflictAt stored sent j) (behind : sent.length ≤ i) :
    (laidOver stored sent)[i]? = stored[i]? := by
  induction sent generalizing stored i with
  | nil => rw [laidOver_nil_right]
  | cons first sent ih =>
    rw [List.length_cons] at behind
    cases stored with
    | nil => exact List.getElem?_eq_none (by rw [laidOver, List.length_cons]; omega)
    | cons old stored =>
      have same : first.term = old.term := by
        by_contra other
        exact free 0 ⟨old, first, rfl, rfl, other⟩
      obtain ⟨i, rfl⟩ := Nat.exists_eq_add_of_le' (Nat.le_trans (Nat.le_add_left 1 _) behind)
      rw [laidOver, if_pos same]
      exact ih (fun j conflict => free (j + 1) (conflictAt_succ conflict)) (by omega)

theorem length_le_laidOver (stored sent : List LogEntry) : sent.length ≤ (laidOver stored sent).length := by
  induction sent generalizing stored with
  | nil => exact Nat.zero_le _
  | cons first sent ih =>
    cases stored with
    | nil => exact le_rfl
    | cons old stored =>
      rw [laidOver]
      split
      · exact Nat.succ_le_succ (ih stored)
      · exact le_rfl

theorem laidOver_cases (at_i : (laidOver stored sent)[i]? = some entry) :
    stored[i]? = some entry ∨ sent[i]? = some entry := by
  induction sent generalizing stored i with
  | nil =>
    rw [laidOver_nil_right] at at_i
    exact .inl at_i
  | cons first sent ih =>
    cases stored with
    | nil => exact .inr at_i
    | cons old stored =>
      rw [laidOver] at at_i
      split at at_i
      · cases i with
        | zero =>
          rcases keptEntry_eq_or (Option.some.inj at_i) with rfl | same
          · exact .inr rfl
          · exact .inl same
        | succ i => exact ih at_i
      · exact .inr at_i

end LaidOver

namespace LogManager

variable {prev j : Nat} {entries : List LogEntry} {lm' : LogManager} {infos : List ChunkInfo} {e : LogEntry}

/-- `lm'` is `lm` with the entries of a message laid over it behind index `prev`. -/
structure Merged (prev : Nat) (entries : List LogEntry) (lm lm' : LogManager) (infos : List ChunkInfo) : Prop where
  indexed : lm'.Indexed
  outside : ∀ j, j < prev ∨ prev + entries.length ≤ j → lm'.entries[j]? = lm.entries[j]?
  inside : ∀ i e, entries[i]? = some e → lm'.entries[prev + i]? = some (keptEntry lm.entries[prev + i]? e)
  info : ∀ ci ∈ infos, ∃ i e, entries[i]? = some e ∧ ci = (keptEntry lm.entries[prev + i]? e).chunkInfo

theorem Merged.entry_cases {lm : LogManager}
    (merged : Merged prev entries lm lm' infos) (at_j : lm'.entries[j]? = some e) :
    lm.entries[j]? = some e ∨ ∃ i, j = prev + i ∧ entries[i]? = some e := by
  by_cases inside : prev ≤ j ∧ j < prev + entries.length
  · obtain ⟨i, rfl⟩ := Nat.exists_eq_add_of_le inside.1
    obtain ⟨entry, at_i⟩ : ∃ entry, entries[i]? = some entry := ⟨_, List.getElem?_eq_getElem (by omega)⟩
    have kept := (merged.inside i entry at_i).symm.trans at_j
    rcases keptEntry_eq_or (Option.some.inj kept) with rfl | old
    · exact Or.inr ⟨i, rfl, at_i⟩
    · exact Or.inl old
  · rw [merged.outside j (by omega)] at at_j
    exact Or.inl at_j

theorem Merged.stored_le {lm : LogManager}
    (merged : Merged prev entries lm lm' infos) (at_j : lm.entries[j]? = some e) :
    ∃ e', lm'.entries[j]? = some e' ∧ e'.chunkInfo.k ≤ e.chunkInfo.k := by
  by_cases inside : prev ≤ j ∧ j < prev + entries.length
  · obtain ⟨i, rfl⟩ := Nat.exists_eq_add_of_le inside.1
    have laid := merged.inside i _ (List.getElem?_eq_getElem (by omega))
    rw [at_j] at laid
    exact ⟨_, laid, keptEntry_k_le_stored⟩
  · exact ⟨e, (merged.outside j (by omega)).trans at_j, le_rfl⟩

theorem Merged.length_le {lm : LogManager}
    (merged : Merged prev entries lm lm' infos) : lm.entries.length ≤ lm'.entries.length := by
  by_contra shorter
  have stored : ∃ e, lm.entries[lm'.entries.length]? = some e := ⟨_, List.getElem?_eq_getElem (by omega)⟩
  have beyond : lm'.entries[lm'.entries.length]? = none := List.getElem?_eq_none le_rfl
  by_cases inside : prev ≤ lm'.entries.length ∧ lm'.entries.length < prev + entries.length
  · obtain ⟨i, place⟩ := Nat.exists_eq_add_of_le inside.1
    have laid := merged.inside i _ (List.getElem?_eq_getElem (by omega))
    rw [← place, beyond] at laid
    cases laid
  · obtain ⟨e, stored⟩ := stored
    rw [← merged.outside _ (by omega), beyond] at stored
    cases stored

theorem foldl_appendLogEntry (entries : List LogEntry) (lm : LogManager) :
    (entries.foldl appendLogEntry lm).entries = lm.entries ++ entries := by
  induction entries generalizing lm with
  | nil => simp
  | cons e rest ih => simp [ih, appendLogEntry]

theorem appendNew_eq (lm : LogManager) (entries : List LogEntry) :
    lm.appendNew entries = ({ entries := lm.entries ++ entries }, entries.map LogEntry.chunkInfo) := by
  unfold appendNew
  rw [Prod.mk.injEq, mk.injEq, foldl_appendLogEntry]
  exact ⟨rfl, rfl⟩

theorem Indexed.append {lm : LogManager} (indexed : lm.Indexed)
    (places : ∀ i e, entries[i]? = some e → e.index = lm.entries.length + 1 + i) :
    Indexed { entries := lm.entries ++ entries } := by
  intro j e at_j
  rw [List.getElem?_append] at at_j
  split at at_j
  · exact indexed j e at_j
  · have place := places _ _ at_j
    omega

section LaidOver

variable {entries : List LogEntry} {prev i : Nat} {lm : LogManager}

/-- The log with the entries of a message laid over it behind index `prev`. -/
def mergeAfter (lm : LogManager) (prev : Nat) (entries : List LogEntry) : LogManager :=
  { entries := lm.entries.take prev ++ laidOver (lm.entries.drop prev) entries }

theorem mergeAfter_below (below : i < prev) (reaches : prev ≤ lm.entries.length) :
    (lm.mergeAfter prev entries).entries[i]? = lm.entries[i]? := by
  change (lm.entries.take prev ++ _)[i]? = _
  rw [List.getElem?_append_left (by rw [List.length_take]; omega), List.getElem?_take, if_pos below]

theorem mergeAfter_above (reaches : prev ≤ lm.entries.length) :
    (lm.mergeAfter prev entries).entries[prev + i]? = (laidOver (lm.entries.drop prev) entries)[i]? := by
  have length : (lm.entries.take prev).length = prev := by rw [List.length_take]; omega
  change (lm.entries.take prev ++ _)[prev + i]? = _
  rw [List.getElem?_append_right (by omega), length, Nat.add_sub_cancel_left]

theorem Indexed.mergeAfter (indexed : lm.Indexed) (reaches : prev ≤ lm.entries.length)
    (places : ∀ i e, entries[i]? = some e → e.index = prev + 1 + i) : (lm.mergeAfter prev entries).Indexed := by
  intro j e at_j
  by_cases below : j < prev
  · rw [mergeAfter_below below reaches] at at_j
    exact indexed j e at_j
  · obtain ⟨i, rfl⟩ := Nat.exists_eq_add_of_le (Nat.le_of_not_lt below)
    rw [mergeAfter_above reaches] at at_j
    rcases laidOver_cases at_j with stored | sent
    · rw [List.getElem?_drop] at stored
      exact indexed _ e stored
    · have place := places i e sent
      omega

/-- What the two loops do to the log behind index `prev`, and the chunk infos they answer. -/
theorem Indexed.checkConflictEntryAndAppendNew_eq (indexed : lm.Indexed) (reaches : prev ≤ lm.entries.length)
    (places : ∀ i e, entries[i]? = some e → e.index = prev + 1 + i) :
    checkConflictEntryAndAppendNew (prev + 1) entries lm =
      some (lm.mergeAfter prev entries,
        ((laidOver (lm.entries.drop prev) entries).take entries.length).map LogEntry.chunkInfo) := by
  unfold LogManager.mergeAfter
  induction entries generalizing prev lm with
  | nil =>
    rw [laidOver_nil_right, List.take_append_drop]
    rfl
  | cons entry rest ih =>
    unfold checkConflictEntryAndAppendNew
    rw [indexed.lastLogEntryIndex_eq]
    rcases Nat.lt_or_eq_of_le reaches with inside | rfl
    · obtain ⟨old, at_prev⟩ : ∃ old, lm.entries[prev]? = some old := ⟨_, List.getElem?_eq_getElem inside⟩
      have split : lm.entries.drop prev = old :: lm.entries.drop (prev + 1) := by
        rw [List.drop_eq_getElem_cons inside, ← (List.getElem?_eq_some_iff.mp at_prev).2]
      rw [if_neg (by omega), indexed.termAt_succ at_prev, indexed.getSingleLogEntry_succ, at_prev, split, laidOver]
      by_cases same : entry.term = old.term
      · rw [if_neg (not_not_intro same), if_pos same]
        have placesRest : ∀ i e, rest[i]? = some e → e.index = prev + 1 + 1 + i := by
          intro i e at_i
          have place := places (i + 1) e at_i
          omega
        have written := indexed.overWriteLogEntry_entries (e := entry) inside
        dsimp only
        split
        · rename_i smaller
          have kept : keptEntry (some old) entry = entry := by simp [keptEntry, smaller]
          have midIndexed : (lm.overWriteLogEntry entry (prev + 1)).Indexed := by
            intro j e at_j
            rw [written, List.getElem?_set] at at_j
            split at at_j
            · rename_i here
              subst here
              cases at_j
              exact places 0 entry rfl
            · exact indexed j e at_j
          have before : (lm.entries.set prev entry).take (prev + 1) = lm.entries.take prev ++ [entry] := by
            rw [List.take_add_one, List.take_set_of_le le_rfl, List.getElem?_set_self inside]
            rfl
          rw [ih midIndexed (by rw [written, List.length_set]; omega) placesRest, written, kept, before,
            List.drop_set_of_lt (Nat.lt_succ_self prev), List.append_assoc]
          rfl
        · rename_i larger
          have kept : keptEntry (some old) entry = old := by simp [keptEntry, larger]
          have before : lm.entries.take (prev + 1) = lm.entries.take prev ++ [old] := by
            rw [List.take_add_one, at_prev]
            rfl
          rw [ih indexed inside placesRest, kept, before, List.append_assoc]
          rfl
      · rw [if_pos same, if_neg same, appendNew_eq, indexed.deleteLogEntriesFrom_entries (by omega) (by omega)]
        rw [Nat.add_sub_cancel, List.take_length]
    · rw [if_pos (by omega), List.drop_length, List.take_length, appendNew_eq, laidOver,
        List.take_length]

/-- Entries that agree in term with what is stored never truncate the log. -/
theorem checkConflictEntryAndAppendNew_merged (indexed : lm.Indexed) (reaches : prev ≤ lm.entries.length)
    (places : ∀ i e, entries[i]? = some e → e.index = prev + 1 + i)
    (agree : ∀ i e old, entries[i]? = some e → lm.entries[prev + i]? = some old → e.term = old.term) :
    ∃ lm' infos, checkConflictEntryAndAppendNew (prev + 1) entries lm = some (lm', infos) ∧
      Merged prev entries lm lm' infos := by
  refine ⟨_, _, indexed.checkConflictEntryAndAppendNew_eq reaches places, ?_⟩
  have free : ∀ i, ¬ ConflictAt (lm.entries.drop prev) entries i := by
    rintro i ⟨old, e, stored, at_i, other⟩
    rw [List.getElem?_drop] at stored
    exact other (agree i e old at_i stored)
  have laid : ∀ i e, entries[i]? = some e →
      (laidOver (lm.entries.drop prev) entries)[i]? = some (keptEntry lm.entries[prev + i]? e) := by
    intro i e at_i
    rw [laidOver_sent (fun j _ => free j) at_i, List.getElem?_drop]
  constructor
  · exact indexed.mergeAfter reaches places
  · rintro j (below | behind)
    · exact mergeAfter_below below reaches
    · obtain ⟨i, rfl⟩ := Nat.exists_eq_add_of_le (Nat.le_trans (Nat.le_add_right _ _) behind)
      rw [mergeAfter_above reaches, laidOver_behind free (by omega), List.getElem?_drop]
  · intro i e at_i
    rw [mergeAfter_above reaches, laid i e at_i]
  · intro ci member
    obtain ⟨kept, among, rfl⟩ := List.mem_map.mp member
    obtain ⟨i, at_i⟩ := List.mem_iff_getElem?.mp among
    rw [List.getElem?_take] at at_i
    split at at_i
    · rename_i low
      have sent := List.getElem?_eq_getElem low
      refine ⟨i, _, sent, ?_⟩
      rw [laid i _ sent] at at_i
      rw [Option.some.inj at_i]
    · cases at_i

end LaidOver

end LogManager

namespace RaftState

theorem containEntry_reaches {s : RaftState} {index term k : Nat} (indexed : s.lm.Indexed)
    (contains : s.containEntry index term k = true) : index ≤ s.lm.entries.length := by
  unfold containEntry at contains
  split at contains
  · rename_i zero
    exact zero ▸ Nat.zero_le _
  · split at contains
    · cases contains
    · rename_i e found
      obtain ⟨low, at_index⟩ := indexed.getSingleLogEntry_eq_some.mp found
      have bound := (List.getElem?_eq_some_iff.mp at_index).1
      omega

end RaftState

end FlexRaft
