import FlexRaft.Replicate

namespace FlexRaft

namespace RaftState

variable {s s' : RaftState} {j peer : Nat} {indices : List Nat} {entries : List LogEntry} {ent : LogEntry}

/-- `e` is what an encoding of `ent` with parameter `k` holds for server `dst`. -/
def FragmentOf (c : RaftConfig) (ent : LogEntry) (dst j k : Nat) (e : LogEntry) : Prop :=
  1 ≤ k ∧ k ≤ c.peers.length + 1 ∧ ent.startOffset ≤ ent.commandData.length ∧
    e = encodedEntry ent j k (Encoder.encodeFragment c.isal (ent.commandData.drop ent.startOffset) k
      (c.peers.length + 1 - k) dst)

/-- `e` holds the key of the LRC entry `ent` and fragments of its stripe. -/
structure LrcCopy (ent : LogEntry) (j : Nat) (e : LogEntry) : Prop where
  index : e.index = j
  term : e.term = ent.term
  type : e.type = .kNormal
  chunkInfo : e.chunkInfo = ent.chunkInfo
  commandData : e.commandDataField = keySlice ent
  fragments : e.fragments ⊆ ent.fragments

/-- `e` is what server `dst` may hold for index `j` of the log of leader `s`: in Reed-Solomon mode a
fragment whose `k` is not below the last encoding of that index. -/
def CopyOf (s : RaftState) (dst j : Nat) (e : LogEntry) : Prop :=
  ∃ ent, s.lm.getSingleLogEntry j = some ent ∧
    if s.config.lrcMode then LrcCopy ent j e
    else ∃ k last, FragmentOf s.config ent dst j k e ∧ s.lastEncoding j = some last ∧ last ≤ k

theorem encodeRaftEntry_eq_some {k : Nat} {stripe : Stripe} (encoded : s.encodeRaftEntry j k = some stripe) :
    1 ≤ k ∧ ∃ ent, s.lm.getSingleLogEntry j = some ent ∧ stripe.raftTerm = ent.term ∧
      ∀ dst < s.getClusterServerNumber, ∃ e, stripe.fragments.find dst = some e ∧ FragmentOf s.config ent dst j k e := by
  unfold encodeRaftEntry at encoded
  split at encoded
  · cases encoded
  · rename_i valid
    cases at_j : s.lm.getSingleLogEntry j with
    | none => simp [at_j] at encoded
    | some ent =>
      simp only [at_j] at encoded
      split at encoded
      · cases encoded
      · rename_i offset
        cases encoded
        refine ⟨by omega, ent, rfl, rfl, fun dst member => ?_⟩
        refine ⟨_, ?_, by omega, Nat.le_of_not_lt fun tooLong => valid (Or.inr (Or.inr tooLong)), by omega, rfl⟩
        rw [OrdMap.find_mapValues, Encoder.encodeSlice_find (by omega)]
        rfl

theorem encodeRaftEntry_congr (config : s'.config = s.config) (lm : s'.lm = s.lm) (j k : Nat) :
    s'.encodeRaftEntry j k = s.encodeRaftEntry j k := by
  unfold encodeRaftEntry getClusterServerNumber peers
  rw [config, lm]

theorem encodeRaftEntry_mono {k : Nat} {stripe : Stripe} (config : s'.config = s.config)
    (kept : ∀ e, s.lm.getSingleLogEntry j = some e → s'.lm.getSingleLogEntry j = some e)
    (encoded : s.encodeRaftEntry j k = some stripe) : s'.encodeRaftEntry j k = some stripe := by
  have size : s'.getClusterServerNumber = s.getClusterServerNumber := by
    unfold getClusterServerNumber peers
    rw [config]
  unfold encodeRaftEntry at encoded ⊢
  split at encoded
  · cases encoded
  · rename_i valid
    cases at_j : s.lm.getSingleLogEntry j with
    | none => simp [at_j] at encoded
    | some ent =>
      have found := kept ent at_j
      have inLog : ¬(s'.lm.lastLogEntryIndex < j) := by
        intro beyond
        simp [LogManager.getSingleLogEntry, beyond] at found
      rw [if_neg (by rw [size]; omega), found, config, size]
      simpa only [at_j] using encoded

theorem encodedEntriesFor_spec (built : s.encodedEntriesFor peer indices = some entries) :
    ∀ (i : Nat) e, entries[i]? = some e → ∃ j stripe, indices[i]? = some j ∧ s.encodedStripe j = some stripe ∧
      e = (stripe.fragments.find peer).getD {} := by
  induction indices generalizing entries with
  | nil =>
    cases built
    simp
  | cons j rest ih =>
    unfold encodedEntriesFor at built
    cases cached : s.encodedStripe j with
    | none => simp [cached] at built
    | some stripe =>
      simp only [cached, Option.map_eq_some_iff] at built
      obtain ⟨others, builtRest, rfl⟩ := built
      intro i e at_i
      cases i with
      | zero =>
        cases at_i
        exact ⟨j, stripe, rfl, cached, rfl⟩
      | succ i => exact ih builtRest i e at_i

theorem addFragmentWithId_lrcCopy {e : LogEntry} {fragId : Nat} {frag : Slice} (copy : LrcCopy ent j e)
    (member : frag ∈ ent.fragments) : LrcCopy ent j (e.addFragmentWithId fragId frag) := by
  unfold LogEntry.addFragmentWithId
  split
  · exact copy
  · exact ⟨copy.index, copy.term, copy.type, copy.chunkInfo, copy.commandData,
      List.append_subset.mpr ⟨copy.fragments, List.cons_subset.mpr ⟨member, List.nil_subset _⟩⟩⟩

theorem keyOnlyEntry_lrcCopy (ent : LogEntry) (j : Nat) : LrcCopy ent j (keyOnlyEntry ent j) :=
  ⟨rfl, rfl, rfl, rfl, rfl, List.nil_subset _⟩

theorem lrcFragmentsFor_subset : lrcFragmentsFor ent peer ⊆ ent.fragments := by
  unfold lrcFragmentsFor
  split
  · exact List.Subset.refl _
  · intro frag member
    obtain ⟨p, _, chosen⟩ := List.mem_filterMap.mp member
    split at chosen
    · exact List.mem_of_getElem? chosen
    · cases chosen

theorem lrcEntriesFor_spec (built : s.lrcEntriesFor peer indices = some entries) :
    entries.length ≤ indices.length ∧ (entries.length = indices.length → ∀ (i : Nat) e, entries[i]? = some e →
      ∃ j ent, indices[i]? = some j ∧ s.lm.getSingleLogEntry j = some ent ∧ LrcCopy ent j e) := by
  induction indices generalizing entries with
  | nil =>
    cases built
    simp
  | cons j rest ih =>
    unfold lrcEntriesFor at built
    cases at_j : s.lm.getSingleLogEntry j with
    | none =>
      simp only [at_j] at built
      have short := (ih built).1
      refine ⟨by simp only [List.length_cons]; omega, fun full => ?_⟩
      simp only [List.length_cons] at full
      omega
    | some ent =>
      simp only [at_j] at built
      split at built
      · cases built
      · obtain ⟨others, builtRest, rfl⟩ := Option.map_eq_some_iff.mp built
        obtain ⟨short, spec⟩ := ih builtRest
        refine ⟨by simp only [List.length_cons]; omega, fun full i e at_i => ?_⟩
        cases i with
        | zero =>
          cases at_i
          refine ⟨j, ent, rfl, at_j, ?_⟩
          exact List.foldlRecOn (lrcFragmentsFor ent peer) LogEntry.addFragment (keyOnlyEntry_lrcCopy ent j)
            fun e copy frag member => addFragmentWithId_lrcCopy copy (lrcFragmentsFor_subset member)
        | succ i => exact spec (by simpa using full) i e at_i

theorem indexRange_getElem? {start last i : Nat} (at_i : (indexRange start last)[i]? = some j) :
    j = start + i ∧ j ≤ last := by
  obtain ⟨bound, rfl⟩ := List.getElem?_eq_some_iff.mp at_i
  simp only [indexRange, List.length_range'] at bound
  simp only [indexRange, List.getElem_range']
  omega

theorem mem_indexRange {start last : Nat} : j ∈ indexRange start last ↔ start ≤ j ∧ j ≤ last := by
  simp only [indexRange, List.mem_range'_1]
  omega

end RaftState

end FlexRaft
