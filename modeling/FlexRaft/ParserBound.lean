import FlexRaft.EntryFormat

namespace FlexRaft

/-- Sizes are those of a `size_t`, and the two counts fit into the four bytes they are written to. -/
structure LogEntry.Sized (e : LogEntry) : Prop where
  notEncoded : e.notEncodedSlice.length < 2 ^ 64
  fragment : e.fragmentSlice.length < 2 ^ 64
  fragments : e.fragments.length < UInt32.size
  sizes : ∀ frag ∈ e.fragments, frag.length < 2 ^ 64
  placements : e.placement.length < UInt32.size

namespace Serializer

open ByteReader

section Serialized

variable {m : EntryMemory} {e : LogEntry}

theorem fragments_run {frags : List (Nat × Slice)} (sizes : ∀ frag ∈ frags, frag.2.length < 2 ^ 64) (rest : Slice) :
    ((∃ frag ∈ frags, 16 * 1024 * 1024 < frag.2.length) ∧
      (times (readFragment .refused) frags.length).run (frags.flatMap fragmentBytes ++ rest) = .error .refused) ∨
    (∀ frag ∈ frags, frag.2.length ≤ 16 * 1024 * 1024) ∧
      ∃ values, (times (readFragment .refused) frags.length).run (frags.flatMap fragmentBytes ++ rest) = .ok (values, rest) := by
  induction frags with
  | nil => exact Or.inr ⟨List.forall_mem_nil _, [], rfl⟩
  | cons frag frags ih =>
    obtain ⟨here, later⟩ := List.forall_mem_cons.mp sizes
    have split : (frag :: frags).flatMap fragmentBytes ++ rest =
        encodeFixed32 (frag.1 % UInt32.size) ++ (encodeFixed64 frag.2.length ++ (frag.2 ++ (frags.flatMap fragmentBytes ++ rest))) := by
      have word : encodeFixed32 (frag.1 % UInt32.size) = encodeFixed32 frag.1 := LittleEndian.encode_mod 4 frag.1
      rw [word, List.flatMap_cons, fragmentBytes, putPrefixLengthSlice]
      simp only [List.append_assoc]
    have id : frag.1 % UInt32.size < UInt32.size := Nat.mod_lt _ (by decide)
    rw [split]
    by_cases large : 16 * 1024 * 1024 < frag.2.length
    · refine Or.inl ⟨⟨frag, List.mem_cons_self, large⟩, run_bind_error.mpr (Or.inl ?_)⟩
      rw [readFragment, (reads32 id).run_bind, (reads64 here).run_bind, decide_eq_true large]
      rfl
    · have reads : Reads (readFragment .refused) (fragmentBytes (frag.1 % UInt32.size, frag.2)) (frag.1 % UInt32.size, frag.2) :=
        reads_fragment id (Nat.le_of_not_lt large)
      have same : encodeFixed32 (frag.1 % UInt32.size) ++ (encodeFixed64 frag.2.length ++ (frag.2 ++ (frags.flatMap fragmentBytes ++ rest))) =
          fragmentBytes (frag.1 % UInt32.size, frag.2) ++ (frags.flatMap fragmentBytes ++ rest) := by
        simp only [fragmentBytes, putPrefixLengthSlice, List.append_assoc]
      rw [same, List.length_cons, times, reads.run_bind]
      rcases ih later with ⟨⟨other, member, above⟩, refused⟩ | ⟨small, values, ok⟩
      · exact Or.inl ⟨⟨other, List.mem_cons_of_mem _ member, above⟩, run_bind_error.mpr (Or.inl refused)⟩
      · exact Or.inr ⟨List.forall_mem_cons.mpr ⟨Nat.le_of_not_lt large, small⟩, _ :: values,
          run_bind_ok.mpr ⟨values, rest, ok, rfl⟩⟩

theorem serialized_beginsWithSlices (sized : e.Sized) :
    BeginsWithSlices (serializeLogentry m e) (encodeFixed32 e.fragments.length ++ ((numberedFragments e).flatMap fragmentBytes ++
      (encodeFixed32 e.placement.length ++ e.placement.flatMap placementBytes))) := by
  refine ⟨scalarImage e ++ memoryImage m e, e.notEncodedSlice, e.fragmentSlice, ?_, sized.notEncoded, sized.fragment, ?_⟩
  · rw [List.length_append]
    exact length_head
  · simp only [serializeLogentry, List.append_assoc]

theorem serialized_run (sized : e.Sized) : ((∃ frag ∈ e.fragments, 16 * 1024 * 1024 < frag.length) ∧
      deserializeLogentryWithbound.run (serializeLogentry m e) = .error .refused) ∨
    (∀ frag ∈ e.fragments, frag.length ≤ 16 * 1024 * 1024) ∧
      ∃ e', deserializeLogentryWithbound.run (serializeLogentry m e) = .ok (e', []) := by
  obtain ⟨scalars, notEncoded, frag, same⟩ := (serialized_beginsWithSlices (m := m) sized).run
  have number : (numberedFragments e).length = e.fragments.length := by
    rw [numberedFragments, List.length_map, List.length_zipIdx]
  have inside : ∀ frag ∈ numberedFragments e, frag.2 ∈ e.fragments := by
    intro frag member
    have mapped : frag.2 ∈ (numberedFragments e).map Prod.snd := List.mem_map_of_mem member
    rwa [map_snd_numberedFragments] at mapped
  have sizes : ∀ frag ∈ numberedFragments e, frag.2.length < 2 ^ 64 := fun frag member => sized.sizes _ (inside frag member)
  have placed : ∀ item ∈ e.placement.map placementBytes,
      ∃ fp, Reads (need ParseFault.refused 16 >>= fun _ => readPlacement) item fp := by
    intro item member
    obtain ⟨fp, -, rfl⟩ := List.mem_map.mp member
    have size : (placementBytes fp).length = 16 := by
      simp only [placementBytes, List.length_append, length_encodeFixed32]
    obtain ⟨value, reads⟩ := fixed_readPlacement _ size
    exact ⟨value, Reads.need size.ge reads⟩
  obtain ⟨placement, reads⟩ := Reads.blocks placed
  have finish := reads []
  rw [List.length_map, ← List.flatMap_def, List.append_nil] at finish
  rw [same, readLists, (reads32 sized.fragments).run_bind]
  rcases fragments_run sizes (encodeFixed32 e.placement.length ++ e.placement.flatMap placementBytes) with
    ⟨⟨large, member, above⟩, refused⟩ | ⟨small, values, ok⟩
  · rw [number] at refused
    exact Or.inl ⟨⟨large.2, inside large member, above⟩, run_bind_error.mpr (Or.inl refused)⟩
  · have all : ∀ item ∈ e.fragments, item.length ≤ 16 * 1024 * 1024 := by
      intro item member
      rw [← map_snd_numberedFragments] at member
      obtain ⟨numbered, listed, rfl⟩ := List.mem_map.mp member
      exact small numbered listed
    rw [number] at ok
    refine Or.inr ⟨all, finishEntry scalars notEncoded frag values placement, run_bind_ok.mpr ⟨values, _, ok, ?_⟩⟩
    rw [readPlacements, (reads32 sized.placements).run_bind]
    exact run_bind_ok.mpr ⟨placement, [], finish, rfl⟩

end Serialized

/-- What `deserialize_logentry_withbound(src, len)` returns, with positions counted from `src`. -/
def parsedInBound (mem : Slice) (len : Nat) : Except ParseFault (LogEntry × Nat) :=
  (deserializeLogentryInBound mem ⟨0, len⟩).map fun result => (result.1, result.2.pos)

section Bound

variable {first : Slice}

theorem parsedInBound_of_ok (size : first.length < 2 ^ 64) {e : LogEntry} {rest : Slice}
    (done : deserializeLogentryWithbound.run first = .ok (e, rest)) (beyond : Slice) :
    parsedInBound (first ++ beyond) first.length = .ok (e, first.length - rest.length) := by
  have agrees := follows_withbound [] first beyond size
  rw [done] at agrees
  obtain ⟨used, split, ran⟩ := agrees
  have moved : first.length - rest.length = used.length := by
    rw [split, List.length_append, Nat.add_sub_cancel]
  rw [List.nil_append] at ran
  unfold parsedInBound
  rw [moved]
  change (deserializeLogentryInBound (first ++ beyond) ⟨([] : Slice).length, first.length⟩).map _ = _
  rw [ran, List.length_nil, Nat.zero_add]
  rfl

theorem parsedInBound_of_error (size : first.length < 2 ^ 64) {f : ParseFault}
    (failed : deserializeLogentryWithbound.run first = .error f) (beyond : Slice) (atEnd : f = .overrun → beyond = []) :
    parsedInBound (first ++ beyond) first.length = .error f := by
  have agrees := follows_withbound [] first beyond size
  rw [failed] at agrees
  have ran := agrees atEnd
  rw [List.nil_append] at ran
  unfold parsedInBound
  change (deserializeLogentryInBound (first ++ beyond) ⟨([] : Slice).length, first.length⟩).map _ = _
  rw [ran]
  rfl

/-- The parser keeps to the bytes `first` that it is given, whatever lies behind them in memory. -/
structure RespectsBound (first : Slice) : Prop where
  inside : ∀ beyond, parsedInBound (first ++ beyond) first.length = .error .refused ∨
    ∃ e pos, parsedInBound (first ++ beyond) first.length = .ok (e, pos) ∧ pos ≤ first.length
  determined : ∀ beyond beyond', parsedInBound (first ++ beyond) first.length = parsedInBound (first ++ beyond') first.length
  prefixes : ∀ (m : EntryMemory) (e : LogEntry) (more : Slice), e.Sized → more ≠ [] → first ++ more = serializeLogentry m e →
    ∀ beyond, parsedInBound (first ++ beyond) first.length = .error .refused

/-- Where the bytes get as far as a count, all four bytes of it are there, and neither slice is announced with a size
at which `size + 8` wraps around. -/
structure CountsInside (first : Slice) : Prop where
  fragments : ∀ rest, BeginsWithSlices first rest → 4 ≤ rest.length
  placements : ∀ rest, BeginsWithFragments first rest → 4 ≤ rest.length
  slices : ¬ AnnouncesTooMuch first

theorem countsInside_iff (size : first.length < 2 ^ 64) : CountsInside first ↔
    deserializeLogentryWithbound.run first = .error .refused ∨ ∃ e rest, deserializeLogentryWithbound.run first = .ok (e, rest) := by
  constructor
  · intro counts
    cases outcome : deserializeLogentryWithbound.run first with
    | ok result => exact Or.inr ⟨result.1, result.2, rfl⟩
    | error f =>
      rcases withbound_error outcome with rfl | ⟨-, announces⟩ | ⟨-, rest, begins, cut⟩
      · exact Or.inl rfl
      · exact absurd announces counts.slices
      · rcases begins with slices | fragments
        · exact absurd (counts.fragments rest slices) (Nat.not_le.mpr cut)
        · exact absurd (counts.placements rest fragments) (Nat.not_le.mpr cut)
  · intro fine
    have noFault {f : ParseFault} (failed : deserializeLogentryWithbound.run first = .error f) : f = .refused := by
      rcases fine with refused | ⟨e, rest, ok⟩
      · cases failed.symm.trans refused
        rfl
      · cases failed.symm.trans ok
    refine ⟨fun rest begins => ?_, fun rest begins => ?_, fun announces => ?_⟩
    · by_contra cut
      cases noFault (overrun_of_slices begins (Nat.lt_of_not_le cut))
    · by_contra cut
      cases noFault (overrun_of_fragments begins (Nat.lt_of_not_le cut))
    · cases noFault (unallocated_of_announces announces size)

end Bound

/-- An entry without a command, as its 216 bytes. -/
def bareEntry : Slice := serializeLogentry ⟨0, 0, 0, 0, 0, 0⟩ { term := 1, index := 1 }

end Serializer

end FlexRaft
