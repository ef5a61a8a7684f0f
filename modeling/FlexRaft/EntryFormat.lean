import FlexRaft.BoundedParse

namespace FlexRaft

namespace Serializer

open ByteReader

/-- In front of `rest` stand an object and two slices. -/
def BeginsWithSlices (src rest : Slice) : Prop :=
  ∃ head notEncoded frag : Slice, head.length = headSize ∧ notEncoded.length < 2 ^ 64 ∧ frag.length < 2 ^ 64 ∧
    src = head ++ (putPrefixLengthSlice notEncoded ++ (putPrefixLengthSlice frag ++ rest))

/-- Then the number of fragments and so many fragments, each with an id and of 16 MiB at most. -/
def BeginsWithFragments (src rest : Slice) : Prop :=
  ∃ frags : List (Nat × Slice), frags.length < UInt32.size ∧
    (∀ frag ∈ frags, frag.1 < UInt32.size ∧ frag.2.length ≤ 16 * 1024 * 1024) ∧
    BeginsWithSlices src (encodeFixed32 frags.length ++ (frags.flatMap fragmentBytes ++ rest))

/-- Then the number of placements and so many placements of 16 bytes. -/
def BeginsWithEntry (src rest : Slice) : Prop :=
  ∃ placements : List Slice, placements.length < UInt32.size ∧ (∀ placement ∈ placements, placement.length = 16) ∧
    BeginsWithFragments src (encodeFixed32 placements.length ++ (placements.flatten ++ rest))

/-- One of the two slices is announced with a size of `2 ^ 64 - 8` bytes or more. -/
def AnnouncesTooMuch (src : Slice) : Prop :=
  ∃ (head : Slice) (n : Nat) (rest : Slice), head.length = headSize ∧ n < 2 ^ 64 ∧ 2 ^ 64 ≤ n + 8 ∧
    (src = head ++ (encodeFixed64 n ++ rest) ∨
      ∃ notEncoded : Slice, notEncoded.length < 2 ^ 64 ∧
        src = head ++ (putPrefixLengthSlice notEncoded ++ (encodeFixed64 n ++ rest)))

section Append

variable {src rest : Slice}

theorem BeginsWithSlices.append (begins : BeginsWithSlices src rest) (more : Slice) :
    BeginsWithSlices (src ++ more) (rest ++ more) := by
  obtain ⟨head, notEncoded, frag, size, first, second, rfl⟩ := begins
  exact ⟨head, notEncoded, frag, size, first, second, by simp only [List.append_assoc]⟩

theorem BeginsWithFragments.append (begins : BeginsWithFragments src rest) (more : Slice) :
    BeginsWithFragments (src ++ more) (rest ++ more) := by
  obtain ⟨frags, count, each, slices⟩ := begins
  have longer := slices.append more
  simp only [List.append_assoc] at longer
  exact ⟨frags, count, each, longer⟩

theorem BeginsWithEntry.append (begins : BeginsWithEntry src rest) (more : Slice) :
    BeginsWithEntry (src ++ more) (rest ++ more) := by
  obtain ⟨placements, count, each, fragments⟩ := begins
  have longer := fragments.append more
  simp only [List.append_assoc] at longer
  exact ⟨placements, count, each, longer⟩

theorem BeginsWithEntry.length_le (begins : BeginsWithEntry src rest) : rest.length ≤ src.length := by
  obtain ⟨placements, -, -, frags, -, -, head, notEncoded, frag, -, -, -, rfl⟩ := begins
  simp only [List.length_append]
  omega

end Append

section Parts

variable {src rest : Slice} {count : Nat}

theorem slice_ok {slice : Slice} : parsePrefixLengthSliceWithBound.run src = .ok (slice, rest) ↔
    src = putPrefixLengthSlice slice ++ rest ∧ slice.length < 2 ^ 64 := by
  unfold parsePrefixLengthSliceWithBound putPrefixLengthSlice
  constructor
  · intro done
    obtain ⟨n, mid, size, block⟩ := run_bind_ok.mp done
    obtain ⟨rfl, bound⟩ := number_ok.mp size
    obtain ⟨rfl, rfl⟩ := block_ok.mp block
    rw [List.append_assoc]
    exact ⟨rfl, bound⟩
  · rintro ⟨rfl, bound⟩
    exact reads_slice_bounded bound rest

theorem slice_error {f : ParseFault} (failed : parsePrefixLengthSliceWithBound.run src = .error f) :
    f = .refused ∨ f = .unallocated ∧ ∃ n rest, n < 2 ^ 64 ∧ 2 ^ 64 ≤ n + 8 ∧ src = encodeFixed64 n ++ rest := by
  unfold parsePrefixLengthSliceWithBound at failed
  rcases run_bind_error.mp failed with here | ⟨n, mid, size, block⟩
  · exact Or.inl (number_error.mp here).2
  · obtain ⟨rfl, bound⟩ := number_ok.mp size
    obtain ⟨-, which⟩ := block_error.mp block
    split at which
    · exact Or.inl which
    · rename_i wraps
      exact Or.inr ⟨which, n, mid, bound, Nat.le_of_not_lt wraps, rfl⟩

theorem slice_unallocated {n : Nat} (bound : n < 2 ^ 64) (wraps : 2 ^ 64 ≤ n + 8) (size : rest.length + 8 < 2 ^ 64) :
    parsePrefixLengthSliceWithBound.run (encodeFixed64 n ++ rest) = .error .unallocated := by
  refine run_bind_error.mpr (Or.inr ⟨n, rest, number_ok.mpr ⟨rfl, bound⟩, block_error.mpr ⟨by omega, ?_⟩⟩)
  rw [if_neg (Nat.not_lt.mpr wraps)]

theorem fragment_ok {frag : Nat × Slice} (done : (readFragment .refused).run src = .ok (frag, rest)) :
    src = fragmentBytes frag ++ rest ∧ frag.1 < UInt32.size ∧ frag.2.length ≤ 16 * 1024 * 1024 := by
  unfold readFragment at done
  obtain ⟨id, mid, idRead, done⟩ := run_bind_ok.mp done
  obtain ⟨n, mid', sizeRead, done⟩ := run_bind_ok.mp done
  obtain ⟨⟨⟩, mid'', small, done⟩ := run_bind_ok.mp done
  obtain ⟨data, mid''', block, finish⟩ := run_bind_ok.mp done
  cases finish
  obtain ⟨rfl, idBound⟩ := number_ok.mp idRead
  obtain ⟨rfl, -⟩ := number_ok.mp sizeRead
  obtain ⟨notLarge, rfl⟩ := refuseIf_ok.mp small
  obtain ⟨rfl, rfl⟩ := block_ok.mp block
  refine ⟨?_, idBound, Nat.le_of_not_lt (of_decide_eq_false notLarge)⟩
  simp only [fragmentBytes, putPrefixLengthSlice, List.append_assoc]
  rfl

theorem onlyFails_fragment : OnlyFails .refused (readFragment .refused) :=
  (OnlyFails.number 4).bind fun _ => (OnlyFails.number 8).bind fun _ => (OnlyFails.refuseIf _).bind fun _ =>
    (OnlyFails.block _).bind fun _ => OnlyFails.pure _

theorem fixed_readPlacement : Fixed 16 readPlacement := by
  have four : Fixed 4 (number ParseFault.overrun 4) := Fixed.number 4
  exact four.bind fun _ => four.bind fun _ => four.bind fun _ => four.bind fun _ => Fixed.pure _

theorem fragments_ok {frags : List (Nat × Slice)}
    (done : (times (readFragment .refused) count).run src = .ok (frags, rest)) :
    src = frags.flatMap fragmentBytes ++ rest ∧ frags.length = count ∧
      ∀ frag ∈ frags, frag.1 < UInt32.size ∧ frag.2.length ≤ 16 * 1024 * 1024 := by
  obtain ⟨items, rfl, number, each⟩ := times_ok
    (P := fun frag bytes => bytes = fragmentBytes frag ∧ frag.1 < UInt32.size ∧ frag.2.length ≤ 16 * 1024 * 1024)
    (fun src frag rest here => ⟨fragmentBytes frag, (fragment_ok here).1, rfl, (fragment_ok here).2⟩) done
  have same : items = frags.map fragmentBytes := by
    clear number done
    induction each with
    | nil => rfl
    | cons here _ ih => rw [here.1, ih, List.map_cons]
  refine ⟨?_, number, ?_⟩
  · rw [same, List.flatMap_def]
  · intro frag member
    obtain ⟨i, bound, rfl⟩ := List.getElem_of_mem member
    exact (each.get bound (each.length_eq ▸ bound)).2

theorem placements_ok {placement : List FragmentPlacement}
    (done : (times (need .refused 16 >>= fun _ => readPlacement) count).run src = .ok (placement, rest)) :
    ∃ items : List Slice, src = items.flatten ++ rest ∧ items.length = count ∧ ∀ item ∈ items, item.length = 16 := by
  obtain ⟨items, rfl, number, each⟩ := times_ok (P := fun _ bytes => bytes.length = 16)
    (fun src fp rest here => fixed_readPlacement.splits here) done
  refine ⟨items, rfl, each.length_eq.symm.trans number, ?_⟩
  intro item member
  obtain ⟨i, bound, rfl⟩ := List.getElem_of_mem member
  exact each.get (each.length_eq ▸ bound) bound

end Parts

section Stages

variable {src rest : Slice}

theorem BeginsWithSlices.run (begins : BeginsWithSlices src rest) : ∃ scalars notEncoded frag,
    deserializeLogentryWithbound.run src = (readLists scalars notEncoded frag).run rest := by
  obtain ⟨head, notEncoded, frag, size, first, second, rfl⟩ := begins
  obtain ⟨scalars, reads⟩ := fixed_readHead head size
  refine ⟨scalars, notEncoded, frag, ?_⟩
  have checked : Reads (need .refused headSize >>= fun _ => readHead) head scalars := Reads.need size.ge reads
  rw [withbound_eq, checked.run_bind, readBody, (reads_slice_bounded first).run_bind, (reads_slice_bounded second).run_bind]

theorem BeginsWithFragments.run (begins : BeginsWithFragments src rest) : ∃ scalars notEncoded frag frags,
    deserializeLogentryWithbound.run src = (readPlacements scalars notEncoded frag frags).run rest := by
  obtain ⟨frags, count, each, slices⟩ := begins
  obtain ⟨scalars, notEncoded, frag, same⟩ := slices.run
  refine ⟨scalars, notEncoded, frag, frags, ?_⟩
  have reads : Reads (times (readFragment .refused) frags.length) (frags.flatMap fragmentBytes) (frags.map id) :=
    Reads.times fun frag member => reads_fragment (each frag member).1 (each frag member).2
  rw [List.map_id] at reads
  rw [same, readLists, (reads32 count).run_bind, reads.run_bind]

theorem BeginsWithEntry.run (begins : BeginsWithEntry src rest) : ∃ e, deserializeLogentryWithbound.run src = .ok (e, rest) := by
  obtain ⟨placements, count, each, fragments⟩ := begins
  obtain ⟨scalars, notEncoded, frag, frags, same⟩ := fragments.run
  have readable : ∀ item ∈ placements, ∃ fp, Reads (need ParseFault.refused 16 >>= fun _ => readPlacement) item fp := by
    intro item member
    obtain ⟨fp, here⟩ := fixed_readPlacement item (each item member)
    exact ⟨fp, Reads.need (each item member).ge here⟩
  obtain ⟨placement, reads⟩ := Reads.blocks readable
  refine ⟨finishEntry scalars notEncoded frag frags placement, ?_⟩
  rw [same, readPlacements, (reads32 count).run_bind, reads.run_bind]
  rfl

theorem overrun_of_slices (begins : BeginsWithSlices src rest) (cut : rest.length < 4) :
    deserializeLogentryWithbound.run src = .error .overrun := by
  obtain ⟨scalars, notEncoded, frag, same⟩ := begins.run
  rw [same]
  exact run_bind_error.mpr (Or.inl (number_error.mpr ⟨cut, rfl⟩))

theorem overrun_of_fragments (begins : BeginsWithFragments src rest) (cut : rest.length < 4) :
    deserializeLogentryWithbound.run src = .error .overrun := by
  obtain ⟨scalars, notEncoded, frag, frags, same⟩ := begins.run
  rw [same]
  exact run_bind_error.mpr (Or.inl (number_error.mpr ⟨cut, rfl⟩))

theorem unallocated_of_announces (announces : AnnouncesTooMuch src) (size : src.length < 2 ^ 64) :
    deserializeLogentryWithbound.run src = .error .unallocated := by
  obtain ⟨head, n, rest, headLength, bound, wraps, rfl | ⟨notEncoded, first, rfl⟩⟩ := announces
  all_goals
    obtain ⟨scalars, reads⟩ := fixed_readHead head headLength
    have checked : Reads (need .refused headSize >>= fun _ => readHead) head scalars := Reads.need headLength.ge reads
    rw [withbound_eq, checked.run_bind, readBody]
  · rw [List.length_append, List.length_append, length_encodeFixed64] at size
    exact run_bind_error.mpr (Or.inl (slice_unallocated bound wraps (by omega)))
  · rw [List.length_append, List.length_append, List.length_append, length_encodeFixed64] at size
    rw [(reads_slice_bounded first).run_bind]
    exact run_bind_error.mpr (Or.inl (slice_unallocated bound wraps (by omega)))

theorem beginsWithEntry_of_ok {e : LogEntry} (done : deserializeLogentryWithbound.run src = .ok (e, rest)) :
    BeginsWithEntry src rest := by
  rw [withbound_eq] at done
  obtain ⟨scalars, mid, headRead, afterHead⟩ := run_bind_ok.mp done
  obtain ⟨head, rfl, headLength⟩ := fixed_readHead.splits headRead
  obtain ⟨notEncoded, mid, first, afterFirst⟩ := run_bind_ok.mp afterHead
  obtain ⟨rfl, firstLength⟩ := slice_ok.mp first
  obtain ⟨frag, mid, second, afterSecond⟩ := run_bind_ok.mp afterFirst
  obtain ⟨rfl, secondLength⟩ := slice_ok.mp second
  obtain ⟨fragCount, mid, counted, afterFragCount⟩ := run_bind_ok.mp afterSecond
  obtain ⟨rfl, fragBound⟩ := number_ok.mp counted
  obtain ⟨frags, mid, fragments, afterFragments⟩ := run_bind_ok.mp afterFragCount
  obtain ⟨rfl, rfl, eachFrag⟩ := fragments_ok fragments
  obtain ⟨placementCount, mid, counted', afterPlacementCount⟩ := run_bind_ok.mp afterFragments
  obtain ⟨rfl, placementBound⟩ := number_ok.mp counted'
  obtain ⟨placement, mid, placed, finish⟩ := run_bind_ok.mp afterPlacementCount
  cases finish
  obtain ⟨items, rfl, rfl, eachItem⟩ := placements_ok placed
  exact ⟨items, placementBound, eachItem, frags, fragBound, eachFrag, head, notEncoded, frag, headLength, firstLength,
    secondLength, rfl⟩

/-- Why an entry is not read: it is refused, a slice is announced that cannot be allocated, or one of the two counts is cut off. -/
theorem withbound_error {f : ParseFault} (failed : deserializeLogentryWithbound.run src = .error f) :
    f = .refused ∨ (f = .unallocated ∧ AnnouncesTooMuch src) ∨
      (f = .overrun ∧ ∃ rest, (BeginsWithSlices src rest ∨ BeginsWithFragments src rest) ∧ rest.length < 4) := by
  rw [withbound_eq] at failed
  rcases run_bind_error.mp failed with here | ⟨scalars, mid, headRead, afterHead⟩
  · exact Or.inl (fixed_readHead.onlyFails src f here)
  obtain ⟨head, rfl, headLength⟩ := fixed_readHead.splits headRead
  rcases run_bind_error.mp afterHead with here | ⟨notEncoded, mid, first, afterFirst⟩
  · rcases slice_error here with refused | ⟨throws, n, rest, bound, wraps, rfl⟩
    · exact Or.inl refused
    · exact Or.inr (Or.inl ⟨throws, head, n, rest, headLength, bound, wraps, Or.inl rfl⟩)
  obtain ⟨rfl, firstLength⟩ := slice_ok.mp first
  rcases run_bind_error.mp afterFirst with here | ⟨frag, mid, second, afterSecond⟩
  · rcases slice_error here with refused | ⟨throws, n, rest, bound, wraps, rfl⟩
    · exact Or.inl refused
    · exact Or.inr (Or.inl ⟨throws, head, n, rest, headLength, bound, wraps, Or.inr ⟨notEncoded, firstLength, rfl⟩⟩)
  obtain ⟨rfl, secondLength⟩ := slice_ok.mp second
  have slices (rest : Slice) : BeginsWithSlices
      (head ++ (putPrefixLengthSlice notEncoded ++ (putPrefixLengthSlice frag ++ rest))) rest :=
    ⟨head, notEncoded, frag, headLength, firstLength, secondLength, rfl⟩
  rcases run_bind_error.mp afterSecond with here | ⟨fragCount, mid, counted, afterFragCount⟩
  · obtain ⟨cut, overrun⟩ := number_error.mp here
    exact Or.inr (Or.inr ⟨overrun, _, Or.inl (slices _), cut⟩)
  obtain ⟨rfl, fragBound⟩ := number_ok.mp counted
  rcases run_bind_error.mp afterFragCount with here | ⟨frags, mid, fragments, afterFragments⟩
  · exact Or.inl (onlyFails_fragment.times fragCount _ f here)
  obtain ⟨rfl, rfl, eachFrag⟩ := fragments_ok fragments
  rcases run_bind_error.mp afterFragments with here | ⟨placementCount, mid, counted', afterPlacementCount⟩
  · obtain ⟨cut, overrun⟩ := number_error.mp here
    exact Or.inr (Or.inr ⟨overrun, _, Or.inr ⟨frags, fragBound, eachFrag, slices _⟩, cut⟩)
  rcases run_bind_error.mp afterPlacementCount with here | ⟨placement, mid, -, finish⟩
  · exact Or.inl (fixed_readPlacement.onlyFails.times placementCount _ f here)
  · cases finish

end Stages

end Serializer

end FlexRaft
