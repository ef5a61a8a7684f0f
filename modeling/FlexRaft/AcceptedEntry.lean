import FlexRaft.ParserBound

namespace FlexRaft

namespace Serializer

open ByteReader

/-- A receiver makes `e'` of the entry `e`. -/
def Accepts (e e' : LogEntry) : Prop :=
  ∃ m, deserializeLogentryWithbound.run (serializeLogentry m e) = .ok (e', [])

section Head

variable {m : EntryMemory} {e : LogEntry}

theorem reads_wrapped {fault : ParseFault} (n : Nat) : Reads (number fault 4) (encodeFixed32 n) (n % UInt32.size) := by
  have same : encodeFixed32 (n % UInt32.size) = encodeFixed32 n := LittleEndian.encode_mod 4 n
  rw [← same]
  exact reads32 (Nat.mod_lt n (by decide))

theorem reads_head (words : e.chunkInfo.Words) : ∃ scalars : LogEntry,
    Reads readHead (scalarImage e ++ memoryImage m e) scalars ∧ scalars.type = e.type ∧ scalars.chunkInfo = e.chunkInfo := by
  have head : (scalarImage e).length + (memoryImage m e).length = headSize := length_head
  have first : (scalarImage e).length = 48 := by
    simp only [scalarImage, serializeChunkInfo, List.length_append, length_encodeFixed32]
  have size : (memoryImage m e).length = 144 := by
    unfold headSize at head
    omega
  obtain ⟨refers, memory⟩ := fixed_readMemoryImage (memoryImage m e) size
  have type : e.type.word < UInt32.size := by cases e.type <;> decide
  have scalars : Reads readScalars (scalarImage e)
      { term := e.term % UInt32.size, index := e.index % UInt32.size, type := .ofWord e.type.word, chunkInfo := e.chunkInfo,
        startOffset := e.startOffset % UInt32.size, commandSize := e.commandSize % UInt32.size } := by
    simp only [scalarImage, List.append_assoc]
    exact (reads_wrapped e.term).bind ((reads_wrapped e.index).bind ((reads32 type).bind ((reads_chunkInfo words).bind
      ((reads_wrapped e.startOffset).bind (reads_wrapped e.commandSize).last))))
  exact ⟨_, scalars.bind memory.last, EntryType.ofWord_word e.type, rfl⟩

end Head

section Accepted

variable {e e' : LogEntry}

theorem Accepts.finished (accepts : Accepts e e') (words : e.chunkInfo.Words) (sized : e.Sized) :
    ∃ scalars frags placement, e' = finishEntry scalars e.notEncodedSlice e.fragmentSlice frags placement ∧
      scalars.type = e.type ∧ scalars.chunkInfo = e.chunkInfo := by
  obtain ⟨m, done⟩ := accepts
  obtain ⟨scalars, reads, type, chunkInfo⟩ := reads_head (m := m) words
  have head : (scalarImage e ++ memoryImage m e).length = headSize := List.length_append.trans length_head
  have checked : Reads (need .refused headSize >>= fun _ => readHead) (scalarImage e ++ memoryImage m e) scalars :=
    Reads.need head.ge reads
  have bytes : serializeLogentry m e = (scalarImage e ++ memoryImage m e) ++ (putPrefixLengthSlice e.notEncodedSlice ++
      (putPrefixLengthSlice e.fragmentSlice ++ (encodeFixed32 e.fragments.length ++ ((numberedFragments e).flatMap fragmentBytes ++
        (encodeFixed32 e.placement.length ++ e.placement.flatMap placementBytes))))) := by
    simp only [serializeLogentry, List.append_assoc]
  rw [bytes, withbound_eq, checked.run_bind, readBody, (reads_slice_bounded sized.notEncoded).run_bind,
    (reads_slice_bounded sized.fragment).run_bind] at done
  obtain ⟨fragCount, mid, -, done⟩ := run_bind_ok.mp done
  obtain ⟨frags, mid', -, done⟩ := run_bind_ok.mp done
  obtain ⟨placementCount, mid'', -, done⟩ := run_bind_ok.mp done
  obtain ⟨placement, mid''', -, done⟩ := run_bind_ok.mp done
  cases done
  exact ⟨scalars, frags, placement, rfl, type, chunkInfo⟩

theorem Accepts.extractApplyMeta_eq (accepts : Accepts e e') (words : e.chunkInfo.Words) (sized : e.Sized) :
    extractApplyMeta e' = extractApplyMeta e := by
  obtain ⟨scalars, frags, placement, rfl, type, chunkInfo⟩ := accepts.finished words sized
  cases kind : e.type with
  | kNormal =>
    rw [kind] at type
    have finished : finishEntry scalars e.notEncodedSlice e.fragmentSlice frags placement =
        { (finishEntry scalars e.notEncodedSlice e.fragmentSlice frags placement) with
          type := .kNormal, chunkInfo := e.chunkInfo, commandDataField := e.notEncodedSlice } := by
      rw [← type, ← chunkInfo]
      unfold finishEntry
      simp only [LogEntry.setNotEncodedSlice, LogEntry.setFragmentSlice, LogEntry.setCommandData, LogEntry.setFragments,
        LogEntry.setFragIds, LogEntry.setPlacement, type, if_true]
    have command : e.notEncodedSlice = e.commandData := by rw [LogEntry.notEncodedSlice, if_pos kind]
    rw [finished]
    simp only [extractApplyMeta, LogEntry.commandData, LogEntry.isLrcEncoded, kind, command, if_true, reduceCtorEq, if_false]
  | kFragments =>
    rw [kind] at type
    have finished : finishEntry scalars e.notEncodedSlice e.fragmentSlice frags placement =
        { (finishEntry scalars e.notEncodedSlice e.fragmentSlice frags placement) with
          type := .kFragments, notEncodedField := e.notEncodedSlice, fragmentField := e.fragmentSlice } := by
      rw [← type]
      unfold finishEntry
      simp only [LogEntry.setNotEncodedSlice, LogEntry.setFragmentSlice, LogEntry.setFragments,
        LogEntry.setFragIds, LogEntry.setPlacement, type, reduceCtorEq, if_false]
    rw [finished]
    simp only [extractApplyMeta, LogEntry.fragmentSlice, LogEntry.notEncodedSlice, kind, if_true, reduceCtorEq, if_false]

/-- An entry is taken exactly if none of its fragments is above 16 MiB. -/
theorem exists_accepts_iff (sized : e.Sized) : (∃ e', Accepts e e') ↔ ∀ frag ∈ e.fragments, frag.length ≤ 16 * 1024 * 1024 := by
  constructor
  · rintro ⟨e', m, done⟩
    rcases serialized_run (m := m) sized with ⟨-, refused⟩ | ⟨small, -⟩
    · cases done.symm.trans refused
    · exact small
  · intro small
    rcases serialized_run (m := ⟨0, 0, 0, 0, 0, 0⟩) sized with ⟨⟨frag, member, large⟩, -⟩ | ⟨-, e', done⟩
    · exact absurd (small frag member) (Nat.not_le.mpr large)
    · exact ⟨e', _, done⟩

end Accepted

end Serializer

end FlexRaft
