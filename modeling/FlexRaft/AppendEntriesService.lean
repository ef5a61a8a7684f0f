import FlexRaft.ParserBound

namespace FlexRaft

/-- What becomes of a buffer: the message is handed to `RaftState::Process`, `Deserialize` threw and the service answers
without it, or `Deserialize` ran behind the end of the buffer, after which nothing is known. -/
inductive Received
  | handed (args : AppendEntriesArgs)
  | rejected
  | undefined
  deriving DecidableEq, Repr

/-- What `RaftState::Process` asserts of a message. -/
def Received.Counted : Received → Prop
  | handed args => args.entryCnt = args.entries.length
  | rejected => True
  | undefined => False

namespace Serializer

open ByteReader

/-- `std::vector<LogEntry>::max_size`. Negative numbers of entries are above it, too. -/
def maxEntries : Nat := (2 ^ 63 - 1) / headSize

def kAppendEntriesArgsHdrSize : Nat := 40

/-- `RaftUnifiedRPCService::AppendEntries` up to the call of `Process`. `stack` is what the uninitialised message
holds, and `reserved` tells whether there is memory for the announced number of entries. -/
def receiveAppendEntries (stack : AppendEntriesArgs) (reserved : Bool) (buffer : Slice) : Received :=
  -- `Deserialize` returns without a word
  if buffer.length < kAppendEntriesArgsHdrSize then .handed { stack with groupId := 0, entries := [] }
  else match readAppendEntriesHeader.run buffer with
    | .error _ => .undefined
    | .ok (args, src) =>
      if maxEntries < args.entryCnt ∨ reserved = false then .rejected
      else match readEntries args.entryCnt src with
        | .ok entries => .handed { args with entries := entries }
        | .error .overrun => .undefined
        | .error _ => .rejected

/-- The field `entry_cnt`. -/
def announcedEntries (buffer : Slice) : Nat := decodeFixed64 (buffer.drop 32)

/-- So many entries stand one after the other in front of `rest`. -/
inductive BeginsWithEntries : Nat → Slice → Slice → Prop
  | none (src : Slice) : BeginsWithEntries 0 src src
  | next {n : Nat} {src mid rest : Slice} (first : BeginsWithEntry src mid) (later : BeginsWithEntries n mid rest) :
      BeginsWithEntries (n + 1) src rest

/-- There is a whole header, and behind it all entries that it announces, unless the number or a slice is so large that
`Deserialize` throws. -/
structure Complete (buffer : Slice) : Prop where
  header : kAppendEntriesArgsHdrSize ≤ buffer.length
  entries : maxEntries < announcedEntries buffer ∨
    (∃ rest, BeginsWithEntries (announcedEntries buffer) (buffer.drop kAppendEntriesArgsHdrSize) rest) ∨
    ∃ n rest, n < announcedEntries buffer ∧ BeginsWithEntries n (buffer.drop kAppendEntriesArgsHdrSize) rest ∧ AnnouncesTooMuch rest

section Entries

variable {count : Nat} {src rest : Slice} {f : ParseFault}

theorem readEntries_accepted {e : LogEntry} (accepted : deserializeLogentryWithbound.run src = .ok (e, rest)) :
    readEntries (count + 1) src = (readEntries count rest).map (e :: ·) := by
  rw [readEntries, accepted]

theorem readEntries_refused (refused : deserializeLogentryWithbound.run src = .error .refused) :
    readEntries (count + 1) src = .ok [] := by
  rw [readEntries, refused]

theorem readEntries_failed (failed : deserializeLogentryWithbound.run src = .error f) (other : f ≠ .refused) :
    readEntries (count + 1) src = .error f := by
  cases f with
  | refused => exact absurd rfl other
  | overrun => rw [readEntries, failed]
  | corrupted => rw [readEntries, failed]
  | unallocated => rw [readEntries, failed]

theorem BeginsWithEntries.read (begins : BeginsWithEntries count src rest) :
    ∃ entries, readEntries count src = .ok entries ∧ entries.length = count := by
  induction begins with
  | none src => exact ⟨[], rfl, rfl⟩
  | next first later ih =>
    obtain ⟨entries, read, number⟩ := ih
    obtain ⟨e, accepted⟩ := first.run
    refine ⟨e :: entries, ?_, congrArg (· + 1) number⟩
    rw [readEntries_accepted accepted, read]
    rfl

theorem beginsWithEntries_of_read {entries : List LogEntry} (read : readEntries count src = .ok entries)
    (number : entries.length = count) : ∃ rest, BeginsWithEntries count src rest := by
  induction count generalizing src entries with
  | zero => exact ⟨src, .none src⟩
  | succ count ih =>
    cases outcome : deserializeLogentryWithbound.run src with
    | ok result =>
      obtain ⟨e, mid⟩ := result
      rw [readEntries_accepted outcome] at read
      cases tail : readEntries count mid with
      | error f =>
        rw [tail] at read
        cases read
      | ok later =>
        rw [tail] at read
        cases read
        obtain ⟨rest, begins⟩ := ih tail (Nat.succ.inj number)
        exact ⟨rest, .next (beginsWithEntry_of_ok outcome) begins⟩
    | error f =>
      by_cases refused : f = .refused
      · rw [readEntries_refused (refused ▸ outcome)] at read
        cases read
        cases number
      · rw [readEntries_failed outcome refused] at read
        cases read

/-- `Deserialize` throws at a slice that cannot be allocated. -/
theorem BeginsWithEntries.throws {n : Nat} (begins : BeginsWithEntries n src rest) (announces : AnnouncesTooMuch rest)
    (size : src.length < 2 ^ 64) (below : n < count) : readEntries count src = .error .unallocated := by
  induction begins generalizing count with
  | none src =>
    obtain ⟨more, rfl⟩ := Nat.exists_eq_succ_of_ne_zero (Nat.ne_of_gt below)
    exact readEntries_failed (unallocated_of_announces announces size) (by decide)
  | @next n src mid rest first later ih =>
    obtain ⟨more, rfl⟩ := Nat.exists_eq_succ_of_ne_zero (Nat.ne_zero_of_lt below)
    obtain ⟨e, accepted⟩ := first.run
    have shorter : mid.length < 2 ^ 64 := (first.length_le).trans_lt size
    rw [readEntries_accepted accepted, ih announces shorter (Nat.lt_of_succ_lt_succ below)]
    rfl

theorem readEntries_error (failed : readEntries count src = .error f) (other : f ≠ .overrun) :
    ∃ n rest, n < count ∧ BeginsWithEntries n src rest ∧ AnnouncesTooMuch rest := by
  induction count generalizing src with
  | zero => cases failed
  | succ count ih =>
    cases outcome : deserializeLogentryWithbound.run src with
    | ok result =>
      obtain ⟨e, mid⟩ := result
      rw [readEntries_accepted outcome] at failed
      cases tail : readEntries count mid with
      | error g =>
        rw [tail] at failed
        cases failed
        obtain ⟨n, rest, below, begins, announces⟩ := ih tail
        exact ⟨n + 1, rest, Nat.succ_lt_succ below, .next (beginsWithEntry_of_ok outcome) begins, announces⟩
      | ok later =>
        rw [tail] at failed
        cases failed
    | error g =>
      by_cases refused : g = .refused
      · rw [readEntries_refused (refused ▸ outcome)] at failed
        cases failed
      · rw [readEntries_failed outcome refused] at failed
        cases failed
        rcases withbound_error outcome with bad | ⟨-, announces⟩ | ⟨bad, -⟩
        · exact absurd bad refused
        · exact ⟨0, src, Nat.succ_pos count, .none src, announces⟩
        · exact absurd bad other

end Entries

theorem header_run {buffer : Slice} (enough : kAppendEntriesArgsHdrSize ≤ buffer.length) :
    ∃ args, readAppendEntriesHeader.run buffer = .ok (args, buffer.drop kAppendEntriesArgsHdrSize) ∧
      args.entryCnt = announcedEntries buffer := by
  unfold kAppendEntriesArgsHdrSize at enough ⊢
  unfold readAppendEntriesHeader
  simp (disch := grind) only [number_bind_run, List.drop_drop]
  exact ⟨_, rfl, rfl⟩

/-- The message has as many entries as it says exactly for complete buffers. -/
theorem received_counted_iff_complete (buffer : Slice) (size : buffer.length < 2 ^ 64) :
    (∀ stack reserved, (receiveAppendEntries stack reserved buffer).Counted) ↔ Complete buffer := by
  constructor
  · intro counted
    have header : kAppendEntriesArgsHdrSize ≤ buffer.length := by
      by_contra short
      have garbage := counted ⟨0, 0, 0, 0, 0, 0, 0, 1, []⟩ true
      rw [receiveAppendEntries, if_pos (Nat.lt_of_not_le short)] at garbage
      cases garbage
    obtain ⟨args, read, announced⟩ := header_run header
    refine ⟨header, ?_⟩
    by_cases large : maxEntries < announcedEntries buffer
    · exact Or.inl large
    · have here := counted args true
      rw [receiveAppendEntries, if_neg (Nat.not_lt.mpr header), read] at here
      dsimp only at here
      rw [announced, if_neg (by simpa using large)] at here
      right
      cases outcome : readEntries (announcedEntries buffer) (buffer.drop kAppendEntriesArgsHdrSize) with
      | ok entries =>
        rw [outcome] at here
        exact Or.inl (beginsWithEntries_of_read outcome here.symm)
      | error f =>
        rw [outcome] at here
        refine Or.inr (readEntries_error outcome ?_)
        rintro rfl
        exact here
  · rintro ⟨header, entries⟩ stack reserved
    obtain ⟨args, read, announced⟩ := header_run header
    rw [receiveAppendEntries, if_neg (Nat.not_lt.mpr header), read]
    dsimp only
    rw [announced]
    split
    · trivial
    · rename_i proceeds
      rcases entries with large | ⟨rest, begins⟩ | ⟨n, rest, below, begins, announces⟩
      · exact absurd (Or.inl large) proceeds
      · obtain ⟨entries, done, number⟩ := begins.read
        rw [done]
        exact number.symm
      · have shorter : (buffer.drop kAppendEntriesArgsHdrSize).length < 2 ^ 64 := by
          rw [List.length_drop]
          omega
        rw [begins.throws announces shorter below]
        trivial

/-- A header that announces one entry. -/
def oneEntryHeader : Slice := appendEntriesHeader ⟨1, 0, 0, 0, 0, 0, 0, 1, []⟩

def oneEntryMessage : Slice := oneEntryHeader ++ bareEntry

theorem received_counted_iff_complete_bareEntry :
    oneEntryMessage.length = 256 ∧ ∀ stack reserved, (receiveAppendEntries stack reserved oneEntryMessage).Counted := by
  have length : oneEntryMessage.length = 256 := by decide +kernel
  refine ⟨length, ?_⟩
  rw [received_counted_iff_complete oneEntryMessage (length.trans_lt (by decide))]
  have announced : announcedEntries oneEntryMessage = 1 := by decide +kernel
  have behind : oneEntryMessage.drop kAppendEntriesArgsHdrSize = bareEntry := by decide +kernel
  have alone : deserializeLogentryWithbound.run bareEntry = .ok (received { term := 1, index := 1 }, []) := by decide +kernel
  refine ⟨by decide +kernel, Or.inr (Or.inl ⟨[], ?_⟩)⟩
  rw [announced, behind]
  exact .next (beginsWithEntry_of_ok alone) (.none [])

/-- The header alone is handed on with an entry too few, and an empty buffer with whatever the stack holds. -/
theorem header_alone_handed :
    (receiveAppendEntries ⟨0, 0, 0, 0, 0, 0, 0, 0, []⟩ true oneEntryHeader = .handed ⟨1, 0, 0, 0, 0, 0, 0, 1, []⟩ ∧
      ¬ (receiveAppendEntries ⟨0, 0, 0, 0, 0, 0, 0, 0, []⟩ true oneEntryHeader).Counted) ∧
    receiveAppendEntries ⟨7, 7, 7, 7, 7, 7, 7, 7, []⟩ true [] = .handed ⟨7, 0, 7, 7, 7, 7, 7, 7, []⟩ ∧
      ¬ (receiveAppendEntries ⟨7, 7, 7, 7, 7, 7, 7, 7, []⟩ true []).Counted := by
  have alone : receiveAppendEntries ⟨0, 0, 0, 0, 0, 0, 0, 0, []⟩ true oneEntryHeader = .handed ⟨1, 0, 0, 0, 0, 0, 0, 1, []⟩ := by
    decide +kernel
  have empty : receiveAppendEntries ⟨7, 7, 7, 7, 7, 7, 7, 7, []⟩ true [] = .handed ⟨7, 0, 7, 7, 7, 7, 7, 7, []⟩ := rfl
  refine ⟨⟨alone, ?_⟩, empty, ?_⟩
  · rw [alone]
    exact Nat.one_ne_zero
  · rw [empty]
    exact Nat.succ_ne_zero 6

end Serializer

end FlexRaft
