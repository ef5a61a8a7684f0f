import FlexRaft.Lib.ByteReader

/-- Where a reader stands in memory, and how many bytes it takes to be left. The number is a counter of 64 bits. -/
structure Cursor where
  pos : Nat
  left : Nat
  deriving DecidableEq, Repr

/-- A reader that keeps count of the bytes up to its bound, in a memory that may reach beyond it. -/
abbrev BoundedReader (ε α : Type) := ReaderT (List UInt8) (StateT Cursor (Except ε)) α

namespace BoundedReader

variable {ε α β : Type}

/-- The next `count` bytes, whether the bound allows for them or not. The counter wraps around. -/
def take (overrun : ε) (count : Nat) : BoundedReader ε (List UInt8) := fun mem c =>
  if mem.length < c.pos + count then .error overrun
  else .ok ((mem.drop c.pos).take count, { pos := c.pos + count, left := (2 ^ 64 + c.left - count) % 2 ^ 64 })

def number (overrun : ε) (width : Nat) : BoundedReader ε Nat := LittleEndian.decode <$> take overrun width

/-- A check that so many bytes are left. -/
def check (fault : ε) (count : Nat) : BoundedReader ε Unit := fun _ c =>
  if c.left < count then .error fault else .ok ((), c)

/-- The counter. -/
def left : BoundedReader ε Nat := fun _ c => .ok (c.left, c)

def refuseIf (fault : ε) (condition : Bool) : BoundedReader ε Unit := if condition then throw fault else pure ()

/-- The outcome of a reader that ran elsewhere. -/
def ofOutcome : Except ε (α × List UInt8) → BoundedReader ε α
  | .ok (value, _) => pure value
  | .error fault => throw fault

/-- The next `count` bytes as a plain reader sees them. -/
def within (overrun : ε) (count : Nat) (plain : ByteReader ε α) : BoundedReader ε α :=
  take overrun count >>= fun bytes => ofOutcome (plain.run bytes)

def times (read : BoundedReader ε α) : Nat → BoundedReader ε (List α)
  | 0 => pure []
  | count + 1 => do
    let value ← read
    let values ← times read count
    pure (value :: values)

/-- The outcome of a bounded reader is that of a plain one on the bytes `src` within the bound. Where the plain one
runs behind their end, this is asked for only if the memory ends there too. -/
def Agrees (overrun : ε) (before src beyond : List UInt8) (ran : Except ε (α × Cursor)) : Except ε (α × List UInt8) → Prop
  | .ok (value, rest) => ∃ used, src = used ++ rest ∧ ran = .ok (value, ⟨before.length + used.length, rest.length⟩)
  | .error fault => (fault = overrun → beyond = []) → ran = .error fault

/-- Whatever lies before and behind them, `read` does with the bytes within its bound what `plain` does with these
bytes alone. -/
def Follows (overrun : ε) (read : BoundedReader ε α) (plain : ByteReader ε α) : Prop :=
  ∀ before src beyond : List UInt8, src.length < 2 ^ 64 →
    Agrees overrun before src beyond (read (before ++ src ++ beyond) ⟨before.length, src.length⟩) (plain.run src)

namespace Follows

variable {overrun : ε} {read : BoundedReader ε α} {plain : ByteReader ε α} {count : Nat}

theorem pure (value : α) : Follows overrun (Pure.pure value) (Pure.pure value : ByteReader ε α) :=
  fun _ _ _ _ => ⟨[], rfl, rfl⟩

theorem bind {next : α → BoundedReader ε β} {plainNext : α → ByteReader ε β} (first : Follows overrun read plain)
    (second : ∀ value, Follows overrun (next value) (plainNext value)) :
    Follows overrun (read >>= next) (plain >>= plainNext) := by
  intro before src beyond size
  have here := first before src beyond size
  have composed : (read >>= next) (before ++ src ++ beyond) ⟨before.length, src.length⟩ =
      (read (before ++ src ++ beyond) ⟨before.length, src.length⟩ >>= fun p => next p.1 (before ++ src ++ beyond) p.2) := rfl
  have plainly : (plain >>= plainNext).run src = (plain.run src >>= fun p => (plainNext p.1).run p.2) := rfl
  rw [composed, plainly]
  cases outcome : plain.run src with
  | error fault =>
    rw [outcome] at here
    intro atEnd
    rw [here atEnd]
    rfl
  | ok p =>
    rw [outcome] at here
    obtain ⟨value, rest⟩ := p
    obtain ⟨used, split, ran⟩ := here
    have room : rest.length < 2 ^ 64 := by
      rw [split, List.length_append] at size
      omega
    have place : before ++ src ++ beyond = (before ++ used) ++ rest ++ beyond := by
      rw [split, ← List.append_assoc]
    have cursor : before.length + used.length = (before ++ used).length := List.length_append.symm
    have later := second value (before ++ used) rest beyond room
    rw [ran, cursor, place]
    change Agrees overrun before src beyond (next value ((before ++ used) ++ rest ++ beyond) ⟨(before ++ used).length, rest.length⟩)
      ((plainNext value).run rest)
    cases finish : (plainNext value).run rest with
    | error fault =>
      rw [finish] at later
      exact later
    | ok p =>
      rw [finish] at later
      obtain ⟨more, split', ran'⟩ := later
      refine ⟨used ++ more, ?_, ?_⟩
      · rw [split, split', List.append_assoc]
      · rw [ran', List.length_append, List.length_append, Nat.add_assoc]

theorem map (first : Follows overrun read plain) (f : α → β) : Follows overrun (f <$> read) (f <$> plain) :=
  first.bind fun value => Follows.pure (f value)

theorem times (each : Follows overrun read plain) (count : Nat) :
    Follows overrun (BoundedReader.times read count) (ByteReader.times plain count) := by
  induction count with
  | zero => exact Follows.pure []
  | succ count ih => exact each.bind fun value => ih.bind fun values => Follows.pure (value :: values)

theorem refuseIf (fault : ε) (condition : Bool) : Follows overrun (refuseIf fault condition) (ByteReader.refuseIf fault condition) := by
  cases condition with
  | false => exact Follows.pure ()
  | true => exact fun _ _ _ _ _ => rfl

/-- Where enough bytes are there, the counter does not wrap around. -/
theorem take_inside (overrun : ε) (before : List UInt8) {src : List UInt8} (beyond : List UInt8) (size : src.length < 2 ^ 64)
    (enough : ¬ src.length < count) : ∃ used, src = used ++ src.drop count ∧
      BoundedReader.take overrun count (before ++ src ++ beyond) ⟨before.length, src.length⟩ =
        .ok (src.take count, ⟨before.length + used.length, (src.drop count).length⟩) := by
  have room : ¬ (before ++ src ++ beyond).length < before.length + count := by
    rw [List.length_append, List.length_append]
    omega
  have bytes : ((before ++ src ++ beyond).drop before.length).take count = src.take count := by
    rw [List.append_assoc, List.drop_left, List.take_append_of_le_length (Nat.le_of_not_lt enough)]
  have counter : (2 ^ 64 + src.length - count) % 2 ^ 64 = (src.drop count).length := by
    rw [List.length_drop]
    omega
  have moved : (src.take count).length = count := List.length_take_of_le (Nat.le_of_not_lt enough)
  refine ⟨src.take count, (List.take_append_drop count src).symm, ?_⟩
  unfold BoundedReader.take
  dsimp only
  rw [if_neg room, bytes, counter, moved]

/-- Without a check the plain reader runs behind the end. -/
theorem take (count : Nat) : Follows overrun (take overrun count) (ByteReader.block overrun count) := by
  intro before src beyond size
  change Agrees _ _ _ _ _ (if src.length < count then .error overrun else .ok (src.take count, src.drop count))
  by_cases short : src.length < count
  · rw [if_pos short]
    intro atEnd
    obtain rfl := atEnd rfl
    refine if_pos ?_
    rw [List.append_nil, List.length_append]
    exact Nat.add_lt_add_left short _
  · rw [if_neg short]
    exact take_inside overrun before beyond size short

theorem number (width : Nat) : Follows overrun (number overrun width) (ByteReader.number overrun width) :=
  (take width).map _

theorem check (fault : ε) (count : Nat) : Follows overrun (check fault count) (ByteReader.need fault count) := by
  intro before src beyond _
  change Agrees _ _ _ _ (if src.length < count then .error fault else .ok ((), ⟨before.length, src.length⟩))
    (if src.length < count then .error fault else .ok ((), src))
  split
  · exact fun _ => rfl
  · exact ⟨[], rfl, rfl⟩

/-- With a check the reader refuses instead of running behind the end. -/
theorem checked (fault : ε) (count : Nat) :
    Follows overrun (BoundedReader.check fault count >>= fun _ => BoundedReader.take overrun count) (ByteReader.block fault count) := by
  intro before src beyond size
  change Agrees _ _ _ _ ((if src.length < count then .error fault else .ok ((), (⟨before.length, src.length⟩ : Cursor))) >>=
      fun p => BoundedReader.take overrun count (before ++ src ++ beyond) p.2)
    (if src.length < count then .error fault else .ok (src.take count, src.drop count))
  by_cases short : src.length < count
  · rw [if_pos short, if_pos short]
    exact fun _ => rfl
  · rw [if_neg short, if_neg short]
    exact take_inside overrun before beyond size short

theorem checkedNumber (fault : ε) (width : Nat) :
    Follows overrun (BoundedReader.check fault width >>= fun _ => BoundedReader.number overrun width)
      (ByteReader.number fault width) := by
  have mapped := (checked fault width : Follows overrun _ (ByteReader.block fault width)).map LittleEndian.decode
  rwa [map_bind] at mapped

theorem checkedNumber_bind (fault : ε) (width : Nat) {next : Nat → BoundedReader ε α} {plainNext : Nat → ByteReader ε α}
    (later : ∀ n, Follows overrun (next n) (plainNext n)) :
    Follows overrun (BoundedReader.check fault width >>= fun _ => BoundedReader.number overrun width >>= next)
      (ByteReader.number fault width >>= plainNext) := by
  have whole := (checkedNumber fault width : Follows overrun _ (ByteReader.number fault width)).bind later
  rwa [bind_assoc] at whole

theorem within (fixed : ByteReader.Fixed count plain) (fault : ε) :
    Follows overrun (BoundedReader.check fault count >>= fun _ => BoundedReader.within overrun count plain)
      (ByteReader.need fault count >>= fun _ => plain) := by
  intro before src beyond size
  have composed : (BoundedReader.check fault count >>= fun _ => BoundedReader.within overrun count plain)
      (before ++ src ++ beyond) ⟨before.length, src.length⟩ =
      ((if src.length < count then .error fault else .ok ((), (⟨before.length, src.length⟩ : Cursor))) >>=
        fun p => BoundedReader.within overrun count plain (before ++ src ++ beyond) p.2) := rfl
  rw [composed]
  by_cases short : src.length < count
  · have refused : (ByteReader.need fault count >>= fun _ => plain).run src = .error fault :=
      ByteReader.run_bind_error.mpr (Or.inl (if_pos short))
    rw [refused, if_pos short]
    exact fun _ => rfl
  · obtain ⟨value, reads⟩ := fixed (src.take count) (List.length_take_of_le (Nat.le_of_not_lt short))
    obtain ⟨used, split, taken⟩ := take_inside overrun before beyond size short
    have alone := reads []
    have whole := reads (src.drop count)
    rw [List.append_nil] at alone
    rw [List.take_append_drop] at whole
    have plainly : (ByteReader.need fault count >>= fun _ => plain).run src = .ok (value, src.drop count) :=
      ByteReader.run_bind_ok.mpr ⟨(), src, ByteReader.need_ok.mpr ⟨Nat.le_of_not_lt short, rfl⟩, whole⟩
    have ran : BoundedReader.within overrun count plain (before ++ src ++ beyond) ⟨before.length, src.length⟩ =
        .ok (value, ⟨before.length + used.length, (src.drop count).length⟩) := by
      change (BoundedReader.take overrun count (before ++ src ++ beyond) ⟨before.length, src.length⟩ >>= _) = _
      rw [taken]
      change ofOutcome (plain.run (src.take count)) _ _ = _
      rw [alone]
      rfl
    rw [plainly, if_neg short]
    exact ⟨used, split, ran⟩

end Follows

end BoundedReader
