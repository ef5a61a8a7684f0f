import FlexRaft.Lib.LittleEndian
import Mathlib.Data.List.Basic

/-- A reader takes bytes from the front of a buffer, or gives up with a fault. -/
abbrev ByteReader (ε α : Type) := StateT (List UInt8) (Except ε) α

namespace ByteReader

variable {ε α β : Type}

/-- The next `count` bytes. -/
def block (fault : ε) (count : Nat) : ByteReader ε (List UInt8) := fun src =>
  if src.length < count then .error fault else .ok (src.take count, src.drop count)

/-- A little-endian number of `width` bytes. -/
def number (fault : ε) (width : Nat) : ByteReader ε Nat := LittleEndian.decode <$> block fault width

/-- One and the same reader, a number of times. -/
def times (read : ByteReader ε α) : Nat → ByteReader ε (List α)
  | 0 => pure []
  | count + 1 => do
    let value ← read
    let values ← times read count
    pure (value :: values)

/-- A check that so many bytes are left. -/
def need (fault : ε) (count : Nat) : ByteReader ε Unit := fun src =>
  if src.length < count then .error fault else .ok ((), src)

def refuseIf (fault : ε) (condition : Bool) : ByteReader ε Unit := if condition then throw fault else pure ()

/-- `read` takes exactly these bytes, whatever follows them, and makes `value` of them. -/
def Reads (read : ByteReader ε α) (bytes : List UInt8) (value : α) : Prop :=
  ∀ rest, read.run (bytes ++ rest) = .ok (value, rest)

namespace Reads

variable {fault : ε} {read : ByteReader ε α} {bytes bytes' : List UInt8} {value : α} {count : Nat}

theorem pure (value : α) : Reads (Pure.pure value : ByteReader ε α) [] value := fun _ => rfl

theorem run_bind {next : α → ByteReader ε β} (first : Reads read bytes value) (rest : List UInt8) :
    (read >>= next).run (bytes ++ rest) = (next value).run rest := by
  rw [StateT.run_bind, first rest]
  rfl

theorem bind {next : α → ByteReader ε β} {result : β} (first : Reads read bytes value)
    (second : Reads (next value) bytes' result) : Reads (read >>= next) (bytes ++ bytes') result := by
  intro rest
  rw [List.append_assoc, first.run_bind]
  exact second rest

theorem last {f : α → β} (first : Reads read bytes value) : Reads (read >>= fun a => Pure.pure (f a)) bytes (f value) :=
  fun rest => first.run_bind rest

theorem block (bytes : List UInt8) : Reads (block fault bytes.length) bytes bytes := by
  intro rest
  have room : ¬ (bytes ++ rest).length < bytes.length := by simp
  change (if _ then _ else _) = _
  rw [if_neg room, List.take_left, List.drop_left]

theorem block_of_length (size : bytes.length = count) : Reads (ByteReader.block fault count) bytes bytes :=
  size ▸ Reads.block bytes

theorem number {width n : Nat} (bound : n < 256 ^ width) : Reads (number fault width) (LittleEndian.encode width n) n := by
  intro rest
  have taken : (ByteReader.block fault width).run (LittleEndian.encode width n ++ rest) = _ :=
    block_of_length (LittleEndian.length_encode width n) rest
  rw [ByteReader.number, StateT.run_map, taken]
  exact congrArg (fun n => Except.ok (n, rest)) (LittleEndian.decode_encode_of_lt bound)

theorem refuseIf {condition : Bool} (holds : condition = false) : Reads (refuseIf fault condition) [] () := by
  rw [holds]
  exact Reads.pure ()

theorem need (enough : count ≤ bytes.length) (next : Reads read bytes value) :
    Reads (need fault count >>= fun _ => read) bytes value := by
  intro rest
  have room : ¬ (bytes ++ rest).length < count := by
    rw [List.length_append]
    omega
  have passes : (ByteReader.need fault count).run (bytes ++ rest) = .ok ((), bytes ++ rest) := if_neg room
  rw [StateT.run_bind, passes]
  exact next rest

theorem times {γ : Type} {write : γ → List UInt8} {of : γ → α} {items : List γ}
    (each : ∀ item ∈ items, Reads read (write item) (of item)) :
    Reads (times read items.length) (items.flatMap write) (items.map of) := by
  induction items with
  | nil => exact Reads.pure []
  | cons item rest ih =>
    obtain ⟨here, later⟩ := List.forall_mem_cons.mp each
    exact here.bind (ih later).last

theorem blocks {items : List (List UInt8)} (each : ∀ item ∈ items, ∃ value, Reads read item value) :
    ∃ values, Reads (ByteReader.times read items.length) items.flatten values := by
  induction items with
  | nil => exact ⟨[], Reads.pure []⟩
  | cons item rest ih =>
    obtain ⟨here, later⟩ := List.forall_mem_cons.mp each
    obtain ⟨value, reads⟩ := here
    obtain ⟨values, readsRest⟩ := ih later
    exact ⟨value :: values, reads.bind readsRest.last⟩

end Reads

section Outcomes

variable {fault : ε} {read : ByteReader ε α} {next : α → ByteReader ε β} {src : List UInt8}
  {rest : List UInt8} {f : ε} {count width : Nat}

theorem run_bind_ok {result : β} : (read >>= next).run src = .ok (result, rest) ↔
    ∃ value mid, read.run src = .ok (value, mid) ∧ (next value).run mid = .ok (result, rest) := by
  rw [StateT.run_bind]
  cases outcome : read.run src with
  | error f =>
    constructor
    · intro done
      cases done
    · rintro ⟨value, mid, done, -⟩
      cases done
  | ok p =>
    refine ⟨fun done => ⟨p.1, p.2, rfl, done⟩, ?_⟩
    rintro ⟨value, mid, same, done⟩
    cases same
    exact done

theorem run_bind_error : (read >>= next).run src = .error f ↔
    read.run src = .error f ∨ ∃ value mid, read.run src = .ok (value, mid) ∧ (next value).run mid = .error f := by
  rw [StateT.run_bind]
  cases outcome : read.run src with
  | error f' =>
    constructor
    · intro failed
      cases failed
      exact Or.inl rfl
    · rintro (failed | ⟨value, mid, done, -⟩)
      · cases failed
        rfl
      · cases done
  | ok p =>
    refine ⟨fun failed => Or.inr ⟨p.1, p.2, rfl, failed⟩, ?_⟩
    rintro (failed | ⟨value, mid, same, failed⟩)
    · cases failed
    · cases same
      exact failed

theorem run_block (fault : ε) (count : Nat) (src : List UInt8) : (block fault count).run src =
    if src.length < count then .error fault else .ok (src.take count, src.drop count) := rfl

theorem block_ok {bytes : List UInt8} :
    (block fault count).run src = .ok (bytes, rest) ↔ src = bytes ++ rest ∧ bytes.length = count := by
  rw [run_block]
  split
  · rename_i short
    constructor
    · intro done
      cases done
    · rintro ⟨rfl, size⟩
      rw [List.length_append] at short
      omega
  · rename_i enough
    constructor
    · intro done
      cases done
      exact ⟨(List.take_append_drop count src).symm, List.length_take_of_le (Nat.le_of_not_lt enough)⟩
    · rintro ⟨rfl, rfl⟩
      rw [List.take_left, List.drop_left]

theorem block_error : (block fault count).run src = .error f ↔ src.length < count ∧ f = fault := by
  rw [run_block]
  split
  · rename_i short
    constructor
    · intro failed
      cases failed
      exact ⟨short, rfl⟩
    · rintro ⟨-, rfl⟩
      rfl
  · rename_i enough
    constructor
    · intro failed
      cases failed
    · rintro ⟨short, -⟩
      exact absurd short enough

theorem run_number (fault : ε) (width : Nat) (src : List UInt8) : (number fault width).run src =
    if src.length < width then .error fault else .ok (LittleEndian.decode (src.take width), src.drop width) := by
  rw [number, StateT.run_map, run_block]
  split <;> rfl

theorem number_bind_run {next : Nat → ByteReader ε β} (enough : width ≤ src.length) :
    (number fault width >>= next).run src = (next (LittleEndian.decode (src.take width))).run (src.drop width) := by
  rw [StateT.run_bind, run_number, if_neg (Nat.not_lt.mpr enough)]
  rfl

theorem number_ok {n : Nat} :
    (number fault width).run src = .ok (n, rest) ↔ src = LittleEndian.encode width n ++ rest ∧ n < 256 ^ width := by
  constructor
  · intro done
    rw [run_number] at done
    split at done
    · cases done
    · rename_i enough
      cases done
      have size : (src.take width).length = width := List.length_take_of_le (Nat.le_of_not_lt enough)
      have same := LittleEndian.encode_decode (src.take width)
      have bound := LittleEndian.decode_lt (src.take width)
      rw [size] at same bound
      rw [same]
      exact ⟨(List.take_append_drop width src).symm, bound⟩
  · rintro ⟨rfl, bound⟩
    exact Reads.number bound rest

theorem number_error : (number fault width).run src = .error f ↔ src.length < width ∧ f = fault := by
  rw [run_number]
  split
  · rename_i short
    constructor
    · intro failed
      cases failed
      exact ⟨short, rfl⟩
    · rintro ⟨-, rfl⟩
      rfl
  · rename_i enough
    constructor
    · intro failed
      cases failed
    · rintro ⟨short, -⟩
      exact absurd short enough

theorem refuseIf_ok {condition : Bool} :
    (refuseIf fault condition).run src = .ok ((), rest) ↔ condition = false ∧ src = rest := by
  cases condition with
  | false =>
    constructor
    · intro done
      cases done
      exact ⟨rfl, rfl⟩
    · rintro ⟨-, rfl⟩
      rfl
  | true =>
    constructor
    · intro done
      cases done
    · rintro ⟨bad, -⟩
      cases bad

theorem need_ok : (need fault count).run src = .ok ((), rest) ↔ count ≤ src.length ∧ src = rest := by
  have run : (need fault count).run src = if src.length < count then .error fault else .ok ((), src) := rfl
  rw [run]
  split
  · rename_i short
    constructor
    · intro done
      cases done
    · rintro ⟨enough, -⟩
      omega
  · rename_i enough
    constructor
    · intro done
      cases done
      exact ⟨Nat.le_of_not_lt enough, rfl⟩
    · rintro ⟨-, rfl⟩
      rfl

/-- What a repeated reader took are the blocks that it took each time. -/
theorem times_ok {P : α → List UInt8 → Prop} (each : ∀ src value rest, read.run src = .ok (value, rest) →
      ∃ bytes, src = bytes ++ rest ∧ P value bytes) {values : List α}
    (done : (times read count).run src = .ok (values, rest)) :
    ∃ items, src = items.flatten ++ rest ∧ values.length = count ∧ List.Forall₂ P values items := by
  induction count generalizing src values with
  | zero =>
    cases done
    exact ⟨[], rfl, rfl, .nil⟩
  | succ count ih =>
    obtain ⟨value, mid, here, more⟩ := run_bind_ok.mp done
    obtain ⟨later, behind, further, finish⟩ := run_bind_ok.mp more
    cases finish
    obtain ⟨bytes, rfl, fits⟩ := each _ _ _ here
    obtain ⟨items, rfl, number, all⟩ := ih further
    refine ⟨bytes :: items, ?_, ?_, .cons fits all⟩
    · rw [List.flatten_cons, List.append_assoc]
    · rw [List.length_cons, number]

/-- The reader gives up with this fault only. -/
def OnlyFails (fault : ε) (read : ByteReader ε α) : Prop := ∀ src f, read.run src = .error f → f = fault

namespace OnlyFails

theorem pure (value : α) : OnlyFails fault (Pure.pure value : ByteReader ε α) := fun _ _ failed => by cases failed

theorem bind (first : OnlyFails fault read) (second : ∀ value, OnlyFails fault (next value)) :
    OnlyFails fault (read >>= next) := by
  intro src f failed
  rcases run_bind_error.mp failed with here | ⟨value, mid, _, later⟩
  · exact first src f here
  · exact second value mid f later

theorem block (count : Nat) : OnlyFails fault (block fault count) := fun _ _ failed => (block_error.mp failed).2

theorem number (width : Nat) : OnlyFails fault (number fault width) := fun _ _ failed => (number_error.mp failed).2

theorem refuseIf (condition : Bool) : OnlyFails fault (refuseIf fault condition) := by
  intro src f failed
  cases condition with
  | false => cases failed
  | true =>
    cases failed
    rfl

theorem times (each : OnlyFails fault read) (count : Nat) : OnlyFails fault (times read count) := by
  induction count with
  | zero => exact OnlyFails.pure []
  | succ count ih => exact each.bind fun value => ih.bind fun values => OnlyFails.pure (value :: values)

end OnlyFails

/-- The reader takes exactly `width` bytes, and any bytes will do. -/
def Fixed (width : Nat) (read : ByteReader ε α) : Prop := ∀ bytes : List UInt8, bytes.length = width → ∃ value, Reads read bytes value

namespace Fixed

variable {width : Nat}

theorem pure (value : α) : Fixed 0 (Pure.pure value : ByteReader ε α) := by
  intro bytes size
  obtain rfl := List.eq_nil_of_length_eq_zero size
  exact ⟨value, Reads.pure value⟩

theorem bind {width' : Nat} (first : Fixed width read) (second : ∀ value, Fixed width' (next value)) :
    Fixed (width + width') (read >>= next) := by
  intro bytes size
  obtain ⟨value, reads⟩ := first (bytes.take width) (List.length_take_of_le (by omega))
  obtain ⟨result, reads'⟩ := second value (bytes.drop width) (by rw [List.length_drop]; omega)
  have whole := reads.bind reads'
  rw [List.take_append_drop] at whole
  exact ⟨result, whole⟩

theorem number (width : Nat) : Fixed width (number fault width) := by
  intro bytes size
  subst size
  refine ⟨LittleEndian.decode bytes, ?_⟩
  have reads : Reads (ByteReader.number fault bytes.length) _ _ := Reads.number (LittleEndian.decode_lt bytes)
  rwa [LittleEndian.encode_decode] at reads

theorem need_ok (fault : ε) (fixed : Fixed width read) (enough : width ≤ src.length) :
    ∃ value, (need fault width >>= fun _ => read).run src = .ok (value, src.drop width) := by
  obtain ⟨value, reads⟩ := fixed (src.take width) (List.length_take_of_le enough)
  have whole := reads (src.drop width)
  rw [List.take_append_drop] at whole
  exact ⟨value, run_bind_ok.mpr ⟨(), src, ByteReader.need_ok.mpr ⟨enough, rfl⟩, whole⟩⟩

theorem splits (fixed : Fixed width read) {value : α}
    (done : (need fault width >>= fun _ => read).run src = .ok (value, rest)) :
    ∃ bytes, src = bytes ++ rest ∧ bytes.length = width := by
  obtain ⟨⟨⟩, mid, checked, -⟩ := run_bind_ok.mp done
  obtain ⟨enough, rfl⟩ := ByteReader.need_ok.mp checked
  obtain ⟨value', same⟩ := fixed.need_ok fault enough
  cases done.symm.trans same
  exact ⟨src.take width, (List.take_append_drop width src).symm, List.length_take_of_le enough⟩

theorem onlyFails (fixed : Fixed width read) : OnlyFails fault (need fault width >>= fun _ => read) := by
  intro src f failed
  by_cases enough : width ≤ src.length
  · obtain ⟨value, same⟩ := fixed.need_ok fault enough
    cases failed.symm.trans same
  · rcases run_bind_error.mp failed with here | ⟨⟨⟩, mid, checked, -⟩
    · have refused : (need fault width).run src = .error fault := if_pos (Nat.lt_of_not_le enough)
      cases here.symm.trans refused
      rfl
    · exact absurd (ByteReader.need_ok.mp checked).1 enough

end Fixed

end Outcomes

end ByteReader
