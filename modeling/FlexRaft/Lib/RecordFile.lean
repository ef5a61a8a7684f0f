import Mathlib.Data.List.Basic
import Mathlib.Data.List.Induction

/-- How records are written as bytes, and what is read back from a buffer that starts with a record.
Every record takes at least `headSize` bytes. -/
structure RecordCodec (α : Type) where
  headSize : Nat
  headSize_pos : 0 < headSize
  size : α → Nat
  headSize_le : ∀ a, headSize ≤ size a
  encode : α → List UInt8
  encode_length : ∀ a, (encode a).length = size a
  decode : List UInt8 → α

namespace RecordCodec

variable {α : Type} (c : RecordCodec α)

/-- The record comes back from every buffer of `n` bytes into which it is read. -/
def Readable (n : Nat) (a : α) : Prop := c.size a ≤ n ∧ ∀ rest, c.decode (c.encode a ++ rest) = a

/-- The records one after another. -/
def bytes (records : List α) : List UInt8 := records.flatMap c.encode

/-- The records with their offsets, the first one at `off`. -/
def layout : Nat → List α → List (Nat × α)
  | _, [] => []
  | off, a :: rest => (off, a) :: layout (off + c.size a) rest

/-- Reads at `off` into a buffer. Behind the end of the data the buffer keeps what it held. -/
def fill (data : List UInt8) (off : Nat) (buf : List UInt8) : List UInt8 :=
  let chunk := (data.drop off).take buf.length
  chunk ++ buf.drop chunk.length

/-- Reads record after record from `off` on, until fewer than `headSize` bytes are left before `last`.
The second component is the buffer as it is left. A record advances the offset, so `last + 1` rounds are enough. -/
def scan (data : List UInt8) (last : Nat) : Nat → Nat → List UInt8 → List (Nat × α) × List UInt8
  | 0, _, buf => ([], buf)
  | fuel + 1, off, buf =>
    if last < off + c.headSize then ([], buf)
    else
      let buf := fill data off buf
      let record := c.decode buf
      let later := scan data last fuel (off + c.size record) buf
      ((off, record) :: later.1, later.2)

variable {c}

theorem bytes_append (front back : List α) : c.bytes (front ++ back) = c.bytes front ++ c.bytes back :=
  List.flatMap_append

theorem bytes_cons (a : α) (rest : List α) : c.bytes (a :: rest) = c.encode a ++ c.bytes rest := rfl

theorem bytes_singleton (a : α) : c.bytes [a] = c.encode a := by
  simp [bytes]

@[simp] theorem fill_length (data : List UInt8) (off : Nat) (buf : List UInt8) :
    (fill data off buf).length = buf.length := by
  simp only [fill, List.length_append, List.length_drop, List.length_take]
  omega

theorem Readable.decode_fill {n : Nat} {a : α} {before after buf : List UInt8} (readable : c.Readable n a)
    (room : n ≤ buf.length) : c.decode (fill (before ++ (c.encode a ++ after)) before.length buf) = a := by
  have fits : (c.encode a).length ≤ buf.length := by
    rw [c.encode_length]
    exact Nat.le_trans readable.1 room
  unfold fill
  rw [List.drop_left, List.take_append, List.take_of_length_le fits]
  dsimp only
  rw [List.append_assoc]
  exact readable.2 _

/-- A pass over intact records finds each of them in its place. -/
theorem scan_bytes {n fuel : Nat} {before buf : List UInt8} {records : List α}
    (readable : ∀ a ∈ records, c.Readable n a) (room : n ≤ buf.length)
    (enough : (c.bytes records).length < fuel) :
    (c.scan (before ++ c.bytes records) (before ++ c.bytes records).length fuel before.length buf).1 =
        c.layout before.length records ∧
      (c.scan (before ++ c.bytes records) (before ++ c.bytes records).length fuel before.length buf).2.length =
        buf.length := by
  induction records generalizing before buf fuel with
  | nil =>
    cases fuel with
    | zero => exact absurd enough (Nat.not_lt_zero _)
    | succ fuel =>
      have short : (before ++ c.bytes []).length < before.length + c.headSize := by
        simpa [bytes] using c.headSize_pos
      simp only [scan, if_pos short, layout, and_self]
  | cons a rest ih =>
    have size := c.encode_length a
    have headSize := c.headSize_le a
    have positive := c.headSize_pos
    rw [bytes_cons, List.length_append] at enough
    cases fuel with
    | zero => exact absurd enough (Nat.not_lt_zero _)
    | succ fuel =>
      have more : ¬(before ++ c.bytes (a :: rest)).length < before.length + c.headSize := by
        rw [List.length_append, bytes_cons, List.length_append]
        omega
      have here : c.decode (fill (before ++ c.bytes (a :: rest)) before.length buf) = a :=
        (readable a List.mem_cons_self).decode_fill room
      -- the rest of the pass starts behind the record just read
      have split : before ++ c.bytes (a :: rest) = (before ++ c.encode a) ++ c.bytes rest := by
        rw [bytes_cons, List.append_assoc]
      have next : before.length + c.size a = (before ++ c.encode a).length := by
        rw [List.length_append, size]
      have room' : n ≤ (fill (before ++ c.bytes (a :: rest)) before.length buf).length := by
        rw [fill_length]
        exact room
      have later := @ih fuel (before ++ c.encode a) _ (fun b member => readable b (List.mem_cons_of_mem a member)) room'
        (by omega)
      simp only [scan, if_neg more, here, layout]
      rw [next, split]
      rw [split, fill_length] at later
      exact ⟨by rw [later.1], later.2⟩

theorem scan_file {n : Nat} {buf : List UInt8} {records : List α} (readable : ∀ a ∈ records, c.Readable n a)
    (room : n ≤ buf.length) :
    (c.scan (c.bytes records) (c.bytes records).length ((c.bytes records).length + 1) 0 buf).1 = c.layout 0 records ∧
      (c.scan (c.bytes records) (c.bytes records).length ((c.bytes records).length + 1) 0 buf).2.length = buf.length :=
  @scan_bytes α c n _ [] buf records readable room (Nat.lt_succ_self _)

theorem layout_append (base : Nat) (front back : List α) :
    c.layout base (front ++ back) = c.layout base front ++ c.layout (base + (c.bytes front).length) back := by
  induction front generalizing base with
  | nil => simp [layout, bytes]
  | cons a rest ih =>
    rw [List.cons_append, layout, layout, ih, List.cons_append, bytes_cons, List.length_append, c.encode_length,
      Nat.add_assoc]

theorem layout_snd (base : Nat) (records : List α) : (c.layout base records).map Prod.snd = records := by
  induction records generalizing base with
  | nil => rfl
  | cons a rest ih => rw [layout, List.map_cons, ih]

theorem le_of_mem_layout {base : Nat} {records : List α} {p : Nat × α} (member : p ∈ c.layout base records) :
    base ≤ p.1 := by
  induction records generalizing base with
  | nil => simp [layout] at member
  | cons a rest ih =>
    rw [layout] at member
    rcases List.mem_cons.mp member with rfl | later
    · exact Nat.le_refl _
    · have := ih later
      omega

theorem split_of_mem_layout {off base : Nat} {a : α} {records : List α} (member : (off, a) ∈ c.layout base records) :
    ∃ front back, records = front ++ a :: back ∧ off = base + (c.bytes front).length := by
  induction records generalizing base with
  | nil => simp [layout] at member
  | cons b rest ih =>
    rw [layout] at member
    rcases List.mem_cons.mp member with here | later
    · obtain ⟨rfl, rfl⟩ := Prod.mk.inj here
      exact ⟨[], rest, rfl, by simp [bytes]⟩
    · obtain ⟨front, back, split, place⟩ := ih later
      refine ⟨b :: front, back, by rw [split, List.cons_append], ?_⟩
      rw [bytes_cons, List.length_append, c.encode_length]
      omega

end RecordCodec

namespace LastWins

variable {β γ : Type} {key : β → Nat} {k n : Nat}

/-- The last item with key `k`. -/
def latest (key : β → Nat) (k : Nat) (items : List β) : Option β := items.reverse.find? fun b => key b == k

theorem latest_append (front back : List β) :
    latest key k (front ++ back) = (latest key k back).or (latest key k front) := by
  simp [latest, List.reverse_append, List.find?_append]

theorem latest_concat (items : List β) (b : β) :
    latest key k (items ++ [b]) = if key b = k then some b else latest key k items := by
  rw [latest_append]
  by_cases same : key b = k
  · simp [latest, same]
  · simp [latest, same]

theorem mem_of_latest {items : List β} {b : β} (found : latest key k items = some b) : b ∈ items ∧ key b = k := by
  have member := List.mem_of_find?_eq_some found
  have named := List.find?_some found
  exact ⟨List.mem_reverse.mp member, by simpa using named⟩

theorem latest_map (f : γ → β) (items : List γ) :
    latest key k (items.map f) = (latest (key ∘ f) k items).map f := by
  simp only [latest, ← List.map_reverse, List.find?_map]
  rfl

/-- Writes the items into their slots one after another; a key above `n` has none. -/
def replay (key : β → Nat) (n : Nat) (slots items : List β) : List β :=
  items.foldl (fun slots b => if key b ≤ n then slots.set (key b) b else slots) slots

theorem replay_concat (slots items : List β) (b : β) : replay key n slots (items ++ [b]) =
    if key b ≤ n then (replay key n slots items).set (key b) b else replay key n slots items := by
  simp [replay]

@[simp] theorem replay_length (slots items : List β) : (replay key n slots items).length = slots.length := by
  induction items using List.reverseRecOn with
  | nil => rfl
  | append_singleton items b ih =>
    rw [replay_concat]
    split
    · rw [List.length_set, ih]
    · exact ih

/-- Each slot is left with the last item for it. -/
theorem replay_getElem? {slots : List β} (items : List β) (named : k ≤ n) (slot : k < slots.length) :
    (replay key n slots items)[k]? = (latest key k items).or slots[k]? := by
  induction items using List.reverseRecOn with
  | nil => simp [latest, replay]
  | append_singleton items b ih =>
    rw [replay_concat, latest_concat]
    by_cases same : key b = k
    · rw [if_pos (by omega), if_pos same, same, List.getElem?_set_self (by simpa using slot)]
      rfl
    · rw [if_neg same]
      split
      · rw [List.getElem?_set_ne same, ih]
      · exact ih

end LastWins

namespace RecordCodec

open LastWins

/-- A cut at the start of a record loses nothing in force for a key whose last record lies before the cut. -/
theorem latest_of_cut {β : Type} {key : β → Nat} {k : Nat} {c : RecordCodec β} {front back : List β}
    (before : ∀ p, latest (key ∘ Prod.snd) k (c.layout 0 (front ++ back)) = some p → p.1 < (c.bytes front).length) :
    latest key k front = latest key k (front ++ back) := by
  rw [layout_append, latest_append] at before
  rw [latest_append]
  cases later : latest (key ∘ Prod.snd) k (c.layout (0 + (c.bytes front).length) back) with
  | some p =>
    have early := before p (by rw [later]; rfl)
    have late := le_of_mem_layout (mem_of_latest later).1
    omega
  | none =>
    have none_back : latest key k back = none := by
      rw [← layout_snd (c := c) (0 + (c.bytes front).length) back, latest_map, later]
      rfl
    rw [none_back]
    rfl

end RecordCodec
