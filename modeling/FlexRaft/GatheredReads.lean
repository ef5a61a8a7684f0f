import FlexRaft.KvRead

namespace FlexRaft

/-- A stored string that holds all of a value. -/
def isWhole (stored : Slice) : Bool := (decodeString stored).any fun format => format.k == 1 && format.m == 0

namespace Gathering

open Encoder

/-- A stored string that `call_back` makes use of: a whole value, or a fragment under the parameters of the task. -/
def takesUp (g : Gathering) (stored : Slice) : Bool :=
  isWhole stored || (decodeString stored).any fun format => format.k == g.k && format.m == g.m

/-- The number of a fragment under the parameters of the task. -/
def fragIdOf (g : Gathering) (stored : Slice) : Option Nat :=
  (decodeString stored).bind fun format => if format.k = g.k ∧ format.m = g.m then some format.fragId else none

/-- The numbers of the fragments that are there: the one that was read and those that were answered. -/
def fragIds (g : Gathering) : List Nat := (g.own :: g.answers).filterMap g.fragIdOf

/-- The answers are enough: one of them is whole, or there are `k` different fragments. -/
def Enough (g : Gathering) : Prop := g.answers.any isWhole = true ∨ g.k ≤ g.fragIds.dedup.length

instance decidableEnough (g : Gathering) : Decidable g.Enough := inferInstanceAs (Decidable (_ ∨ _))

/-- Everything that was gathered belongs to a put of `value`. -/
structure Gathered (n : Nat) (value : Slice) (g : Gathering) : Prop where
  several : 2 ≤ g.k
  valid : (EntryForm.fragment g.k).Valid n
  parities : g.m = n - g.k
  peers : ∀ peer ∈ g.todo, peer < n
  ascending : g.decodeInput.Ascending
  fragments : FragmentsOf (makePrefixLengthKey value) g.k g.m g.decodeInput
  ids : g.fragIds ⊆ g.decodeInput.keys
  complete : g.done = true → g.value = value

/-- As long as the value is not there, the answers are not enough. -/
structure Sound (n : Nat) (value : Slice) (g : Gathering) : Prop extends Gathered n value g where
  missing : g.done = false → g.decodeInput.length < g.k ∧ g.answers.any isWhole = false

variable {n server : Nat} {value : Slice} {form : EntryForm} {g g' : Gathering}

theorem Sound.done_of_enough (sound : g.Sound n value) (enough : g.Enough) : g.done = true := by
  by_contra open_
  obtain ⟨few, noWhole⟩ := sound.missing (by simpa using open_)
  rcases enough with whole | many
  · rw [noWhole] at whole
    cases whole
  · have inside : g.fragIds.dedup ⊆ g.decodeInput.keys := fun id member => sound.ids (List.mem_dedup.mp member)
    have bound := (List.subperm_of_subset (List.nodup_dedup _) inside).length_le
    rw [OrdMap.keys, List.length_map] at bound
    omega

theorem isWhole_storedValue (valid : form.Valid n) (bound : server < n) (value : Slice) :
    isWhole (storedValue n server value form) = true ↔
      (storedParts n server value form).k = 1 ∧ (storedParts n server value form).m = 0 := by
  unfold isWhole
  rw [decodeString_storedValue valid bound]
  simp

theorem fragIdOf_storedValue (g : Gathering) (valid : form.Valid n) (bound : server < n) (value : Slice) :
    g.fragIdOf (storedValue n server value form) =
      if (storedParts n server value form).k = g.k ∧ (storedParts n server value form).m = g.m then
        some (storedParts n server value form).fragId else none := by
  unfold fragIdOf
  rw [decodeString_storedValue valid bound, Option.bind_some]

theorem fragIdOf_congr (k : g'.k = g.k) (m : g'.m = g.m) : g'.fragIdOf = g.fragIdOf := by
  funext stored
  unfold fragIdOf
  rw [k, m]

theorem mem_fragIds {answer : Slice} {id : Nat} (member : id ∈ g'.fragIds) (k : g'.k = g.k) (m : g'.m = g.m)
    (own : g'.own = g.own) (answers : g'.answers = g.answers ++ [answer]) : id ∈ g.fragIds ∨ g.fragIdOf answer = some id := by
  obtain ⟨stored, inside, number⟩ := List.mem_filterMap.mp member
  rw [own, answers, ← List.cons_append, List.mem_append, List.mem_singleton] at inside
  rw [fragIdOf_congr k m] at number
  rcases inside with old | rfl
  · exact Or.inl (List.mem_filterMap.mpr ⟨stored, old, number⟩)
  · exact Or.inr number

theorem conclude_value (g : Gathering) : g.conclude.value = g.value := by
  unfold conclude
  split <;> rfl

theorem finishWith_seen {buf : Slice} (finished : g.finishWith buf = some g') : g'.seen = g.seen := by
  obtain ⟨parsed, _, rfl⟩ := Option.map_eq_some_iff.mp finished
  rfl

theorem tryDecode_seen (decoded : g.tryDecode = some g') : g'.seen = g.seen := by
  unfold Gathering.tryDecode at decoded
  split at decoded
  · split at decoded
    · cases decoded
    · cases decoded
      rfl
    · exact finishWith_seen decoded
  · cases decoded
    rfl

theorem callBack_seen {answer : Slice} (called : g.callBack answer = some g') : g'.seen = g.seen := by
  obtain ⟨fmt, _, called⟩ := Option.bind_eq_some_iff.mp called
  split at called
  · exact finishWith_seen called
  · refine (tryDecode_seen called).trans ?_
    unfold addFragment
    split <;> rfl

theorem Gathered.tryDecode (gathered : g.Gathered n value) (fits : value.length < 2 ^ 31) (running : g.done = false)
    (noWhole : g.answers.any isWhole = false) (decoded : g.tryDecode = some g') : g'.Sound n value := by
  obtain ⟨_, kLe, kMax, mMax⟩ := gathered.valid
  have small : g.k < 2 ^ 31 := kMax.trans_lt (by decide)
  have room : g.k + g.m ≤ 256 := by
    rw [gathered.parities]
    simp only [Encoder.kMaxK, Encoder.kMaxM] at kMax mMax
    omega
  unfold Gathering.tryDecode at decoded
  rw [sizeOfInt, if_pos small] at decoded
  by_cases enough : g.k ≤ g.decodeInput.length
  · have several := gathered.several
    have whole : decodeSlice Isal.gf256 g.decodeInput g.k g.m = .decoded (padded (makePrefixLengthKey value) g.k) := by
      rw [decodeSlice, if_neg (by omega)]
      exact gathered.fragments.decodeSliceHelper_eq several room enough
    rw [if_pos ⟨running, enough⟩, whole] at decoded
    dsimp only [finishWith, padded] at decoded
    rw [getKeyFromPrefixLengthFormat_append fits] at decoded
    cases decoded
    exact { gathered with complete := fun _ => rfl, missing := fun running => by cases running }
  · rw [if_neg fun both => enough both.2] at decoded
    cases decoded
    exact { gathered with missing := fun _ => ⟨by omega, noWhole⟩ }

theorem Gathered.insert (gathered : g.Gathered n value) (bound : server < n) :
    FragmentsOf (makePrefixLengthKey value) g.k g.m (g.decodeInput.insertNew server
      (encodeFragment Isal.gf256 (makePrefixLengthKey value) g.k g.m server)) := by
  refine ⟨(gathered.ascending.insertNew server _).keys_nodup, fun p member => ?_⟩
  rcases OrdMap.mem_insertNew member with rfl | old
  · have total := gathered.parities
    have le := gathered.valid.2.1
    exact ⟨by omega, rfl⟩
  · exact gathered.fragments.value p old

theorem Sound.callBack {value' : Slice} (sound : g.Sound n value) (fits : value.length < 2 ^ 31) (valid : form.Valid n)
    (bound : server < n) (running : g.done = false)
    (same : g.takesUp (storedValue n server value' form) = true → value' = value)
    (called : { g with answers := g.answers ++ [storedValue n server value' form] }.callBack
      (storedValue n server value' form) = some g') : g'.Sound n value := by
  have parts := decodeString_storedValue valid bound value'
  have number := fragIdOf_storedValue g valid bound value'
  have whole := isWhole_storedValue valid bound value'
  have several := sound.several
  have noWhole := (sound.missing running).2
  unfold Gathering.callBack at called
  rw [parts, Option.bind_some] at called
  by_cases full : (storedParts n server value' form).k = 1 ∧ (storedParts n server value' form).m = 0
  · obtain rfl : value' = value := same (by rw [takesUp, whole.mpr full, Bool.true_or])
    rw [if_pos full, finishWith, frag_of_single full.1, getKey_makePrefixLengthKey fits] at called
    cases called
    refine { sound with
      ids := fun id member => ?_
      complete := fun _ => rfl
      missing := fun running => by cases running }
    rcases mem_fragIds (g := g) member rfl rfl rfl rfl with old | new
    · exact sound.ids old
    · rw [number, if_neg (by omega)] at new
      cases new
  · have noWhole' : (g.answers ++ [storedValue n server value' form]).any isWhole = false := by
      have not : isWhole (storedValue n server value' form) = false := by
        simpa using fun holds => full (whole.mp holds)
      rw [List.any_append, noWhole, List.any_cons, List.any_nil, not]
      rfl
    rw [if_neg full, addFragment] at called
    by_cases matching : (storedParts n server value' form).k = g.k ∧ (storedParts n server value' form).m = g.m
    · rw [if_pos matching] at called
      obtain rfl : value' = value := same (by simp [takesUp, parts, matching])
      obtain ⟨id, frag⟩ := parts_of_several (several.trans_eq matching.1.symm)
      refine Gathered.tryDecode (g := { g with
        answers := g.answers ++ [storedValue n server value' form]
        decodeInput := g.decodeInput.insertNew (storedParts n server value' form).fragId
          (storedParts n server value' form).frag }) { sound.toGathered with
        ascending := sound.ascending.insertNew _ _
        fragments := ?_
        ids := fun id member => ?_ } fits running noWhole' called
      · rw [id, frag, matching.1, matching.2]
        exact sound.insert bound
      · rcases mem_fragIds (g := g) member rfl rfl rfl rfl with old | new
        · exact OrdMap.keys_subset_insertNew _ _ _ (sound.ids old)
        · rw [number, if_pos matching] at new
          cases new
          exact OrdMap.key_mem_insertNew _ _ _
    · rw [if_neg matching] at called
      refine Gathered.tryDecode (g := { g with answers := g.answers ++ [storedValue n server value' form] })
        { sound.toGathered with ids := fun id member => ?_ } fits running noWhole' called
      rcases mem_fragIds (g := g) member rfl rfl rfl rfl with old | new
      · exact sound.ids old
      · rw [number, if_neg matching] at new
        cases new

end Gathering

end FlexRaft
