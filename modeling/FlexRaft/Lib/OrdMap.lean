import Mathlib.Data.List.Sort

/-- A map with natural keys as an association list in ascending key order, the order
in which `std::map` is traversed. -/
abbrev OrdMap (α : Type) := List (Nat × α)

namespace OrdMap

variable {α β : Type} {n key : Nat} {value : α} {m : OrdMap α} {p : Nat × α}

def find (m : OrdMap α) (key : Nat) : Option α := (m.find? fun p => p.1 == key).map Prod.snd

def insertOrAssign (key : Nat) (value : α) : OrdMap α → OrdMap α
  | [] => [(key, value)]
  | (k, v) :: rest =>
    if key < k then (key, value) :: (k, v) :: rest
    else if key = k then (key, value) :: rest
    else (k, v) :: insertOrAssign key value rest

def keys (m : OrdMap α) : List Nat := m.map Prod.fst

def mapValues (f : α → β) (m : OrdMap α) : OrdMap β := m.map fun p => (p.1, f p.2)

theorem find_mapValues (f : α → β) (m : OrdMap α) (key : Nat) : (m.mapValues f).find key = (m.find key).map f := by
  induction m with
  | nil => rfl
  | cons p rest ih =>
    simp only [find, mapValues, List.map_cons, List.find?_cons] at ih ⊢
    split
    · rfl
    · exact ih

theorem find_map_range (f : Nat → α) (bound : key < n) :
    find ((List.range n).map fun i => (i, f i)) key = some (f key) := by
  have found : (List.range n).find? (fun i => i == key) = some key := by
    rw [List.find?_range_eq_some]
    exact ⟨by simp, List.mem_range.mpr bound, fun j before => by simpa using Nat.ne_of_lt before⟩
  simp only [find, List.find?_map, Function.comp_def, found, Option.map_some]

/-- Keys ascend. -/
def Ascending (m : OrdMap α) : Prop := m.Pairwise fun p q => p.1 < q.1

theorem mem_insertOrAssign (member : p ∈ insertOrAssign key value m) : p = (key, value) ∨ p ∈ m := by
  induction m with
  | nil => exact Or.inl (List.mem_singleton.mp member)
  | cons q rest ih =>
    unfold insertOrAssign at member
    split at member
    · exact List.mem_cons.mp member
    · split at member
      · exact (List.mem_cons.mp member).imp_right (List.mem_cons_of_mem q)
      · rcases List.mem_cons.mp member with rfl | later
        · exact Or.inr List.mem_cons_self
        · exact (ih later).imp_right (List.mem_cons_of_mem q)

theorem mem_insertOrAssign_self (key : Nat) (value : α) (m : OrdMap α) : (key, value) ∈ insertOrAssign key value m := by
  induction m with
  | nil => exact List.mem_cons_self
  | cons q rest ih =>
    unfold insertOrAssign
    split
    · exact List.mem_cons_self
    · split
      · exact List.mem_cons_self
      · exact List.mem_cons_of_mem _ ih

theorem mem_insertOrAssign_of_ne (member : p ∈ m) (other : p.1 ≠ key) : p ∈ insertOrAssign key value m := by
  induction m with
  | nil => cases member
  | cons q rest ih =>
    unfold insertOrAssign
    split
    · exact List.mem_cons_of_mem _ member
    · split
      · rename_i same
        rcases List.mem_cons.mp member with rfl | later
        · exact absurd same.symm other
        · exact List.mem_cons_of_mem _ later
      · rcases List.mem_cons.mp member with rfl | later
        · exact List.mem_cons_self
        · exact List.mem_cons_of_mem _ (ih later)

theorem Ascending.insertOrAssign (ascending : m.Ascending) (key : Nat) (value : α) :
    (m.insertOrAssign key value).Ascending := by
  induction m with
  | nil => exact List.pairwise_singleton _ _
  | cons q rest ih =>
    obtain ⟨before, later⟩ := List.pairwise_cons.mp ascending
    unfold OrdMap.insertOrAssign
    split
    · rename_i less
      refine List.pairwise_cons.mpr ⟨fun p member => ?_, ascending⟩
      rcases List.mem_cons.mp member with rfl | inRest
      · exact less
      · exact less.trans (before p inRest)
    · split
      · rename_i same
        exact List.pairwise_cons.mpr ⟨fun p member => same ▸ before p member, later⟩
      · refine List.pairwise_cons.mpr ⟨fun p member => ?_, ih later⟩
        rcases mem_insertOrAssign member with rfl | inRest
        · simp only
          omega
        · exact before p inRest

/-- A search by value stops at a matching entry or at a smaller key. -/
theorem Ascending.find?_le (ascending : m.Ascending) (p : α → Bool)
    (member : (key, value) ∈ m) (here : p value = true) :
    ∃ q, m.find? (fun q => p q.2) = some q ∧ (q = (key, value) ∨ q.1 < key) := by
  induction m with
  | nil => cases member
  | cons q rest ih =>
    obtain ⟨before, later⟩ := List.pairwise_cons.mp ascending
    by_cases first : p q.2 = true
    · refine ⟨q, by simp [first], ?_⟩
      rcases List.mem_cons.mp member with same | inRest
      · exact Or.inl same.symm
      · exact Or.inr (before _ inRest)
    · rcases List.mem_cons.mp member with rfl | inRest
      · exact absurd here first
      · rw [List.find?_cons_of_neg (by simpa using first)]
        exact ih later inRest

theorem Ascending.keys_nodup (ascending : m.Ascending) : m.keys.Nodup := by
  rw [keys, List.nodup_iff_pairwise_ne, List.pairwise_map]
  exact ascending.imp Nat.ne_of_lt

theorem Ascending.eq_map_range (ascending : m.Ascending) {f : Nat → α}
    (values : ∀ p ∈ m, p.1 < n ∧ p.2 = f p.1) (full : n ≤ m.length) : m = (List.range n).map fun i => (i, f i) := by
  have below : m.keys ⊆ List.range n := by
    intro key member
    obtain ⟨p, inside, rfl⟩ := List.mem_map.mp member
    exact List.mem_range.mpr (values p inside).1
  have perm : m.keys.Perm (List.range n) :=
    (List.subperm_of_subset ascending.keys_nodup below).perm_of_length_le (by simpa [keys] using full)
  have sorted : m.keys.Pairwise (· < ·) := List.pairwise_map.mpr ascending
  have same : m.keys = List.range n :=
    perm.eq_of_pairwise (fun _ _ _ _ less greater => absurd less (Nat.lt_asymm greater)) sorted List.pairwise_lt_range
  rw [← same, keys, List.map_map]
  refine (List.map_id m).symm.trans (List.map_congr_left fun p inside => ?_)
  exact Prod.ext rfl (values p inside).2

theorem le_length_of_keys (all : ∀ i < n, ∃ value, (i, value) ∈ m) : n ≤ m.length := by
  have inside : List.range n ⊆ m.keys := by
    intro i member
    obtain ⟨value, found⟩ := all i (List.mem_range.mp member)
    exact List.mem_map.mpr ⟨_, found, rfl⟩
  have bound := (List.subperm_of_subset List.nodup_range inside).length_le
  simpa [keys] using bound

/-- `std::map::insert`: a key that is there keeps its value. -/
def insertNew (key : Nat) (value : α) (m : OrdMap α) : OrdMap α :=
  if (m.find key).isSome then m else m.insertOrAssign key value

theorem Ascending.insertNew (ascending : m.Ascending) (key : Nat) (value : α) : (m.insertNew key value).Ascending := by
  unfold OrdMap.insertNew
  split
  · exact ascending
  · exact ascending.insertOrAssign key value

theorem mem_insertNew (member : p ∈ m.insertNew key value) : p = (key, value) ∨ p ∈ m := by
  unfold insertNew at member
  split at member
  · exact Or.inr member
  · exact mem_insertOrAssign member

theorem key_mem_insertNew (key : Nat) (value : α) (m : OrdMap α) : key ∈ (m.insertNew key value).keys := by
  unfold insertNew
  split
  · rename_i found
    obtain ⟨other, at_key⟩ := Option.isSome_iff_exists.mp found
    obtain ⟨p, first, -⟩ := Option.map_eq_some_iff.mp at_key
    have same : p.1 = key := by simpa using List.find?_some first
    exact List.mem_map.mpr ⟨p, List.mem_of_find?_eq_some first, same⟩
  · exact List.mem_map.mpr ⟨_, mem_insertOrAssign_self key value m, rfl⟩

theorem keys_subset_insertNew (key : Nat) (value : α) (m : OrdMap α) : m.keys ⊆ (m.insertNew key value).keys := by
  intro id member
  by_cases same : id = key
  · exact same ▸ key_mem_insertNew key value m
  · obtain ⟨p, inside, rfl⟩ := List.mem_map.mp member
    unfold insertNew
    split
    · exact member
    · exact List.mem_map.mpr ⟨p, mem_insertOrAssign_of_ne inside same, rfl⟩

end OrdMap
