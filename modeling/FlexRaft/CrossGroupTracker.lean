import FlexRaft.Lib.BitMask

namespace FlexRaft

/-- The groups that have committed an entry, as bits, and the callback that waits for all of them. -/
structure CommitState (κ : Type) where
  mask : BitVec 64
  cb : κ
  deriving DecidableEq, Repr

structure CrossGroupTracker (κ : Type) where
  numGroups : Int
  states : Nat → Option (CommitState κ)

namespace CrossGroupTracker

variable {κ : Type}

def setState (t : CrossGroupTracker κ) (eid : Nat) (state : Option (CommitState κ)) : CrossGroupTracker κ :=
  { t with states := fun e => if e = eid then state else t.states e }

def register (t : CrossGroupTracker κ) (eid : Nat) (cb : κ) : CrossGroupTracker κ :=
  t.setState eid (some { mask := 0, cb := cb })

/-- `OnLocalCommit` with the callback it runs. `none` is a shift by the width of the word or more, which is undefined. -/
def onLocalCommit (t : CrossGroupTracker κ) (eid gid : Nat) : Option (CrossGroupTracker κ × Option κ) :=
  match t.states eid with
  | none => some (t, none)
  | some state =>
    if 64 ≤ gid then none
    else if state.mask &&& 1#64 <<< gid ≠ 0#64 then some (t, none)
    else
      let mask := state.mask ||| 1#64 <<< gid
      if (mask.cpop.toNat : Int) = t.numGroups then some (t.setState eid none, some state.cb)
      else some (t.setState eid (some { state with mask := mask }), none)

/-- Calls one after the other, with all callbacks they run. -/
def onLocalCommits : List (Nat × Nat) → CrossGroupTracker κ → Option (CrossGroupTracker κ × List (Nat × κ))
  | [], t => some (t, [])
  | (eid, gid) :: calls, t =>
    (t.onLocalCommit eid gid).bind fun first =>
      (onLocalCommits calls first.1).map fun rest => (rest.1, (first.2.map fun cb => (eid, cb)).toList ++ rest.2)

/-- The groups that `calls` report for an entry. -/
def committed (eid : Nat) : List (Nat × Nat) → Finset Nat
  | [] => ∅
  | call :: calls => if call.1 = eid then insert call.2 (committed eid calls) else committed eid calls

/-- What has been run for an entry once `groups` have committed it: the callback, if these are all groups. -/
def fired (n eid : Nat) (cb : κ) (groups : Finset Nat) : List (Nat × κ) := if groups.card = n then [(eid, cb)] else []

/-- The callback of `eid` has run if all groups have committed; until then it waits with the groups that have. -/
structure Tracks (n eid : Nat) (cb : κ) (groups : Finset Nat) (t : CrossGroupTracker κ) : Prop where
  numGroups : t.numGroups = n
  waiting : groups.card < n → ∃ mask, t.states eid = some { mask := mask, cb := cb } ∧ BitMask.members mask = groups
  done : groups.card = n → t.states eid = none
  inside : groups ⊆ Finset.range n

section Runs

variable {n eid : Nat} {cb : κ} {groups : Finset Nat} {t : CrossGroupTracker κ} {gid : Nat}

theorem Tracks.card_le (tracks : Tracks n eid cb groups t) : groups.card ≤ n := by
  have le := Finset.card_le_card tracks.inside
  rwa [Finset.card_range] at le

theorem tracks_register (eid : Nat) (cb : κ) (positive : 0 < n) (t : CrossGroupTracker κ) (count : t.numGroups = n) :
    Tracks n eid cb ∅ (t.register eid cb) where
  numGroups := count
  waiting _ := ⟨0, if_pos rfl, BitMask.members_zero⟩
  done full := absurd full positive.ne
  inside := Finset.empty_subset _

theorem Tracks.other (tracks : Tracks n eid cb groups t) {other : Nat} (apart : other ≠ eid) (word : gid < 64) :
    ∃ t' ran, t.onLocalCommit other gid = some (t', ran) ∧ Tracks n eid cb groups t' := by
  have kept : ∀ state, Tracks n eid cb groups (t.setState other state) := by
    intro state
    have same : (t.setState other state).states eid = t.states eid := if_neg apart.symm
    exact ⟨tracks.numGroups, fun few => same ▸ tracks.waiting few, fun full => same ▸ tracks.done full, tracks.inside⟩
  unfold onLocalCommit
  cases t.states other with
  | none => exact ⟨t, none, rfl, tracks⟩
  | some state =>
    dsimp only
    rw [if_neg (Nat.not_le.mpr word)]
    split
    · exact ⟨t, none, rfl, tracks⟩
    · split
      · exact ⟨_, _, rfl, kept none⟩
      · exact ⟨_, _, rfl, kept _⟩

theorem Tracks.own (tracks : Tracks n eid cb groups t) (word : gid < 64) (group : gid < n) :
    ∃ t' ran, t.onLocalCommit eid gid = some (t', ran) ∧ Tracks n eid cb (insert gid groups) t' ∧
      fired n eid cb groups ++ (ran.map fun cb => (eid, cb)).toList = fired n eid cb (insert gid groups) := by
  have inside : insert gid groups ⊆ Finset.range n := Finset.insert_subset (Finset.mem_range.mpr group) tracks.inside
  unfold onLocalCommit fired
  rcases tracks.card_le.lt_or_eq with few | full
  · obtain ⟨mask, state, members⟩ := tracks.waiting few
    rw [state, if_neg few.ne]
    dsimp only
    rw [if_neg (Nat.not_le.mpr word)]
    by_cases old : gid ∈ groups
    · have set : mask &&& 1#64 <<< gid ≠ 0#64 := by
        rw [Ne, BitMask.and_bit_eq_zero_iff word, members]
        exact not_not.mpr old
      rw [if_pos set, Finset.insert_eq_of_mem old, if_neg few.ne]
      exact ⟨t, none, rfl, tracks, rfl⟩
    · have clear : ¬ mask &&& 1#64 <<< gid ≠ 0#64 := by
        rw [not_not, BitMask.and_bit_eq_zero_iff word, members]
        exact old
      have count : ((mask ||| 1#64 <<< gid).cpop.toNat : Int) = (insert gid groups).card := by
        rw [BitMask.toNat_cpop_eq_card, BitMask.members_or_bit word, members]
      rw [if_neg clear, count, tracks.numGroups]
      by_cases last : (insert gid groups).card = n
      · rw [if_pos (congrArg _ last), if_pos last]
        exact ⟨_, _, rfl, ⟨tracks.numGroups, fun less => absurd last less.ne, fun _ => if_pos rfl, inside⟩, rfl⟩
      · rw [if_neg (mt Int.natCast_inj.mp last), if_neg last]
        refine ⟨_, _, rfl, ⟨tracks.numGroups, fun _ => ⟨_, if_pos rfl, ?_⟩, fun full => absurd full last, inside⟩, rfl⟩
        rw [BitMask.members_or_bit word, members]
  · -- All groups have committed, and the entry is not there any more.
    have all : groups = Finset.range n :=
      Finset.eq_of_subset_of_card_le tracks.inside (by rw [Finset.card_range, full])
    have same : insert gid groups = groups := Finset.insert_eq_of_mem (all ▸ Finset.mem_range.mpr group)
    rw [tracks.done full, same, if_pos full]
    exact ⟨t, none, rfl, tracks, rfl⟩

theorem Tracks.run (tracks : Tracks n eid cb groups t) (word : n ≤ 64) {calls : List (Nat × Nat)}
    (ids : ∀ call ∈ calls, call.2 < n) : ∃ t' log, onLocalCommits calls t = some (t', log) ∧
      fired n eid cb groups ++ log.filter (fun ran => ran.1 = eid) = fired n eid cb (groups ∪ committed eid calls) := by
  induction calls generalizing groups t with
  | nil =>
    refine ⟨t, [], rfl, ?_⟩
    rw [committed, Finset.union_empty, List.filter_nil, List.append_nil]
  | cons call calls ih =>
    obtain ⟨entry, gid⟩ := call
    obtain ⟨group, later⟩ := List.forall_mem_cons.mp ids
    have bit : gid < 64 := lt_of_lt_of_le group word
    rw [onLocalCommits, committed]
    by_cases own : entry = eid
    · subst own
      obtain ⟨t₁, ran, first, tracks₁, fires⟩ := tracks.own bit group
      obtain ⟨t', log, rest, all⟩ := ih tracks₁ later
      rw [first, Option.bind_some]
      dsimp only
      rw [rest, Option.map_some]
      refine ⟨_, _, rfl, ?_⟩
      have listed : ((ran.map fun cb => (entry, cb)).toList).filter (fun ran => ran.1 = entry) =
          (ran.map fun cb => (entry, cb)).toList := by
        cases ran <;> simp
      rw [List.filter_append, listed, ← List.append_assoc, fires, all, if_pos rfl, Finset.union_insert, Finset.insert_union]
    · obtain ⟨t₁, ran, first, tracks₁⟩ := tracks.other own bit
      obtain ⟨t', log, rest, all⟩ := ih tracks₁ later
      rw [first, Option.bind_some]
      dsimp only
      rw [rest, Option.map_some]
      refine ⟨_, _, rfl, ?_⟩
      have listed : ((ran.map fun cb => (entry, cb)).toList).filter (fun ran => ran.1 = eid) = [] := by
        cases ran <;> simp [own]
      rw [List.filter_append, listed, List.nil_append, all, if_neg own]

end Runs

/-- After any calls with the ids of `n` groups the callback of a registered entry has run once if all groups have
committed the entry, and not at all before. -/
def FiresOnce (n : Nat) (cb : κ) : Prop :=
  ∀ (t : CrossGroupTracker κ) (eid : Nat) (calls : List (Nat × Nat)), t.numGroups = n → (∀ call ∈ calls, call.2 < n) →
    ∃ t' log, onLocalCommits calls (t.register eid cb) = some (t', log) ∧
      log.filter (fun ran => ran.1 = eid) = if (committed eid calls).card = n then [(eid, cb)] else []

/-- A word has room for 64 groups. -/
theorem fires_once_iff {n : Nat} (positive : 0 < n) (cb : κ) : FiresOnce n cb ↔ n ≤ 64 := by
  constructor
  · intro once
    by_contra many
    obtain ⟨t', log, run, -⟩ := once { numGroups := n, states := fun _ => none } 0 [(0, 64)] rfl (by
      intro call member
      rw [List.mem_singleton.mp member]
      omega)
    have undefined : onLocalCommits [(0, 64)] (register { numGroups := n, states := fun _ => none } 0 cb) = none := rfl
    rw [undefined] at run
    cases run
  · intro word t eid calls count ids
    obtain ⟨t', log, run, ran⟩ := (tracks_register eid cb positive t count).run word ids
    have before : fired n eid cb ∅ = [] := if_neg positive.ne
    rw [before, List.nil_append, Finset.empty_union] at ran
    exact ⟨t', log, run, ran⟩

theorem fires_once_iff_threeGroups : FiresOnce 3 () := (fires_once_iff (by decide) ()).mpr (by decide)

def sixtyFiveGroups : CrossGroupTracker Unit := { numGroups := 65, states := fun _ => none }

/-- The commit of the last of 65 groups shifts by 64. -/
theorem last_group_undefined : onLocalCommits ((List.range 65).map fun gid => (7, gid)) (sixtyFiveGroups.register 7 ()) = none ∧
    ¬ FiresOnce 65 () := by
  have undefined : onLocalCommits ((List.range 65).map fun gid => (7, gid)) (sixtyFiveGroups.register 7 ()) = none := by
    decide +kernel
  refine ⟨undefined, fun once => ?_⟩
  obtain ⟨t', log, run, -⟩ := once sixtyFiveGroups 7 ((List.range 65).map fun gid => (7, gid)) rfl (by decide)
  rw [undefined] at run
  cases run

end CrossGroupTracker

end FlexRaft
