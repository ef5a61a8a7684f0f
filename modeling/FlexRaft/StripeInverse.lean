import Mathlib.Data.List.TakeWhile
import FlexRaft.StripeCommand
import FlexRaft.StripeGet
import FlexRaft.PayloadHandled

namespace FlexRaft

namespace EncodeStripeCall

variable {n : Nat}

/-- What the modes have in common: `placement` has each fragment once, and the first `k` fragments are the data. -/
structure Encodes (call : EncodeStripeCall) (result : StripeEncodeResult) (placement : List FragmentPlacement) : Prop where
  stripe : ∃ l r m, result.stripe = call.stripe call.k l r m placement ∧ l ≤ 64 ∧ r ≤ 64 ∧ m ≤ 64
  several : 1 < call.k
  few : call.k ≤ 16
  ids : (placement.map FragmentPlacement.fragId).Perm (List.range result.allFragments.length)
  count : result.allFragments.length ≤ 64
  nodes : ∀ fp ∈ placement, fp.nodeId < 64
  kinds : ∀ fp ∈ placement, fp.kind = .kData ↔ fp.fragId < call.k
  fragments : ∀ i < call.k, result.allFragments[i]? = some (Encoder.dataFragment call.data call.k i)

/-- The placement begins with the data fragments. -/
def InFront (call : EncodeStripeCall) (placement : List FragmentPlacement) : Prop :=
  ∀ fp ∈ placement.take call.k, fp.kind = .kData

/-- In the mode `kRs3F` the shuffle has left the data fragments in front, in whatever order. -/
def DataInFront (call : EncodeStripeCall) (lib : StripeLibraries) : Prop :=
  call.mode = .kRs3F → ∀ fragId ∈ (call.shuffled lib).take call.k, fragId < call.k

instance (call : EncodeStripeCall) (lib : StripeLibraries) : Decidable (call.DataInFront lib) :=
  inferInstanceAs (Decidable (_ → _))

section Modes

variable {lib : StripeLibraries} {call : EncodeStripeCall} {result : StripeEncodeResult}

theorem rsPlacement_kind (k fragId nodeId : Nat) : (rsPlacement k fragId nodeId).kind = .kData ↔ fragId < k := by
  unfold rsPlacement
  split
  · rename_i data
    exact ⟨fun _ => data, fun _ => rfl⟩
  · rename_i parity
    exact ⟨FragmentKind.noConfusion, fun data => absurd data parity⟩

theorem getElem?_encodeFragments {isal : Isal} {data : Slice} {k m i : Nat} (below : i < k) (inside : i < n) :
    ((List.range n).map (Encoder.encodeFragment isal data k m))[i]? = some (Encoder.dataFragment data k i) := by
  rw [List.getElem?_map, List.getElem?_range inside, Option.map_some, Encoder.encodeFragment_of_lt below]

theorem encodes_rsF (enough : ¬ call.n < 3) (limits : Encoder.InLimits call.k (call.nodes / 2)) :
    call.Encodes (call.rsFResult lib) ((List.range call.nodes).map fun i => rsPlacement call.k i i) := by
  have three : 3 ≤ call.nodes := by
    unfold nodes
    omega
  have small : call.nodes / 2 + 1 ≤ 16 := limits.1
  refine ⟨⟨0, 0, call.nodes / 2, rfl, by omega, by omega, by omega⟩, ?_, limits.1, ?_, ?_, ?_, ?_, fun i below => ?_⟩
  · unfold k
    omega
  · rw [List.map_map, rsFResult, List.length_map, List.length_range]
    exact .of_eq (List.map_id _)
  · rw [rsFResult, List.length_map, List.length_range]
    omega
  · intro fp member
    obtain ⟨i, inside, rfl⟩ := List.mem_map.mp member
    have bound := List.mem_range.mp inside
    change i < 64
    omega
  · intro fp member
    obtain ⟨i, _, rfl⟩ := List.mem_map.mp member
    exact rsPlacement_kind call.k i i
  · refine getElem?_encodeFragments below ?_
    unfold k at below
    omega

theorem inFront_rsF : call.InFront ((List.range call.nodes).map fun i => rsPlacement call.k i i) := by
  intro fp member
  rw [← List.map_take, List.take_range] at member
  obtain ⟨i, inside, rfl⟩ := List.mem_map.mp member
  have bound := List.mem_range.mp inside
  exact (rsPlacement_kind call.k i i).mpr (by omega)

theorem encodes_rs3F (enough : ¬ call.n < 5) (odd : call.nodes % 2 = 1)
    (limits : Encoder.InLimits call.k (3 * (call.nodes / 2) + 1)) : call.Encodes (call.rs3FResult lib)
      ((call.shuffled lib).zipIdx.map fun p => rsPlacement call.k p.1 (p.2 / 2)) := by
  have five : 5 ≤ call.nodes := by
    unfold nodes
    omega
  have small : 3 * (call.nodes / 2) + 1 ≤ 32 := limits.2
  have spread := call.perm_shuffled lib
  have length : (call.shuffled lib).length = 2 * call.nodes := by rw [spread.length_eq, List.length_range]
  refine ⟨⟨0, 0, 3 * (call.nodes / 2) + 1, rfl, by omega, by omega, by omega⟩, ?_, limits.1, ?_, ?_, ?_, ?_,
    fun i below => ?_⟩
  · unfold k
    omega
  · rw [List.map_map, rs3FResult, List.length_map, List.length_range]
    have same : (call.shuffled lib).zipIdx.map (FragmentPlacement.fragId ∘ fun p => rsPlacement call.k p.1 (p.2 / 2)) =
        call.shuffled lib := List.zipIdx_map_fst 0 _
    rw [same]
    exact spread
  · rw [rs3FResult, List.length_map, List.length_range]
    omega
  · intro fp member
    obtain ⟨p, inside, rfl⟩ := List.mem_map.mp member
    have bound := List.snd_lt_of_mem_zipIdx inside
    change p.2 / 2 < 64
    omega
  · intro fp member
    obtain ⟨p, _, rfl⟩ := List.mem_map.mp member
    exact rsPlacement_kind call.k p.1 (p.2 / 2)
  · refine getElem?_encodeFragments below ?_
    unfold k at below
    omega

theorem inFront_rs3F : call.InFront ((call.shuffled lib).zipIdx.map fun p => rsPlacement call.k p.1 (p.2 / 2)) ↔
    ∀ fragId ∈ (call.shuffled lib).take call.k, fragId < call.k := by
  have front : ((call.shuffled lib).zipIdx.take call.k).map Prod.fst = (call.shuffled lib).take call.k := by
    rw [List.map_take, List.zipIdx_map_fst]
  unfold InFront
  rw [← List.map_take, ← front]
  simp only [List.forall_mem_map, rsPlacement_kind]

theorem encodes_lrc {p : LrcParams} {placement : List FragmentPlacement}
    (derived : LrcParams.fromCapacity call.nodes 2 = some p) (limits : Encoder.InLimits p.k p.r)
    (placed : call.lrcPlacement lib p = .ok placement) : call.InFront placement ∧ call.Encodes {
      stripe := call.stripe p.k p.l p.r 0 placement
      allFragments := LrcEncoder.encodeStripe lib.isal p call.data } placement := by
  obtain ⟨first, second, placer, placement', parts, perm, params, given, orthogonal, placed'⟩ := lrcPlacement_eq lib derived
  obtain ⟨five, _, two, k, divides, total⟩ := LrcParams.fromCapacity_eq_some derived
  have same : placement' = placement := Except.ok.inj (placed'.symm.trans placed)
  subst same
  have sameK : p.k = call.k := k
  have split : placer.p.k = placer.p.l * placer.p.localK := by rw [params, two, ← divides]
  have few : p.k ≤ 16 := limits.1
  have parities : p.r ≤ 32 := limits.2
  have nodes : ∀ fp ∈ placement', fp.nodeId < call.nodes := by
    intro fp member
    have listed := nodeId_mem_partitions given orthogonal (params ▸ two) fp member
    exact List.mem_range.mp (perm.mem_iff.mp listed)
  refine ⟨?_, ⟨p.l, p.r, 0, ?_, by omega, by omega, by omega⟩, by omega, by omega, ?_, ?_, ?_, ?_, ?_⟩
  · unfold InFront
    rw [← sameK, ← params]
    exact orthogonal.kind_of_mem_take split
  · rw [sameK]
  · rw [orthogonal.ids, params, LrcEncoder.length_encodeStripe]
  · rw [LrcEncoder.length_encodeStripe, total]
    omega
  · intro fp member
    have bound := nodes fp member
    omega
  · intro fp member
    rw [orthogonal.kind_iff split member, params, sameK]
  · intro i below
    rw [← sameK] at below ⊢
    exact LrcEncoder.encodeStripe_getElem? below

/-- Whatever the mode, a stripe that was encoded has its data in front unless a shuffle has moved it. -/
theorem encodes_of_encoded (encoded : call.encodeStripePayload lib = .encoded result) :
    ∃ placement, call.Encodes result placement ∧ (call.InFront placement ↔ call.DataInFront lib) := by
  unfold encodeStripePayload at encoded
  split at encoded
  · cases encoded
  · rename_i three
    cases mode : call.mode with
    | kRsF =>
      have other : call.DataInFront lib := fun same => EncodingMode.noConfusion (mode.symm.trans same)
      rw [mode] at encoded
      by_cases limits : Encoder.InLimits call.k (call.nodes / 2)
      · rw [encodeRsF_eq limits] at encoded
        cases encoded
        exact ⟨_, encodes_rsF three limits, fun _ => other, fun _ => inFront_rsF⟩
      · have overrun : call.encodeRsF lib = .overrun := if_pos limits
        rw [overrun] at encoded
        cases encoded
    | kRs3F =>
      rw [mode] at encoded
      dsimp only at encoded
      by_cases few : call.n < 5
      · have refused : call.encodeRs3F lib = .failed := if_pos few
        rw [refused] at encoded
        cases encoded
      by_cases limits : Encoder.InLimits call.k (3 * (call.nodes / 2) + 1)
      · rw [encodeRs3F_eq few limits] at encoded
        split at encoded
        · rename_i odd
          cases encoded
          refine ⟨_, encodes_rs3F few odd limits, inFront_rs3F.trans ?_⟩
          exact ⟨fun front _ => front, fun front => front mode⟩
        · cases encoded
      · have overrun : call.encodeRs3F lib = .overrun := (if_neg few).trans (if_pos limits)
        rw [overrun] at encoded
        cases encoded
    | kLrc =>
      have other : call.DataInFront lib := fun same => EncodingMode.noConfusion (mode.symm.trans same)
      rw [mode] at encoded
      dsimp only at encoded
      unfold encodeLrc at encoded
      split at encoded
      · cases encoded
      · cases derived : LrcParams.fromCapacity call.nodes 2 with
        | none =>
          rw [derived] at encoded
          cases encoded
        | some p =>
          rw [derived] at encoded
          dsimp only at encoded
          split at encoded
          · cases encoded
          · rename_i limits
            cases placed : call.lrcPlacement lib p with
            | error error =>
              rw [placed] at encoded
              cases encoded
            | ok placement =>
              rw [placed] at encoded
              cases encoded
              obtain ⟨front, encodes⟩ := encodes_lrc derived (not_not.mp limits) placed
              exact ⟨placement, encodes, fun _ => other, fun _ => front⟩

end Modes

/-- Where `n` items have a property, the first ones that have it are `n` if the first `n` have it. -/
theorem length_takeWhile_eq_iff {α : Type} {p : α → Bool} {items : List α} (count : items.countP p = n) :
    (items.takeWhile p).length = n ↔ ∀ a ∈ items.take n, p a = true := by
  have front := List.prefix_iff_eq_take.mp (List.takeWhile_prefix p (l := items))
  constructor
  · intro length a member
    rw [length] at front
    rw [← front] at member
    exact List.mem_takeWhile_imp member
  · intro all
    have enough : n ≤ items.length := count ▸ List.countP_le_length
    have whole : (items.take n).length ≤ (items.takeWhile p).length := by
      have split : items.takeWhile p = items.take n ++ (items.drop n).takeWhile p := by
        conv_lhs => rw [← List.take_append_drop n items]
        exact List.takeWhile_append_of_pos all
      rw [split, List.length_append]
      exact Nat.le_add_right _ _
    have most : (items.takeWhile p).length ≤ n := by
      have each : (items.takeWhile p).countP p = (items.takeWhile p).length :=
        List.countP_eq_length.mpr fun a member => List.mem_takeWhile_imp member
      rw [← each, ← count]
      exact (List.takeWhile_sublist p).countP_le
    rw [List.length_take, Nat.min_eq_left enough] at whole
    omega

theorem countP_range_lt {k : Nat} (below : k ≤ n) : (List.range n).countP (fun i => decide (i < k)) = k := by
  obtain ⟨m, rfl⟩ := Nat.exists_eq_add_of_le below
  have first : (List.range k).countP (fun i => decide (i < k)) = k := by
    rw [List.countP_eq_length.mpr fun i member => decide_eq_true (List.mem_range.mp member), List.length_range]
  have later : ((List.range m).map (k + ·)).countP (fun i => decide (i < k)) = 0 := by
    refine List.countP_eq_zero.mpr fun i member => ?_
    obtain ⟨j, _, rfl⟩ := List.mem_map.mp member
    simp
  rw [List.range_add, List.countP_append, first, later, Nat.add_zero]

/-- The metadata as a reader gets it, with what is left of the size in 32 bits. -/
def metaRead (call : EncodeStripeCall) (result : StripeEncodeResult) (userKey : Slice) : StripeLogMeta :=
  (result.keyed call.groupId call.eid userKey call.data.length).cut

section Encoded

variable {call : EncodeStripeCall} {result : StripeEncodeResult} {placement : List FragmentPlacement}

theorem Encodes.k_le (encodes : call.Encodes result placement) : call.k ≤ result.allFragments.length := by
  have several := encodes.several
  have last := encodes.fragments (call.k - 1) (by omega)
  have bound := (List.getElem?_eq_some_iff.mp last).1
  omega

theorem Encodes.countP_data (encodes : call.Encodes result placement) :
    placement.countP (fun fp => decide (fp.kind = .kData)) = call.k := by
  have ids : placement.countP (fun fp => decide (fp.kind = .kData)) =
      (placement.map FragmentPlacement.fragId).countP (fun id => decide (id < call.k)) := by
    rw [List.countP_map]
    refine List.countP_congr fun fp member => ?_
    simp only [Function.comp_apply, decide_eq_true_eq]
    exact encodes.kinds fp member
  rw [ids, encodes.ids.countP_eq, countP_range_lt encodes.k_le]

theorem takeWhile_toWords (placement : List FragmentPlacement) :
    (placement.map FragmentPlacement.toWords).takeWhile (fun fp => fp.kind = 0) =
      (placement.takeWhile fun fp => decide (fp.kind = .kData)).map FragmentPlacement.toWords := by
  rw [List.takeWhile_map]
  congr 2
  funext fp
  cases same : fp.kind <;> simp [FragmentPlacement.toWords, FragmentKind.word, same]

theorem Encodes.length_takeWhile_iff (encodes : call.Encodes result placement) :
    ((placement.map FragmentPlacement.toWords).takeWhile fun fp => fp.kind = 0).length = call.k ↔ call.InFront placement := by
  rw [takeWhile_toWords, List.length_map, length_takeWhile_eq_iff encodes.countP_data]
  simp only [decide_eq_true_eq, InFront]

theorem Encodes.asked (encodes : call.Encodes result placement) (front : call.InFront placement) :
    ∀ i < call.k, ∃ fp ∈ (placement.map FragmentPlacement.toWords).takeWhile (fun fp => fp.kind = 0), fp.fragId = i := by
  have length := encodes.length_takeWhile_iff.mpr front
  rw [takeWhile_toWords] at length ⊢
  generalize asked : placement.takeWhile (fun fp => decide (fp.kind = .kData)) = todo at length ⊢
  have inside : ∀ fp ∈ todo, fp ∈ placement ∧ fp.kind = .kData := by
    intro fp member
    rw [← asked] at member
    have data := List.mem_takeWhile_imp member
    exact ⟨List.takeWhile_subset _ member, of_decide_eq_true data⟩
  have distinct : (todo.map FragmentPlacement.fragId).Nodup := by
    have all : (placement.map FragmentPlacement.fragId).Nodup := encodes.ids.nodup_iff.mpr List.nodup_range
    rw [← asked]
    exact all.sublist ((List.takeWhile_sublist _).map _)
  have below : ∀ id ∈ todo.map FragmentPlacement.fragId, id < call.k := by
    intro id member
    obtain ⟨fp, listed, rfl⟩ := List.mem_map.mp member
    exact (encodes.kinds fp (inside fp listed).1).mp (inside fp listed).2
  have full : call.k ≤ (todo.map FragmentPlacement.fragId).length := by
    rw [List.length_map] at length ⊢
    omega
  intro i bound
  obtain ⟨fp, listed, same⟩ := List.mem_map.mp ((mem_of_full distinct below full).2 i bound)
  exact ⟨fp.toWords, List.mem_map_of_mem listed, same⟩

theorem Encodes.fits (encodes : call.Encodes result placement) {userKey : Slice} (key : userKey.length < UInt32.size)
    (eid : call.eid < 2 ^ 64) (group : call.groupId < UInt32.size) : (call.metaRead result userKey).Fits := by
  obtain ⟨l, r, m, stripe, small, small', small''⟩ := encodes.stripe
  have few := encodes.few
  have words : 64 < UInt32.size := by decide
  have inside : ∀ fp ∈ placement, fp.Fits := by
    intro fp member
    have id := List.mem_range.mp (encodes.ids.mem_iff.mp (List.mem_map_of_mem member))
    exact ⟨(id.trans_le encodes.count).trans words, (encodes.nodes fp member).trans words⟩
  have count : placement.length = result.allFragments.length := by
    rw [← List.length_map FragmentPlacement.fragId, encodes.ids.length_eq, List.length_range]
  unfold metaRead StripeEncodeResult.keyed
  rw [stripe]
  refine ⟨key, eid, eid, group, Nat.mod_lt _ (by decide), ?_, ?_, ?_, ?_, ?_, ?_, fun fp member => ?_⟩
  · cases mode : call.mode <;> simp [StripeLogMeta.cut, EncodeStripeCall.stripe, mode, EncodingMode.word]
  · exact few.trans_lt (by decide)
  · exact small.trans_lt words
  · exact small'.trans_lt words
  · exact small''.trans_lt words
  · have length : (placement.map FragmentPlacement.toWords).length = placement.length := List.length_map _
    exact (length.trans count).trans_lt (encodes.count.trans_lt words)
  · obtain ⟨fp', member', rfl⟩ := List.mem_map.mp member
    exact (inside fp' member').toWords

end Encoded

end EncodeStripeCall

/-- The payload comes out whole exactly if the padded bytes can be counted in 32 bits. -/
theorem Encoder.take_decodedSize_iff (slice : Slice) {k : Nat} (positive : 0 < k) (few : k ≤ 16) :
    (((List.range k).map (dataFragment slice k)).flatten).take (min (decodedSize k
      ((List.range k).map (dataFragment slice k)).flatten.length) (slice.length % UInt32.size)) = slice ↔
      fragmentSize slice k * k < UInt32.size := by
  have least := length_le_fragments slice positive
  have most := fragments_lt slice positive
  have length : ((List.range k).map (dataFragment slice k)).flatten.length = fragmentSize slice k * k := by
    rw [flatten_dataFragments, List.length_take, length_padded slice positive, Nat.mul_comm k, Nat.min_self]
  constructor
  · intro whole
    have size := congrArg List.length whole
    rw [List.length_take, length] at size
    have below := Nat.mod_lt slice.length (show 0 < UInt32.size by decide)
    -- The bytes that are kept are at least as many as the payload has, so it is shorter than 4 GiB. Were the padding to
    -- reach 4 GiB, fewer than `k` bytes would be kept.
    by_contra large
    have wrapped : decodedSize k (fragmentSize slice k * k) ≤ fragmentSize slice k * k - UInt32.size ∨ k = 1 := by
      unfold decodedSize
      simp only [UInt32.size] at *
      split
      · exact Or.inr (by assumption)
      · split
        · omega
        · omega
    simp only [UInt32.size] at *
    omega
  · intro small
    rw [Nat.mod_eq_of_lt (least.trans_lt small)]
    exact take_decodedSize positive small

namespace StripeNodes

open StripeStore

theorem collect_all {nodes : StripeNodes} {tryGet : Nat → Slice → GetResult} {reader stripeId k : Nat} {f : Nat → Slice}
    {todo : List StripePlacement} {fragBytes : OrdMap Slice} (asked : ∀ fp ∈ todo, fp.fragId < k)
    (fetched : ∀ fp ∈ todo, nodes.fetchFrag tryGet reader stripeId fp = some (some (f fp.fragId)))
    (ascending : fragBytes.Ascending) (values : ∀ p ∈ fragBytes, p.1 < k ∧ p.2 = f p.1)
    (all : ∀ i < k, (∃ value, (i, value) ∈ fragBytes) ∨ ∃ fp ∈ todo, fp.fragId = i) :
    nodes.collect tryGet reader stripeId todo fragBytes = some ((List.range k).map fun i => (i, f i)) := by
  induction todo generalizing fragBytes with
  | nil =>
    have full := OrdMap.le_length_of_keys fun i bound =>
      (all i bound).resolve_right fun ⟨_, missing, _⟩ => List.not_mem_nil missing
    rw [collect, ascending.eq_map_range values full]
  | cons fp rest ih =>
    rw [collect, fetched fp List.mem_cons_self, Option.bind_some]
    refine ih (fun other member => asked other (List.mem_cons_of_mem fp member))
      (fun other member => fetched other (List.mem_cons_of_mem fp member)) (ascending.insertOrAssign _ _)
      (fun p member => ?_) fun i bound => ?_
    · rcases OrdMap.mem_insertOrAssign member with rfl | old
      · exact ⟨asked fp List.mem_cons_self, rfl⟩
      · exact values p old
    · by_cases same : i = fp.fragId
      · exact Or.inl ⟨f fp.fragId, same ▸ OrdMap.mem_insertOrAssign_self _ _ _⟩
      · rcases all i bound with ⟨value, there⟩ | ⟨other, member, id⟩
        · exact Or.inl ⟨value, OrdMap.mem_insertOrAssign_of_ne there same⟩
        · rcases List.mem_cons.mp member with rfl | later
          · exact absurd id.symm same
          · exact Or.inr ⟨other, later, id⟩

/-- Every node has written what `ApplyStripeCommand` writes for the payload, whatever it had before. -/
def storing (lib : StripeLibraries) (call : EncodeStripeCall) (result : StripeEncodeResult) (userKey : Slice)
    (before : Nat → Database) : StripeNodes where
  groupId := call.groupId
  isal := lib.isal
  dbs node := (before node).write (result.batch call.groupId call.eid userKey call.data.length)
  down _ := false

/-- All nodes answer: asked for a fragment of the stripe, a peer brings what it has under the fragment's key. -/
def Answers (nodes : StripeNodes) (depth reader stripeId : Nat) : Prop :=
  ∀ node ≠ reader, ∀ fragId, nodes.getValue node (fragDbKey nodes.groupId stripeId fragId)
    (nodes.tryStripeGet depth node (fragDbKey nodes.groupId stripeId fragId)) =
      some (nodes.dbs node (fragDbKey nodes.groupId stripeId fragId))

section Storing

variable {lib : StripeLibraries} {call : EncodeStripeCall} {result : StripeEncodeResult} {userKey : Slice}
  {before : Nat → Database} {placement : List FragmentPlacement} {depth reader : Nat}

theorem fetchFrag_storing (encodes : call.Encodes result placement)
    (answers : (storing lib call result userKey before).Answers depth reader call.eid) {fp : StripePlacement}
    (placed : fp ∈ result.stripe.placement) (data : fp.fragId < call.k) :
    (storing lib call result userKey before).fetchFrag ((storing lib call result userKey before).tryStripeGet depth) reader
      call.eid fp = some (some (Encoder.dataFragment call.data call.k fp.fragId)) := by
  have int : fp.fragId < 2 ^ 31 := (data.trans_le encodes.few).trans (by decide)
  have stored : ∀ node, (storing lib call result userKey before).dbs node (fragDbKey call.groupId call.eid fp.fragId) =
      some (Encoder.dataFragment call.data call.k fp.fragId) := fun node =>
    StripeEncodeResult.write_batch_fragment (before node) placed int (encodes.fragments _ data)
  unfold fetchFrag
  by_cases here : fp.nodeId = reader
  · rw [if_pos here]
    exact congrArg some (stored reader)
  · have answer := answers fp.nodeId here fp.fragId
    rw [if_neg here, if_neg (show ¬ (storing lib call result userKey before).down fp.nodeId = true from Bool.false_ne_true),
      answer]
    exact congrArg some (stored fp.nodeId)

/-- Each mode has its branch of the switch; with all data fragments they give the same. -/
theorem decodeStripe_data (isal : Isal) {stripe : StripeLogMeta} {mode : EncodingMode} (word : stripe.encodingMode = mode.word)
    (several : 1 < stripe.k) (value : Slice) :
    decodeStripe isal stripe ((List.range stripe.k).map fun i => (i, Encoder.dataFragment value stripe.k i)) =
      .decoded ((List.range stripe.k).map (Encoder.dataFragment value stripe.k)).flatten := by
  have slice : ∀ m, Encoder.decodeSlice isal ((List.range stripe.k).map fun i => (i, Encoder.dataFragment value stripe.k i))
      stripe.k m = .decoded ((List.range stripe.k).map (Encoder.dataFragment value stripe.k)).flatten := fun m => by
    rw [Encoder.decodeSlice, if_neg several.ne', Encoder.decodeSliceHelper_data isal (by omega)]
  unfold decodeStripe
  rw [word, slice, slice]
  cases mode <;> rfl

theorem metadata_storing (encodes : call.Encodes result placement) (key : userKey.length < UInt32.size)
    (eid : call.eid < 2 ^ 64) (group : call.groupId < UInt32.size) :
    ((storing lib call result userKey before).dbs reader (stripeMetaDbKey call.groupId userKey)).bind
      StripeLogMeta.deserialize = some (call.metaRead result userKey) := by
  have stored : (storing lib call result userKey before).dbs reader (stripeMetaDbKey call.groupId userKey) =
      some (result.keyed call.groupId call.eid userKey call.data.length).serialize :=
    StripeEncodeResult.write_batch_meta (before reader)
  rw [stored, Option.bind_some, ← StripeLogMeta.serialize_cut]
  exact StripeLogMeta.deserialize_serialize (encodes.fits key eid group)

theorem k_metaRead (encodes : call.Encodes result placement) : (call.metaRead result userKey).k = call.k := by
  obtain ⟨l, r, m, stripe, -⟩ := encodes.stripe
  exact congrArg StripeLogMeta.k stripe

theorem encodingMode_metaRead (encodes : call.Encodes result placement) :
    (call.metaRead result userKey).encodingMode = call.mode.word := by
  obtain ⟨l, r, m, stripe, -⟩ := encodes.stripe
  exact congrArg StripeLogMeta.encodingMode stripe

theorem placement_metaRead (encodes : call.Encodes result placement) :
    (call.metaRead result userKey).placement = placement.map FragmentPlacement.toWords := by
  obtain ⟨l, r, m, stripe, -⟩ := encodes.stripe
  exact congrArg StripeLogMeta.placement stripe

/-- A placement that does not begin with the data fragments is given up at once. -/
theorem tryStripeGet_of_not_inFront (encodes : call.Encodes result placement) (key : userKey.length < UInt32.size)
    (eid : call.eid < 2 ^ 64) (group : call.groupId < UInt32.size) (mixed : ¬ call.InFront placement) :
    (storing lib call result userKey before).tryStripeGet (depth + 1) reader userKey = .failed := by
  have short : ((call.metaRead result userKey).placement.takeWhile fun fp => fp.kind = 0).length ≠
      (call.metaRead result userKey).k := by
    rw [k_metaRead encodes, placement_metaRead encodes]
    exact fun enough => mixed (encodes.length_takeWhile_iff.mp enough)
  have same : (storing lib call result userKey before).groupId = call.groupId := rfl
  rw [tryStripeGet, same, metadata_storing encodes key eid group]
  exact if_pos short

/-- Otherwise all the data fragments are fetched. -/
theorem collect_storing (encodes : call.Encodes result placement) (front : call.InFront placement)
    (answers : (storing lib call result userKey before).Answers depth reader call.eid) :
    (storing lib call result userKey before).collect ((storing lib call result userKey before).tryStripeGet depth) reader
      call.eid ((call.metaRead result userKey).placement.takeWhile fun fp => fp.kind = 0) [] =
      some ((List.range call.k).map fun i => (i, Encoder.dataFragment call.data call.k i)) := by
  have inside : ∀ fp ∈ (call.metaRead result userKey).placement.takeWhile (fun fp => fp.kind = 0),
      fp ∈ (call.metaRead result userKey).placement ∧ fp.fragId < call.k := by
    intro fp member
    refine ⟨List.takeWhile_subset _ member, ?_⟩
    rw [placement_metaRead encodes, EncodeStripeCall.takeWhile_toWords] at member
    obtain ⟨fp', member', rfl⟩ := List.mem_map.mp member
    have data := List.mem_takeWhile_imp member'
    exact (encodes.kinds fp' (List.takeWhile_subset _ member')).mp (of_decide_eq_true data)
  refine collect_all (fun fp member => (inside fp member).2)
    (fun fp member => fetchFrag_storing encodes answers (inside fp member).1 (inside fp member).2) List.Pairwise.nil
    (fun p member => absurd member List.not_mem_nil) fun i bound => Or.inr ?_
  rw [placement_metaRead encodes]
  exact encodes.asked front i bound

theorem tryStripeGet_of_inFront (encodes : call.Encodes result placement) (key : userKey.length < UInt32.size)
    (eid : call.eid < 2 ^ 64) (group : call.groupId < UInt32.size) (front : call.InFront placement)
    (answers : (storing lib call result userKey before).Answers depth reader call.eid) :
    (storing lib call result userKey before).tryStripeGet (depth + 1) reader userKey = .found
      (decodedValue (call.metaRead result userKey) ((List.range call.k).map (Encoder.dataFragment call.data call.k)).flatten) := by
  have k : (call.metaRead result userKey).k = call.k := k_metaRead encodes
  have enough : ((call.metaRead result userKey).placement.takeWhile fun fp => fp.kind = 0).length = call.k := by
    rw [placement_metaRead encodes]
    exact encodes.length_takeWhile_iff.mpr front
  have mode : (call.metaRead result userKey).encodingMode = call.mode.word := encodingMode_metaRead encodes
  have decoded := decodeStripe_data lib.isal mode (k.symm ▸ encodes.several) call.data
  have same : (storing lib call result userKey before).groupId = call.groupId := rfl
  have id : (call.metaRead result userKey).stripeId = call.eid := rfl
  have isal : (storing lib call result userKey before).isal = lib.isal := rfl
  rw [k] at decoded
  rw [tryStripeGet, same, metadata_storing encodes key eid group]
  dsimp only
  rw [k, if_neg (not_not.mpr enough), id, collect_storing encodes front answers]
  dsimp only
  rw [if_neg (by simp), isal, decoded]

/-- A peer brings what it has if no stripe is stored under the key of a fragment. -/
theorem answers_of_no_meta (fresh : ∀ node ≠ reader, ∀ fragId,
      before node (stripeMetaDbKey call.groupId (fragDbKey call.groupId call.eid fragId)) = none)
    (plain : ∀ fragId, fragDbKey call.groupId call.eid fragId ≠ userKey) :
    (storing lib call result userKey before).Answers (depth + 1) reader call.eid := by
  intro node other fragId
  have missing : (storing lib call result userKey before).dbs node
      (stripeMetaDbKey call.groupId (fragDbKey call.groupId call.eid fragId)) = none := by
    refine (Database.write_of_forall_ne (before node) fun q written same => ?_).trans (fresh node other fragId)
    rcases StripeEncodeResult.mem_batch written with primary | ⟨fragId', index⟩ | rfl | ⟨f, _, rfl⟩
    · exact absurd (primary.symm.trans same) (makeStripePrimaryKey_ne_stripeMetaDbKey _)
    · exact absurd (index.symm.trans same) (makeFragIndexKey_ne_stripeMetaDbKey _ _)
    · exact plain fragId (stripeMetaDbKey_inj.mp same).symm
    · exact absurd same (fragDbKey_ne_stripeMetaDbKey _ _ _)
  have same : (storing lib call result userKey before).groupId = call.groupId := rfl
  rw [same, tryStripeGet_of_no_meta missing, getValue]

/-- A read gives the payload back exactly if its padded bytes can be counted in 32 bits and, with the Reed-Solomon code of
`4F + 2` fragments, the shuffle has left the data fragments in front. -/
theorem read_inverts_encode_iff (encoded : call.encodeStripePayload lib = .encoded result)
    (key : userKey.length < UInt32.size) (eid : call.eid < 2 ^ 64) (group : call.groupId < UInt32.size)
    (answers : (storing lib call result userKey before).Answers depth reader call.eid) :
    (storing lib call result userKey before).tryStripeGet (depth + 1) reader userKey = .found call.data ↔
      call.DataInFront lib ∧ Encoder.fragmentSize call.data call.k * call.k < UInt32.size := by
  obtain ⟨placement, encodes, inFront⟩ := EncodeStripeCall.encodes_of_encoded encoded
  have several := encodes.several
  rw [← inFront]
  by_cases front : call.InFront placement
  · rw [tryStripeGet_of_inFront encodes key eid group front answers, GetResult.found.injEq, decodedValue, k_metaRead encodes]
    have whole := Encoder.take_decodedSize_iff call.data (by omega : 0 < call.k) encodes.few
    exact whole.trans (and_iff_right front).symm
  · rw [tryStripeGet_of_not_inFront encodes key eid group front]
    exact iff_of_false GetResult.noConfusion fun both => front both.1

end Storing

/-- The database of a node that has nothing. -/
def emptyDb : Database := fun _ => none

theorem answers_threeBytes (lib : StripeLibraries) (n : Int) (result : StripeEncodeResult) :
    (storing lib (EncodeStripeCall.threeBytes n) result (ascii "a") fun _ => emptyDb).Answers 1 0 1 :=
  answers_of_no_meta (fun _ _ _ => rfl) fun fragId => by simp [fragDbKey, ascii]

theorem encoded_threeBytes (lib : StripeLibraries) :
    (EncodeStripeCall.threeBytes 5).encodeStripePayload lib = .encoded ((EncodeStripeCall.threeBytes 5).rs3FResult lib) := by
  change (EncodeStripeCall.threeBytes 5).encodeRs3F lib = _
  rw [EncodeStripeCall.encodeRs3F_eq (by decide) ⟨by decide, by decide⟩]
  exact if_pos (by decide)

theorem read_inverts_encode_iff_fiveNodes : (storing EncodeStripeCall.inOrder (EncodeStripeCall.threeBytes 5)
      ((EncodeStripeCall.threeBytes 5).rs3FResult EncodeStripeCall.inOrder) (ascii "a") fun _ => emptyDb).tryStripeGet 2 0
        (ascii "a") = .found [1, 2, 3] := by
  have read := read_inverts_encode_iff (encoded_threeBytes EncodeStripeCall.inOrder)
    (show (ascii "a").length < UInt32.size by decide) (by decide) (by decide) (answers_threeBytes _ 5 _)
  exact read.mpr ⟨by decide, by decide⟩

/-- The order in which the `std::shuffle` of libstdc++ leaves ten fragments with the seed 1. -/
def seedOneOrder : List Nat := [9, 0, 2, 5, 7, 4, 6, 3, 1, 8]

theorem map_getD_range (pool : List Nat) : (List.range pool.length).map (fun i => pool.getD i 0) = pool := by
  refine List.ext_getElem (by simp) fun i bound bound' => ?_
  simp [bound']

def seedOne : Shuffle where
  order _ pool := if pool.length = 10 then seedOneOrder.map fun i => pool.getD i 0 else pool
  perm _ pool := by
    split
    · rename_i ten
      have spread : seedOneOrder.Perm (List.range pool.length) := by
        rw [ten]
        decide
      have same := spread.map fun i => pool.getD i 0
      rwa [map_getD_range] at same
    · exact .refl pool

def shuffling : StripeLibraries := { EncodeStripeCall.inOrder with shuffle := seedOne }

/-- With that order the first fragment is a parity, so that a read of what was just stored gives up. -/
theorem shuffled_stripe_unread : (EncodeStripeCall.threeBytes 5).encodeStripePayload shuffling =
      .encoded ((EncodeStripeCall.threeBytes 5).rs3FResult shuffling) ∧
    (storing shuffling (EncodeStripeCall.threeBytes 5) ((EncodeStripeCall.threeBytes 5).rs3FResult shuffling) (ascii "a")
      fun _ => emptyDb).Answers 1 0 1 ∧
    (storing shuffling (EncodeStripeCall.threeBytes 5) ((EncodeStripeCall.threeBytes 5).rs3FResult shuffling) (ascii "a")
      fun _ => emptyDb).tryStripeGet 2 0 (ascii "a") = .failed := by
  refine ⟨encoded_threeBytes shuffling, answers_threeBytes shuffling 5 _, ?_⟩
  obtain ⟨placement, encodes, inFront⟩ := EncodeStripeCall.encodes_of_encoded (encoded_threeBytes shuffling)
  refine tryStripeGet_of_not_inFront encodes (by decide) (by decide) (by decide) fun front => ?_
  exact absurd (inFront.mp front) (by decide)

end StripeNodes

end FlexRaft
