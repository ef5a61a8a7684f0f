import Mathlib.Data.List.Sort
import FlexRaft.Circulation
import FlexRaft.NodeLosses
import FlexRaft.StripeEntry

namespace FlexRaft

namespace Assignments

theorem fragsOf_append (given later : Assignments) (node : Nat) :
    fragsOf (given ++ later) node = given.fragsOf node ++ later.fragsOf node :=
  List.filterMap_append

theorem fragsOf_own (owner node : Nat) (ids : List Nat) :
    fragsOf (ids.map (Prod.mk owner)) node = if owner = node then ids else [] := by
  rw [fragsOf, List.filterMap_map]
  split
  · rename_i same
    simp [same]
  · rename_i other
    simp [other]

theorem fragsOf_flatMap {nodes : List Nat} (distinct : nodes.Nodup) {node : Nat} (member : node ∈ nodes)
    (ids : Nat → List Nat) : fragsOf (nodes.flatMap fun owner => (ids owner).map (Prod.mk owner)) node = ids node := by
  have foreign : ∀ nodes : List Nat, node ∉ nodes →
      fragsOf (nodes.flatMap fun owner => (ids owner).map (Prod.mk owner)) node = [] := by
    intro nodes absent
    induction nodes with
    | nil => rfl
    | cons owner rest ih =>
      rw [List.mem_cons, not_or] at absent
      rw [List.flatMap_cons, fragsOf_append, fragsOf_own, if_neg (Ne.symm absent.1), ih absent.2]
      rfl
  induction nodes with
  | nil => cases member
  | cons owner rest ih =>
    obtain ⟨apart, distinct⟩ := List.nodup_cons.mp distinct
    rw [List.flatMap_cons, fragsOf_append, fragsOf_own]
    by_cases same : owner = node
    · subst same
      rw [if_pos rfl, foreign rest apart, List.append_nil]
    · rw [if_neg same, List.nil_append]
      exact ih distinct (List.mem_of_ne_of_mem (Ne.symm same) member)

theorem fragsOf_zipIdx_ascending (holders : List Nat) (start node : Nat) :
    (fragsOf (holders.zipIdx start) node).Pairwise (· < ·) := by
  refine List.Pairwise.sublist (fragsOf_sublist (holders.zipIdx start) node) ?_
  rw [List.zipIdx_map_snd]
  exact List.pairwise_lt_range'

end Assignments

namespace LrcLayout

variable (layout : LrcLayout) {isal : Isal}

theorem grouper_eq {grouper : LrcGrouper} (built : layout.grouper isal = some grouper) : grouper =
      { n := layout.n
        k := layout.params.k
        l := layout.params.l
        r := layout.params.r
        k_pos := layout.k_pos
        fragmentsForNode := fun node => if layout.n ≤ node then [] else Assignments.fragsOf layout.holders.zipIdx node
        nodePlacementsVector := layout.nodePlacementsVector layout.holders.zipIdx
        lrcGroupIdForNode := layout.lrcGroupIdForNode layout.holders.zipIdx
        encodeStripe := fun data => some (LrcEncoder.encodeStripe isal layout.params data) } := by
  rw [LrcLayout.grouper, layout.buildNodeToFragmentsMapping_eq] at built
  exact (Option.some.inj built).symm

theorem fragmentsForNode_ascending {grouper : LrcGrouper} (built : layout.grouper isal = some grouper)
    (node : Nat) : (grouper.fragmentsForNode node).Pairwise (· < ·) := by
  rw [layout.grouper_eq built]
  dsimp only
  split
  · exact List.Pairwise.nil
  · exact Assignments.fragsOf_zipIdx_ascending layout.holders 0 node

theorem fragsOf_placedPair {node : Nat} (bound : node < layout.n) :
    Assignments.fragsOf ((layout.nodePlacementsVector layout.holders.zipIdx).map placedPair) node =
      Assignments.fragsOf layout.holders.zipIdx node := by
  obtain ⟨rest, split⟩ : ∃ rest, layout.holders = layout.firstHolders ++ rest := ⟨_, by rw [holders, List.append_assoc]⟩
  have globally : (layout.globalPlacements layout.holders.zipIdx).map placedPair =
      (List.range layout.n).flatMap fun owner => ((Assignments.fragsOf layout.holders.zipIdx owner).filter
        fun fragId => layout.params.k + layout.params.l ≤ fragId).map (Prod.mk owner) := by
    simp only [globalPlacements, List.map_flatMap, List.map_map]
    rfl
  have low : ∀ fragId ∈ Assignments.fragsOf layout.firstHolders.zipIdx node,
      ¬ layout.params.k + layout.params.l ≤ fragId := by
    intro fragId held
    have inside := (List.getElem?_eq_some_iff.mp (Assignments.mem_fragsOf_zipIdx.mp held)).1
    rw [layout.length_firstHolders] at inside
    omega
  have high : ∀ fragId ∈ Assignments.fragsOf (rest.zipIdx (0 + layout.firstHolders.length)) node,
      layout.params.k + layout.params.l ≤ fragId := by
    intro fragId held
    have above := List.le_snd_of_mem_zipIdx (Assignments.mem_fragsOf.mp held)
    rw [layout.length_firstHolders] at above
    omega
  rw [nodePlacementsVector, List.map_append, placedPair_first, Assignments.fragsOf_append, globally,
    Assignments.fragsOf_flatMap List.nodup_range (List.mem_range.mpr bound), split, List.zipIdx_append,
    Assignments.fragsOf_append, List.filter_append, List.filter_eq_nil_iff.mpr, List.filter_eq_self.mpr, List.nil_append]
  · exact fun fragId held => decide_eq_true (high fragId held)
  · exact fun fragId held => by simpa using low fragId held

end LrcLayout

namespace RaftState

/-- The entry that `ReplicateNewProposeEntry` builds for `peer`, if there is a fragment for it. -/
def newLrcEntry (grouper : LrcGrouper) (ent : LogEntry) (raftIndex peer : Nat) : Option LogEntry :=
  let fragIds := (grouper.fragmentsForNode peer).insertionSort (· ≤ ·)
  let peerFrags := fragIds.filterMap fun fid => ent.fragments[fid]?
  if peerFrags = [] then none
  else some ((fragIds.zip peerFrags).foldl (fun e p => e.addFragmentWithId p.1 p.2) (keyOnlyEntry ent raftIndex))

section Sending

variable {s : RaftState} {grouper : LrcGrouper} {j peer : Nat} {p : Packet} {ent : LogEntry}

/-- `p` carries the new entry for its receiver. -/
def BringsNew (grouper : LrcGrouper) (ent : LogEntry) (j : Nat) (p : Packet) : Prop :=
  ∃ e args, newLrcEntry grouper ent j p.dst = some e ∧ p.msg = .appendEntries args ∧ args.entries = [e]

/-- The request has the new entry alone, behind the one before it. -/
structure IsNewRequest (grouper : LrcGrouper) (ent : LogEntry) (j : Nat) (p : Packet) (e : LogEntry)
    (args : AppendEntriesArgs) : Prop where
  entry : newLrcEntry grouper ent j p.dst = some e
  msg : p.msg = .appendEntries args
  entries : args.entries = [e]
  count : args.entryCnt = 1
  behind : args.prevLogIndex = predIndex j

theorem isNewRequest_of_mem (at_j : s.lm.getSingleLogEntry j = some ent)
    (member : p ∈ (s.sendNewLrcEntry grouper j peer).outbox) :
    p ∈ s.outbox ∨ ∃ e args, IsNewRequest grouper ent j p e args := by
  unfold sendNewLrcEntry at member
  rw [at_j] at member
  dsimp only at member
  split at member
  · exact Or.inl member
  · split at member
    · exact Or.inl member
    · rename_i someFragment
      split at member
      · exact Or.inl member
      · rcases List.mem_append.mp member with old | new
        · exact Or.inl old
        · cases List.mem_singleton.mp new
          exact Or.inr ⟨_, _, if_neg someFragment, rfl, rfl, rfl, rfl⟩

theorem mem_sendNewLrcEntry (at_j : s.lm.getSingleLogEntry j = some ent)
    (member : p ∈ (s.sendNewLrcEntry grouper j peer).outbox) : p ∈ s.outbox ∨ BringsNew grouper ent j p :=
  (isNewRequest_of_mem at_j member).imp_right fun ⟨e, args, request⟩ =>
    ⟨e, args, request.entry, request.msg, request.entries⟩

theorem sent_replicateNewProposeEntry {Q : Packet → Prop} (at_j : s.lm.getSingleLogEntry j = some ent)
    (encoded : ent.isLrcEncoded = true) (given : s.config.lrcGrouper = some grouper) (mode : s.config.encodingMode = 2)
    (each : ∀ (t : RaftState) (peer : Nat), t.lm = s.lm → ∀ p ∈ (t.sendNewLrcEntry grouper j peer).outbox, p ∈ t.outbox ∨ Q p)
    (member : p ∈ (s.replicateNewProposeEntry j).outbox) : p ∈ s.outbox ∨ Q p := by
  have loop : ∀ items t, t.lm = s.lm → (forEach (sendNewLrcEntry grouper j) items t).lm = t.lm ∧
      ∀ p ∈ (forEach (sendNewLrcEntry grouper j) items t).outbox, p ∈ t.outbox ∨ Q p := by
    intro items t same
    refine forEach_rel (R := fun t u => u.lm = t.lm ∧ ∀ p ∈ u.outbox, p ∈ t.outbox ∨ Q p)
      (fun t => ⟨rfl, fun p old => Or.inl old⟩) ?_ ?_
    · exact fun ⟨lm, sent⟩ ⟨lm', sent'⟩ => ⟨lm'.trans lm, fun p inside => (sent' p inside).elim (sent p) Or.inr⟩
    · rintro u peer ⟨lm, _⟩ _
      have unchanged : (sendNewLrcEntry grouper j u peer).lm = u.lm := by
        unfold sendNewLrcEntry
        split
        · rfl
        · split
          · rfl
          · dsimp only
            split
            · rfl
            · split <;> rfl
      exact ⟨unchanged, each u peer (lm.trans same)⟩
  unfold replicateNewProposeEntry at member
  rw [at_j] at member
  simp only [given, mode, encoded, and_self, if_true] at member
  exact (loop s.peers (s.updateLastEncodingK j ent.chunkInfo.k) rfl).2 p member

theorem mem_replicateNewProposeEntry (at_j : s.lm.getSingleLogEntry j = some ent) (encoded : ent.isLrcEncoded = true)
    (given : s.config.lrcGrouper = some grouper) (mode : s.config.encodingMode = 2)
    (member : p ∈ (s.replicateNewProposeEntry j).outbox) : p ∈ s.outbox ∨ BringsNew grouper ent j p :=
  sent_replicateNewProposeEntry at_j encoded given mode
    (fun _ _ lm _ inside => mem_sendNewLrcEntry (lm ▸ at_j) inside) member

end Sending

section Entries

variable {ids : List Nat} {frags : List Slice}

theorem foldl_addFragmentWithId_eq {pairs : List (Nat × Slice)} (filled : ∀ p ∈ pairs, p.2 ≠ []) (e : LogEntry) :
    pairs.foldl (fun e p => e.addFragmentWithId p.1 p.2) e =
      { e with fragments := e.fragments ++ pairs.map Prod.snd, fragIds := e.fragIds ++ pairs.map Prod.fst } := by
  induction pairs generalizing e with
  | nil => simp
  | cons p rest ih =>
    obtain ⟨here, later⟩ := List.forall_mem_cons.mp filled
    rw [List.foldl_cons, ih later, LogEntry.addFragmentWithId, if_neg here]
    simp

theorem ascending_split (ascending : ids.Pairwise (· < ·)) (n : Nat) :
    ids = ids.filter (· < n) ++ ids.filter (n ≤ ·) := by
  induction ids with
  | nil => rfl
  | cons id rest ih =>
    obtain ⟨first, ascending⟩ := List.pairwise_cons.mp ascending
    by_cases inside : id < n
    · simp only [List.filter_cons, inside, decide_true, if_true, Nat.not_le.mpr inside, decide_false, Bool.false_eq_true,
        if_false, List.cons_append]
      exact congrArg (id :: ·) (ih ascending)
    · have outside : ∀ later ∈ id :: rest, n ≤ later := by
        intro later member
        rcases List.mem_cons.mp member with rfl | behind
        · omega
        · have := first later behind
          omega
      rw [List.filter_eq_nil_iff.mpr, List.filter_eq_self.mpr, List.nil_append]
      · exact fun later member => decide_eq_true (outside later member)
      · exact fun later member => by simpa using outside later member

theorem filterMap_getElem?_length (ids : List Nat) (frags : List Slice) :
    (ids.filterMap fun id => frags[id]?).length = (ids.filter (· < frags.length)).length := by
  induction ids with
  | nil => rfl
  | cons id rest ih =>
    by_cases inside : id < frags.length
    · simp [inside, ih]
    · simp [inside, ih]

theorem zip_filterMap (ascending : ids.Pairwise (· < ·)) : ids.zip (ids.filterMap fun id => frags[id]?) =
      (ids.filter (· < frags.length)).zip (ids.filterMap fun id => frags[id]?) := by
  have aligned : (ids.filter (· < frags.length) ++ ids.filter (frags.length ≤ ·)).zip
      ((ids.filterMap fun id => frags[id]?) ++ []) = _ := List.zip_append (filterMap_getElem?_length ids frags).symm
  rw [← ascending_split ascending, List.append_nil, List.zip_nil_right, List.append_nil] at aligned
  exact aligned

end Entries

section Specs

variable {grouper : LrcGrouper} {ent : LogEntry} {j peer : Nat}

theorem newLrcEntry_eq (ascending : (grouper.fragmentsForNode peer).Pairwise (· < ·)) (filled : [] ∉ ent.fragments) :
    newLrcEntry grouper ent j peer =
      let frags := (grouper.fragmentsForNode peer).filterMap fun id => ent.fragments[id]?
      if frags = [] then none
      else some { keyOnlyEntry ent j with
        fragments := frags
        fragIds := (grouper.fragmentsForNode peer).filter (· < ent.fragments.length) } := by
  have sorted : (grouper.fragmentsForNode peer).insertionSort (· ≤ ·) = grouper.fragmentsForNode peer :=
    (ascending.imp Nat.le_of_lt).insertionSort_eq
  unfold newLrcEntry
  dsimp only
  rw [sorted, zip_filterMap ascending]
  split
  · rfl
  · have lengths := filterMap_getElem?_length (grouper.fragmentsForNode peer) ent.fragments
    rw [foldl_addFragmentWithId_eq, List.map_fst_zip lengths.ge, List.map_snd_zip lengths.le]
    · rfl
    · intro p member empty
      obtain ⟨_, inside⟩ := List.of_mem_zip member
      obtain ⟨id, _, found⟩ := List.mem_filterMap.mp inside
      exact filled (empty ▸ List.mem_of_getElem? found)

theorem lrcEntriesFor_eq {s : RaftState} (at_j : s.lm.getSingleLogEntry j = some ent) (filled : [] ∉ ent.fragments) :
    s.lrcEntriesFor peer [j] =
      if lrcFragmentsFor ent peer = [] then none
      else some [{ keyOnlyEntry ent j with
        fragments := lrcFragmentsFor ent peer
        fragIds := List.range (lrcFragmentsFor ent peer).length }] := by
  have nonempty : ∀ frag ∈ lrcFragmentsFor ent peer, frag ≠ [] := by
    intro frag member empty
    exact filled (empty ▸ lrcFragmentsFor_subset member)
  unfold lrcEntriesFor
  rw [at_j]
  dsimp only
  split
  · rfl
  · rw [foldl_addFragment_eq nonempty _ rfl]
    simp [lrcEntriesFor, keyOnlyEntry, LogEntry.setCommandData]

theorem lrcFragmentsFor_eq {layout : LrcLayout} {isal : Isal} (built : layout.grouper isal = some grouper)
    (placement : ent.placement = grouper.nodePlacementsVector) (member : peer < layout.n) :
    lrcFragmentsFor ent peer = (grouper.fragmentsForNode peer).filterMap fun id => ent.fragments[id]? := by
  have own : grouper.fragmentsForNode peer = Assignments.fragsOf (grouper.nodePlacementsVector.map LrcLayout.placedPair) peer := by
    rw [layout.grouper_eq built]
    dsimp only
    rw [if_neg (Nat.not_le.mpr member), layout.fragsOf_placedPair member]
  have some_placement : grouper.nodePlacementsVector ≠ [] := by
    rw [layout.grouper_eq built]
    dsimp only
    intro none
    have taken := layout.takeWhile_nodePlacementsVector layout.holders.zipIdx
    have ids := layout.map_fragId_dataPlacements
    rw [← taken, none] at ids
    have k := layout.k_pos
    have zero := congrArg List.length ids
    simp only [List.takeWhile_nil, List.map_nil, List.length_nil, List.length_range] at zero
    omega
  rw [lrcFragmentsFor, placement, if_neg some_placement, own, Assignments.fragsOf, List.filterMap_map,
    List.filterMap_filterMap]
  refine List.filterMap_congr fun fp _ => ?_
  change (if fp.nodeId = peer then ent.fragments[fp.fragId]? else none) =
    (if fp.nodeId = peer then some fp.fragId else none).bind fun id => ent.fragments[id]?
  by_cases here : fp.nodeId = peer
  · rw [if_pos here, if_pos here]
    rfl
  · rw [if_neg here, if_neg here]
    rfl

end Specs

end RaftState

/-- An entry as the groups in LRC mode have them: with a command or a key, encoded, placed as the grouper says. -/
structure LrcGrouper.Made (grouper : LrcGrouper) (e : LogEntry) : Prop where
  type : e.type = .kNormal
  encoded : e.isLrcEncoded = true
  placement : e.placement = grouper.nodePlacementsVector
  filled : [] ∉ e.fragments

theorem LrcGrouper.made_inherited (grouper : LrcGrouper) : Inherited grouper.Made where
  normal := fun _ made => made.type
  keyOnly := fun _ _ made => ⟨rfl, made.encoded, made.placement, nofun⟩
  withFragment := fun e fragId frag made => by
    unfold LogEntry.addFragmentWithId
    split
    · exact made
    · rename_i nonempty
      refine ⟨made.type, made.encoded, made.placement, fun member => ?_⟩
      rcases List.mem_append.mp member with old | new
      · exact made.filled old
      · exact nonempty (List.mem_singleton.mp new).symm

/-- A group in LRC mode; its servers use one grouper. -/
structure LrcCluster where
  config : ClusterConfig
  layout : LrcLayout
  grouper : LrcGrouper
  built : layout.grouper config.isal = some grouper
  mode : config.encodingMode = 2
  given : config.lrcGrouper = some grouper
  size : config.size = layout.n

namespace LrcCluster

open RaftState Cluster

variable (c : LrcCluster) {keySize totalSize : Nat}

theorem encoded_of_member {i : Nat} {s : RaftState} (config : s.config = c.config.serverConfig i)
    (member : i < c.config.size) : (ChunkInfo.mk c.grouper.k 0 c.grouper.l c.grouper.r
      (c.grouper.lrcGroupIdForNode s.id) keySize totalSize).isLrcEncoded = true := by
  have id : s.id = i := by rw [RaftState.id, config]; rfl
  obtain ⟨_, positive, two, _⟩ := LrcParams.fromCapacity_eq_some c.layout.derived
  rw [c.size] at member
  rw [id, c.layout.grouper_eq c.built]
  have group := c.layout.lrcGroupIdForNode_nonneg c.layout.holders.zipIdx member
  simp [ChunkInfo.isLrcEncoded, group, two]

theorem originates : Originates c.grouper.Made c.config := by
  intro i member s config command e inside
  have given : s.config.lrcGrouper = some c.grouper := by rw [config]; exact c.given
  have mode : s.config.encodingMode = 2 := by rw [config]; exact c.mode
  unfold propose at inside
  rw [if_pos mode, given] at inside
  dsimp only at inside
  split at inside
  · exact Or.inl inside
  · split at inside
    · exact Or.inl inside
    · rename_i ci frags striped
      split at inside
      · exact Or.inl inside
      · rcases List.mem_append.mp inside with old | new
        · exact Or.inl old
        · right
          cases List.mem_singleton.mp new
          have encoded : ci.isLrcEncoded = true := by
            obtain ⟨_, _, same⟩ := Option.map_eq_some_iff.mp striped
            rw [← (Prod.mk.inj same).1]
            exact c.encoded_of_member config member
          have base : c.grouper.Made { s.proposedEntry command with
              chunkInfo := ci, placement := c.grouper.nodePlacementsVector } := ⟨rfl, encoded, rfl, nofun⟩
          have made := c.grouper.made_inherited.addAll frags (fun e _ => e.fragments.length) (fun frag => frag) base
          exact ⟨made.type, encoded, made.placement, made.filled⟩

/-- The fragments of `ent` that belong to `peer` are those with the ids `0, 1, …`. -/
def HeadsStripe (ent : LogEntry) (peer : Nat) : Prop :=
  (c.grouper.fragmentsForNode peer).filter (· < ent.fragments.length) =
    List.range ((c.grouper.fragmentsForNode peer).filter (· < ent.fragments.length)).length

instance (ent : LogEntry) (peer : Nat) : Decidable (c.HeadsStripe ent peer) := by
  unfold HeadsStripe
  infer_instance

/-- Whatever a member of the group has in its log, it sends the peer one and the same entry on both ways. -/
theorem replication_paths_agree {junk : Nat → Uninitialised} {σ : Cluster} {i j peer : Nat} {ent : LogEntry}
    (reach : Reach restoresEntries (init c.config junk) σ) (member : i < c.config.size)
    (at_j : (σ.servers i).lm.getSingleLogEntry j = some ent) (receiver : peer < c.config.size)
    (heads : c.HeadsStripe ent peer) :
    (σ.servers i).lrcEntriesFor peer [j] = (newLrcEntry c.grouper ent j peer).map (fun e => [e]) ∧
      ∀ p ∈ ((σ.servers i).replicateNewProposeEntry j).outbox, p.dst = peer →
        ∃ args, p.msg = .appendEntries args ∧ (σ.servers i).lrcEntriesFor peer [j] = some args.entries := by
  obtain ⟨unchanged, inv⟩ := reach.circulating c.grouper.made_inherited c.originates c.mode (by rw [c.given]; rfl)
  have config : (σ.servers i).config = c.config.serverConfig i := by rw [inv.secluded.config i, unchanged]
  have made : c.grouper.Made ent := (inv.stocked i (unchanged ▸ member)).circulates.entry at_j
  have given : (σ.servers i).config.lrcGrouper = some c.grouper := by rw [config]; exact c.given
  have mode : (σ.servers i).config.encodingMode = 2 := by rw [config]; exact c.mode
  have same : (σ.servers i).lrcEntriesFor peer [j] = (newLrcEntry c.grouper ent j peer).map fun e => [e] := by
    rw [lrcEntriesFor_eq at_j made.filled, newLrcEntry_eq (c.layout.fragmentsForNode_ascending c.built peer) made.filled,
      lrcFragmentsFor_eq c.built made.placement (c.size ▸ receiver), filterMap_getElem?_length, ← heads]
    dsimp only
    split <;> rfl
  refine ⟨same, fun p sent toPeer => ?_⟩
  rcases mem_replicateNewProposeEntry at_j made.encoded given mode sent with old | ⟨e, args, new, msg, entries⟩
  · rw [inv.secluded.outbox i] at old
    cases old
  · rw [toPeer] at new
    exact ⟨args, msg, by rw [same, new, entries]; rfl⟩

end LrcCluster

/-- Six servers in LRC mode; server 5 is preferred. -/
def sixServers : LrcCluster :=
  { config :=
      { size := 6
        size_pos := by decide
        size_le := by decide
        groupId := 5
        dynamicK := 0
        encodingMode := 2
        lrcGrouper := LrcLayout.sixNodes.grouper xorIsal
        hasRsm := fun _ => true
        hasBridge := fun _ => false
        hasStorage := fun _ => true
        isal := xorIsal }
    layout := LrcLayout.sixNodes
    grouper := (LrcLayout.sixNodes.grouper xorIsal).get (by decide +kernel)
    built := (Option.some_get _).symm
    mode := rfl
    given := (Option.some_get _).symm
    size := rfl }

namespace LrcCluster

open Cluster

def fourBytes : CommandData :=
  StripeWriteCommand.commandData { groupId := 5, userKey := [97], userValue := [1, 2, 3, 4], encodingMode := 2 }

/-- Server 5 is elected and proposes a put of the key `a`. -/
def proposedByFive : List Label :=
  [.tick 5 { electionExpired := true }, .deliver 0 1, .deliver 0 1, .deliver 3 1, .deliver 3 1, .propose 5 fourBytes]

/-- The full entry in the log of server 5. -/
def proposedLog : LogManager :=
  ((exec restoresEntries (init sixServers.config .zero) proposedByFive).map fun σ => (σ.servers 5).lm).getD {}

/-- Server 0 stores its fragments, server 5 comes back, and among the answers that it collects that of server 0 is
the first. -/
def recoveredFromZero : List Label :=
  proposedByFive ++ [.replicate 0, .deliver 8 1, .restart 5 proposedLog (.zero 5), .tick 5 { electionExpired := true },
    .deliver 13 1, .deliver 13 1, .deliver 16 1, .deliver 16 1, .deliver 16 1, .deliver 16 1, .deliver 19 1, .deliver 19 1]

/-- The new leader has the fragments of server 0 only. Server 0 gets the first of them, on either way. -/
theorem replication_paths_agree_recovered : ∃ σ, Reach restoresEntries (init sixServers.config .zero) σ ∧
    (σ.servers 5).role = .kLeader ∧
    ((σ.servers 5).lrcEntriesFor 0 [1]).map (List.map fun e => (e.fragIds, e.fragments)) = some [([0], [[1]])] ∧
    ∀ p ∈ ((σ.servers 5).replicateNewProposeEntry 1).outbox, p.dst = 0 →
      ∃ args, p.msg = .appendEntries args ∧ (σ.servers 5).lrcEntriesFor 0 [1] = some args.entries := by
  refine ⟨(exec restoresEntries (init sixServers.config .zero) recoveredFromZero).get (by decide +kernel), .of_get _,
    by decide +kernel, by decide +kernel, ?_⟩
  exact (sixServers.replication_paths_agree (.of_get _) (by decide) (Option.some_get (by decide +kernel)).symm (by decide)
    (by decide +kernel)).2

/-- Server 1 has the fragments 1 and 7 of the stripe. What is sent again calls them 0 and 1. -/
theorem replication_paths_differ : ∃ σ, Reach restoresEntries (init sixServers.config .zero) σ ∧
    (σ.servers 5).role = .kLeader ∧
    ((σ.servers 5).lrcEntriesFor 1 [1]).map (List.map fun e => (e.fragIds, e.fragments)) = some [([0, 1], [[2], [4]])] ∧
    ((((σ.servers 5).replicateNewProposeEntry 1).outbox.filter fun p => p.dst = 1).map fun p =>
      p.msg.carried.map fun e => (e.fragIds, e.fragments)) = [[([1, 7], [[2], [4]])]] :=
  ⟨(exec restoresEntries (init sixServers.config .zero) proposedByFive).get (by decide +kernel), .of_get _,
    by decide +kernel, by decide +kernel, by decide +kernel⟩

end LrcCluster

end FlexRaft
