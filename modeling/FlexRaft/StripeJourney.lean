import FlexRaft.StripeApply
import FlexRaft.QueueMirror

namespace FlexRaft

namespace LogManager

/-- An entry whose index has none of its term yet is in the log afterwards. -/
theorem Indexed.taken_entry {lm : LogManager} {prev : Nat} {e : LogEntry} {result : LogManager × List ChunkInfo}
    (indexed : lm.Indexed) (reaches : prev ≤ lm.entries.length) (place : e.index = prev + 1)
    (fresh : ∀ old, lm.getSingleLogEntry (prev + 1) = some old → old.term ≠ e.term)
    (run : lm.checkConflictEntryAndAppendNew (prev + 1) [e] = some result) :
    result.1.getSingleLogEntry (prev + 1) = some e := by
  have joined : result.1.entries = lm.entries.take prev ++ [e] := by
    unfold checkConflictEntryAndAppendNew at run
    rw [indexed.lastLogEntryIndex_eq] at run
    split at run
    · cases run
      have whole : lm.entries.take prev = lm.entries := List.take_of_length_le (by omega)
      rw [whole]
      rfl
    · rename_i inside
      split at run
      · cases run
        have cut : (lm.deleteLogEntriesFrom (prev + 1)).entries = lm.entries.take prev :=
          indexed.deleteLogEntriesFrom_entries (by omega) (by omega)
        rw [← cut]
        rfl
      · -- The entry that is there has another term.
        rename_i agrees
        obtain ⟨old, at_prev⟩ : ∃ old, lm.entries[prev]? = some old := ⟨_, List.getElem?_eq_getElem (by omega)⟩
        have stored := (indexed.getSingleLogEntry_succ prev).trans at_prev
        exact absurd ((not_not.mp agrees).trans (indexed.termAt_succ at_prev)).symm (fresh _ stored)
  have size : (lm.entries.take prev).length = prev := List.length_take_of_le reaches
  have last : result.1.lastLogEntryIndex = prev + 1 := by
    rw [lastLogEntryIndex, joined, List.getLast?_append]
    exact place
  rw [getSingleLogEntry, last, if_neg (by omega), joined, Nat.add_sub_cancel,
    List.getElem?_append_right size.le, size, Nat.sub_self]
  rfl

end LogManager

/-- A request on its way to a peer: where its entries lie in the memory of the leader, what stands behind it in the buffer,
and when the peer gets it. -/
structure Transfer where
  args : AppendEntriesArgs
  memory : Nat → EntryMemory
  padding : Slice
  now : Nat

namespace RaftState

variable {peer : RaftState}

open Serializer

/-- A request with a single entry, of which there is none of its term yet: it is refused, or the entry is in the log
afterwards. -/
theorem processAppendEntries_takes {args : AppendEntriesArgs} {now prev : Nat} {e : LogEntry}
    (indexed : peer.lm.Indexed) (entries : args.entries = [e]) (before : args.prevLogIndex = prev)
    (place : e.index = prev + 1) (fresh : ∀ old, peer.lm.getSingleLogEntry (prev + 1) = some old → old.term ≠ e.term)
    (success : (peer.processAppendEntries args now).2.any AppendEntriesReply.success = true) :
    (peer.processAppendEntries args now).1.lm.getSingleLogEntry (prev + 1) = some e := by
  rcases peer.processAppendEntries_log args now with ⟨_, _, refused⟩ | ⟨taken, log⟩
  · cases refused.symm.trans success
  · have reaches := takesEntries_reaches indexed taken
    rw [before] at log reaches
    rw [entries] at log
    cases run : peer.lm.checkConflictEntryAndAppendNew (prev + 1) [e] with
    | none =>
      rw [run] at log
      cases log.2.symm.trans success
    | some result =>
      rw [run] at log
      rw [log.1]
      exact indexed.taken_entry reaches place fresh run

/-- `peer` reads the request of the leader for `index` from the wire and accepts it. Then it has `stored` at this index. -/
structure Accepts (leader : RaftState) (index : Nat) (x : Transfer) (peer : RaftState) (stored : LogEntry) : Prop where
  sent : ⟨leader.id, peer.id, .appendEntries x.args⟩ ∈ (leader.replicateNewProposeEntry index).outbox
  header : x.args.HeaderFits
  held : ∀ i e, x.args.entries[i]? = some e → (x.memory i).Holds e
  indexed : peer.lm.Indexed
  accepted : ∃ args, deserializeAppendEntries (serializeAppendEntries x.memory x.args ++ x.padding) = .ok args ∧
    (peer.processAppendEntries args x.now).2.any AppendEntriesReply.success = true ∧
    (peer.processAppendEntries args x.now).1.lm.getSingleLogEntry index = some stored

/-- Where the peer has no entry of the term yet, it has the entry that was sent, as it comes from the wire. -/
theorem Accepts.stored_eq {leader : RaftState} {index term : Nat} {x : Transfer} {stored ent : LogEntry}
    {grouper : LrcGrouper} (accepts : leader.Accepts index x peer stored) (silent : leader.outbox = [])
    (at_index : leader.lm.getSingleLogEntry index = some ent) (encoded : ent.isLrcEncoded = true)
    (given : leader.config.lrcGrouper = some grouper) (mode : leader.config.encodingMode = 2) (positive : 0 < index)
    (fresh : ∀ old, peer.lm.getSingleLogEntry index = some old → old.term ≠ term)
    (typed : ∀ e, newLrcEntry grouper ent index peer.id = some e → e.WireFits ∧ e.index = index ∧ e.term = term ∧
      ∀ frag ∈ e.fragments, frag.length ≤ 16 * 1024 * 1024) :
    ∃ e, newLrcEntry grouper ent index peer.id = some e ∧ stored = received e := by
  obtain ⟨args, read, success, found⟩ := accepts.accepted
  have request := sent_replicateNewProposeEntry at_index encoded given mode
    (fun _ _ lm _ inside => isNewRequest_of_mem (lm ▸ at_index) inside) accepts.sent
  rw [silent] at request
  obtain old | ⟨e, sent, new, msg, entries, count, behind⟩ := request
  · cases old
  · cases msg
    obtain ⟨wire, place, ofTerm, sizes⟩ := typed e new
    refine ⟨e, new, ?_⟩
    have whole : deserializeAppendEntries (serializeAppendEntries x.memory x.args ++ x.padding) =
        .ok { x.args with entries := x.args.entries.map received } := by
      refine deserialize_serialize accepts.header (by rw [count, entries]; rfl) (fun f inside => ?_) accepts.held
        (fun f inside => ?_) x.padding
      · rw [entries] at inside
        rwa [List.mem_singleton.mp inside]
      · rw [entries] at inside
        rwa [List.mem_singleton.mp inside]
    rw [whole, entries] at read
    have same := Except.ok.inj read
    obtain ⟨prev, rfl⟩ : ∃ prev, index = prev + 1 := ⟨index - 1, by omega⟩
    have before : args.prevLogIndex = prev := by
      rw [← same]
      exact behind
    have alone : args.entries = [received e] := by
      rw [← same]
      rfl
    have arrived : (received e).index = prev + 1 ∧ (received e).term = term := by
      rw [received_eq wire]
      exact ⟨place, ofTerm⟩
    have placed := processAppendEntries_takes accepts.indexed alone before arrived.1
      (fun old at_old => arrived.2 ▸ fresh old at_old) success
    exact Option.some.inj (found.symm.trans placed)

end RaftState

namespace StripeConfig

open RaftState

/-- A put reaches all nodes: the leader proposes it, the peers accept the requests that they are sent, and `entries` are
what the nodes then have at the index. -/
structure Replicated (c : StripeConfig) (cmd : StripeWriteCommand) (leader s : RaftState) (index : Nat)
    (peers : Nat → RaftState) (transfers : Nat → Transfer) (entries : Nat → LogEntry) : Prop where
  leads : leader.role = .kLeader
  indexed : leader.lm.Indexed
  term_lt : leader.currentTerm < UInt32.size
  index_lt : index < UInt32.size
  state : (leader.propose cmd.commandData).1 = s
  place : (leader.propose cmd.commandData).2.proposeIndex = index
  own : s.lm.getSingleLogEntry index = some (entries leader.id)
  ids : ∀ peer < c.layout.n, peer ≠ leader.id → (peers peer).id = peer
  accepts : ∀ peer < c.layout.n, peer ≠ leader.id → s.Accepts index (transfers peer) (peers peer) (entries peer)

/-- A key and a value that are not empty. The key is neither the header of a command nor the key of a fragment that has
to be read from a node, and no such fragment has metadata of its own. -/
structure PlainPut (c : StripeConfig) (cmd : StripeWriteCommand) (index reader : Nat) (before : Nat → Database) : Prop where
  key : cmd.userKey ≠ []
  value : cmd.userValue ≠ []
  keySize : 29 + cmd.userKey.length < 2 ^ 31
  header : headerSkip cmd.userKey = 0
  apart : ∀ node < c.layout.n, node ≠ reader → ∀ fragId ∈ c.grouper.fragmentsForNode node, fragId < c.layout.params.k →
    cmd.userKey ≠ fragDbKey c.groupId index fragId
  unshadowed : Unshadowed c index reader before

section Journey

variable {c : StripeConfig} {cmd : StripeWriteCommand} {leader s : RaftState} {index : Nat} {peers : Nat → RaftState}
  {transfers : Nat → Transfer} {entries : Nat → LogEntry} {before : Nat → Database}

theorem PlainPut.fits {reader : Nat} (plain : c.PlainPut cmd index reader before)
    (small : Encoder.fragmentSize cmd.userValue c.layout.params.k < 1024 * 1024) : cmd.Fits := by
  refine ⟨plain.key, plain.value, plain.keySize, ?_⟩
  have whole := Encoder.length_le_fragments cmd.userValue c.k_pos
  have k : c.layout.params.k ≤ 16 := c.kMax
  have bound := Nat.mul_le_mul small.le k
  omega

theorem Replicated.putEntry (run : c.Replicated cmd leader s index peers transfers entries) (fits : cmd.Fits)
    (config : leader.config = c.clusterConfig.serverConfig c.groupId) (silent : leader.outbox = [])
    (member : c.groupId < c.layout.n) (small : Encoder.fragmentSize cmd.userValue c.layout.params.k < 1024 * 1024)
    (header : headerSkip cmd.userKey = 0)
    (fresh : ∀ peer < c.layout.n, peer ≠ leader.id → ∀ old, (peers peer).lm.getSingleLogEntry index = some old →
      old.term ≠ leader.currentTerm) {node : Nat} (inside : node < c.layout.n) :
    c.PutEntry cmd index node (entries node) := by
  have proposed := c.propose_eq fits config run.leads
  rw [run.indexed.lastLogEntryIndex_eq] at proposed
  have place : leader.lm.entries.length + 1 = index := by rw [← run.place, proposed]
  rw [place] at proposed
  have state : s = { leader with lm := leader.lm.appendLogEntry (c.stripeEntry cmd leader.currentTerm index) } := by
    rw [← run.state, proposed]
  have at_index : s.lm.getSingleLogEntry index = some (c.stripeEntry cmd leader.currentTerm index) := by
    have appended : (leader.lm.appendLogEntry (c.stripeEntry cmd leader.currentTerm index)).Indexed :=
      run.indexed.appendLogEntry place.symm
    have last := appended.getSingleLogEntry_succ leader.lm.entries.length
    rw [place] at last
    rw [state]
    exact last.trans List.getElem?_concat_length
  by_cases own : node = leader.id
  · rw [own, Option.some.inj (run.own.symm.trans at_index)]
    exact c.putEntry_stripeEntry fits member
  · have id := run.ids node inside own
    have given : s.config.lrcGrouper = some c.grouper := by
      rw [state]
      change leader.config.lrcGrouper = _
      rw [config]
      rfl
    have mode : s.config.encodingMode = 2 := by
      rw [state]
      change leader.config.encodingMode = _
      rw [config]
      rfl
    have typed : ∀ e, newLrcEntry c.grouper (c.stripeEntry cmd leader.currentTerm index) index (peers node).id = some e →
        e.WireFits ∧ e.index = index ∧ e.term = leader.currentTerm ∧ ∀ frag ∈ e.fragments, frag.length ≤ 16 * 1024 * 1024 := by
      intro e new
      rw [c.eq_peerEntry fits new]
      exact ⟨c.wireFits_peerEntry fits run.term_lt run.index_lt, rfl, rfl, fun frag found =>
        (c.length_of_mem_peerFragments found).trans_le (small.le.trans (by decide))⟩
    obtain ⟨e, new, stored⟩ := (run.accepts node inside own).stored_eq (by rw [state]; exact silent) at_index
      (c.isLrcEncoded member) given mode (by omega) (fresh node inside own) typed
    rw [stored, c.eq_peerEntry fits new, id]
    exact c.putEntry_received fits run.term_lt run.index_lt small member header node

end Journey

/-- Server 0 of `sevenStores` is elected by the first three of its peers. -/
def ledByZero : Cluster :=
  (Cluster.exec (fun _ _ => True) (Cluster.init StripeStore.sevenStores.clusterConfig .zero)
    (.tick 0 { electionExpired := true } :: List.replicate 3 (.deliver 0 1) ++ List.replicate 3 (.deliver 3 1))).get
    (by decide +kernel)

/-- The first request for a put, to one of the peers, with its only entry in some memory. -/
def firstTransfer (cmd : StripeWriteCommand) (peer : Nat) : Transfer :=
  { args :=
      { term := 1
        groupId := 0
        leaderId := 0
        prevLogIndex := 0
        prevLogTerm := 0
        prevK := 0
        leaderCommit := 0
        entryCnt := 1
        entries := [StripeStore.sevenStores.peerEntry cmd 1 1 peer] }
    memory := fun _ => Serializer.sentMemory
    padding := []
    now := 1 }

def firstEntries (cmd : StripeWriteCommand) (node : Nat) : LogEntry :=
  if node = 0 then StripeStore.sevenStores.stripeEntry cmd 1 1
  else Serializer.received (StripeStore.sevenStores.peerEntry cmd 1 1 node)

theorem ledByZero_log (node : Nat) (member : node < 7) : (ledByZero.servers node).lm = {} := by
  have all : ∀ node < 7, (ledByZero.servers node).lm = {} := by decide +kernel
  exact all node member

instance (m : EntryMemory) (e : LogEntry) : Decidable (m.Holds e) :=
  decidable_of_iff ((m.commandData < 2 ^ 64 ∧ (m.commandData = 0 ↔ e.commandDataField = [])) ∧
      (m.notEncoded < 2 ^ 64 ∧ (m.notEncoded = 0 ↔ e.notEncodedField = [])) ∧
      (m.fragment < 2 ^ 64 ∧ (m.fragment = 0 ↔ e.fragmentField = [])) ∧
      (m.fragments + 24 * e.fragments.length < 2 ^ 64 ∧ (m.fragments = 0 ↔ e.fragments = [])) ∧
      (m.fragIds + 4 * e.fragIds.length < 2 ^ 64 ∧ (m.fragIds = 0 ↔ e.fragIds = [])) ∧
      (m.placement + 16 * e.placement.length < 2 ^ 64 ∧ (m.placement = 0 ↔ e.placement = [])))
    ⟨fun ⟨a, b, c, d, e, f⟩ => ⟨a, b, c, d, e, f⟩,
      fun held => ⟨held.commandData, held.notEncoded, held.fragment, held.fragments, held.fragIds, held.placement⟩⟩

/-- Server 0 proposes the put as its first, and the peers accept it. -/
def FirstPut (cmd : StripeWriteCommand) : Prop :=
  let proposed := (ledByZero.servers 0).propose cmd.commandData
  proposed.2.proposeIndex = 1 ∧ proposed.1.lm.getSingleLogEntry 1 = some (firstEntries cmd 0) ∧
    ∀ peer < 7, peer ≠ 0 →
      ⟨proposed.1.id, peer, .appendEntries (firstTransfer cmd peer).args⟩ ∈ (proposed.1.replicateNewProposeEntry 1).outbox ∧
      Serializer.sentMemory.Holds (StripeStore.sevenStores.peerEntry cmd 1 1 peer) ∧
      let answered := (ledByZero.servers peer).processAppendEntries
        { (firstTransfer cmd peer).args with entries := [firstEntries cmd peer] } 1
      answered.2.any AppendEntriesReply.success = true ∧
        answered.1.lm.getSingleLogEntry 1 = some (firstEntries cmd peer)

instance (cmd : StripeWriteCommand) : Decidable (FirstPut cmd) := by
  unfold FirstPut
  infer_instance

theorem FirstPut.replicated {cmd : StripeWriteCommand} (first : FirstPut cmd) (fits : cmd.Fits)
    (small : Encoder.fragmentSize cmd.userValue 4 < 1024 * 1024) :
    StripeStore.sevenStores.Replicated cmd (ledByZero.servers 0) ((ledByZero.servers 0).propose cmd.commandData).1 1
      ledByZero.servers (firstTransfer cmd) (firstEntries cmd) := by
  obtain ⟨place, own, peers⟩ := first
  have ids : ∀ node < 7, (ledByZero.servers node).id = node := by decide +kernel
  refine ⟨by decide +kernel, ledByZero_log 0 (by decide) ▸ LogManager.indexed_nil, by decide +kernel, by decide, rfl, place, own,
    fun peer member _ => ids peer member, fun peer member other => ?_⟩
  obtain ⟨sent, held, accepted, stored⟩ := peers peer member other
  have zero : 0 < UInt32.size := by decide
  have one : 1 < UInt32.size := by decide
  have header : (firstTransfer cmd peer).args.HeaderFits :=
    ⟨one, zero, zero, zero, zero, zero, zero, show 1 < 2 ^ 64 by decide⟩
  have wire : (StripeStore.sevenStores.peerEntry cmd 1 1 peer).WireFits :=
    StripeStore.sevenStores.wireFits_peerEntry fits (by decide) (by decide)
  have only : ∀ e ∈ (firstTransfer cmd peer).args.entries, e = StripeStore.sevenStores.peerEntry cmd 1 1 peer :=
    fun e inside => List.mem_singleton.mp inside
  have memory : ∀ (i : Nat) (e : LogEntry), (firstTransfer cmd peer).args.entries[i]? = some e →
      Serializer.sentMemory.Holds e :=
    fun i e at_i => only e (List.mem_of_getElem? at_i) ▸ held
  have arrives : firstEntries cmd peer = Serializer.received (StripeStore.sevenStores.peerEntry cmd 1 1 peer) := if_neg other
  have sizes : ∀ e ∈ (firstTransfer cmd peer).args.entries, ∀ frag ∈ e.fragments, frag.length ≤ 16 * 1024 * 1024 := by
    intro e inside frag member
    rw [only e inside] at member
    rw [StripeStore.sevenStores.length_of_mem_peerFragments member]
    exact small.le.trans (by decide)
  have read := Serializer.deserialize_serialize header rfl (fun e inside => only e inside ▸ wire) memory sizes []
  refine ⟨?_, header, memory, ledByZero_log peer member ▸ LogManager.indexed_nil, _, ?_, accepted, stored⟩
  · rw [ids peer member]
    exact sent
  · rw [arrives]
    exact read

/-- A key of 21 bytes that begins like a command. -/
def headerKeyPut : StripeWriteCommand :=
  { groupId := 0, userKey := ascii "STRIPED-KEY-NUMBER-21", userValue := [1, 2, 3, 4], encodingMode := 2 }

/-- The key under which fragment 2 of the first stripe is stored. -/
def fragmentKeyPut : StripeWriteCommand :=
  { groupId := 0, userKey := fragDbKey 0 1 2, userValue := [1, 2, 3, 4], encodingMode := 2 }

end StripeConfig

end FlexRaft
