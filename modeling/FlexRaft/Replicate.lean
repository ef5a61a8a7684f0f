import FlexRaft.RaftState

namespace FlexRaft

namespace RaftState

/-- A fragment of an entry as `EncodeRaftEntry` wraps it into an entry of its own. -/
def encodedEntry (ent : LogEntry) (raftIndex k : Nat) (frag : Slice) : LogEntry :=
  { index := raftIndex
    term := ent.term
    type := .kFragments
    chunkInfo := { k := k, raftIndex := raftIndex }
    startOffset := ent.startOffset
    commandSize := ent.commandSize
    notEncodedField := ent.commandData.take ent.startOffset
    fragmentField := frag }

/-- `none` where an assertion fails, or where `k` exceeds the cluster size or the offset the command,
so that an unsigned subtraction wraps around and the allocation that follows cannot succeed. -/
def encodeRaftEntry (s : RaftState) (raftIndex k : Nat) : Option Stripe :=
  if s.lm.lastLogEntryIndex < raftIndex ∨ k = 0 ∨ s.getClusterServerNumber < k then none
  else match s.lm.getSingleLogEntry raftIndex with
    | none => none
    | some ent =>
      if ent.commandData.length < ent.startOffset then none
      else
        let results := Encoder.encodeSlice s.config.isal (ent.commandData.drop ent.startOffset) k
          (s.getClusterServerNumber - k)
        some
          { raftIndex := ent.index
            raftTerm := ent.term
            fragments := results.mapValues (encodedEntry ent raftIndex k) }

/-- Encodes one entry and records it in `encoded_stripe_` and `last_encoding_`. -/
def encodeAndRecord (k : Nat) (s : RaftState) (raftIndex : Nat) : RaftState :=
  match s.encodeRaftEntry raftIndex k with
  | none => s.stop
  | some stripe => (s.setEncodedStripe raftIndex stripe).updateLastEncodingK raftIndex k

def sendHeartBeat (s : RaftState) (peer : Nat) : RaftState :=
  if 32 ≤ peer ∨ peer ∉ s.peers then s
  else
    let prevIndex := predIndex (s.raftPeer peer).nextIndex
    s.send peer (.appendEntries
      { term := s.currentTerm
        groupId := s.config.groupId
        leaderId := s.id
        prevLogIndex := prevIndex
        prevLogTerm := s.lm.termAt prevIndex
        prevK := s.getLastEncodingK prevIndex
        leaderCommit := s.commitIndex
        entryCnt := 0
        entries := [] })

/-- The Reed-Solomon entries for `peer` at the given indices; a missing stripe is a null dereference. -/
def encodedEntriesFor (s : RaftState) (peer : Nat) : List Nat → Option (List LogEntry)
  | [] => some []
  | raftIndex :: rest =>
    match s.encodedStripe raftIndex with
    | none => none
    | some stripe =>
      (s.encodedEntriesFor peer rest).map fun entries => (stripe.fragments.find peer).getD {} :: entries

/-- The user key inside a serialized stripe command. The check is made on 32 bits, and bytes behind
the end of the command are left out where it wraps around. -/
def keySlice (ent : LogEntry) : Slice :=
  let keySize := ent.chunkInfo.keySize
  if 0 < keySize ∧ (21 + keySize) % UInt32.size ≤ ent.commandData.length then (ent.commandData.drop 21).take keySize
  else []

/-- The key-only entry both LRC paths start from. -/
def keyOnlyEntry (ent : LogEntry) (raftIndex : Nat) : LogEntry :=
  let entry : LogEntry :=
    { index := raftIndex
      term := ent.term
      type := .kNormal
      chunkInfo := ent.chunkInfo
      placement := ent.placement }
  { entry.setCommandData (keySlice ent) with commandSize := ent.chunkInfo.totalSize }

/-- Fragments `sendAppendEntriesLrc` picks for `peer`: by placement, or all when there is none. -/
def lrcFragmentsFor (ent : LogEntry) (peer : Nat) : List Slice :=
  if ent.placement = [] then ent.fragments
  else ent.placement.filterMap fun p => if p.nodeId = peer then ent.fragments[p.fragId]? else none

/-- One entry for each index; `none` where a peer would get no fragment and the code aborts. An index
without an entry is skipped, which the entry count check of the caller then reports. -/
def lrcEntriesFor (s : RaftState) (peer : Nat) : List Nat → Option (List LogEntry)
  | [] => some []
  | raftIndex :: rest =>
    match s.lm.getSingleLogEntry raftIndex with
    | none => s.lrcEntriesFor peer rest
    | some ent =>
      let frags := lrcFragmentsFor ent peer
      if frags = [] then none
      else (s.lrcEntriesFor peer rest).map fun entries =>
        frags.foldl LogEntry.addFragment (keyOnlyEntry ent raftIndex) :: entries

/-- Raft indices from `start` to `last`. -/
def indexRange (start last : Nat) : List Nat := List.range' start (last + 1 - start)

def sendAppendEntries (s : RaftState) (peer : Nat) : RaftState :=
  let nextIndex := (s.raftPeer peer).nextIndex
  let prevIndex := predIndex nextIndex
  let lastIndex := s.lm.lastLogEntryIndex
  if lastIndex < prevIndex then s.stop
  else
    let entries := if s.config.lrcMode
      then s.lrcEntriesFor peer (indexRange nextIndex lastIndex)
      else s.encodedEntriesFor peer (indexRange nextIndex lastIndex)
    match entries with
    | none => s.stop
    | some entries =>
      if entries.length ≠ lastIndex + 1 - nextIndex then s.stop
      else s.send peer (.appendEntries
        { term := s.currentTerm
          groupId := s.config.groupId
          leaderId := s.id
          prevLogIndex := prevIndex
          prevLogTerm := s.lm.termAt prevIndex
          prevK := s.getLastEncodingK prevIndex
          leaderCommit := s.commitIndex
          entryCnt := entries.length
          entries := entries })

/-- A live peer gets entries, any other peer a heartbeat. -/
def sendToPeer (s : RaftState) (peer : Nat) : RaftState :=
  if peer = s.id then s
  else if s.liveMonitor.isAlive peer then s.sendAppendEntries peer else s.sendHeartBeat peer

def broadcastHeartbeat (s : RaftState) : RaftState :=
  forEach (fun s peer => if peer = s.id then s else s.sendHeartBeat peer) s.peers s

/-- The `k` new encodings use: configured, or the live servers beyond `F`. -/
def encodingK (s : RaftState) (liveServers : Nat) : Nat :=
  if 0 < s.config.dynamicK then s.config.dynamicK else liveServers - s.livenessLevel

/-- Step 1 of `MaybeReEncodingAndReplicate`: an index keeps its encoding unless the new `k` is smaller. -/
def reEncode (k : Nat) (s : RaftState) (raftIndex : Nat) : RaftState :=
  let lastK := s.getLastEncodingK raftIndex
  if lastK ≠ 0 ∧ lastK ≤ k then s else s.encodeAndRecord k raftIndex

/-- Step 2: send everything after the commit index again. -/
def reverseAndSend (s : RaftState) (peer : Nat) : RaftState :=
  if peer = s.id then s
  else
    (s.updatePeer peer fun p => { p with nextIndex := s.commitIndex + 1, matchIndex := s.commitIndex }).sendToPeer
      peer

def maybeReEncodingAndReplicate (s : RaftState) : RaftState :=
  let liveServers := s.liveMonitor.liveNumber
  if liveServers ≤ s.livenessLevel then s
  else
    (forEach (reEncode (s.encodingK liveServers)) (indexRange (s.commitIndex + 1) s.lm.lastLogEntryIndex) s).andThen
      fun s => forEach reverseAndSend s.peers s

def updateAliveServers (s : RaftState) (num : Nat) : RaftState := { s with aliveServersOfLastPoint := num }

def replicateEntries (s : RaftState) : RaftState :=
  let liveServers := s.liveMonitor.liveNumber
  if liveServers ≠ s.aliveServersOfLastPoint then (s.updateAliveServers liveServers).maybeReEncodingAndReplicate
  else forEach sendToPeer s.peers s

/-- The LRC branch for one peer: the fragments the grouper assigns to it, under their own ids. -/
def sendNewLrcEntry (grouper : LrcGrouper) (raftIndex : Nat) (s : RaftState) (peer : Nat) : RaftState :=
  if peer = s.id then s
  else match s.lm.getSingleLogEntry raftIndex with
    | none => s
    | some ent =>
      let fragIds := (grouper.fragmentsForNode peer).insertionSort (· ≤ ·)
      let peerFrags := fragIds.filterMap fun fid => ent.fragments[fid]?
      if peerFrags = [] then s
      else
        let prevIndex := predIndex raftIndex
        match (if 0 < prevIndex then (s.lm.getSingleLogEntry prevIndex).map LogEntry.term else some 0) with
        | none => s.stop
        | some prevTerm =>
          s.send peer (.appendEntries
            { term := s.currentTerm
              groupId := s.config.groupId
              leaderId := s.id
              prevLogIndex := prevIndex
              prevLogTerm := prevTerm
              prevK := s.getLastEncodingK prevIndex
              leaderCommit := s.commitIndex
              entryCnt := 1
              entries := [(fragIds.zip peerFrags).foldl (fun e p => e.addFragmentWithId p.1 p.2)
                (keyOnlyEntry ent raftIndex)] })

/-- The Reed-Solomon branch before its sends: re-encode when the live count has changed, then encode
the new entry unless its index already has a stripe. -/
def encodeNewEntry (s : RaftState) (raftIndex : Nat) : RaftState :=
  let liveServers := s.liveMonitor.liveNumber
  (if liveServers ≠ s.aliveServersOfLastPoint then (s.updateAliveServers liveServers).maybeReEncodingAndReplicate
    else s).andThen fun s =>
      if (s.encodedStripe raftIndex).isSome then s else s.encodeAndRecord (s.encodingK liveServers) raftIndex

def replicateNewProposeEntry (s : RaftState) (raftIndex : Nat) : RaftState :=
  match s.lm.getSingleLogEntry raftIndex with
  | none => s
  | some ent =>
    match s.config.lrcGrouper with
    | none => (s.encodeNewEntry raftIndex).andThen fun s => forEach sendToPeer s.peers s
    | some grouper =>
      if s.config.encodingMode = 2 ∧ ent.isLrcEncoded then
        let s := s.updateLastEncodingK raftIndex ent.chunkInfo.k
        forEach (sendNewLrcEntry grouper raftIndex) s.peers s
      else (s.encodeNewEntry raftIndex).andThen fun s => forEach sendToPeer s.peers s

end RaftState

end FlexRaft
