import FlexRaft.Replicate

namespace FlexRaft

namespace RaftState

def convertToFollower (s : RaftState) (term : Nat) : RaftState :=
  if term < s.currentTerm then s.stop
  else
    let s := { s with role := .kFollower }
    if s.currentTerm < term then { s with voteFor := kNotVoted, currentTerm := term }.persistRaftState else s

/-- What the request handlers do about the term of a request that is not older than their own. -/
def stepDownFor (s : RaftState) (term : Nat) : RaftState :=
  if s.currentTerm < term ∨ s.role = .kCandidate then s.convertToFollower term else s

/-- `matchChunkInfo` is not part of the reset. -/
def resetNextIndexAndMatchIndex (s : RaftState) : RaftState :=
  { s with raftPeer := fun i =>
      if i ∈ s.peers ∧ i < 32 then
        { s.raftPeer i with nextIndex := s.lm.lastLogEntryIndex + 1, matchIndex := 0 }
      else s.raftPeer i }

def convertToLeaderInternal (s : RaftState) : RaftState :=
  if s.role ≠ .kPreLeader then s
  else { s with role := .kLeader, electionRound := 0 }.resetNextIndexAndMatchIndex.broadcastHeartbeat

/-- The server's own entries open the stripes of a collection task; a missing entry fails an assertion. -/
def addOwnEntries (s : RaftState) : Nat → List Stripe → Option (List Stripe)
  | _, [] => some []
  | raftIndex, stripe :: rest =>
    match s.lm.getSingleLogEntry raftIndex with
    | none => none
    | some ent => (s.addOwnEntries (raftIndex + 1) rest).map fun stripes =>
        { stripe with
          raftIndex := ent.index
          raftTerm := ent.term
          collectedFragments := stripe.collectedFragments.insertOrAssign s.id ent } :: stripes

def requestFragments (s : RaftState) (peer : Nat) : RaftState :=
  if peer = s.id then s
  else s.send peer (.requestFragments
    { term := s.currentTerm
      leaderId := s.id
      startIndex := s.commitIndex + 1
      lastIndex := s.lm.lastLogEntryIndex })

def collectFragments (s : RaftState) : RaftState :=
  let store := s.preleaderStripeStore.initRequestFragmentsTask (s.commitIndex + 1) s.lm.lastLogEntryIndex
    s.getClusterServerNumber s.id
  match s.addOwnEntries store.startIndex store.stripes with
  | none => { s with preleaderStripeStore := store }.stop
  | some stripes => forEach requestFragments s.peers { s with preleaderStripeStore := { store with stripes := stripes } }

def convertToPreLeader (s : RaftState) : RaftState :=
  let s := { s with role := .kPreLeader }
  if s.commitIndex = s.lm.lastLogEntryIndex then s.convertToLeaderInternal else s.collectFragments

/-- The first collected entry of type `kNormal`, whatever its term. -/
def findFullEntryInStripe (stripe : Stripe) : Option LogEntry :=
  (stripe.collectedFragments.find? fun p => decide (p.2.type = .kNormal)).map Prod.snd

inductive DecodeEntryResult
  | stop
  | failed
  | decoded (ent : LogEntry)
  deriving DecidableEq, Repr

/-- `FilterDuplicatedCollectedFragments` has an empty body, so every collected fragment is an input. -/
def decodingRaftEntry (s : RaftState) (stripe : Stripe) : DecodeEntryResult :=
  match findFullEntryInStripe stripe with
  | some ent => .decoded ent
  | none =>
    let own := (stripe.collectedFragments.find s.id).getD {}
    let k := own.chunkInfo.k
    let input := stripe.collectedFragments.mapValues LogEntry.fragmentSlice
    match Encoder.decodeSliceHelper s.config.isal input k s.getClusterServerNumber with
    | .stop => .stop
    | .failed => .failed
    | .decoded data =>
      let entry : LogEntry :=
        { index := stripe.raftIndex
          term := stripe.raftTerm
          type := .kNormal
          startOffset := own.startOffset
          chunkInfo := { k := 0, raftIndex := stripe.raftIndex } }
      .decoded (entry.setCommandData ((own.notEncodedSlice ++ data).take own.commandSize))

/-- The loop of `DecodeCollectedStripe`, `raftIndex` being the index of the next stripe. -/
def decodeStripes : List Stripe → Nat → RaftState → RaftState
  | [], _, s => s
  | stripe :: rest, raftIndex, s =>
    if stripe.collectedFragments = [] then decodeStripes rest (raftIndex + 1) s
    else match s.decodingRaftEntry stripe with
      | .stop => s.stop
      | .failed => { s with lm := s.lm.deleteLogEntriesFrom raftIndex }
      | .decoded ent => decodeStripes rest (raftIndex + 1) { s with lm := s.lm.overWriteLogEntry ent raftIndex }

def decodeCollectedStripe (s : RaftState) : RaftState :=
  decodeStripes s.preleaderStripeStore.stripes s.preleaderStripeStore.startIndex s

def preLeaderBecomeLeader (s : RaftState) : RaftState :=
  if s.livenessLevel + 1 ≤ s.preleaderStripeStore.collectedFragmentsCnt then
    s.decodeCollectedStripe.andThen convertToLeaderInternal
  else s

/-- Entries from index `raftIndex` on, as far as the log has them, `count` at most. -/
def fragmentsFrom (lm : LogManager) : Nat → Nat → List LogEntry
  | _, 0 => []
  | raftIndex, count + 1 =>
    match lm.getSingleLogEntry raftIndex with
    | none => []
    | some ent => ent :: fragmentsFrom lm (raftIndex + 1) count

def processRequestFragments (s : RaftState) (args : RequestFragmentsArgs) (now : Nat) :
    RaftState × Option RequestFragmentsReply :=
  let s := s.updateLiveness args.leaderId now
  if args.term < s.currentTerm then
    (s, some
      { replyId := s.id
        term := s.currentTerm
        startIndex := args.startIndex
        success := false
        entryCnt := 0
        fragments := [] })
  else
    let s := s.stepDownFor args.term
    let fragments := fragmentsFrom s.lm args.startIndex (args.lastIndex + 1 - args.startIndex)
    (s, some
      { replyId := s.id
        term := s.currentTerm
        startIndex := args.startIndex
        success := true
        entryCnt := fragments.length
        fragments := fragments })

/-- The loop over the answered entries; `none` where an entry does not have the index of its place. -/
def addAnswer (replyId : Nat) : Nat → List LogEntry → PreLeaderStripeStore → Option PreLeaderStripeStore
  | _, [], store => some store
  | raftIndex, entry :: rest, store =>
    if raftIndex ≠ entry.index then none
    else addAnswer replyId (raftIndex + 1) rest (store.addFragments entry.index entry replyId)

/-- `success` is not looked at: a refusal whose term is the current one counts as an empty answer. -/
def processRequestFragmentsReply (s : RaftState) (reply : RequestFragmentsReply) (now : Nat) : RaftState :=
  let s := s.updateLiveness reply.replyId now
  if s.role ≠ .kPreLeader ∨ reply.term < s.currentTerm then s
  else if s.currentTerm < reply.term then s.convertToFollower reply.term
  else if s.preleaderStripeStore.isCollected reply.replyId then s
  else match addAnswer reply.replyId reply.startIndex reply.fragments s.preleaderStripeStore with
    | none => s.stop
    | some store => { s with preleaderStripeStore := store.updateResponseState reply.replyId }.preLeaderBecomeLeader

end RaftState

end FlexRaft
