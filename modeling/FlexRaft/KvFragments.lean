import FlexRaft.KvFormat

namespace FlexRaft

open Encoder

/-- What server `s` of `n` applies when its fragment of the stripe is committed. -/
def Stripe.appliedBy (stripe : Stripe) (n s : Nat) : Option KvRequest :=
  (stripe.fragments.find s).bind fun ent => raftEntryToRequest ent s n

/-- The fragments in the values that these servers have stored. -/
def Stripe.fetched (stripe : Stripe) (n : Nat) (servers : List Nat) : OrdMap Slice :=
  servers.filterMap fun s => (stripe.appliedBy n s).bind fun request =>
    (decodeString request.value).map fun str => (str.fragId, str.frag)

namespace KvRequest

/-- The entry of a request that was proposed in some term. -/
def proposed (req : KvRequest) (term index : Nat) : LogEntry := { req.fullEntry index with term := term }

section

variable {req : KvRequest} {leader : RaftState} {term index k s : Nat} {stripe : Stripe}

theorem encodeRaftEntry_proposed (held : leader.lm.getSingleLogEntry index = some (req.proposed term index)) (positive : 1 ≤ k)
    (le : k ≤ leader.getClusterServerNumber) : leader.encodeRaftEntry index k = some
      { raftIndex := index
        raftTerm := term
        fragments := (encodeSlice leader.config.isal ((requestToRawBytes req).drop req.startOffset) k
          (leader.getClusterServerNumber - k)).mapValues (RaftState.encodedEntry (req.proposed term index) index k) } := by
  have inLog : ¬(leader.lm.lastLogEntryIndex < index ∨ k = 0 ∨ leader.getClusterServerNumber < k) := by
    rintro (beyond | zero | large)
    · rw [LogManager.getSingleLogEntry, if_pos (Or.inr beyond)] at held
      cases held
    · omega
    · omega
  have inside : ¬(req.proposed term index).commandData.length < (req.proposed term index).startOffset := by
    change ¬(requestToRawBytes req).length < req.startOffset
    simp only [requestToRawBytes, List.length_append, length_header, makePrefixLengthKey, length_encodeFixed32, startOffset]
    omega
  unfold RaftState.encodeRaftEntry
  rw [if_neg inLog, held]
  dsimp only
  rw [if_neg inside]
  rfl

variable (library : leader.config.isal = Isal.gf256) (fits : req.Fits)
  (valid : (EntryForm.fragment k).Valid leader.getClusterServerNumber)
  (held : leader.lm.getSingleLogEntry index = some (req.proposed term index))
  (encodes : leader.encodeRaftEntry index k = some stripe)

include library fits valid held encodes

theorem appliedBy_eq (bound : s < leader.getClusterServerNumber) :
    ∃ request, stripe.appliedBy leader.getClusterServerNumber s = some request ∧ request.key = req.key ∧
      request.value = storedValue leader.getClusterServerNumber s req.value (.fragment k) := by
  obtain ⟨request, applied, -, key, value⟩ := raftEntryToRequest_entry s fits valid index
  rw [encodeRaftEntry_proposed held valid.1 valid.2.1, library] at encodes
  cases encodes
  refine ⟨request, ?_, key, value⟩
  have inside : s < k + (leader.getClusterServerNumber - k) := bound.trans_le (by omega)
  rw [Stripe.appliedBy, OrdMap.find_mapValues, encodeSlice_find inside, Option.map_some, Option.bind_some]
  exact applied

theorem fetched_eq {servers : List Nat} (members : ∀ s ∈ servers, s < leader.getClusterServerNumber) :
    stripe.fetched leader.getClusterServerNumber servers = servers.map fun s =>
      (s, encodeFragment Isal.gf256 (makePrefixLengthKey req.value) k (leader.getClusterServerNumber - k) s) := by
  rw [Stripe.fetched, ← List.filterMap_eq_map]
  refine List.filterMap_congr fun s member => ?_
  obtain ⟨request, applied, -, value⟩ := appliedBy_eq library fits valid held encodes (members s member)
  rw [applied, Option.bind_some, value, decodeString_storedValue valid (members s member)]
  rfl

end

/-- A put of two bytes under the key "a". -/
def smallPut : KvRequest := { type := .kPut, clientId := 1, sequence := 1, key := [97], value := [5, 6] }

/-- The first of three servers, with the put in its log. -/
def smallLeader : RaftState :=
  RaftState.newRaftState { (ClusterConfig.threeServers 1).serverConfig 0 with isal := Isal.gf256 } none
    { entries := [smallPut.proposed 1 1] } (.zero 0)

end KvRequest

end FlexRaft
