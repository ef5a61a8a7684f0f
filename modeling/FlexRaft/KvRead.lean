import FlexRaft.KvFormat

namespace FlexRaft

/-- `ValueGatheringTaskResults::err`. -/
inductive GatherError
  | kOk
  | kKVDecodeFail
  | kRequestExecTimeout
  deriving DecidableEq, Repr

/-- A `DoValueGatheringTask` in progress: the task, the peers that it has not asked yet, the results and
`gather_value_done`. For the statements only, `own` is the string that the server had read, `seen` the number of
requests that it had applied then, and `answers` what the peers have answered with `kOk`. -/
structure Gathering where
  readIndex : Nat
  k : Nat
  m : Nat
  todo : List Nat
  decodeInput : OrdMap Slice
  value : Slice
  err : GatherError
  done : Bool
  own : Slice
  seen : Nat
  answers : List Slice
  deriving DecidableEq, Repr

/-- An `int` as it is compared with a `size_t`. -/
def sizeOfInt (word : Nat) : Nat := if word < 2 ^ 31 then word else 2 ^ 64 - 2 ^ 32 + word

namespace Gathering

def start (readIndex : Nat) (format : DecodedString) (own : Slice) (peers : List Nat) (seen : Nat) : Gathering :=
  { readIndex := readIndex
    k := format.k
    m := format.m
    todo := peers
    decodeInput := [(format.fragId, format.frag)]
    value := own
    err := .kOk
    done := false
    own := own
    seen := seen
    answers := [] }

/-- A value that is there as a whole. -/
def finishWith (g : Gathering) (buf : Slice) : Option Gathering :=
  (getKeyFromPrefixLengthFormat buf).map fun parsed => { g with value := parsed.1, err := .kOk, done := true }

def addFragment (g : Gathering) (fmt : DecodedString) : Gathering :=
  if fmt.k = g.k ∧ fmt.m = g.m then { g with decodeInput := g.decodeInput.insertNew fmt.fragId fmt.frag } else g

/-- Decodes as soon as there are enough fragments. -/
def tryDecode (g : Gathering) : Option Gathering :=
  if g.done = false ∧ sizeOfInt g.k ≤ g.decodeInput.length then
    match Encoder.decodeSlice Isal.gf256 g.decodeInput g.k g.m with
    | .stop => none
    | .failed => some { g with err := .kKVDecodeFail }
    | .decoded results => g.finishWith results
  else some g

/-- `call_back`, for an answer with `kOk`. `none` where an assertion of the decoder fails or a length goes beyond the
buffer it stands in. -/
def callBack (g : Gathering) (answer : Slice) : Option Gathering :=
  (decodeString answer).bind fun fmt =>
    if fmt.k = 1 ∧ fmt.m = 0 then g.finishWith fmt.frag else (g.addFragment fmt).tryDecode

/-- The end of `DoValueGatheringTask`, at most a second behind the last answer. -/
def conclude (g : Gathering) : Gathering :=
  if g.done = false ∧ g.err = .kOk then { g with err := .kRequestExecTimeout } else g

end Gathering

/-- Where `ExecuteGetOperation` is: in the loop that waits for the read index, gathering fragments, or back. -/
inductive ReadPhase
  | waiting (readIndex : Nat)
  | gathering (g : Gathering)
  | returned (err : ErrorType) (value : Slice)
  deriving DecidableEq, Repr

structure ReadCall where
  server : Nat
  key : Slice
  phase : ReadPhase
  deriving DecidableEq, Repr

def ReadCall.isReturned (call : ReadCall) : Bool :=
  match call.phase with
  | .returned _ _ => true
  | _ => false

/-- A `KvServer`: its database, the number of entries that its apply thread has taken from the channel since the
process started, and `applied_index_`. `history` holds all requests it has ever applied and is for the statements
only. -/
structure KvServer where
  db : Database
  popped : Nat
  appliedIndex : Nat
  history : List KvRequest

/-- What a sequence of applied requests makes of a key. -/
def latest (key : Slice) (history : List KvRequest) : Option Slice :=
  history.foldl (fun value req => if req.key = key then if req.type = .kPut then some req.value else none else value) none

def Database.delete (db : Database) (key : Slice) : Database := fun other => if other = key then none else db other

namespace KvServer

def start : KvServer :=
  { db := fun _ => none
    popped := 0
    appliedIndex := 0
    history := [] }

/-- `KvServerRPCService::GetValue`. It waits for the read index, so that there is no answer in time if that is not
applied. -/
def getValue (s : KvServer) (key : Slice) (readIndex : Nat) : Option Slice :=
  if s.appliedIndex < readIndex then none else s.db key

/-- The switch of the apply thread, which asserts that there is nothing but puts and deletes. -/
def applyRequest (s : KvServer) (req : KvRequest) : Option Database :=
  match req.type with
  | .kPut => some (s.db.put (req.key, req.value))
  | .kDelete => some (s.db.delete req.key)
  | _ => none

end KvServer

/-- A cluster of `KvServer`s over one log of committed requests. -/
structure KvCluster where
  serverNum : Nat
  committed : List KvRequest
  servers : Nat → KvServer
  reads : List ReadCall

/-- One more request is committed, an apply thread takes the next entry from its channel, a process starts anew, or
one of the reads goes on. In `ask` the RPC to the peer at place `i` of those not asked yet reaches it or not. -/
inductive KvLabel
  | commit (req : KvRequest)
  | apply (server : Nat) (form : EntryForm)
  | restart (server : Nat)
  | startGet (server : Nat) (key : Slice) (readIndex : Nat)
  | expire (n : Nat)
  | readDb (n : Nat)
  | ask (n i : Nat) (reached : Bool)
  | finish (n : Nat)
  deriving DecidableEq, Repr

namespace KvCluster

def init (serverNum : Nat) : KvCluster :=
  { serverNum := serverNum
    committed := []
    servers := fun _ => .start
    reads := [] }

def setServer (γ : KvCluster) (server : Nat) (s : KvServer) : KvCluster :=
  { γ with servers := fun i => if i = server then s else γ.servers i }

/-- One round of `ApplyRequestCommandThread`. -/
def apply (γ : KvCluster) (server : Nat) (form : EntryForm) : Option KvCluster :=
  let s := γ.servers server
  if server < γ.serverNum ∧ form.Valid γ.serverNum then
    (γ.committed[s.popped]?).bind fun req =>
      let ent := req.entry (s.popped + 1) server γ.serverNum form
      (raftEntryToRequest ent server γ.serverNum).bind fun applied =>
        (s.applyRequest applied).map fun db => γ.setServer server
          { db := db
            popped := s.popped + 1
            appliedIndex := ent.index
            history := s.history ++ [req] }
  else none

/-- The database outlives the process; the log is applied once more. -/
def restart (γ : KvCluster) (server : Nat) : KvCluster :=
  { γ.setServer server { γ.servers server with popped := 0, appliedIndex := 0 } with
    reads := γ.reads.filter fun call => call.server != server || call.isReturned }

/-- The other servers. `kv_peers_` is a hash map, so that any order is possible. -/
def kvPeers (γ : KvCluster) (server : Nat) : List Nat := (List.range γ.serverNum).filter fun i => i ≠ server

/-- `ExecuteGetOperation` from the read of the database up to the value gathering. -/
def readDb (γ : KvCluster) (call : ReadCall) : Option ReadCall :=
  match call.phase with
  | .waiting readIndex =>
    if (γ.servers call.server).appliedIndex < readIndex then none
    else match (γ.servers call.server).db call.key with
      | none => some { call with phase := .returned .kKeyNotExist [] }
      | some value =>
        (decodeString value).map fun format =>
          if format.k = 1 then { call with phase := .returned .kOk value }
          else
            let seen := (γ.servers call.server).history.length
            { call with phase := .gathering (.start readIndex format value (γ.kvPeers call.server) seen) }
  | _ => none

/-- Half a second has passed in the loop that waits for the read index. -/
def expire (γ : KvCluster) (call : ReadCall) : Option ReadCall :=
  match call.phase with
  | .waiting readIndex =>
    if (γ.servers call.server).appliedIndex < readIndex then some { call with phase := .returned .kRequestExecTimeout [] }
    else none
  | _ => none

/-- The answer to a `GetValue` RPC, if there is one with `kOk`. -/
def answer (γ : KvCluster) (call : ReadCall) (g : Gathering) (i : Nat) (reached : Bool) : Option Slice :=
  if reached then (g.todo[i]?).bind fun peer => (γ.servers peer).getValue call.key g.readIndex else none

/-- One round of the loop over the peers, which ends as soon as the value is there. -/
def ask (γ : KvCluster) (i : Nat) (reached : Bool) (call : ReadCall) : Option ReadCall :=
  match call.phase with
  | .gathering g =>
    if g.done = false ∧ i < g.todo.length then
      let g' := { g with todo := g.todo.eraseIdx i }
      match γ.answer call g i reached with
      | none => some { call with phase := .gathering g' }
      | some answer => ({ g' with answers := g.answers ++ [answer] }.callBack answer).map fun g'' =>
          { call with phase := .gathering g'' }
    else none
  | _ => none

/-- The end of `ExecuteGetOperation`: whatever `res.err` is, `res.value` goes to the client and into the database. -/
def finish (γ : KvCluster) (n : Nat) : Option KvCluster :=
  (γ.reads[n]?).bind fun call =>
    match call.phase with
    | .gathering g =>
      if g.done = true ∨ g.todo = [] then
        let res := g.conclude
        let insertFullEntry := valueHeader 1 0 0 ++ makePrefixLengthKey res.value
        let s := γ.servers call.server
        some { γ.setServer call.server { s with db := s.db.put (call.key, insertFullEntry) } with
          reads := γ.reads.set n { call with phase := .returned .kOk insertFullEntry } }
      else none
    | _ => none

def startGet (γ : KvCluster) (server : Nat) (key : Slice) (readIndex : Nat) : Option KvCluster :=
  if server < γ.serverNum then
    some { γ with reads := γ.reads ++ [{ server := server, key := key, phase := .waiting readIndex }] }
  else none

/-- One of the reads goes on and touches nothing else. -/
def stepRead (γ : KvCluster) (n : Nat) (next : ReadCall → Option ReadCall) : Option KvCluster :=
  (γ.reads[n]?).bind fun call => (next call).map fun call => { γ with reads := γ.reads.set n call }

def step (γ : KvCluster) : KvLabel → Option KvCluster
  | .commit req => some { γ with committed := γ.committed ++ [req] }
  | .apply server form => γ.apply server form
  | .restart server => if server < γ.serverNum then some (γ.restart server) else none
  | .startGet server key readIndex => γ.startGet server key readIndex
  | .expire n => γ.stepRead n γ.expire
  | .readDb n => γ.stepRead n γ.readDb
  | .ask n i reached => γ.stepRead n (γ.ask i reached)
  | .finish n => γ.finish n

end KvCluster

end FlexRaft
