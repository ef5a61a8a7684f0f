import FlexRaft.ApplyPayload
import FlexRaft.Lib.Steps

namespace FlexRaft

/-- What the database of a node holds. -/
abbrev Database := Slice → Option Slice

namespace Database

def put (db : Database) (p : Slice × Slice) : Database := fun key => if key = p.1 then some p.2 else db key

def write (db : Database) (batch : List (Slice × Slice)) : Database := batch.foldl put db

end Database

inductive ApplyMsg
  | committed (m : MsgApplyCommitted)
  | stop
  deriving DecidableEq, Repr

/-- Where an apply thread is in its work on one group, with the messages of its batch that are left. Between two
batches it handles an empty one. After the write of a message `UpdateAppliedIndex` loads the index and, as a step
of its own, compares and stores. -/
inductive ApplyThread
  | handling (batch : List ApplyMsg)
  | updating (index : Nat) (batch : List ApplyMsg)
  | storing (index prev : Nat) (batch : List ApplyMsg)
  deriving DecidableEq, Repr

structure ApplyConfig where
  fsm : ApplyFsm
  threadCount : Nat
  maxBatch : Nat

/-- One group on one node: its mailbox, the threads that poll it, its database and `applied_index_`. Work of the
threads on other groups is left out. `committed` holds the entries that `tryApplyLogEntries` has gone through and
`written` the messages whose writes were made; the code has only the number of the former. -/
structure ApplyPool where
  config : ApplyConfig
  registered : Bool
  mailbox : List ApplyMsg
  threads : Nat → ApplyThread
  db : Database
  appliedIndex : Nat
  committed : List LogEntry
  written : List MsgApplyCommitted

namespace ApplyPool

variable {σ σ' : ApplyPool}

def kMailboxCapacity : Nat := 1024

def start (config : ApplyConfig) (db : Database) : ApplyPool :=
  { config := config
    registered := true
    mailbox := []
    threads := fun _ => .handling []
    db := db
    appliedIndex := 0
    committed := []
    written := [] }

def lastApplyIndex (σ : ApplyPool) : Nat := σ.appliedIndex

def setThread (σ : ApplyPool) (t : Nat) (thread : ApplyThread) : ApplyPool :=
  { σ with threads := fun i => if i = t then thread else σ.threads i }

/-- `Mailbox::push`, which waits while the mailbox is full. -/
def push (σ : ApplyPool) (msg : ApplyMsg) : Option ApplyPool :=
  if σ.mailbox.length < kMailboxCapacity then some { σ with mailbox := σ.mailbox ++ [msg] } else none

/-- `tryApplyLogEntries` hands over the entry after the last one. Without a mailbox, or if its metadata cannot be
extracted, the entry is dropped. -/
def applyEntry (σ : ApplyPool) (e : LogEntry) : Option ApplyPool :=
  if e.index ≠ σ.committed.length + 1 then none
  else
    let next := { σ with committed := σ.committed ++ [e] }
    match (if σ.registered then applyMessage σ.config.fsm.groupId e else none) with
    | none => some next
    | some m => next.push (.committed m)

def drain (σ : ApplyPool) (t : Nat) : Option ApplyPool :=
  match σ.threads t with
  | .handling [] => some ({ σ with mailbox := σ.mailbox.drop σ.config.maxBatch }.setThread t
      (.handling (σ.mailbox.take σ.config.maxBatch)))
  | _ => none

/-- `Handle` up to `UpdateAppliedIndex`. After `MsgApplyStop` the rest of the batch is forgotten. -/
def handle (σ : ApplyPool) (t : Nat) : Option ApplyPool :=
  match σ.threads t with
  | .handling (.committed m :: rest) =>
    if m.data = [] then some (σ.setThread t (.handling rest))
    else some ({ σ with db := σ.db.write (σ.config.fsm.writes m), written := σ.written ++ [m] }.setThread t
      (.updating m.entryId rest))
  | .handling (.stop :: _) => some (σ.setThread t (.handling []))
  | _ => none

def loadIndex (σ : ApplyPool) (t : Nat) : Option ApplyPool :=
  match σ.threads t with
  | .updating index rest => some (σ.setThread t (.storing index σ.appliedIndex rest))
  | _ => none

def storeIndex (σ : ApplyPool) (t : Nat) : Option ApplyPool :=
  match σ.threads t with
  | .storing index prev rest =>
    some ({ σ with appliedIndex := if prev < index then index else σ.appliedIndex }.setThread t (.handling rest))
  | _ => none

/-- `stop` is the message that `BatchSystem::Stop` sends. -/
inductive Label
  | applyEntry (e : LogEntry)
  | registerMailbox
  | unregisterMailbox
  | drain (t : Nat)
  | handle (t : Nat)
  | loadIndex (t : Nat)
  | storeIndex (t : Nat)
  | stop
  deriving DecidableEq, Repr

def step (σ : ApplyPool) : Label → Option ApplyPool
  | .applyEntry e => σ.applyEntry e
  | .registerMailbox => some { σ with registered := true }
  | .unregisterMailbox => some { σ with registered := false }
  | .drain t => if t < σ.config.threadCount then σ.drain t else none
  | .handle t => σ.handle t
  | .loadIndex t => σ.loadIndex t
  | .storeIndex t => σ.storeIndex t
  | .stop => σ.push .stop

/-- What one step does. -/
inductive Action (σ : ApplyPool) : Label → ApplyPool → Prop
  | drops {e : LogEntry} (index : e.index = σ.committed.length + 1)
      (unusable : σ.registered = false ∨ applyMessage σ.config.fsm.groupId e = none) :
      Action σ (.applyEntry e) { σ with committed := σ.committed ++ [e] }
  | pushes {e : LogEntry} {m : MsgApplyCommitted} (index : e.index = σ.committed.length + 1)
      (message : applyMessage σ.config.fsm.groupId e = some m) :
      Action σ (.applyEntry e) { σ with committed := σ.committed ++ [e], mailbox := σ.mailbox ++ [.committed m] }
  | registers : Action σ .registerMailbox { σ with registered := true }
  | unregisters : Action σ .unregisterMailbox { σ with registered := false }
  | drains {t : Nat} (exists_t : t < σ.config.threadCount) (idle : σ.threads t = .handling []) :
      Action σ (.drain t) ({ σ with mailbox := σ.mailbox.drop σ.config.maxBatch }.setThread t
        (.handling (σ.mailbox.take σ.config.maxBatch)))
  | skips {t : Nat} {m : MsgApplyCommitted} {rest : List ApplyMsg}
      (here : σ.threads t = .handling (.committed m :: rest)) (empty : m.data = []) :
      Action σ (.handle t) (σ.setThread t (.handling rest))
  | writes {t : Nat} {m : MsgApplyCommitted} {rest : List ApplyMsg}
      (here : σ.threads t = .handling (.committed m :: rest)) :
      Action σ (.handle t) ({ σ with db := σ.db.write (σ.config.fsm.writes m), written := σ.written ++ [m] }.setThread t
        (.updating m.entryId rest))
  | quits {t : Nat} {rest : List ApplyMsg} (here : σ.threads t = .handling (.stop :: rest)) :
      Action σ (.handle t) (σ.setThread t (.handling []))
  | loads {t index : Nat} {rest : List ApplyMsg} (here : σ.threads t = .updating index rest) :
      Action σ (.loadIndex t) (σ.setThread t (.storing index σ.appliedIndex rest))
  | stores {t index prev : Nat} {rest : List ApplyMsg} (here : σ.threads t = .storing index prev rest) :
      Action σ (.storeIndex t)
        ({ σ with appliedIndex := if prev < index then index else σ.appliedIndex }.setThread t (.handling rest))
  | stops : Action σ .stop { σ with mailbox := σ.mailbox ++ [.stop] }

theorem eq_of_push {msg : ApplyMsg} (pushed : σ.push msg = some σ') :
    σ' = { σ with mailbox := σ.mailbox ++ [msg] } := by
  unfold push at pushed
  split at pushed <;> cases pushed
  rfl

theorem step_action {l : Label} (steps : σ.step l = some σ') : Action σ l σ' := by
  cases l with
  | applyEntry e =>
    change σ.applyEntry e = some σ' at steps
    unfold applyEntry at steps
    split at steps
    · cases steps
    · rename_i index
      have index := not_not.mp index
      split at steps
      · rename_i none
        cases steps
        refine .drops index ?_
        by_cases registered : σ.registered = true
        · exact Or.inr (by rwa [if_pos registered] at none)
        · exact Or.inl (by simpa using registered)
      · rename_i m some
        split at some
        · rw [eq_of_push steps]
          exact .pushes index some
        · cases some
  | registerMailbox =>
    cases steps
    exact .registers
  | unregisterMailbox =>
    cases steps
    exact .unregisters
  | drain t =>
    change (if t < σ.config.threadCount then σ.drain t else none) = some σ' at steps
    unfold drain at steps
    split at steps
    · split at steps
      · cases steps
        exact .drains ‹_› ‹_›
      · cases steps
    · cases steps
  | handle t =>
    change σ.handle t = some σ' at steps
    unfold handle at steps
    split at steps
    · split at steps <;> cases steps
      · exact .skips ‹_› ‹_›
      · exact .writes ‹_›
    · cases steps
      exact .quits ‹_›
    · cases steps
  | loadIndex t =>
    change σ.loadIndex t = some σ' at steps
    unfold loadIndex at steps
    split at steps <;> cases steps
    exact .loads ‹_›
  | storeIndex t =>
    change σ.storeIndex t = some σ' at steps
    unfold storeIndex at steps
    split at steps <;> cases steps
    exact .stores ‹_›
  | stop =>
    change σ.push .stop = some σ' at steps
    rw [eq_of_push steps]
    exact .stops

end ApplyPool

end FlexRaft
