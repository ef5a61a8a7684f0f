import FlexRaft.GatheredReads

namespace FlexRaft

variable {n server : Nat}

section Latest

variable {key : Slice} {history later : List KvRequest} {req : KvRequest}

theorem latest_append (key : Slice) (history : List KvRequest) (req : KvRequest) : latest key (history ++ [req]) =
      if req.key = key then if req.type = .kPut then some req.value else none else latest key history := by
  unfold latest
  rw [List.foldl_append]
  rfl

theorem latest_of_untouched (other : ∀ req ∈ later, req.key ≠ key) :
    latest key (history ++ later) = latest key history := by
  induction later using List.reverseRecOn with
  | nil => rw [List.append_nil]
  | append_singleton front req ih =>
    rw [← List.append_assoc, latest_append, if_neg (other req (by simp))]
    exact ih fun r inside => other r (List.mem_append_left _ inside)

theorem mem_of_latest {value : Slice} (found : latest key history = some value) :
    ∃ req ∈ history, req.type = .kPut ∧ req.key = key ∧ req.value = value := by
  induction history using List.reverseRecOn with
  | nil => cases found
  | append_singleton front req ih =>
    rw [latest_append] at found
    split at found
    · rename_i same
      split at found
      · rename_i put
        exact ⟨req, by simp, put, same, Option.some.inj found⟩
      · cases found
    · obtain ⟨r, inside, rest⟩ := ih found
      exact ⟨r, List.mem_append_left _ inside, rest⟩

end Latest

/-- What the database of a server holds for a key is what is left of the requests it has applied: nothing, or one of
the forms of the last put. -/
inductive Stands (n server : Nat) : Option Slice → Option Slice → Prop
  | absent : Stands n server none none
  | present (value : Slice) (form : EntryForm) (valid : form.Valid n) :
      Stands n server (some (storedValue n server value form)) (some value)

theorem Stands.exists_form {stored : Slice} {last : Option Slice} (stands : Stands n server (some stored) last) :
    ∃ value form, form.Valid n ∧ last = some value ∧ stored = storedValue n server value form := by
  cases stands with
  | present value form valid => exact ⟨value, form, valid, rfl, rfl⟩

/-- A whole value stands for itself alone. -/
theorem Stands.eq_of_whole {value last : Slice} (bound : server < n) (fits : value.length < 2 ^ 31)
    (fits' : last.length < 2 ^ 31) (stands : Stands n server (some (formatFullEntryValueForStorage value)) (some last)) :
    value = last := by
  obtain ⟨_, form, valid, found, same⟩ := stands.exists_form
  cases found
  have parts := decodeString_storedValue (show EntryForm.full.Valid n from trivial) bound value
  rw [storedValue, same, decodeString_storedValue valid bound, Option.some.injEq] at parts
  have frags := congrArg DecodedString.frag parts
  rw [frag_of_single (congrArg DecodedString.k parts)] at frags
  have strings := congrArg getKeyFromPrefixLengthFormat frags
  rw [getKey_makePrefixLengthKey fits', storedParts, getKey_makePrefixLengthKey fits, Option.some.injEq] at strings
  exact (congrArg Prod.fst strings).symm

def ReadCall.gathering? (call : ReadCall) : Option Gathering :=
  match call.phase with
  | .gathering g => some g
  | _ => none

theorem ReadCall.gathering?_eq {g : Gathering} (call : ReadCall) (phase : call.phase = .gathering g) :
    call.gathering? = some g := by
  unfold gathering?
  rw [phase]

namespace KvCluster

/-- Reads do no harm: an answer with `kOk` has a value that a committed put has written to the key, and each database
holds what the requests applied to it leave behind. -/
structure ReadsHarmless (γ : KvCluster) : Prop where
  answered : ∀ call ∈ γ.reads, ∀ response, call.phase = .returned .kOk response →
    ∃ req ∈ γ.committed, req.type = .kPut ∧ req.key = call.key ∧ routeGetValue response = some req.value
  stands : ∀ server < γ.serverNum, ∀ key,
    Stands γ.serverNum server ((γ.servers server).db key) (latest key (γ.servers server).history)

/-- What read `n` can rely on. Where the answer of a peer is taken up, the last put that the peer has applied to the key has
the value of the last one that was applied when the read looked into its own database. When the read ends, the answers are
enough, and since that look nothing was applied to the key. Keys and values have sizes that an `int` can hold. -/
def undisturbed (γ : KvCluster) : KvLabel → Prop
  | .commit req => req.Fits
  | .ask n i reached => ∀ call ∈ γ.reads[n]?, ∀ g ∈ call.gathering?, ∀ answer ∈ γ.answer call g i reached,
      g.takesUp answer = true → ∀ peer ∈ g.todo[i]?,
        latest call.key (γ.servers peer).history = latest call.key ((γ.servers call.server).history.take g.seen)
  | .finish n => ∀ call ∈ γ.reads[n]?, ∀ g ∈ call.gathering?,
      g.Enough ∧ ∀ req ∈ (γ.servers call.server).history.drop g.seen, req.key ≠ call.key
  | .apply _ _ | .restart _ | .startGet _ _ _ | .expire _ | .readDb _ => True

instance decidableUndisturbed (γ : KvCluster) (l : KvLabel) : Decidable (γ.undisturbed l) := by
  cases l <;> unfold undisturbed <;> infer_instance

/-- A read that has only taken up what belongs to the put it has read. -/
structure ReadOk (γ : KvCluster) (call : ReadCall) : Prop where
  server : call.server < γ.serverNum
  gathering : ∀ g, call.phase = .gathering g → g.seen ≤ (γ.servers call.server).history.length ∧
    ∃ value, latest call.key ((γ.servers call.server).history.take g.seen) = some value ∧ g.Sound γ.serverNum value
  returned : ∀ response, call.phase = .returned .kOk response →
    ∃ req ∈ γ.committed, req.type = .kPut ∧ req.key = call.key ∧ routeGetValue response = some req.value

structure Inv (γ : KvCluster) : Prop where
  fits : ∀ req ∈ γ.committed, req.Fits
  history : ∀ server, (γ.servers server).history ⊆ γ.committed
  stands : ∀ server < γ.serverNum, ∀ key,
    Stands γ.serverNum server ((γ.servers server).db key) (latest key (γ.servers server).history)
  reads : ∀ call ∈ γ.reads, γ.ReadOk call

variable {γ γ' : KvCluster}
  {call call' : ReadCall} {server count n readIndex i : Nat} {key value : Slice} {g : Gathering} {reached : Bool} {req : KvRequest} {form : EntryForm}

/-- Reads do not mind that more is committed and applied. -/
theorem ReadOk.mono (ok : γ.ReadOk call) (size : γ'.serverNum = γ.serverNum) (committed : γ.committed ⊆ γ'.committed)
    (history : (γ.servers call.server).history <+: (γ'.servers call.server).history) : γ'.ReadOk call := by
  refine ⟨size ▸ ok.server, fun g phase => ?_, fun response phase => ?_⟩
  · obtain ⟨seen, value, last, sound⟩ := ok.gathering g phase
    obtain ⟨more, grows⟩ := history
    refine ⟨?_, value, ?_, size ▸ sound⟩
    · rw [← grows, List.length_append]
      omega
    · rw [← grows, List.take_append_of_le_length seen]
      exact last
  · obtain ⟨req, member, rest⟩ := ok.returned response phase
    exact ⟨req, committed member, rest⟩

theorem Inv.fits_latest (inv : γ.Inv)
    (last : latest key ((γ.servers server).history.take count) = some value) : value.length < 2 ^ 31 := by
  obtain ⟨req, member, _, _, rfl⟩ := mem_of_latest last
  exact (inv.fits req (inv.history server (List.mem_of_mem_take member))).value

theorem Inv.committed_latest (inv : γ.Inv) (last : latest key ((γ.servers server).history.take count) = some value) :
    ∃ req ∈ γ.committed, req.type = .kPut ∧ req.key = key ∧ req.value = value := by
  obtain ⟨req, member, rest⟩ := mem_of_latest last
  exact ⟨req, inv.history server (List.mem_of_mem_take member), rest⟩

theorem ReadOk.quiet (server : call.server < γ.serverNum) (idle : ∀ g, call.phase ≠ .gathering g)
    (none : ∀ response, call.phase ≠ .returned .kOk response) : γ.ReadOk call :=
  ⟨server, fun g phase => absurd phase (idle g), fun response phase => absurd phase (none response)⟩

theorem ReadOk.answering {response : Slice} (server : call.server < γ.serverNum)
    (written : ∃ req ∈ γ.committed, req.type = .kPut ∧ req.key = call.key ∧ routeGetValue response = some req.value) :
    γ.ReadOk { call with phase := .returned .kOk response } := by
  refine ⟨server, fun g phase => ?_, fun response' phase => ?_⟩
  · cases phase
  · cases phase
    exact written

theorem ReadOk.collecting (server : call.server < γ.serverNum) (seen : g.seen ≤ (γ.servers call.server).history.length)
    (last : latest call.key ((γ.servers call.server).history.take g.seen) = some value)
    (sound : g.Sound γ.serverNum value) : γ.ReadOk { call with phase := .gathering g } := by
  refine ⟨server, fun g' phase => ?_, fun response phase => ?_⟩
  · cases phase
    exact ⟨seen, value, last, sound⟩
  · cases phase

theorem Inv.setRead (inv : γ.Inv) (n : Nat) (ok : γ.ReadOk call) : { γ with reads := γ.reads.set n call }.Inv := by
  refine { inv with reads := fun other member => ?_ }
  have before : γ.ReadOk other := by
    rcases List.mem_or_eq_of_mem_set member with old | rfl
    · exact inv.reads other old
    · exact ok
  exact before.mono rfl (List.Subset.refl _) (List.prefix_refl _)

theorem sound_start {k seen : Nat} {peers : List Nat}
    (valid : (EntryForm.fragment k).Valid n) (bound : server < n) (several : k ≠ 1) (inside : ∀ peer ∈ peers, peer < n) :
    (Gathering.start readIndex (storedParts n server value (.fragment k)) (storedValue n server value (.fragment k))
      peers seen).Sound n value := by
  have two : 2 ≤ k := by
    have positive := valid.1
    omega
  have total : k + (n - k) = n := Nat.add_sub_cancel' valid.2.1
  have ids : (Gathering.start readIndex (storedParts n server value (.fragment k))
      (storedValue n server value (.fragment k)) peers seen).fragIds = [server] := by
    change [storedValue n server value (.fragment k)].filterMap _ = _
    rw [List.filterMap_cons, Gathering.fragIdOf_storedValue _ valid bound, if_pos ⟨rfl, rfl⟩]
    rfl
  exact
    { several := two
      valid := valid
      parities := rfl
      peers := inside
      ascending := List.pairwise_singleton _ _
      fragments :=
        { nodup := List.nodup_singleton _
          value := fun p member => by
            obtain rfl := List.mem_singleton.mp member
            exact ⟨bound.trans_eq total.symm, rfl⟩ }
      ids := fun id member => by rwa [ids] at member
      complete := fun running => by cases running
      missing := fun _ => ⟨two, rfl⟩ }

theorem Inv.readDb (inv : γ.Inv) (ok : γ.ReadOk call) (read : γ.readDb call = some call') : γ.ReadOk call' := by
  unfold KvCluster.readDb at read
  split at read
  · split at read
    · cases read
    · have stands := inv.stands call.server ok.server call.key
      cases stored : (γ.servers call.server).db call.key with
      | none =>
        rw [stored] at read
        cases read
        exact .quiet ok.server (fun g phase => by cases phase) (fun response phase => by cases phase)
      | some string =>
        rw [stored] at stands read
        obtain ⟨value, form, valid, last, rfl⟩ := stands.exists_form
        have last' : latest call.key ((γ.servers call.server).history.take (γ.servers call.server).history.length) =
            some value := by rwa [List.take_length]
        dsimp only at read
        rw [decodeString_storedValue valid ok.server, Option.map_some, Option.some.injEq] at read
        by_cases one : (storedParts γ.serverNum call.server value form).k = 1
        · rw [if_pos one] at read
          subst read
          obtain ⟨req, member, put, key, rfl⟩ := inv.committed_latest last'
          exact .answering ok.server
            ⟨req, member, put, key, routeGetValue_storedValue valid ok.server (inv.fits_latest last') one⟩
        · rw [if_neg one] at read
          subst read
          cases form with
          | full => exact absurd rfl one
          | fragment k =>
            have inside : ∀ peer ∈ γ.kvPeers call.server, peer < γ.serverNum := fun peer member =>
              List.mem_range.mp (List.mem_filter.mp member).1
            exact .collecting ok.server le_rfl last' (sound_start valid ok.server one inside)
  · cases read

theorem answer_eq_some {answer : Slice} (got : γ.answer call g i reached = some answer) :
    ∃ peer, g.todo[i]? = some peer ∧ (γ.servers peer).db call.key = some answer := by
  unfold KvCluster.answer at got
  split at got
  · obtain ⟨peer, at_i, value⟩ := Option.bind_eq_some_iff.mp got
    unfold KvServer.getValue at value
    split at value
    · cases value
    · exact ⟨peer, at_i, value⟩
  · cases got

theorem Inv.ask (inv : γ.Inv) (ok : γ.ReadOk call)
    (at_n : γ.reads[n]? = some call) (allowed : γ.undisturbed (.ask n i reached))
    (asked : γ.ask i reached call = some call') : γ.ReadOk call' := by
  unfold KvCluster.ask at asked
  split at asked
  · rename_i g phase
    split at asked
    · rename_i running
      obtain ⟨seen, value, last, sound⟩ := ok.gathering g phase
      have sound' : { g with todo := g.todo.eraseIdx i }.Sound γ.serverNum value :=
        { sound with peers := fun peer member => sound.peers peer (List.mem_of_mem_eraseIdx member) }
      cases got : γ.answer call g i reached with
      | none =>
        rw [got] at asked
        cases asked
        exact .collecting ok.server seen last sound'
      | some answer =>
        rw [got] at asked
        obtain ⟨g', called, rfl⟩ := Option.map_eq_some_iff.mp asked
        obtain ⟨peer, at_i, stored⟩ := answer_eq_some got
        have bound : peer < γ.serverNum := sound.peers peer (List.mem_of_getElem? at_i)
        have stands := inv.stands peer bound call.key
        rw [stored] at stands
        obtain ⟨value', form, valid, last', rfl⟩ := stands.exists_form
        have same : g.takesUp (storedValue γ.serverNum peer value' form) = true → value' = value := by
          intro taken
          have version := allowed call at_n g (call.gathering?_eq phase) _ got taken peer at_i
          rw [last', last] at version
          exact Option.some.inj version
        have next := Gathering.Sound.callBack sound' (inv.fits_latest last) valid bound running.1 same called
        have kept := Gathering.callBack_seen called
        exact .collecting ok.server (kept.trans_le seen) (kept ▸ last) next
    · cases asked
  · cases asked

section Servers

variable {server : Nat} {s : KvServer}

theorem setServer_self : (γ.setServer server s).servers server = s := if_pos rfl

theorem setServer_of_ne {other : Nat} (different : other ≠ server) :
    (γ.setServer server s).servers other = γ.servers other := if_neg different

/-- A server changes: its database holds what is left of the requests it has applied, some of them perhaps new. -/
theorem Inv.setServer (inv : γ.Inv) (grows : (γ.servers server).history <+: s.history) (committed : s.history ⊆ γ.committed)
    (stands : ∀ key, Stands γ.serverNum server (s.db key) (latest key s.history)) : (γ.setServer server s).Inv := by
  refine ⟨inv.fits, fun other => ?_, fun other bound key => ?_, fun call member => ?_⟩
  · by_cases same : other = server
    · subst same
      rwa [setServer_self]
    · rw [setServer_of_ne same]
      exact inv.history other
  · by_cases same : other = server
    · subst same
      rw [setServer_self]
      exact stands key
    · rw [setServer_of_ne same]
      exact inv.stands other bound key
  · refine (inv.reads call member).mono rfl (List.Subset.refl _) ?_
    by_cases same : call.server = server
    · rw [same, setServer_self]
      exact grows
    · rw [setServer_of_ne same]

end Servers

/-- What `applyRequest` leaves of the form in which a server gets a request. -/
theorem Stands.applied {s : KvServer} {applied : KvRequest} {db : Database}
    (stands : ∀ key, Stands n server (s.db key) (latest key s.history)) (valid : form.Valid n)
    (type : applied.type = req.type) (key : applied.key = req.key)
    (value : applied.value = storedValue n server req.value form) (written : s.applyRequest applied = some db) (k : Slice) :
    Stands n server (db k) (latest k (s.history ++ [req])) := by
  rw [latest_append]
  unfold KvServer.applyRequest at written
  split at written
  · rename_i put
    cases written
    by_cases same : req.key = k
    · rw [if_pos same, if_pos (type ▸ put), Database.put, if_pos (same.symm.trans key.symm), value]
      exact .present req.value form valid
    · rw [if_neg same, Database.put, if_neg fun at_k => same (key.symm.trans at_k.symm)]
      exact stands k
  · rename_i delete
    cases written
    by_cases same : req.key = k
    · have other : req.type ≠ .kPut := by
        rw [← type, delete]
        decide
      rw [if_pos same, if_neg other, Database.delete, if_pos (same.symm.trans key.symm)]
      exact .absent
    · rw [if_neg same, Database.delete, if_neg fun at_k => same (key.symm.trans at_k.symm)]
      exact stands k
  · cases written

theorem Inv.apply (inv : γ.Inv) (applied : γ.apply server form = some γ') : γ'.Inv := by
  unfold KvCluster.apply at applied
  split at applied
  · rename_i can
    obtain ⟨req, next, applied⟩ := Option.bind_eq_some_iff.mp applied
    obtain ⟨req', parsed, applied⟩ := Option.bind_eq_some_iff.mp applied
    obtain ⟨db, written, rfl⟩ := Option.map_eq_some_iff.mp applied
    have member : req ∈ γ.committed := List.mem_of_getElem? next
    obtain ⟨form', found, type, key, value⟩ :=
      raftEntryToRequest_entry server (inv.fits req member) can.2 ((γ.servers server).popped + 1)
    obtain rfl : form' = req' := Option.some.inj (found.symm.trans parsed)
    refine inv.setServer (List.prefix_append _ _) ?_ ?_
    · exact List.append_subset.mpr ⟨inv.history server, fun r inside => List.mem_singleton.mp inside ▸ member⟩
    · exact Stands.applied (inv.stands server can.1) can.2 type key value written
  · cases applied

/-- The write-back writes the value of the last put that was applied. -/
theorem Inv.finish (inv : γ.Inv) (allowed : γ.undisturbed (.finish n)) (ended : γ.finish n = some γ') : γ'.Inv := by
  obtain ⟨call, at_n, ended⟩ := Option.bind_eq_some_iff.mp ended
  split at ended
  · rename_i g phase
    split at ended
    · cases ended
      have ok := inv.reads call (List.mem_of_getElem? at_n)
      obtain ⟨seen, value, last, sound⟩ := ok.gathering g phase
      obtain ⟨enough, untouched⟩ := allowed call at_n g (call.gathering?_eq phase)
      have gathered : valueHeader 1 0 0 ++ makePrefixLengthKey g.conclude.value = formatFullEntryValueForStorage value := by
        rw [g.conclude_value, sound.complete (sound.done_of_enough enough), formatFullEntryValueForStorage_eq]
      have still : latest call.key (γ.servers call.server).history = some value := by
        rw [← List.take_append_drop g.seen (γ.servers call.server).history, latest_of_untouched untouched]
        exact last
      rw [gathered]
      have written : (γ.setServer call.server { γ.servers call.server with
          db := (γ.servers call.server).db.put (call.key, formatFullEntryValueForStorage value) }).Inv := by
        refine inv.setServer (List.prefix_refl _) (inv.history _) fun key => ?_
        by_cases same : key = call.key
        · dsimp only
          rw [same, still, Database.put, if_pos rfl]
          exact .present value .full trivial
        · dsimp only
          rw [Database.put, if_neg same]
          exact inv.stands _ ok.server key
      refine written.setRead n (.answering ok.server ?_)
      obtain ⟨req, member, put, key, rfl⟩ := inv.committed_latest last
      have whole : routeGetValue (storedValue γ.serverNum call.server req.value .full) = some req.value :=
        routeGetValue_storedValue (show EntryForm.full.Valid _ from trivial) ok.server (inv.fits_latest last) rfl
      exact ⟨req, member, put, key, whole⟩
    · cases ended
  · cases ended

theorem Inv.subReads {reads : List ReadCall} (inv : γ.Inv) (fewer : reads ⊆ γ.reads) : { γ with reads := reads }.Inv := by
  refine { inv with reads := fun call member => ?_ }
  exact (inv.reads call (fewer member)).mono rfl (List.Subset.refl _) (List.prefix_refl _)

theorem Inv.restart (inv : γ.Inv) (bound : server < γ.serverNum) : (γ.restart server).Inv := by
  have started : (γ.setServer server { γ.servers server with popped := 0, appliedIndex := 0 }).Inv :=
    inv.setServer (List.prefix_refl _) (inv.history server) (inv.stands server bound)
  exact started.subReads fun call member => (List.mem_filter.mp member).1

theorem Inv.commit (inv : γ.Inv) (fits : req.Fits) : { γ with committed := γ.committed ++ [req] }.Inv := by
  have more : γ.committed ⊆ γ.committed ++ [req] := List.subset_append_left _ _
  refine ⟨fun r member => ?_, fun server => List.Subset.trans (inv.history server) more, inv.stands, fun call member => ?_⟩
  · rcases List.mem_append.mp member with old | new
    · exact inv.fits r old
    · exact List.mem_singleton.mp new ▸ fits
  · exact (inv.reads call member).mono rfl more (List.prefix_refl _)

theorem Inv.startGet (inv : γ.Inv) (started : γ.startGet server key readIndex = some γ') : γ'.Inv := by
  unfold KvCluster.startGet at started
  split at started
  · rename_i bound
    cases started
    refine { inv with reads := fun call member => ?_ }
    have ok : γ.ReadOk call := by
      rcases List.mem_append.mp member with old | new
      · exact inv.reads call old
      · obtain rfl := List.mem_singleton.mp new
        exact .quiet bound (fun g phase => by cases phase) (fun response phase => by cases phase)
    exact ok.mono rfl (List.Subset.refl _) (List.prefix_refl _)
  · cases started

theorem ReadOk.expire (ok : γ.ReadOk call) (expired : γ.expire call = some call') : γ.ReadOk call' := by
  unfold KvCluster.expire at expired
  split at expired
  · split at expired
    · cases expired
      exact .quiet ok.server (fun g phase => by cases phase) (fun response phase => by cases phase)
    · cases expired
  · cases expired

theorem Inv.stepRead (inv : γ.Inv) {next : ReadCall → Option ReadCall}
    (sound : ∀ call call', γ.reads[n]? = some call → γ.ReadOk call → next call = some call' → γ.ReadOk call')
    (stepped : γ.stepRead n next = some γ') : γ'.Inv := by
  obtain ⟨call, at_n, stepped⟩ := Option.bind_eq_some_iff.mp stepped
  obtain ⟨call', next, rfl⟩ := Option.map_eq_some_iff.mp stepped
  exact inv.setRead n (sound call call' at_n (inv.reads call (List.mem_of_getElem? at_n)) next)

theorem Inv.step {l : KvLabel} (inv : γ.Inv) (allowed : γ.undisturbed l) (steps : γ.step l = some γ') : γ'.Inv := by
  cases l with
  | commit req =>
    cases steps
    exact inv.commit allowed
  | apply server form => exact inv.apply steps
  | restart server =>
    dsimp only [KvCluster.step] at steps
    split at steps
    · rename_i bound
      cases steps
      exact inv.restart bound
    · cases steps
  | startGet server key readIndex => exact inv.startGet steps
  | expire n => exact inv.stepRead (fun call call' _ ok expired => ok.expire expired) steps
  | readDb n => exact inv.stepRead (fun call call' _ ok read => inv.readDb ok read) steps
  | ask n i reached => exact inv.stepRead (fun call call' at_n ok asked => inv.ask ok at_n allowed asked) steps
  | finish n => exact inv.finish allowed steps

theorem inv_init (n : Nat) : (init n).Inv where
  fits := fun req member => by cases member
  history := fun server req member => member
  stands := fun server bound key => .absent
  reads := fun call member => by cases member

def putOf (value : Slice) : KvRequest :=
  { type := .kPut
    clientId := 1
    sequence := 1
    key := ascii "a"
    value := value }

/-- Servers 0 and 1 apply their fragments of a put, and a read on server 0 finds the one that is there. -/
def fragmentRead : List KvLabel :=
  [.commit (putOf (ascii "yellow")), .apply 0 (.fragment 2), .apply 1 (.fragment 2), .startGet 0 (ascii "a") 1, .readDb 0]

/-- Server 1 answers with its fragment. -/
def answeredRead : List KvLabel := fragmentRead ++ [.ask 0 0 true]

def readEndsWith (value : Slice) : ReadCall :=
  { server := 0
    key := ascii "a"
    phase := .returned .kOk (formatFullEntryValueForStorage value) }

theorem not_harmless_of_answer (value : Slice) (ends : γ.reads = [readEndsWith value])
    (unwritten : ∀ req ∈ γ.committed, routeGetValue (formatFullEntryValueForStorage value) ≠ some req.value) :
    ¬γ.ReadsHarmless := by
  intro harmless
  obtain ⟨req, member, _, _, found⟩ := harmless.answered (readEndsWith value) (by simp [ends]) _ rfl
  exact unwritten req member found

theorem not_harmless_of_store (value last : Slice) (size : 0 < γ.serverNum) (different : value ≠ last)
    (fits : value.length < 2 ^ 31) (fits' : last.length < 2 ^ 31)
    (stored : (γ.servers 0).db (ascii "a") = some (formatFullEntryValueForStorage value))
    (applied : latest (ascii "a") (γ.servers 0).history = some last) : ¬γ.ReadsHarmless := by
  intro harmless
  have stands := harmless.stands 0 size (ascii "a")
  rw [stored, applied] at stands
  exact different (stands.eq_of_whole size fits fits')

/-- No peer answers. -/
def unansweredRead : List KvLabel := fragmentRead ++ [.ask 0 0 false, .ask 0 0 false, .finish 0]

/-- Server 1 answers with its fragment of a later put. -/
def mixedRead : List KvLabel :=
  fragmentRead ++ [.commit (putOf (ascii "purple")), .apply 1 (.fragment 2), .ask 0 0 true, .finish 0]

/-- Server 0 applies a later put behind the last answer. -/
def overtakenRead : List KvLabel := answeredRead ++ [.commit (putOf (ascii "purple")), .apply 0 .full, .finish 0]

end KvCluster

end FlexRaft
