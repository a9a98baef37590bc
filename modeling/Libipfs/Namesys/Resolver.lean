import Libipfs.Crypto.PeerId
import Libipfs.Namesys.Namesys
import Libipfs.Repo.LmdbDatastore

/-!
# The names of peers

`/ipns/<id>` stands for the path that the datastore has for the hash of the peer.  The resolver
follows such names for eleven steps, on a copy of the caller's string.  What is behind the id is
taken for a part of it: the slash that is looked for is the one in front.

* `resolverResolve`, `publisherPublish`   the functions;
* `namesOf`, `chainEnd`   what the datastore says, and where its chains end;
* `resolvesChain_iff`   the paths that are followed as they should be;
* `publishResolves_iff`   when a path that was published is found;
* `names_iff`   **when names and publishing work**.
-/

namespace Ipfs
open CSem Libp2p Lmdb

/-! ## resolving -/

/-- the string as the function leaves it, and the CID; the first slash of the string is
overwritten -/
def cidDecodeHashFromIpfsIpnsString (incoming : List UInt8) : List UInt8 × Option Cid :=
  if ¬ ipfsName <+: incoming ∧ ¬ ipnsName <+: incoming then (incoming, none)
  else
    let incoming := incoming.set (incoming.idxOf 47) 0
    (incoming, cidDecodeHashFromBase58 (cString (incoming.drop 6)))

/-- the path as the function leaves it, and the result, which ends with a zero byte; the network
is not asked -/
def resolverResolveOnce (context : LmdbContext) (path : List UInt8) :
    Exec (List UInt8 × Option (List UInt8)) := do
  let (path, cid) := cidDecodeHashFromIpfsIpnsString path
  match cid with
  | none => .ok (path, none)
  | some cid => do
    let record ← repoFsrepoLmdbGet cid.hash context
    .ok (path, record.map DatastoreRecord.value)

/-- so many turns are left; the counter goes from 0 to 10 -/
def resolverTurns (context : LmdbContext) (recursive : Bool) :
    Nat → List UInt8 → Exec (Option (List UInt8))
  | 0, _ => .ok none
  | turns + 1, currentPath => do
    let (_, result) ← resolverResolveOnce context currentPath
    match result with
    | none => .ok none
    | some result => do
      let currentPath := cString result
      if recursive ∧ ipnsName <+: currentPath then resolverTurns context recursive turns currentPath
      else .ok (some currentPath)

/-- the caller's string, and the results -/
def resolverResolve (context : LmdbContext) (path : List UInt8) (recursive : Bool) :
    Exec (List UInt8 × Option (List UInt8)) := do
  -- `strcpy(current_path, path)`
  let results ← resolverTurns context recursive 11 (cString path)
  .ok (path, results)

/-! ## publishing -/

/-- the record that the path is stored in -/
def publishedRecord (hash path : List UInt8) : DatastoreRecord :=
  { key := hash, value := cString path, timestamp := 0 }

/-- what is returned, and the datastore; what goes to the network does not matter for either -/
def publisherPublish (env : PutEnv) (localId path : List UInt8) (context : LmdbContext) :
    Exec (Bool × LmdbContext) := do
  match cidDecodeHashFromBase58 localId with
  | none => .ok (false, context)
  | some localPeer => do
    let (retVal, _, context) ← repoFsrepoLmdbPut env (publishedRecord localPeer.hash path) context
    .ok (decide (retVal ≠ 0), context)

/-! ## what names stand for -/

/-- the path that the datastore has for a hash -/
def namesOf (context : LmdbContext) (hash : List UInt8) : Option (List UInt8) :=
  match repoFsrepoLmdbGet hash context with
  | .ok (some record) => some (cString record.value)
  | _ => none

/-- the id in `/ipns/<id>`, with or without something behind it -/
def idSegment (path : List UInt8) : List UInt8 := (cutAt 47 (path.drop 6)).1

/-- what the name stands for -/
def chainStep (names : List UInt8 → Option (List UInt8)) (path : List UInt8) :
    Option (List UInt8) :=
  (cidDecodeHashFromBase58 (idSegment path)).bind fun cid => names cid.hash

/-- the first value that is no name, when there is one among so many -/
def chainEnd (names : List UInt8 → Option (List UInt8)) : Nat → List UInt8 → Option (List UInt8)
  | 0, _ => none
  | steps + 1, path =>
    match chainStep names path with
    | none => none
    | some value => if ipnsName <+: value then chainEnd names steps value else some value

/-- the caller's string is left alone, and the results are the end of the chain within eleven
steps, or one step -/
def ResolvesChain (context : LmdbContext) (path : List UInt8) : Prop :=
  resolverResolve context path true =
      .ok (path, chainEnd (namesOf context) 11 (cString path)) ∧
    resolverResolve context path false = .ok (path, chainStep (namesOf context) (cString path))

/-- what was published is what the local id is resolved to -/
def PublishResolves (env : PutEnv) (localId path : List UInt8) (context : LmdbContext) : Prop :=
  ∃ published context', publisherPublish env localId path context = .ok (published, context') ∧
    (published = true → ∀ recursive : Bool, (recursive = true → ¬ ipnsName <+: cString path) →
      resolverResolve context' (ipnsName ++ localId) recursive =
        .ok (ipnsName ++ localId, some (cString path)))

/-- nothing is behind the ids of the names on the way -/
def BareChain (names : List UInt8 → Option (List UInt8)) : Nat → List UInt8 → Prop
  | 0, _ => True
  | steps + 1, path => 47 ∉ path.drop 6 ∧
    ∀ value, chainStep names path = some value → ipnsName <+: value → BareChain names steps value

/-- the names that are followed as they should be -/
def FollowsRight (names : List UInt8 → Option (List UInt8)) (path : List UInt8) : Prop :=
  BareChain names 11 path ∨
    chainEnd names 11 path = none ∧ (chainStep names path = none ∨ 47 ∉ path.drop 6)

/-! ## one step -/

theorem mapM_base58Digit_of_mem {text : List UInt8} {c : UInt8} (h : c ∈ text)
    (hc : base58Digit c = none) : text.mapM base58Digit = none := by
  induction text with
  | nil => cases h
  | cons b text ih =>
    rw [List.mapM_cons]
    rcases List.mem_cons.1 h with rfl | h
    · rw [hc]
      rfl
    · rw [ih h]
      cases base58Digit b with
      | none => rfl
      | some d => rfl

/-- each character is a digit -/
theorem cidDecodeHashFromBase58_of_mem {text : List UInt8} {c : UInt8} (h : c ∈ text)
    (hc : base58Digit c = none) : cidDecodeHashFromBase58 text = none := by
  unfold cidDecodeHashFromBase58 cryptoEncodingBase58Decode
  rw [mapM_base58Digit_of_mem h hc]
  split
  · rfl
  · rfl

theorem base58Digit_slash : base58Digit 47 = none := by decide
theorem base58Digit_zero : base58Digit 0 = none := by decide

section
variable {context : LmdbContext} {path value : List UInt8} {steps : Nat}

/-- the slash that is overwritten is not behind the prefix -/
theorem drop_set_slash (h : ipnsName <+: path) :
    (path.set (path.idxOf 47) 0).drop 6 = path.drop 6 := by
  obtain ⟨rest, rfl⟩ := h
  rfl

theorem not_mem_drop {n : Nat} (h : 0 ∉ path) : 0 ∉ path.drop n :=
  fun h0 => h (List.mem_of_mem_drop h0)

/-- **one step** goes on when nothing is behind the id -/
theorem resolverResolveOnce_eq (hrec : HoldsRecords context.datastore) (hipns : ipnsName <+: path)
    (h0 : 0 ∉ path) : ∃ path' result,
    resolverResolveOnce context path = .ok (path', result) ∧
      result.map cString =
        if 47 ∈ path.drop 6 then none else chainStep (namesOf context) path := by
  have hprefix : ¬ (¬ ipfsName <+: path ∧ ¬ ipnsName <+: path) := fun h => h.2 hipns
  have hwhole : cString (path.drop 6) = path.drop 6 := cString_of_not_mem (not_mem_drop h0)
  unfold resolverResolveOnce cidDecodeHashFromIpfsIpnsString
  rw [if_neg hprefix]
  dsimp only
  rw [drop_set_slash hipns, hwhole]
  by_cases hslash : 47 ∈ path.drop 6
  · rw [cidDecodeHashFromBase58_of_mem hslash base58Digit_slash, if_pos hslash]
    exact ⟨_, none, rfl, rfl⟩
  · have hid : idSegment path = path.drop 6 := by
      unfold idSegment
      rw [cutAt_of_not_mem hslash]
    rw [if_neg hslash]
    unfold chainStep
    rw [hid]
    cases cidDecodeHashFromBase58 (path.drop 6) with
    | none => exact ⟨_, none, rfl, rfl⟩
    | some cid =>
      dsimp only [Option.bind_some]
      unfold namesOf
      rcases hrec.get cid.hash with ⟨-, hget⟩ | ⟨record, rest, -, -, -, -, hget⟩
      · rw [hget, ok_bind]
        exact ⟨_, none, rfl, rfl⟩
      · rw [hget, ok_bind]
        exact ⟨_, some record.value, rfl, rfl⟩

/-! ## the chain -/

theorem chainEnd_succ (names : List UInt8 → Option (List UInt8)) (steps : Nat)
    (path : List UInt8) : chainEnd names (steps + 1) path =
      match chainStep names path with
      | none => none
      | some value => if ipnsName <+: value then chainEnd names steps value else some value := rfl

/-- the values that the datastore has are strings -/
theorem not_mem_of_chainStep (h : chainStep (namesOf context) path = some value) : 0 ∉ value := by
  obtain ⟨cid, -, hname⟩ := Option.bind_eq_some_iff.1 h
  unfold namesOf at hname
  split at hname
  · obtain rfl := Option.some.inj hname
    exact not_mem_cString _
  · cases hname

/-- one turn of the loop, on a name that has nothing behind its id -/
theorem resolverTurns_succ (hrec : HoldsRecords context.datastore) (hipns : ipnsName <+: path)
    (h0 : 0 ∉ path) (recursive : Bool) (turns : Nat) :
    resolverTurns context recursive (turns + 1) path =
      if 47 ∈ path.drop 6 then .ok none
      else
        match chainStep (namesOf context) path with
        | none => .ok none
        | some value =>
          if recursive ∧ ipnsName <+: value then resolverTurns context recursive turns value
          else .ok (some value) := by
  obtain ⟨path', result, honce, hresult⟩ := resolverResolveOnce_eq hrec hipns h0
  rw [resolverTurns, honce, ok_bind]
  dsimp only
  by_cases hslash : 47 ∈ path.drop 6
  · rw [if_pos hslash] at hresult ⊢
    rw [Option.map_eq_none_iff.1 hresult]
  · rw [if_neg hslash] at hresult ⊢
    cases result with
    | none =>
      rw [← hresult]
      rfl
    | some value =>
      rw [← hresult]
      rfl

/-- the turns follow the chain where nothing is behind the ids, and fail otherwise -/
theorem resolverTurns_eq (hrec : HoldsRecords context.datastore) (hipns : ipnsName <+: path)
    (h0 : 0 ∉ path) (turns : Nat) :
    (BareChain (namesOf context) turns path → resolverTurns context true turns path =
      .ok (chainEnd (namesOf context) turns path)) ∧
    (¬ BareChain (namesOf context) turns path → resolverTurns context true turns path =
      .ok none) := by
  induction turns generalizing path with
  | zero =>
    constructor
    · intro _
      rfl
    · intro hbare
      exact absurd trivial hbare
  | succ turns ih =>
    rw [resolverTurns_succ hrec hipns h0]
    by_cases hslash : 47 ∈ path.drop 6
    · rw [if_pos hslash]
      exact ⟨fun hbare => absurd hslash hbare.1, fun _ => rfl⟩
    · rw [if_neg hslash, chainEnd_succ]
      have hstep : BareChain (namesOf context) (turns + 1) path ↔
          ∀ value, chainStep (namesOf context) path = some value → ipnsName <+: value →
            BareChain (namesOf context) turns value := by
        constructor
        · exact fun hbare => hbare.2
        · exact fun hbare => ⟨hslash, hbare⟩
      rw [hstep]
      cases hvalue : chainStep (namesOf context) path with
      | none => exact ⟨fun _ => rfl, fun _ => rfl⟩
      | some value =>
        dsimp only
        by_cases hname : ipnsName <+: value
        · obtain ⟨hbare, hnot⟩ := ih hname (not_mem_of_chainStep hvalue)
          rw [if_pos ⟨rfl, hname⟩, if_pos hname]
          constructor
          · intro hall
            exact hbare (hall value rfl hname)
          · intro hall
            refine hnot fun h => hall fun v hv _ => ?_
            rwa [← Option.some.inj hv]
        · rw [if_neg (fun h => hname h.2), if_neg hname]
          refine ⟨fun _ => rfl, fun hall => absurd (fun v hv hv' => ?_) hall⟩
          exact absurd (Option.some.inj hv ▸ hv') hname

/-- one step, without following the chain -/
theorem resolverTurns_one (hrec : HoldsRecords context.datastore) (hipns : ipnsName <+: path)
    (h0 : 0 ∉ path) (turns : Nat) : resolverTurns context false (turns + 1) path =
      .ok (if 47 ∈ path.drop 6 then none else chainStep (namesOf context) path) := by
  rw [resolverTurns_succ hrec hipns h0]
  by_cases hslash : 47 ∈ path.drop 6
  · rw [if_pos hslash, if_pos hslash]
  · rw [if_neg hslash, if_neg hslash]
    cases chainStep (namesOf context) path with
    | none => rfl
    | some value => rfl

theorem resolverResolve_eq_ok {recursive : Bool} {results : Option (List UInt8)} :
    resolverResolve context path recursive = .ok (path, results) ↔
      resolverTurns context recursive 11 (cString path) = .ok results := by
  unfold resolverResolve
  rw [bind_eq_ok]
  constructor
  · rintro ⟨results', h, hresults⟩
    obtain ⟨-, rfl⟩ := Prod.mk.inj (Except.ok.inj hresults)
    exact h
  · exact fun h => ⟨results, h, rfl⟩

theorem ipns_cString (h : ipnsName <+: path) : ipnsName <+: cString path := by
  obtain ⟨rest, rfl⟩ := h
  exact ⟨cString rest, rfl⟩

/-- **the names that are followed**: nothing is behind the ids on the way, or there is no end -/
theorem resolvesChain_iff (hrec : HoldsRecords context.datastore) (hipns : ipnsName <+: path) :
    ResolvesChain context path ↔ FollowsRight (namesOf context) (cString path) := by
  have h0 := not_mem_cString path
  have hname := ipns_cString hipns
  obtain ⟨hbare, hnot⟩ := resolverTurns_eq hrec hname h0 11
  unfold ResolvesChain FollowsRight
  rw [resolverResolve_eq_ok, resolverResolve_eq_ok, resolverTurns_one hrec hname h0]
  generalize cString path = path at *
  by_cases hchain : BareChain (namesOf context) 11 path
  · rw [hbare hchain, if_neg hchain.1]
    exact iff_of_true ⟨rfl, rfl⟩ (.inl hchain)
  · rw [hnot hchain]
    constructor
    · rintro ⟨hend, hstep⟩
      refine .inr ⟨(Except.ok.inj hend).symm, ?_⟩
      by_cases hslash : 47 ∈ path.drop 6
      · rw [if_pos hslash] at hstep
        exact .inl (Except.ok.inj hstep).symm
      · exact .inr hslash
    · rintro (h | ⟨hend, hstep⟩)
      · exact absurd h hchain
      · refine ⟨congrArg Except.ok hend.symm, congrArg Except.ok ?_⟩
        rcases hstep with hnone | hslash
        · rw [hnone, ite_self]
        · rw [if_neg hslash]

end

/-! ## a path that was published -/

/-- the record as it goes into the datastore -/
def publishedNow (env : PutEnv) (hash path : List UInt8) : DatastoreRecord :=
  { publishedRecord hash path with timestamp := env.now }

/-- the path is found again: it is the first of its name, or it stands for the same, or it comes
first in the order of the bytes, or it is not stored, and the function says so -/
structure PublishKept (env : PutEnv) (hash path : List UInt8) (context : LmdbContext) : Prop where
  fits : env.now < 2 ^ 56
  first : repoFsrepoLmdbGet hash context = .ok none →
    Refused env (publishedNow env hash path) ∨ env.journalFull = false
  searched : ∀ existing, repoFsrepoLmdbGet hash context = .ok (some existing) →
    Safe (searchJournal (some existing) (publishedRecord hash path) context.journal)
  again : ∀ existing, repoFsrepoLmdbGet hash context = .ok (some existing) →
    Refused env (publishedNow env hash path) ∨ cString existing.value = cString path ∨
      (context.datastore.insert hash (recordBytes (publishedNow env hash path))).get hash =
        some (recordBytes (publishedNow env hash path)) ∨
      recordBytes (publishedNow env hash path) ∉ context.datastore.values hash ∧
        (env.now = 0 ∨ env.journalFull = true)

section
variable {env : PutEnv} {context context' : LmdbContext} {path localId hash : List UInt8}
  {peer : Cid} {existingRecord : Option DatastoreRecord}

theorem lowered_published : lowered existingRecord (publishedRecord hash path) =
    publishedRecord hash path := by
  unfold lowered
  cases existingRecord with
  | none => rfl
  | some existing => exact if_neg fun h => absurd h.2 (Nat.not_lt_zero _)

/-- the hash of an id that was decoded -/
theorem length_hash_le (h : cidDecodeHashFromBase58 localId = some peer) :
    peer.hash.length ≤ 32 := by
  unfold cidDecodeHashFromBase58 at h
  split at h
  · obtain ⟨hash, hdecode, rfl⟩ := Option.map_eq_some_iff.1 h
    show (hash.drop 2).length ≤ 32
    unfold cryptoEncodingBase58Decode at hdecode
    obtain ⟨digits, -, hdecode⟩ := Option.bind_eq_some_iff.1 hdecode
    dsimp only at hdecode
    split at hdecode
    · cases hdecode
    · obtain rfl := Option.some.inj hdecode
      rw [List.length_drop, List.length_take, valueBytes_length]
      omega
  · cases h

theorem namesOf_of_get {record : DatastoreRecord}
    (h : repoFsrepoLmdbGet hash context = .ok (some record)) :
    namesOf context hash = some (cString record.value) := by
  unfold namesOf
  rw [h]

/-- the local id, resolved -/
theorem resolverResolve_local (hrec : HoldsRecords context.datastore)
    (hpeer : cidDecodeHashFromBase58 localId = some peer) :
    (∀ recursive : Bool, (recursive = true → ¬ ipnsName <+: cString path) →
      resolverResolve context (ipnsName ++ localId) recursive =
        .ok (ipnsName ++ localId, some (cString path))) ↔
      namesOf context peer.hash = some (cString path) := by
  have hslash : 47 ∉ localId := by
    intro h
    rw [cidDecodeHashFromBase58_of_mem h base58Digit_slash] at hpeer
    cases hpeer
  have hzero : 0 ∉ localId := by
    intro h
    rw [cidDecodeHashFromBase58_of_mem h base58Digit_zero] at hpeer
    cases hpeer
  have hipns : ipnsName <+: ipnsName ++ localId := List.prefix_append _ _
  have h0 : 0 ∉ ipnsName ++ localId := by
    intro h
    rcases List.mem_append.1 h with h | h
    · exact absurd h (by decide)
    · exact hzero h
  have hdrop : (ipnsName ++ localId).drop 6 = localId := rfl
  have hstep : chainStep (namesOf context) (ipnsName ++ localId) =
      namesOf context peer.hash := by
    unfold chainStep idSegment
    rw [hdrop, cutAt_of_not_mem hslash, hpeer]
    rfl
  constructor
  · intro hall
    have hone := resolverResolve_eq_ok.1 (hall false (fun h => nomatch h))
    rw [cString_of_not_mem h0, resolverTurns_one hrec hipns h0, hdrop, if_neg hslash,
      hstep] at hone
    exact Except.ok.inj hone
  · intro hname recursive hend
    rw [resolverResolve_eq_ok, cString_of_not_mem h0, resolverTurns_succ hrec hipns h0, hdrop,
      if_neg hslash, hstep, hname]
    exact if_neg fun h => hend h.1 h.2

theorem journalFull_iff (hlen : hash.length ≤ 32) :
    JournalFull env hash ↔ env.journalFull = true := by
  have hroom : hash.length + 2 ≤ mdbMaxkeysize := by
    unfold mdbMaxkeysize
    omega
  exact and_iff_right hroom

/-- the new pair is in the table, and is read back when it is the first one of the name -/
theorem namesOf_insert_of_first (hts : env.now < 2 ^ 56)
    (hfit : Fits hash (recordBytes (publishedNow env hash path)))
    (hdatastore : context'.datastore = context.datastore.insert hash
      (recordBytes (publishedNow env hash path)))
    (hfirst : (context.datastore.insert hash (recordBytes (publishedNow env hash path))).get hash =
      some (recordBytes (publishedNow env hash path))) :
    namesOf context' hash = some (cString path) := by
  rw [← hdatastore] at hfirst
  obtain ⟨rest, hvalues⟩ := List.head?_eq_some_iff.1 hfirst
  have hread : repoFsrepoLmdbGet hash context' = .ok (some (publishedNow env hash path)) :=
    get_of_values_cons rfl hts hfit hvalues
  rw [namesOf_of_get hread]
  exact congrArg some (cString_of_not_mem (not_mem_cString path))

/-- the new pair is in the table, and another one is read -/
theorem namesOf_insert_of_same {value : List UInt8}
    (hdatastore : context'.datastore = context.datastore.insert hash value)
    (hsame : (context.datastore.insert hash value).get hash = context.datastore.get hash) :
    namesOf context' hash = namesOf context hash := by
  unfold namesOf repoFsrepoLmdbGet repoFsrepoLmdbGetWithTransaction
  rw [hdatastore, hsame]

/-- a journal that is not full takes every pair that fits -/
theorem mdbPut_eq_zero {key value : List UInt8} {table : MdbTable} (h : Fits key value) :
    (mdbPut false false key value table).1 = 0 := by
  by_cases hm : value ∈ table.values key
  · rw [mdbPut_of_mem h hm]
    rfl
  · rw [mdbPut_of_not_mem h hm]

/-- the writing, for a name that has no record -/
theorem written_published_none (hts : env.now < 2 ^ 56) (hlen : hash.length ≤ 32)
    (hvalues : context.datastore.values hash = []) : ∃ retVal context',
      written env none (publishedNow env hash path) context = .ok (retVal, context') ∧
        ((retVal ≠ 0 → namesOf context' hash = some (cString path)) ↔
          Refused env (publishedNow env hash path) ∨ env.journalFull = false) := by
  by_cases href : Refused env (publishedNow env hash path)
  · exact ⟨0, context, written_of_refused href,
      iff_of_true (fun h => absurd rfl h) (.inl href)⟩
  · have hnew : recordBytes (publishedNow env hash path) ∉ context.datastore.values hash := by
      rw [hvalues]
      exact List.not_mem_nil
    have hj : ∀ j, (none : Option JournalRecord) = some j →
        j.hash = (publishedNow env hash path).key := fun j hj => nomatch hj
    by_cases hfull : env.journalFull = true
    · have hundone : Undone env none (publishedNow env hash path) :=
        ⟨Option.some_ne_none _, (journalFull_iff hlen).2 hfull⟩
      refine ⟨1, context, written_of_undone ⟨href, hnew⟩ hts hj hundone, iff_of_false ?_ ?_⟩
      · intro h
        have hname := h (by decide)
        unfold namesOf at hname
        rw [get_of_values_nil hvalues] at hname
        cases hname
      · rintro (h | h)
        · exact href h
        · rw [hfull] at h
          cases h
    · have hundone : ¬ Undone env none (publishedNow env hash path) :=
        fun h => hfull ((journalFull_iff hlen).1 h.2)
      obtain ⟨retVal, journal, hw, -⟩ := written_of_not_undone ⟨href, hnew⟩ hts hj hundone
      refine ⟨retVal, _, hw, iff_of_true (fun _ => ?_) (.inr (eq_false_of_ne_true hfull))⟩
      refine namesOf_insert_of_first hts (not_not.1 (not_or.1 href).1) rfl ?_
      have hperm := Multimap.values_insert_perm hnew
      rw [hvalues, List.perm_singleton] at hperm
      unfold Multimap.get
      rw [hperm]
      rfl

/-- the writing, for a name that has records -/
theorem written_published_some (hts : env.now < 2 ^ 56) (hlen : hash.length ≤ 32)
    {existing : DatastoreRecord} (hget : repoFsrepoLmdbGet hash context = .ok (some existing))
    {j : JournalRecord} (hjts : j.timestamp = 0) (hjhash : j.hash = hash) : ∃ retVal context',
      written env (some j) (publishedNow env hash path) context = .ok (retVal, context') ∧
        ((retVal ≠ 0 → namesOf context' hash = some (cString path)) ↔
          Refused env (publishedNow env hash path) ∨ cString existing.value = cString path ∨
            (context.datastore.insert hash (recordBytes (publishedNow env hash path))).get hash =
              some (recordBytes (publishedNow env hash path)) ∨
            recordBytes (publishedNow env hash path) ∉ context.datastore.values hash ∧
              (env.now = 0 ∨ env.journalFull = true)) := by
  by_cases href : Refused env (publishedNow env hash path)
  · exact ⟨0, context, written_of_refused href,
      iff_of_true (fun h => absurd rfl h) (.inl href)⟩
  have hfit : Fits hash (recordBytes (publishedNow env hash path)) := not_not.1 (not_or.1 href).1
  by_cases hm : recordBytes (publishedNow env hash path) ∈ context.datastore.values hash
  · -- the pair is there already, and stays where it is
    refine ⟨mdbKeyexist, context, written_of_mem href hm, ?_⟩
    have hinsert := Multimap.insert_of_mem hm
    constructor
    · intro h
      have hname := h (by decide)
      rw [namesOf_of_get hget] at hname
      exact .inr (.inl (Option.some.inj hname))
    · rintro (h | h | h | h) -
      · exact absurd h href
      · rw [namesOf_of_get hget, h]
      · exact namesOf_insert_of_first hts hfit hinsert.symm h
      · exact absurd hm h.1
  · have hj : ∀ j', some j = some j' → j'.hash = (publishedNow env hash path).key := by
      intro j' hj'
      rw [← Option.some.inj hj', hjhash]
      rfl
    have hentry : journalEntry (some j) (publishedNow env hash path) =
        if 0 ≠ env.now then some { j with timestamp := env.now } else none := by
      show (if j.timestamp ≠ env.now then _ else none) = _
      rw [hjts]
      rfl
    have hw := @written_of_accepted env (publishedNow env hash path) context (some j) ⟨href, hm⟩ hts
    by_cases hnow : env.now = 0
    · rw [hentry, if_neg (fun h => h hnow.symm)] at hw
      exact ⟨0, _, hw, iff_of_true (fun h => absurd rfl h)
        (.inr (.inr (.inr ⟨hm, .inl hnow⟩)))⟩
    rw [if_pos (Ne.symm hnow)] at hentry
    by_cases hfull : env.journalFull = true
    · refine ⟨0, context, ?_, iff_of_true (fun h => absurd rfl h)
        (.inr (.inr (.inr ⟨hm, .inr hfull⟩)))⟩
      have hundone : Undone env (some j) (publishedNow env hash path) := by
        refine ⟨?_, (journalFull_iff hlen).2 hfull⟩
        rw [hentry]
        exact Option.some_ne_none _
      rw [written_of_undone ⟨href, hm⟩ hts hj hundone]
      rfl
    · have hfits : Fits (env.frame.read { j with timestamp := env.now }.pair).1
          (env.frame.read { j with timestamp := env.now }.pair).2 := by
        rw [fits_read]
        show j.hash.length + 2 ≤ mdbMaxkeysize
        rw [hjhash]
        unfold mdbMaxkeysize
        omega
      have hcode : (0 : Int) ≠ mdbMapFull := by decide
      rw [hentry] at hw
      dsimp only at hw
      rw [eq_false_of_ne_true hfull, mdbPut_eq_zero hfits, if_pos (.inl rfl), if_neg hcode] at hw
      refine ⟨1, _, hw, ?_⟩
      rcases Multimap.get_insert context.datastore hash
        (recordBytes (publishedNow env hash path)) with hfirst | hsame
      · exact iff_of_true (fun _ => namesOf_insert_of_first hts hfit rfl hfirst)
          (.inr (.inr (.inl hfirst)))
      · constructor
        · intro h
          have hname := h (by decide)
          rw [namesOf_insert_of_same rfl hsame, namesOf_of_get hget] at hname
          exact .inr (.inl (Option.some.inj hname))
        · rintro (h | h | h | h) -
          · exact absurd h href
          · rw [namesOf_insert_of_same rfl hsame, namesOf_of_get hget, h]
          · exact namesOf_insert_of_first hts hfit rfl h
          · rcases h.2 with h | h
            · exact absurd h hnow
            · exact absurd h hfull

/-- the put of a path, seen at its name -/
theorem put_published_iff (hrec : HoldsRecords context.datastore) (hlen : hash.length ≤ 32) :
    (∃ retVal after context', repoFsrepoLmdbPut env (publishedRecord hash path) context =
        .ok (retVal, after, context') ∧
      (retVal ≠ 0 → namesOf context' hash = some (cString path))) ↔
      PublishKept env hash path context := by
  have hkey : ∀ result, repoFsrepoLmdbPut env (publishedRecord hash path) context = .ok result ↔
      ∃ existingRecord journalRecord, repoFsrepoLmdbGet hash context = .ok existingRecord ∧
        searchJournal existingRecord (publishedRecord hash path) context.journal =
          .ok journalRecord ∧ env.now < 2 ^ 56 ∧ result.2.1 = publishedNow env hash path ∧
        written env journalRecord (publishedNow env hash path) context =
          .ok (result.1, result.2.2) := by
    intro result
    rw [repoFsrepoLmdbPut_eq_ok]
    simp only [lowered_published]
    rfl
  rcases hrec.get hash with ⟨hvalues, hget⟩ | ⟨existing, rest, -, -, hfit, -, hget⟩
  · constructor
    · rintro ⟨retVal, after, context', hput, hname⟩
      obtain ⟨_, journalRecord, hget', hsearch, hts, -, hw⟩ := (hkey _).1 hput
      rw [hget] at hget'
      obtain rfl := Except.ok.inj hget'
      obtain rfl := Except.ok.inj hsearch
      obtain ⟨retVal', last, hw', hiff⟩ := written_published_none hts hlen hvalues
      obtain ⟨rfl, rfl⟩ := Prod.mk.inj (Except.ok.inj (hw.symm.trans hw'))
      refine ⟨hts, fun _ => hiff.1 hname, fun e he => ?_, fun e he => ?_⟩
      · rw [hget] at he
        cases he
      · rw [hget] at he
        cases he
    · rintro ⟨hts, hfirst, -, -⟩
      obtain ⟨retVal, last, hw, hiff⟩ := written_published_none hts hlen hvalues
      exact ⟨retVal, _, last, (hkey _).2 ⟨none, none, hget, rfl, hts, rfl, hw⟩,
        hiff.2 (hfirst hget)⟩
  · constructor
    · rintro ⟨retVal, after, context', hput, hname⟩
      obtain ⟨_, journalRecord, hget', hsearch, hts, -, hw⟩ := (hkey _).1 hput
      rw [hget] at hget'
      obtain rfl := Except.ok.inj hget'
      obtain ⟨j, rfl, hjts, hjhash⟩ := searchJournal_some hfit.1 hsearch
      obtain ⟨retVal', last, hw', hiff⟩ := written_published_some hts hlen hget hjts hjhash
      obtain ⟨rfl, rfl⟩ := Prod.mk.inj (Except.ok.inj (hw.symm.trans hw'))
      refine ⟨hts, fun h => ?_, fun e he => ?_, fun e he => ?_⟩
      · rw [hget] at h
        cases h
      · rw [hget] at he
        obtain rfl := Option.some.inj (Except.ok.inj he)
        exact ⟨_, hsearch⟩
      · rw [hget] at he
        obtain rfl := Option.some.inj (Except.ok.inj he)
        exact hiff.1 hname
    · rintro ⟨hts, -, hsearched, hagain⟩
      obtain ⟨journalRecord, hsearch⟩ := hsearched existing hget
      obtain ⟨j, rfl, hjts, hjhash⟩ := searchJournal_some hfit.1 hsearch
      obtain ⟨retVal, last, hw, hiff⟩ := written_published_some hts hlen hget hjts hjhash
      exact ⟨retVal, _, last, (hkey _).2 ⟨some existing, some j, hget, hsearch, hts, rfl, hw⟩,
        hiff.2 (hagain existing hget)⟩

/-- **the paths that are found again** -/
theorem publishResolves_iff (hrec : HoldsRecords context.datastore) :
    PublishResolves env localId path context ↔
      ∀ peer, cidDecodeHashFromBase58 localId = some peer →
        PublishKept env peer.hash path context := by
  unfold PublishResolves publisherPublish
  cases hpeer : cidDecodeHashFromBase58 localId with
  | none => exact iff_of_true ⟨false, context, rfl, fun h => nomatch h⟩ (fun peer h => nomatch h)
  | some peer =>
    have hall : (∀ peer', some peer = some peer' → PublishKept env peer'.hash path context) ↔
        PublishKept env peer.hash path context :=
      ⟨fun h => h peer rfl, fun h peer' hpeer' => Option.some.inj hpeer' ▸ h⟩
    rw [hall, ← put_published_iff hrec (length_hash_le hpeer)]
    dsimp only
    constructor
    · rintro ⟨published, context', hrun, hresolve⟩
      obtain ⟨⟨retVal, after, context⟩, hput, hrun⟩ := bind_eq_ok.1 hrun
      obtain ⟨rfl, rfl⟩ := Prod.mk.inj (Except.ok.inj hrun)
      refine ⟨retVal, after, _, hput, fun hret => ?_⟩
      exact (resolverResolve_local (hrec.put hput) hpeer).1 (hresolve (decide_eq_true hret))
    · rintro ⟨retVal, after, context', hput, hname⟩
      refine ⟨decide (retVal ≠ 0), context', by rw [hput]; rfl, fun hret => ?_⟩
      exact (resolverResolve_local (hrec.put hput) hpeer).2 (hname (of_decide_eq_true hret))

/-- **names and publishing**: nothing is behind the ids on the way or the chain has no end, and
what is published is what is read -/
theorem names_iff (context : LmdbContext) (path : List UInt8) (env : PutEnv)
    (localId published : List UInt8) (hrec : HoldsRecords context.datastore)
    (hipns : ipnsName <+: path) :
    (ResolvesChain context path ∧ PublishResolves env localId published context) ↔
      FollowsRight (namesOf context) (cString path) ∧
        ∀ peer, cidDecodeHashFromBase58 localId = some peer →
          PublishKept env peer.hash published context :=
  and_congr (resolvesChain_iff hrec hipns) (publishResolves_iff hrec)

end

/-! ## a name and a document behind it -/

/-- the path of one peer, published at the time 5 -/
def peerRecord : DatastoreRecord :=
  { key := List.replicate 32 1, value := asciiBytes "/ipfs/a", timestamp := 5 }

def peerContext : LmdbContext :=
  { datastore := Multimap.empty.insert peerRecord.key (recordBytes peerRecord), journal := .empty }

def peerText : List UInt8 := asciiBytes "QmNQa1FSTXNHmrjjfgUW3Px3Vkke4oKiFWdigWkYSux2Pi"

def putAtEight : PutEnv :=
  { now := 8, datastoreFull := false, journalFull := false, frame := .intact }

theorem holdsRecords_peerContext : HoldsRecords peerContext.datastore :=
  holdsRecords_empty.insert (show 5 < 2 ^ 56 by decide) (by decide)

theorem names_iff_peer :
    (ResolvesChain peerContext (ipnsName ++ peerText) ∧
      PublishResolves putAtEight peerText (asciiBytes "/ipfs/b") peerContext) ↔
      FollowsRight (namesOf peerContext) (cString (ipnsName ++ peerText)) ∧
        ∀ peer, cidDecodeHashFromBase58 peerText = some peer →
          PublishKept putAtEight peer.hash (asciiBytes "/ipfs/b") peerContext :=
  names_iff peerContext (ipnsName ++ peerText) putAtEight peerText (asciiBytes "/ipfs/b")
    holdsRecords_peerContext (List.prefix_append _ _)

/-- the name has a path, the document behind it none -/
theorem not_names_document :
    ¬ (ResolvesChain peerContext (ipnsName ++ peerText ++ asciiBytes "/docs") ∧
      PublishResolves putAtEight peerText (asciiBytes "/ipfs/b") peerContext) := by
  rintro ⟨⟨-, hstep⟩, -⟩
  have hcode : (resolverResolve peerContext (ipnsName ++ peerText ++ asciiBytes "/docs")
      false).map Prod.snd = .ok none := by decide
  have hright : chainStep (namesOf peerContext)
      (cString (ipnsName ++ peerText ++ asciiBytes "/docs")) = some (asciiBytes "/ipfs/a") := by
    decide
  rw [hstep, hright] at hcode
  exact absurd (Except.ok.inj hcode) (Option.some_ne_none _)

end Ipfs
