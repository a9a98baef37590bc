import Libipfs.Repo.ConfigRoundTrip

/-!
# The lists of the config file

Three loops go over the strings of an array: the addresses of the swarm, the peers to start from,
and those that are to have a copy.  They are one loop, but for what is made of a string and for the
place of the string that is read next.

* `readElements`        the loop, every entry with the place of the string it is made of;
* `eq_map_readElements`  when a loop is it;
* `readSwarm_eq`, `readPeers_eq`, `readReplicationPeers_eq`   the three loops are it; **the place
                        of the last one stays what it is**;
* `StringsAt`           the strings from a place on;
* `readElements_succ`, `readElements_same`   what is read when the place moves on, and when it does
                        not;
* `ConfigTokens`        the tokens of a file whose other parts can be read;
* `ListsRight`          what the lists should be;
* `listsRight_iff`      **when they are that**.
-/

namespace Ipfs
open CSem Libp2p

/-! ## one loop -/

section
variable {E : Type}

/-- up to a token that is no string -/
def readElements (tokens : List JsmnTok) (next : Nat → Nat)
    (entry : List UInt8 → Exec (Option E)) : Nat → Nat → Exec (List (Nat × E))
  | 0, _ => .ok []
  | size + 1, pos => do
    match ← getJsonStringValue tokens pos none with
    | .text val => do
      let made ← entry val
      let rest ← readElements tokens next entry size (next pos)
      .ok ((made.map fun e => (pos, e)).toList ++ rest)
    | _ => .ok []

/-- the string is kept, and what it is converted to -/
def swarmEntry (val : List UInt8) : Exec (Option (List UInt8 × Option Multiaddress)) := do
  let ma ← multiaddressNewFromString val
  .ok (some (val, ma))

def bootstrapEntry (val : List UInt8) : Exec (Option ConfigAddress) := do
  let cur ← multiaddressNewFromString val
  .ok (cur.map fun bytes => ConfigAddress.mk val bytes)

/-- the peer of an address -/
def replicationPeerOf (val : List UInt8) (bytes : Multiaddress) : ReplicationPeer where
  id := (multiaddressGetPeerId val).getD []
  addr := ⟨val, bytes⟩

def replicationEntry (val : List UInt8) : Exec (Option ReplicationPeer) := do
  match ← multiaddressNewFromString val with
  | none => .ok none
  | some bytes => do
    require .outOfBounds (((multiaddressGetPeerId val).getD []).length < 100)
    .ok (some (replicationPeerOf val bytes))

variable (tokens : List JsmnTok) (size pos : Nat)

def readSwarmPlaced : Exec (List (Nat × (List UInt8 × Option Multiaddress))) :=
  readElements tokens (· + 1) swarmEntry size pos

def readPeersPlaced : Exec (List (Nat × ConfigAddress)) :=
  readElements tokens (· + 1) bootstrapEntry size pos

/-- the place stays what it is -/
def readReplicationPeersPlaced : Exec (List (Nat × ReplicationPeer)) :=
  readElements tokens id replicationEntry size pos

end

section
variable {tokens : List JsmnTok}

/-- **a loop is this one** when its pass is: it takes the strings the same way, and adds what is
made of each -/
theorem eq_map_readElements {E R : Type} {next : Nat → Nat}
    {entry : List UInt8 → Exec (Option E)} {loop : Nat → Nat → Exec R} {add : Option E → R → R}
    {out : List (Nat × E) → R} (hzero : ∀ pos, loop 0 pos = .ok (out []))
    (hsucc : ∀ size pos, loop (size + 1) pos =
      getJsonStringValue tokens pos none >>= fun value =>
        match value with
        | .text val => entry val >>= fun made => loop size (next pos) >>= fun rest =>
            .ok (add made rest)
        | _ => .ok (out []))
    (hout : ∀ made pos entries,
      out ((made.map fun e => (pos, e)).toList ++ entries) = add made (out entries))
    (size pos : Nat) :
    loop size pos = (readElements tokens next entry size pos).map out := by
  induction size generalizing pos with
  | zero => exact hzero pos
  | succ size ih =>
    rw [hsucc, readElements]
    cases getJsonStringValue tokens pos none with
    | error e => rfl
    | ok value =>
      rw [ok_bind, ok_bind]
      cases value with
      | untouched => rfl
      | null => rfl
      | text item =>
        dsimp only
        cases entry item with
        | error e => rfl
        | ok made =>
          rw [ok_bind, ok_bind, ih]
          cases readElements tokens next entry size (next pos) with
          | error e => rfl
          | ok rest => exact congrArg Except.ok (hout made pos rest).symm

/-- **the addresses of the swarm** -/
theorem readSwarm_eq (size pos : Nat) : readSwarm tokens size pos =
    (readSwarmPlaced tokens size pos).map fun entries =>
      (entries.map fun x => x.2.1, entries.filterMap fun x => x.2.2) := by
  let add : Option (List UInt8 × Option Multiaddress) →
      List (List UInt8) × List Multiaddress → List (List UInt8) × List Multiaddress :=
    fun made rest => ((made.map Prod.fst).toList ++ rest.1, (made.bind Prod.snd).toList ++ rest.2)
  refine @eq_map_readElements tokens _ _ _ swarmEntry (readSwarm tokens) add _ (fun pos => rfl)
    (fun size pos => ?_) (fun made pos entries => ?_) size pos
  · rw [readSwarm]
    congr 1
    funext value
    cases value with
    | untouched => rfl
    | null => rfl
    | text item =>
      dsimp only
      rw [swarmEntry]
      cases multiaddressNewFromString item with
      | error e => rfl
      | ok ma => rfl
  · cases made with
    | none => rfl
    | some made =>
      obtain ⟨item, ma⟩ := made
      cases ma with
      | none => rfl
      | some bytes => rfl

theorem map_snd_append {E : Type} (made : Option E) (pos : Nat) (entries : List (Nat × E)) :
    ((made.map fun e => (pos, e)).toList ++ entries).map Prod.snd =
      made.toList ++ entries.map Prod.snd := by
  cases made with
  | none => rfl
  | some e => rfl

/-- **the peers to start from** -/
theorem readPeers_eq (size pos : Nat) : readPeers tokens size pos =
    (readPeersPlaced tokens size pos).map fun entries => entries.map Prod.snd := by
  refine @eq_map_readElements tokens _ _ _ bootstrapEntry (readPeers tokens)
    (fun made rest => made.toList ++ rest) _ (fun pos => rfl) (fun size pos => ?_) map_snd_append
    size pos
  rw [readPeers]
  congr 1
  funext value
  cases value with
  | untouched => rfl
  | null => rfl
  | text item =>
    dsimp only
    rw [bootstrapEntry]
    cases multiaddressNewFromString item with
    | error e => rfl
    | ok cur => rfl

/-- **the peers that are to have a copy** -/
theorem readReplicationPeers_eq (size pos : Nat) : readReplicationPeers tokens pos size =
    (readReplicationPeersPlaced tokens size pos).map fun entries => entries.map Prod.snd := by
  refine @eq_map_readElements tokens _ _ _ replicationEntry
    (fun size pos => readReplicationPeers tokens pos size) (fun made rest => made.toList ++ rest) _
    (fun pos => rfl) (fun size pos => ?_) map_snd_append size pos
  rw [readReplicationPeers]
  congr 1
  funext value
  cases value with
  | untouched => rfl
  | null => rfl
  | text item =>
    dsimp only
    rw [replicationEntry]
    cases multiaddressNewFromString item with
    | error e => rfl
    | ok cur =>
      rw [ok_bind, ok_bind]
      cases cur with
      | none =>
        -- the next pass is all there is
        show _ = readReplicationPeers tokens pos size >>= fun rest => Except.ok rest
        cases readReplicationPeers tokens pos size with
        | error e => rfl
        | ok rest => rfl
      | some bytes =>
        dsimp only
        by_cases hid : ((multiaddressGetPeerId item).getD []).length < 100
        · rw [require_pos hid]
          rfl
        · rw [require_neg hid]
          rfl

end

/-! ## strings one behind the other -/

/-- these strings are at this place and behind it -/
def StringsAt (tokens : List JsmnTok) (pos : Nat) (texts : List (List UInt8)) : Prop :=
  ∀ (i : Nat) text, texts[i]? = some text →
    ∃ t, tokens[pos + i]? = some t ∧ t.type = .string ∧ t.text = text

/-- what is made of each string, with its place -/
def placed {E : Type} (value : List UInt8 → Option E) : Nat → List (List UInt8) → List (Nat × E)
  | _, [] => []
  | pos, text :: texts =>
    ((value text).map fun e => (pos, e)).toList ++ placed value (pos + 1) texts

section
variable {E : Type} {tokens : List JsmnTok} {next : Nat → Nat}
  {entry : List UInt8 → Exec (Option E)} {value : List UInt8 → Option E} {size pos : Nat}
  {text : List UInt8} {texts : List (List UInt8)} {entries : List (Nat × E)}

theorem StringsAt.head (h : StringsAt tokens pos (text :: texts)) :
    getJsonStringValue tokens pos none = .ok (.text text) := by
  obtain ⟨t, ht, htype, rfl⟩ := h 0 text rfl
  have hvalue : getJsonStringValue tokens pos none = .ok t.string := getJsonStringValue_at ht
  rw [hvalue, JsmnTok.string, htype]

theorem stringsAt_of_drop {behind : List JsmnTok}
    (h : tokens.drop pos = stringToks texts ++ behind) : StringsAt tokens pos texts := by
  intro i text htext
  refine ⟨stringTok text 0, ?_, rfl, rfl⟩
  have hget : (stringToks texts)[i]? = some (stringTok text 0) := by
    rw [stringToks, List.getElem?_map, htext, Option.map_some]
  obtain ⟨hlt, -⟩ := List.getElem?_eq_some_iff.1 hget
  rw [← List.getElem?_drop, h, List.getElem?_append_left hlt, hget]

theorem StringsAt.tail (h : StringsAt tokens pos (text :: texts)) :
    StringsAt tokens (pos + 1) texts := by
  intro i other hother
  rw [Nat.add_assoc, Nat.add_comm 1 i]
  exact h (i + 1) other hother

theorem readElements_text (h : getJsonStringValue tokens pos none = .ok (.text text)) :
    readElements tokens next entry (size + 1) pos = entry text >>= fun made =>
      readElements tokens next entry size (next pos) >>= fun rest =>
        .ok ((made.map fun e => (pos, e)).toList ++ rest) := by
  rw [readElements, h, ok_bind]

/-- the values are those of the strings, without those of which nothing is made -/
theorem map_snd_placed (value : List UInt8 → Option E) (pos : Nat) (texts : List (List UInt8)) :
    (placed value pos texts).map Prod.snd = texts.filterMap value := by
  induction texts generalizing pos with
  | nil => rfl
  | cons text texts ih =>
    rw [placed, List.map_append, ih, List.filterMap_cons]
    cases value text with
    | none => rfl
    | some e => rfl

theorem le_of_mem_placed {x : Nat × E} (h : x ∈ placed value pos texts) : pos ≤ x.1 := by
  induction texts generalizing pos with
  | nil => exact absurd h List.not_mem_nil
  | cons text texts ih =>
    obtain h | h := List.mem_append.1 h
    · obtain ⟨e, -, rfl⟩ := Option.map_eq_some_iff.1 (Option.mem_toList.1 h)
      exact Nat.le_refl pos
    · exact Nat.le_of_succ_le (ih h)

/-- **the places** are those of different strings, in their order -/
theorem pairwise_placed (value : List UInt8 → Option E) (pos : Nat) (texts : List (List UInt8)) :
    ((placed value pos texts).map Prod.fst).Pairwise (· < ·) := by
  induction texts generalizing pos with
  | nil => exact List.Pairwise.nil
  | cons text texts ih =>
    have hbehind : ∀ k ∈ (placed value (pos + 1) texts).map Prod.fst, pos < k := by
      intro k hk
      obtain ⟨x, hx, rfl⟩ := List.mem_map.1 hk
      exact le_of_mem_placed hx
    rw [placed, List.map_append]
    cases value text with
    | none => exact ih (pos + 1)
    | some e => exact List.Pairwise.cons hbehind (ih (pos + 1))

/-- **the place moves on**: each string is read, and none of them may fault -/
theorem readElements_succ (hentry : ∀ text made, entry text = .ok made → made = value text)
    (h : StringsAt tokens pos texts) :
    readElements tokens (· + 1) entry texts.length pos = .ok entries ↔
      (∀ text ∈ texts, Safe (entry text)) ∧ entries = placed value pos texts := by
  induction texts generalizing pos entries with
  | nil =>
    show Except.ok [] = Except.ok entries ↔ _
    rw [Except.ok.injEq, eq_comm]
    exact ⟨fun h => ⟨fun text ht => absurd ht List.not_mem_nil, h⟩, And.right⟩
  | cons text texts ih =>
    rw [List.length_cons, readElements_text h.head, List.forall_mem_cons]
    constructor
    · intro hread
      obtain ⟨made, hmade, hread⟩ := bind_eq_ok.1 hread
      obtain ⟨rest, hrest, hread⟩ := bind_eq_ok.1 hread
      obtain ⟨hsafe, rfl⟩ := (ih h.tail).1 hrest
      cases hread
      refine ⟨⟨⟨made, hmade⟩, hsafe⟩, ?_⟩
      rw [placed, ← hentry text made hmade]
    · intro hall
      obtain ⟨⟨⟨made, hmade⟩, hsafe⟩, rfl⟩ := hall
      rw [hmade, ok_bind, (ih h.tail).2 ⟨hsafe, rfl⟩, ok_bind, placed, ← hentry text made hmade]

/-- **the place stays what it is**: the first string is read again and again -/
theorem readElements_same {made : Option E} (hmade : entry text = .ok made)
    (h : getJsonStringValue tokens pos none = .ok (.text text)) (size : Nat) :
    readElements tokens id entry size pos =
      .ok ((made.map fun e => List.replicate size (pos, e)).getD []) := by
  induction size with
  | zero => cases made <;> rfl
  | succ size ih =>
    rw [readElements_text h, hmade, ok_bind, id, ih, ok_bind]
    cases made <;> rfl

/-- the entries are these, and no two of them are of one string -/
def EachOnce (read : Exec (List (Nat × E))) (values : List E) : Prop :=
  ∃ entries, read = .ok entries ∧ entries.map Prod.snd = values ∧
    (entries.map Prod.fst).Pairwise (· < ·)

theorem eachOnce_succ_iff (hentry : ∀ text made, entry text = .ok made → made = value text)
    (h : StringsAt tokens pos texts) :
    EachOnce (readElements tokens (· + 1) entry texts.length pos) (texts.filterMap value) ↔
      ∀ text ∈ texts, Safe (entry text) := by
  constructor
  · intro honce
    obtain ⟨entries, hread, -⟩ := honce
    exact ((readElements_succ hentry h).1 hread).1
  · intro hsafe
    exact ⟨placed value pos texts, (readElements_succ hentry h).2 ⟨hsafe, rfl⟩,
      map_snd_placed value pos texts, pairwise_placed value pos texts⟩

/-- **the first alone**: when there is another one, nothing is made of any of them -/
theorem eachOnce_same_iff (hentry : ∀ text made, entry text = .ok made → made = value text)
    (h : StringsAt tokens pos texts) :
    EachOnce (readElements tokens id entry texts.length pos) (texts.filterMap value) ↔
      ∀ text rest, texts = text :: rest →
        Safe (entry text) ∧ (rest = [] ∨ ∀ other ∈ texts, value other = none) := by
  cases texts with
  | nil => exact ⟨fun _ text rest h => (nomatch h), fun _ => ⟨[], rfl, rfl, List.Pairwise.nil⟩⟩
  | cons text rest =>
    constructor
    · intro honce text' rest' heq
      obtain ⟨rfl, rfl⟩ := List.cons.inj heq
      obtain ⟨entries, hread, hvalues, hplaces⟩ := honce
      rw [List.length_cons] at hread
      have hsafe : Safe (entry text) := by
        rw [readElements_text h.head] at hread
        exact Safe.of_bind ⟨_, hread⟩
      obtain ⟨made, hmade⟩ := hsafe
      refine ⟨⟨made, hmade⟩, ?_⟩
      rw [readElements_same hmade h.head] at hread
      cases hread
      cases made with
      | none =>
        exact .inr (List.filterMap_eq_nil_iff.1 hvalues.symm)
      | some e =>
        cases rest with
        | nil => exact .inl rfl
        | cons other rest =>
          -- the first two entries are of one place
          have hfirst := List.rel_of_pairwise_cons hplaces (List.mem_cons_self)
          exact absurd hfirst (Nat.lt_irrefl pos)
    · intro hall
      obtain ⟨⟨made, hmade⟩, hrest⟩ := hall text rest rfl
      have hvalue := hentry text made hmade
      have hread := readElements_same hmade h.head (text :: rest).length
      cases made with
      | none =>
        have hnone : ∀ other ∈ text :: rest, value other = none := by
          obtain rfl | hall := hrest
          · exact List.forall_mem_singleton.2 hvalue.symm
          · exact hall
        exact ⟨[], hread, (List.filterMap_eq_nil_iff.2 hnone).symm, List.Pairwise.nil⟩
      | some e =>
        obtain rfl | hnone := hrest
        · refine ⟨[(pos, e)], hread, ?_, List.pairwise_singleton _ _⟩
          rw [List.filterMap_cons, ← hvalue]
          rfl
        · cases hvalue.trans (hnone text List.mem_cons_self)

end

/-! ## the tokens of a file -/

/-- an array of strings at a place -/
structure StringArray (tokens : List JsmnTok) (pos : Nat) where
  texts : List (List UInt8)
  array : ∃ t, tokens[pos]? = some t ∧ t.type = .array ∧ t.size = texts.length
  strings : StringsAt tokens (pos + 1) texts

/-- a configuration with the three lists, whatever strings are in them; its other parts can be
read -/
structure ConfigTokens (sha256 : List UInt8 → Digest) (rsa : RsaLibrary) where
  tokens : List JsmnTok
  identityPos : Nat
  foundIdentity : findToken tokens 0 (asciiBytes "Identity") = some identityPos
  identity : Identity
  readsIdentity : readIdentity sha256 rsa tokens identityPos {} = .ok (some identity)
  datastore : DatastoreConfig
  readsDatastore : readDatastore tokens identityPos {} = .ok datastore
  addressesPos : Nat
  foundAddresses : findToken tokens identityPos (asciiBytes "Addresses") = some addressesPos
  swarmPos : Nat
  foundSwarm : findToken tokens addressesPos (asciiBytes "Swarm") = some swarmPos
  swarm : StringArray tokens (swarmPos + 1)
  api : JsonString
  readsApi : getJsonStringValue tokens addressesPos (some (asciiBytes "API")) = .ok api
  gateway : JsonString
  readsGateway : getJsonStringValue tokens addressesPos (some (asciiBytes "Gateway")) = .ok gateway
  bootstrapPos : Nat
  foundBootstrap : findToken tokens addressesPos (asciiBytes "Bootstrap") = some bootstrapPos
  bootstrap : StringArray tokens (bootstrapPos + 1)
  replicationPos : Nat
  foundReplication : findToken tokens addressesPos (asciiBytes "Replication") = some replicationPos
  announceMinutes : Option Int
  readsAnnounceMinutes : getJsonIntValue tokens (replicationPos + 1)
    (asciiBytes "AnnounceMinutes") = .ok announceMinutes
  announce : Option Int
  readsAnnounce : getJsonIntValue tokens (replicationPos + 1) (asciiBytes "Announce") = .ok announce
  peersPos : Nat
  foundPeers : findToken tokens (replicationPos + 1) (asciiBytes "Peers") = some peersPos
  peers : StringArray tokens (peersPos + 1)

/-- the address that a string is, when it is one -/
def validAddress (text : List UInt8) : Option Multiaddress :=
  (multiaddressNewFromString text).toOption.join

/-- the valid ones of some strings, in their order -/
def validEntries {E : Type} (make : List UInt8 → Multiaddress → E) (texts : List (List UInt8)) :
    List E :=
  texts.filterMap fun text => (validAddress text).map (make text)

section
variable {sha256 : List UInt8 → Digest} {rsa : RsaLibrary} (c : ConfigTokens sha256 rsa)

namespace ConfigTokens

/-- the three loops, with the places of the strings -/
def readsSwarm : Exec (List (Nat × (List UInt8 × Option Multiaddress))) :=
  readSwarmPlaced c.tokens c.swarm.texts.length (c.swarmPos + 2)

def readsBootstrap : Exec (List (Nat × ConfigAddress)) :=
  readPeersPlaced c.tokens c.bootstrap.texts.length (c.bootstrapPos + 2)

def readsPeers : Exec (List (Nat × ReplicationPeer)) :=
  readReplicationPeersPlaced c.tokens c.peers.texts.length (c.peersPos + 2)

/-- what is made of what they read -/
def loaded (swarm : List (Nat × (List UInt8 × Option Multiaddress)))
    (bootstrap : List (Nat × ConfigAddress)) (peers : List (Nat × ReplicationPeer)) :
    RepoConfig where
  identity :=
    { c.identity with
      peer := c.identity.peer.map fun peer =>
        { peer with addrs := linkAddresses peer.addrs (swarm.filterMap fun x => x.2.2) } }
  datastore := c.datastore
  addresses :=
    { swarm := swarm.map fun x => x.2.1
      api := c.api.store none
      gateway := c.gateway.store none }
  bootstrapPeers := some (bootstrap.map Prod.snd)
  replication :=
    { announce := c.announce.getD 0
      announceMinutes := c.announceMinutes.getD 0
      peers := peers.map Prod.snd }

end ConfigTokens

/-- no two entries are of one string -/
def Once {E : Type} (read : Exec (List (Nat × E))) : Prop :=
  ∃ entries, read = .ok entries ∧ (entries.map Prod.fst).Pairwise (· < ·)

/-- what the lists should be -/
structure ListsRight (config : RepoConfig) : Prop where
  swarm : config.addresses.swarm = validEntries (fun text _ => text) c.swarm.texts
  addrs : config.identity.peer.map IdentityPeer.addrs =
    some (validEntries (fun _ bytes => bytes) c.swarm.texts)
  bootstrap : config.bootstrapPeers = some (validEntries ConfigAddress.mk c.bootstrap.texts)
  peers : config.replication.peers = validEntries replicationPeerOf c.peers.texts
  swarmOnce : Once c.readsSwarm
  bootstrapOnce : Once c.readsBootstrap
  peersOnce : Once c.readsPeers

/-! ### reading them -/

namespace ConfigTokens

theorem readAddresses_eq : readAddresses c.tokens c.addressesPos {} =
    c.readsSwarm >>= fun swarm =>
      .ok (some
        ({ swarm := swarm.map fun x => x.2.1
           api := c.api.store none
           gateway := c.gateway.store none }, swarm.filterMap fun x => x.2.2)) := by
  obtain ⟨t, ht, htype, hsize⟩ := c.swarm.array
  have htoken : tokenAt c.tokens (c.swarmPos + 1) = .ok t := by rw [tokenAt, ht]
  unfold readAddresses readsSwarm
  rw [c.foundSwarm]
  show (tokenAt c.tokens (c.swarmPos + 1) >>= _) = _
  rw [htoken, ok_bind, if_neg (not_not.2 htype), hsize, readSwarm_eq]
  show ((readSwarmPlaced c.tokens c.swarm.texts.length (c.swarmPos + 2)).map _ >>= _) = _
  cases readSwarmPlaced c.tokens c.swarm.texts.length (c.swarmPos + 2) with
  | error e => rfl
  | ok swarm =>
    show (getJsonStringValue c.tokens c.addressesPos (some (asciiBytes "API")) >>= _) = _
    rw [c.readsApi, ok_bind, c.readsGateway, ok_bind]
    rfl

theorem readBootstrap_eq : readBootstrap c.tokens c.addressesPos none =
    c.readsBootstrap >>= fun bootstrap => .ok (some (some (bootstrap.map Prod.snd))) := by
  obtain ⟨t, ht, htype, hsize⟩ := c.bootstrap.array
  have htoken : tokenAt c.tokens (c.bootstrapPos + 1) = .ok t := by rw [tokenAt, ht]
  unfold readBootstrap readsBootstrap
  rw [c.foundBootstrap]
  dsimp only
  rw [htoken, ok_bind, if_neg (not_not.2 htype), hsize, readPeers_eq]
  cases readPeersPlaced c.tokens c.bootstrap.texts.length (c.bootstrapPos + 2) with
  | error e => rfl
  | ok bootstrap => rfl

theorem readReplication_eq : readReplication c.tokens c.addressesPos {} =
    c.readsPeers >>= fun peers =>
      .ok
        { announce := c.announce.getD 0
          announceMinutes := c.announceMinutes.getD 0
          peers := peers.map Prod.snd } := by
  obtain ⟨t, ht, htype, hsize⟩ := c.peers.array
  have htoken : tokenAt c.tokens (c.peersPos + 1) = .ok t := by rw [tokenAt, ht]
  unfold readReplication readsPeers
  rw [c.foundReplication]
  dsimp only
  rw [c.readsAnnounceMinutes, ok_bind, c.readsAnnounce, ok_bind, c.foundPeers]
  dsimp only
  rw [htoken, ok_bind, if_neg (not_not.2 htype), hsize, readReplicationPeers_eq]
  cases readReplicationPeersPlaced c.tokens c.peers.texts.length (c.peersPos + 2) with
  | error e => rfl
  | ok peers => rfl

end ConfigTokens

/-- nobody gives a new identity addresses -/
theorem buildPrivateKey_addrs {base64 : List UInt8} {built : Identity} {peer : IdentityPeer}
    (h : repoConfigIdentityBuildPrivateKey sha256 rsa {} base64 = .ok (some built))
    (hpeer : built.peer = some peer) : peer.addrs = [] := by
  unfold repoConfigIdentityBuildPrivateKey at h
  obtain ⟨decoded, -, h⟩ := bind_eq_ok.1 h
  cases decoded with
  | none => cases h
  | some decoded =>
    obtain ⟨privKey, -, h⟩ := bind_eq_ok.1 h
    cases privKey with
    | none => cases h
    | some privKey =>
      dsimp only at h
      split at h
      · cases h
      · split at h
        · cases h
        · obtain ⟨id, -, h⟩ := bind_eq_ok.1 h
          cases id with
          | none => cases h
          | some id =>
            cases h
            obtain rfl := Option.some.inj hpeer
            rfl

/-- the local peer of an identity that was read, without addresses yet -/
theorem readIdentity_peer {tokens : List JsmnTok} {pos : Nat} {identity : Identity}
    (h : readIdentity sha256 rsa tokens pos {} = .ok (some identity)) :
    ∃ peer, identity.peer = some peer ∧ peer.addrs = [] := by
  unfold readIdentity at h
  obtain ⟨testPeerId, -, h⟩ := bind_eq_ok.1 h
  obtain ⟨privKey, -, h⟩ := bind_eq_ok.1 h
  cases privKey with
  | untouched => cases h
  | null => cases h
  | text privKeyBase64 =>
    obtain ⟨built, hbuilt, h⟩ := bind_eq_ok.1 h
    cases built with
    | none => cases h
    | some built =>
      obtain ⟨testPeerId, -, h⟩ := bind_eq_ok.1 h
      obtain ⟨peer, hpeer, h⟩ := bind_eq_ok.1 h
      split at h
      · cases h
      · cases h
        refine ⟨_, rfl, ?_⟩
        show peer.addrs = []
        exact buildPrivateKey_addrs hbuilt (deref_eq_ok.1 hpeer)

namespace ConfigTokens

/-- **what is read** -/
theorem readTokens_eq : readTokens sha256 rsa c.tokens {} =
    c.readsSwarm >>= fun swarm => c.readsBootstrap >>= fun bootstrap =>
      c.readsPeers >>= fun peers => .ok (some (c.loaded swarm bootstrap peers)) := by
  obtain ⟨peer, hpeer, -⟩ := readIdentity_peer c.readsIdentity
  unfold readTokens
  rw [c.foundIdentity]
  dsimp only
  rw [c.readsIdentity, ok_bind]
  dsimp only
  rw [c.readsDatastore, ok_bind, c.foundAddresses]
  dsimp only
  rw [c.readAddresses_eq, c.readBootstrap_eq, c.readReplication_eq, hpeer]
  cases c.readsSwarm with
  | error e => rfl
  | ok swarm =>
    cases c.readsBootstrap with
    | error e => rfl
    | ok bootstrap =>
      cases c.readsPeers with
      | error e => rfl
      | ok peers =>
        unfold loaded
        rw [hpeer]
        rfl

end ConfigTokens

/-! ### what should be read -/

theorem validAddress_eq {text : List UInt8} {ma : Option Multiaddress}
    (h : multiaddressNewFromString text = .ok ma) : validAddress text = ma := by
  rw [validAddress, h]
  rfl

theorem safe_of_validAddress {text : List UInt8} (h : validAddress text ≠ none) :
    Safe (multiaddressNewFromString text) := by
  cases hma : multiaddressNewFromString text with
  | ok ma => exact safe_ok ma
  | error e =>
    have hnone : validAddress text = none := by
      rw [validAddress, hma]
      rfl
    exact absurd hnone h

theorem swarmEntry_eq_ok {text : List UInt8} {made : Option (List UInt8 × Option Multiaddress)}
    (h : swarmEntry text = .ok made) : made = some (text, validAddress text) := by
  obtain ⟨ma, hma, h⟩ := bind_eq_ok.1 h
  cases h
  rw [validAddress_eq hma]

theorem bootstrapEntry_eq_ok {text : List UInt8} {made : Option ConfigAddress}
    (h : bootstrapEntry text = .ok made) :
    made = (validAddress text).map (ConfigAddress.mk text) := by
  obtain ⟨cur, hcur, h⟩ := bind_eq_ok.1 h
  cases h
  rw [validAddress_eq hcur]

theorem replicationEntry_eq_ok {text : List UInt8} {made : Option ReplicationPeer}
    (h : replicationEntry text = .ok made) :
    made = (validAddress text).map (replicationPeerOf text) := by
  obtain ⟨cur, hcur, h⟩ := bind_eq_ok.1 h
  cases cur with
  | none =>
    cases h
    rw [validAddress_eq hcur, Option.map_none]
  | some bytes =>
    obtain ⟨-, h⟩ := require_bind_eq_ok.1 h
    cases h
    rw [validAddress_eq hcur, Option.map_some]

theorem safe_swarmEntry {text : List UInt8} :
    Safe (swarmEntry text) ↔ Safe (multiaddressNewFromString text) := by
  rw [swarmEntry, safe_bind]
  exact ⟨fun ⟨ma, hma, _⟩ => ⟨ma, hma⟩, fun ⟨ma, hma⟩ => ⟨ma, hma, safe_ok _⟩⟩

theorem safe_bootstrapEntry {text : List UInt8} :
    Safe (bootstrapEntry text) ↔ Safe (multiaddressNewFromString text) := by
  rw [bootstrapEntry, safe_bind]
  exact ⟨fun ⟨ma, hma, _⟩ => ⟨ma, hma⟩, fun ⟨ma, hma⟩ => ⟨ma, hma, safe_ok _⟩⟩

theorem safe_replicationEntry {text : List UInt8} :
    Safe (replicationEntry text) ↔ PeerReadable text := by
  unfold PeerReadable
  rw [replicationEntry, safe_bind]
  refine exists_congr fun ma => and_congr_right fun hma => ?_
  cases ma with
  | none => exact ⟨fun _ hne => absurd rfl hne, fun _ => safe_ok _⟩
  | some bytes =>
    show Safe (require _ _ >>= _) ↔ _
    constructor
    · intro h _
      obtain ⟨u, hu⟩ := h.of_bind
      exact require_eq_ok.1 hu
    · intro h
      rw [require_pos (h (Option.some_ne_none bytes))]
      exact safe_ok _

/-- the strings from which the lists are loaded as they should be -/
structure ListsLoadable : Prop where
  swarm : ∀ text ∈ c.swarm.texts, validAddress text ≠ none
  bootstrap : ∀ text ∈ c.bootstrap.texts, Safe (multiaddressNewFromString text)
  peers : ∀ text rest, c.peers.texts = text :: rest →
    PeerReadable text ∧ (rest = [] ∨ ∀ other ∈ c.peers.texts, validAddress other = none)

/-- the first of no addresses is not kept -/
theorem linkAddresses_nil (addrs : List Multiaddress) : linkAddresses [] addrs = addrs := by
  unfold linkAddresses
  split
  · next h => exact h.symm
  · rfl

theorem validEntries_text (texts : List (List UInt8)) :
    validEntries (fun text _ => text) texts = texts ↔ ∀ text ∈ texts, validAddress text ≠ none := by
  have hfilter : validEntries (fun text _ => text) texts =
      texts.filter fun text => (validAddress text).isSome := by
    unfold validEntries
    rw [← List.filterMap_eq_filter]
    refine List.filterMap_congr fun text _ => ?_
    cases hvalid : validAddress text with
    | none => simp [Option.guard, hvalid]
    | some bytes => simp [Option.guard, hvalid]
  rw [hfilter, List.filter_eq_self]
  exact forall₂_congr fun text _ => Option.isSome_iff_ne_none

namespace ConfigTokens

/-- **the swarm**: every string is kept, and the addresses are those of the valid ones -/
theorem readsSwarm_eq_ok {swarm : List (Nat × (List UInt8 × Option Multiaddress))}
    (h : c.readsSwarm = .ok swarm) :
    (swarm.map fun x => x.2.1) = c.swarm.texts ∧
      (swarm.filterMap fun x => x.2.2) = validEntries (fun _ bytes => bytes) c.swarm.texts ∧
      (swarm.map Prod.fst).Pairwise (· < ·) := by
  obtain ⟨-, rfl⟩ := (readElements_succ (fun _ _ => swarmEntry_eq_ok) c.swarm.strings).1 h
  have hvalues := map_snd_placed (fun text => some (text, validAddress text)) (c.swarmPos + 2)
    c.swarm.texts
  have hmap : (c.swarm.texts.filterMap fun text => some (text, validAddress text)) =
      c.swarm.texts.map fun text => (text, validAddress text) := congrFun List.filterMap_eq_map _
  rw [hmap] at hvalues
  refine ⟨?_, ?_, pairwise_placed _ _ _⟩
  · have htexts := congrArg (List.map Prod.fst) hvalues
    rw [List.map_map, List.map_map] at htexts
    exact htexts.trans (List.map_id _)
  · have haddrs := congrArg (List.filterMap Prod.snd) hvalues
    rw [List.filterMap_map, List.filterMap_map] at haddrs
    unfold validEntries
    simp only [Option.map_id']
    exact haddrs

theorem safe_readsSwarm : Safe c.readsSwarm ↔
    ∀ text ∈ c.swarm.texts, Safe (multiaddressNewFromString text) := by
  have hread := fun swarm => @readElements_succ _ c.tokens swarmEntry _ (c.swarmPos + 2)
    c.swarm.texts swarm (fun _ _ => swarmEntry_eq_ok) c.swarm.strings
  have hsafe : (∀ text ∈ c.swarm.texts, Safe (swarmEntry text)) ↔
      ∀ text ∈ c.swarm.texts, Safe (multiaddressNewFromString text) :=
    forall₂_congr fun text _ => safe_swarmEntry
  constructor
  · intro h
    obtain ⟨swarm, hswarm⟩ := h
    exact hsafe.1 ((hread swarm).1 hswarm).1
  · intro h
    exact ⟨_, (hread _).2 ⟨hsafe.2 h, rfl⟩⟩

/-- **the peers to start from** are right unless one of the strings can not be read -/
theorem eachOnce_readsBootstrap :
    EachOnce c.readsBootstrap (validEntries ConfigAddress.mk c.bootstrap.texts) ↔
      ∀ text ∈ c.bootstrap.texts, Safe (multiaddressNewFromString text) := by
  refine (eachOnce_succ_iff (fun _ _ => bootstrapEntry_eq_ok) c.bootstrap.strings).trans ?_
  exact forall₂_congr fun text _ => safe_bootstrapEntry

/-- **the peers that are to have a copy** are right when there is one, or none -/
theorem eachOnce_readsPeers :
    EachOnce c.readsPeers (validEntries replicationPeerOf c.peers.texts) ↔
      ∀ text rest, c.peers.texts = text :: rest →
        PeerReadable text ∧ (rest = [] ∨ ∀ other ∈ c.peers.texts, validAddress other = none) := by
  refine (eachOnce_same_iff (fun _ _ => replicationEntry_eq_ok) c.peers.strings).trans ?_
  refine forall₃_congr fun text rest _ => ?_
  rw [safe_replicationEntry]
  simp only [Option.map_eq_none_iff]

end ConfigTokens

/-- **the lists are right** for these strings, and no others -/
theorem listsRight_iff :
    (∃ config, readTokens sha256 rsa c.tokens {} = .ok (some config) ∧ ListsRight c config) ↔
      ListsLoadable c := by
  obtain ⟨peer, hpeer, haddrs⟩ := readIdentity_peer c.readsIdentity
  have hlocal : ∀ swarm bootstrap peers,
      (c.loaded swarm bootstrap peers).identity.peer.map IdentityPeer.addrs =
        some (swarm.filterMap fun x => x.2.2) := by
    intro swarm bootstrap peers
    unfold ConfigTokens.loaded
    rw [hpeer]
    show some (linkAddresses peer.addrs _) = _
    rw [haddrs, linkAddresses_nil]
  rw [c.readTokens_eq]
  constructor
  · intro h
    obtain ⟨config, hrun, hright⟩ := h
    obtain ⟨swarm, hswarm, hrun⟩ := bind_eq_ok.1 hrun
    obtain ⟨bootstrap, hbootstrap, hrun⟩ := bind_eq_ok.1 hrun
    obtain ⟨peers, hpeers, hrun⟩ := bind_eq_ok.1 hrun
    cases hrun
    have htexts : c.swarm.texts = validEntries (fun text _ => text) c.swarm.texts :=
      (c.readsSwarm_eq_ok hswarm).1.symm.trans hright.swarm
    obtain ⟨bootstrap', hbootstrap', hplaces⟩ := hright.bootstrapOnce
    obtain rfl := Except.ok.inj (hbootstrap.symm.trans hbootstrap')
    obtain ⟨peers', hpeers', hplaces'⟩ := hright.peersOnce
    obtain rfl := Except.ok.inj (hpeers.symm.trans hpeers')
    exact
      { swarm := (validEntries_text _).1 htexts.symm
        bootstrap := c.eachOnce_readsBootstrap.1
          ⟨bootstrap, hbootstrap, Option.some.inj hright.bootstrap, hplaces⟩
        peers := c.eachOnce_readsPeers.1 ⟨peers, hpeers, hright.peers, hplaces'⟩ }
  · intro h
    have hconverted : ∀ text ∈ c.swarm.texts, Safe (multiaddressNewFromString text) :=
      fun text htext => safe_of_validAddress (h.swarm text htext)
    obtain ⟨swarm, hswarm⟩ := c.safe_readsSwarm.2 hconverted
    obtain ⟨bootstrap, hbootstrap, hvalues, hplaces⟩ := c.eachOnce_readsBootstrap.2 h.bootstrap
    obtain ⟨peers, hpeers, hvalues', hplaces'⟩ := c.eachOnce_readsPeers.2 h.peers
    obtain ⟨htexts, hbytes, hplaces''⟩ := c.readsSwarm_eq_ok hswarm
    refine ⟨c.loaded swarm bootstrap peers, ?_, ?_⟩
    · rw [hswarm, ok_bind, hbootstrap, ok_bind, hpeers, ok_bind]
    · exact
        { swarm := htexts.trans ((validEntries_text _).2 h.swarm).symm
          addrs := (hlocal swarm bootstrap peers).trans (congrArg some hbytes)
          bootstrap := congrArg some hvalues
          peers := hvalues'
          swarmOnce := ⟨swarm, hswarm, hplaces''⟩
          bootstrapOnce := ⟨bootstrap, hbootstrap, hplaces⟩
          peersOnce := ⟨peers, hpeers, hplaces'⟩ }

end

/-! ### two peers that are to have a copy -/

def firstPeer : List UInt8 := asciiBytes "/ip4/10.0.0.1/tcp/4001"

def secondPeer : List UInt8 := asciiBytes "/ip4/10.0.0.2/tcp/4001"

/-- a file with little more than the lists -/
def listsTokens : List JsmnTok :=
  (Json.object (identityMember samplePeer.id (base64Chars (keyProtobuf sampleIdentity.privateKey))
    (objectMember "Addresses" (stringsMember "Swarm" [firstPeer] .nil)
      (stringsMember "Bootstrap" []
        (objectMember "Replication" (stringsMember "Peers" [firstPeer, secondPeer] .nil)
          .nil))))).tokens

theorem listsTokens_identity :
    readIdentity (fun _ => sampleHash) sampleRsa listsTokens 1 {} =
      .ok (some
        { privateKey := sampleIdentity.privateKey
          peer := some { id := samplePeer.id, isLocal := true } }) := by
  obtain ⟨peer, hpeer, hbuild⟩ := buildPrivateKey_generated sampleIdentity_generated {}
  obtain rfl : samplePeer = peer := Option.some.inj hpeer
  have hid : getJsonStringValue listsTokens 1 (some (asciiBytes "PeerID")) =
      .ok (.text samplePeer.id) :=
    @getJsonStringValue_of_find listsTokens _ 1 3 (stringTok samplePeer.id 0)
      (by decide) rfl
  have hkey : getJsonStringValue listsTokens 1 (some (asciiBytes "PrivKey")) =
      .ok (.text (base64Chars (keyProtobuf sampleIdentity.privateKey))) :=
    @getJsonStringValue_of_find listsTokens _ 1 5
      (stringTok (base64Chars (keyProtobuf sampleIdentity.privateKey)) 0) (by decide) rfl
  unfold readIdentity
  rw [hid, ok_bind, hkey, ok_bind]
  dsimp only
  rw [hbuild, ok_bind]
  show (if samplePeer.id ≠ samplePeer.id then (Except.ok none : Exec (Option Identity)) else _) = _
  rw [if_neg (not_not.2 rfl)]
  rfl

def sampleLists : ConfigTokens (fun _ => sampleHash) sampleRsa where
  tokens := listsTokens
  identityPos := 1
  foundIdentity := by decide
  identity := _
  readsIdentity := listsTokens_identity
  datastore := {}
  readsDatastore := by decide
  addressesPos := 7
  foundAddresses := by decide
  swarmPos := 9
  foundSwarm := by decide
  swarm :=
    { texts := [firstPeer]
      array := ⟨_, rfl, rfl, rfl⟩
      strings := stringsAt_of_drop (rfl : listsTokens.drop 11 = stringToks [firstPeer] ++ _) }
  api := .untouched
  readsApi := by decide
  gateway := .untouched
  readsGateway := by decide
  bootstrapPos := 12
  foundBootstrap := by decide
  bootstrap :=
    { texts := []
      array := ⟨_, rfl, rfl, rfl⟩
      strings := fun i text htext => nomatch htext }
  replicationPos := 14
  foundReplication := by decide
  announceMinutes := none
  readsAnnounceMinutes := by decide
  announce := none
  readsAnnounce := by decide
  peersPos := 16
  foundPeers := by decide
  peers :=
    { texts := [firstPeer, secondPeer]
      array := ⟨_, rfl, rfl, rfl⟩
      strings := stringsAt_of_drop
        (rfl : listsTokens.drop 18 = stringToks [firstPeer, secondPeer] ++ []) }

/-- the first string is read twice -/
theorem sampleLists_places :
    sampleLists.readsPeers.map (fun entries => entries.map Prod.fst) = .ok [18, 18] := by
  decide +kernel

/-- **the second peer is not there**, and the first is twice -/
theorem not_listsRight : ¬ ∃ config,
    readTokens (fun _ => sampleHash) sampleRsa sampleLists.tokens {} = .ok (some config) ∧
      ListsRight sampleLists config := by
  intro h
  obtain ⟨config, -, hright⟩ := h
  obtain ⟨entries, hread, hplaces⟩ := hright.peersOnce
  have hsame := sampleLists_places
  rw [hread] at hsame
  have hboth : entries.map Prod.fst = [18, 18] := Except.ok.inj hsame
  rw [hboth] at hplaces
  exact absurd hplaces (by decide)

end Ipfs
