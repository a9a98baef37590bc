import Libipfs.Repo.Config
import Libipfs.Repo.Jsmn
import Libipfs.Lib.Numeral

/-!
# Opening the config file

The file is tokenised, and its values are found by the text of their keys, from a place on that
moves forward.

* `findToken`             the first string with this text;
* `getJsonStringValue`    the string behind it, or at a place;
* `readIdentity`, `readDatastore`, `readSwarm`, `readAddresses`, `readBootstrap`,
  `readReplication`       what is taken from the tokens;
* `fsRepoOpenConfig`      all of it.

A token behind the last one is one that nobody has set.
-/

set_option linter.unusedVariables false

namespace Ipfs
open CSem Libp2p

/-! ## tokens by their text -/

def JsmnTok.Tagged (tag : List UInt8) (t : JsmnTok) : Prop := t.type = .string ∧ t.text = tag

instance (tag : List UInt8) (t : JsmnTok) : Decidable (t.Tagged tag) := by
  unfold JsmnTok.Tagged
  infer_instance

/-- `none` for -1 -/
def findToken (tokens : List JsmnTok) (startFrom : Nat) (tag : List UInt8) : Option Nat :=
  ((tokens.drop startFrom).findIdx? fun t => t.Tagged tag).map fun i => startFrom + i

def tokenAt (tokens : List JsmnTok) (pos : Nat) : Exec JsmnTok :=
  match tokens[pos]? with
  | some t => .ok t
  | none => .error .uninitialized

/-- what is left in `result`, which only a string makes a success -/
inductive JsonString where
  | untouched
  | null
  | text (string : List UInt8)
  deriving DecidableEq, Repr

def JsmnTok.string (t : JsmnTok) : JsonString :=
  match t.type with
  | .primitive => .null
  | .string => .text t.text
  | _ => .untouched

/-- without a tag, the token at this place -/
def getJsonStringValue (tokens : List JsmnTok) (searchFrom : Nat) (tag : Option (List UInt8)) :
    Exec JsonString :=
  match tag with
  | none => (tokenAt tokens searchFrom).map JsmnTok.string
  | some tag =>
    match findToken tokens searchFrom tag with
    | none => .ok .untouched
    | some pos => (tokenAt tokens (pos + 1)).map JsmnTok.string

/-- what `result` points to, where `target` was -/
def JsonString.store (result : JsonString) (target : Option (List UInt8)) :
    Option (List UInt8) :=
  match result with
  | .untouched => target
  | .null => none
  | .text string => some string

/-- `none` when `result` is left as it is -/
def JsmnTok.int (t : JsmnTok) : Exec (Option Int) := do
  if t.type ≠ .primitive then .ok none
  else if t.text = asciiBytes "true" then .ok (some 1)
  else if t.text = asciiBytes "false" then .ok (some 0)
  else if t.text = asciiBytes "null" then .ok (some 0)
  else do
    let value ← atoi t.text
    .ok (some value)

def getJsonIntValue (tokens : List JsmnTok) (searchFrom : Nat) (tag : List UInt8) :
    Exec (Option Int) := do
  match findToken tokens searchFrom tag with
  | none => .ok none
  | some pos => do
    let currToken ← tokenAt tokens (pos + 1)
    currToken.int

/-! ## the parts of the file -/

/-- `none` when the function returns 0 -/
def readIdentity (sha256 : List UInt8 → Digest) (rsa : RsaLibrary) (tokens : List JsmnTok)
    (currPos : Nat) (identity : Identity) : Exec (Option Identity) := do
  let testPeerId ← getJsonStringValue tokens currPos (some (asciiBytes "PeerID"))
  match ← getJsonStringValue tokens currPos (some (asciiBytes "PrivKey")) with
  | .untouched => .error .uninitialized
  | .null => .error .null
  | .text privKeyBase64 =>
    match ← repoConfigIdentityBuildPrivateKey sha256 rsa identity privKeyBase64 with
    | none => .ok none
    | some identity => do
      let testPeerId ← deref (testPeerId.store none)
      let peer ← deref identity.peer
      if testPeerId ≠ peer.id then .ok none
      else .ok (some { identity with peer := some { peer with isLocal := true } })

/-- all from the place of the identity on -/
def readDatastore (tokens : List JsmnTok) (currPos : Nat) (datastore : DatastoreConfig) :
    Exec DatastoreConfig := do
  let type ← getJsonStringValue tokens currPos (some (asciiBytes "Type"))
  let path ← getJsonStringValue tokens currPos (some (asciiBytes "Path"))
  let storageMax ← getJsonStringValue tokens currPos (some (asciiBytes "StorageMax"))
  let storageGcWatermark ← getJsonIntValue tokens currPos (asciiBytes "StorageGCWatermark")
  let gcPeriod ← getJsonStringValue tokens currPos (some (asciiBytes "GCPeriod"))
  let params ← getJsonStringValue tokens currPos (some (asciiBytes "Params"))
  let noSync ← getJsonIntValue tokens currPos (asciiBytes "NoSync")
  let hashOnRead ← getJsonIntValue tokens currPos (asciiBytes "HashOnRead")
  let bloomFilterSize ← getJsonIntValue tokens currPos (asciiBytes "BloomFilterSize")
  .ok
    { type := type.store datastore.type
      path := path.store datastore.path
      storageMax := storageMax.store datastore.storageMax
      storageGcWatermark := storageGcWatermark.getD datastore.storageGcWatermark
      gcPeriod := gcPeriod.store datastore.gcPeriod
      params := params.store datastore.params
      noSync := noSync.getD datastore.noSync
      hashOnRead := hashOnRead.getD datastore.hashOnRead
      bloomFilterSize := bloomFilterSize.getD datastore.bloomFilterSize }

/-- the strings from this place on, and the addresses that are made of them, up to a token that is
no string -/
def readSwarm (tokens : List JsmnTok) : Nat → Nat → Exec (List (List UInt8) × List Multiaddress)
  | 0, _ => .ok ([], [])
  | swarmSize + 1, swarmPos => do
    match ← getJsonStringValue tokens swarmPos none with
    | .text item => do
      let ma ← multiaddressNewFromString item
      let (swarm, addrs) ← readSwarm tokens swarmSize (swarmPos + 1)
      .ok (item :: swarm, ma.toList ++ addrs)
    | _ => .ok ([], [])

/-- the first of them becomes the next one of the head of the list -/
def linkAddresses (addrHead addrs : List Multiaddress) : List Multiaddress :=
  if addrs = [] then addrHead else addrHead.take 1 ++ addrs

/-- the addresses and those of the local peer; `none` when the function returns 0 -/
def readAddresses (tokens : List JsmnTok) (currPos : Nat) (addresses : ConfigAddresses) :
    Exec (Option (ConfigAddresses × List Multiaddress)) := do
  let swarmPos := ((findToken tokens currPos (asciiBytes "Swarm")).map fun i => i + 1).getD 0
  let swarmToken ← tokenAt tokens swarmPos
  if swarmToken.type ≠ .array then .ok none
  else do
    let (swarm, addrs) ← readSwarm tokens swarmToken.size (swarmPos + 1)
    let api ← getJsonStringValue tokens currPos (some (asciiBytes "API"))
    let gateway ← getJsonStringValue tokens currPos (some (asciiBytes "Gateway"))
    .ok (some
      ({ swarm := swarm
         api := api.store addresses.api
         gateway := gateway.store addresses.gateway }, addrs))

/-- as the strings of the swarm, without those that can not be converted -/
def readPeers (tokens : List JsmnTok) : Nat → Nat → Exec (List ConfigAddress)
  | 0, _ => .ok []
  | swarmSize + 1, swarmPos => do
    match ← getJsonStringValue tokens swarmPos none with
    | .text val => do
      let cur ← multiaddressNewFromString val
      let peers ← readPeers tokens swarmSize (swarmPos + 1)
      .ok ((cur.map fun bytes => ConfigAddress.mk val bytes).toList ++ peers)
    | _ => .ok []

/-- `none` when the function returns 0 -/
def readBootstrap (tokens : List JsmnTok) (currPos : Nat)
    (bootstrapPeers : Option (List ConfigAddress)) :
    Exec (Option (Option (List ConfigAddress))) := do
  match findToken tokens currPos (asciiBytes "Bootstrap") with
  | none => .ok (some bootstrapPeers)
  | some swarmPos => do
    let array ← tokenAt tokens (swarmPos + 1)
    if array.type ≠ .array then .ok none
    else do
      let peers ← readPeers tokens array.size (swarmPos + 2)
      .ok (some (some peers))

/-- what is behind the first place where it stands -/
def behindFirst (needle : List UInt8) : List UInt8 → Option (List UInt8)
  | [] => none
  | c :: text =>
    if needle.isPrefixOf (c :: text) then some ((c :: text).drop needle.length)
    else behindFirst needle text

/-- up to the next slash; `none` for a null pointer -/
def multiaddressGetPeerId (string : List UInt8) : Option (List UInt8) :=
  match behindFirst (asciiBytes "/ipfs/") string with
  | none => none
  | some ptr =>
    let id := ptr.takeWhile fun c => c ≠ 47
    if id = [] then none else some id

/-- the token stays the same, and the id is written into a string of 100 characters for the log -/
def readReplicationPeers (tokens : List JsmnTok) (nodesPos : Nat) :
    Nat → Exec (List ReplicationPeer)
  | 0 => .ok []
  | nodesSize + 1 => do
    match ← getJsonStringValue tokens nodesPos none with
    | .text val =>
      match ← multiaddressNewFromString val with
      | none => readReplicationPeers tokens nodesPos nodesSize
      | some bytes => do
        let id := (multiaddressGetPeerId val).getD []
        require .outOfBounds (id.length < 100)
        let peers ← readReplicationPeers tokens nodesPos nodesSize
        .ok ({ id := id, addr := ⟨val, bytes⟩ } :: peers)
    | _ => .ok []

def readReplication (tokens : List JsmnTok) (currPos : Nat) (replication : ReplicationConfig) :
    Exec ReplicationConfig := do
  match findToken tokens currPos (asciiBytes "Replication") with
  | none => .ok replication
  | some currPos => do
    let announceMinutes ← getJsonIntValue tokens (currPos + 1) (asciiBytes "AnnounceMinutes")
    let announce ← getJsonIntValue tokens (currPos + 1) (asciiBytes "Announce")
    let replication : ReplicationConfig :=
      { replication with
        announceMinutes := announceMinutes.getD replication.announceMinutes
        announce := announce.getD replication.announce }
    match findToken tokens (currPos + 1) (asciiBytes "Peers") with
    | none => .ok replication
    | some nodesPos => do
      let array ← tokenAt tokens (nodesPos + 1)
      if array.type ≠ .array then .ok replication
      else do
        let peers ← readReplicationPeers tokens (nodesPos + 2) array.size
        .ok { replication with peers := peers }

/-! ## all of it -/

/-- `none` when the function returns 0 -/
def readTokens (sha256 : List UInt8 → Digest) (rsa : RsaLibrary) (tokens : List JsmnTok)
    (config : RepoConfig) : Exec (Option RepoConfig) := do
  match findToken tokens 0 (asciiBytes "Identity") with
  | none => .ok none
  | some identityPos =>
    match ← readIdentity sha256 rsa tokens identityPos config.identity with
    | none => .ok none
    | some identity => do
      let datastore ← readDatastore tokens identityPos config.datastore
      match findToken tokens identityPos (asciiBytes "Addresses") with
      | none => .ok none
      | some addressesPos =>
        match ← readAddresses tokens addressesPos config.addresses with
        | none => .ok none
        | some (addresses, addrs) => do
          let peer ← deref identity.peer
          match ← readBootstrap tokens addressesPos config.bootstrapPeers with
          | none => .ok none
          | some bootstrapPeers => do
            let replication ← readReplication tokens addressesPos config.replication
            .ok (some
              { config with
                identity :=
                  { identity with
                    peer := some { peer with addrs := linkAddresses peer.addrs addrs } }
                datastore := datastore
                addresses := addresses
                bootstrapPeers := bootstrapPeers
                replication := replication })

/-- the size is an `int`; that the file is not read is not looked at -/
def readFile (file : List UInt8) : Exec (List UInt8) :=
  let fileSize := toInt32 file.length
  if fileSize ≤ 0 then .error .uninitialized else .ok (file.take fileSize.toNat)

/-- `file` is what the file under the joined name holds; `none` when the function returns 0 -/
def fsRepoOpenConfig (sha256 : List UInt8 → Digest) (rsa : RsaLibrary) (path file : List UInt8)
    (config : RepoConfig) : Exec (Option RepoConfig) := do
  match ← osUtilsFilepathJoin path (asciiBytes "config") (path.length + 8) with
  | none => .ok none
  | some fullFilename => do
    let data ← readFile file
    match jsmnParse 256 (cString data) with
    | .error _ => .ok none
    | .ok [] => .ok none
    | .ok tokens => readTokens sha256 rsa tokens config

end Ipfs
