import Libipfs.Repo.Identity
import Libipfs.Secio.Handshake

/-!
# The configuration of a repository

What a new repository is configured with, and the config file that is written for it.

* `RepoConfig`              the configuration, with the fields that the file has;
* `ipfsRepoConfigInit`      what the initialiser fills in;
* `repoConfigWriteConfigFile`   the text of the file, one `fprintf` after the other.

Strings are kept without their zero byte, `none` for a null pointer.
-/

namespace Ipfs
open CSem Libp2p

/-! ## the configuration -/

/-- an address as text and bytes -/
structure ConfigAddress where
  string : List UInt8
  bytes : Multiaddress
  deriving DecidableEq

structure DatastoreConfig where
  type : Option (List UInt8) := none
  path : Option (List UInt8) := none
  storageMax : Option (List UInt8) := none
  storageGcWatermark : Int := 0
  gcPeriod : Option (List UInt8) := none
  params : Option (List UInt8) := none
  noSync : Int := 0
  hashOnRead : Int := 0
  bloomFilterSize : Int := 0
  deriving DecidableEq, Repr

structure ConfigAddresses where
  swarm : List (List UInt8) := []
  api : Option (List UInt8) := none
  gateway : Option (List UInt8) := none
  deriving DecidableEq, Repr

structure HttpHeader where
  header : List UInt8
  value : List UInt8
  deriving DecidableEq, Repr

structure GatewayConfig where
  rootRedirect : Option (List UInt8) := none
  writable : Int := 0
  httpHeaders : List HttpHeader := []
  deriving DecidableEq, Repr

/-- the id of the peer, null when its address has none, and the address -/
structure ReplicationPeer where
  id : List UInt8
  addr : ConfigAddress
  deriving DecidableEq

structure ReplicationConfig where
  announce : Int := 0
  announceMinutes : Int := 0
  peers : List ReplicationPeer := []
  deriving DecidableEq

/-- as `ipfs_repo_config_new` leaves it; the numbers that it does not set are taken for 0, each is
set before it is read -/
structure RepoConfig where
  identity : Identity := {}
  datastore : DatastoreConfig := {}
  addresses : ConfigAddresses := {}
  mountsIpfs : Option (List UInt8) := none
  mountsIpns : Option (List UInt8) := none
  mdnsEnabled : Int := 0
  mdnsInterval : Int := 0
  resolveCacheSize : Int := 0
  bootstrapPeers : Option (List ConfigAddress) := none
  gateway : GatewayConfig := {}
  replication : ReplicationConfig := {}

/-! ## the initialiser -/

/-- one of the two should have a slash -/
def osUtilsFilepathJoin (root extension : List UInt8) (maxLen : Nat) :
    Exec (Option (List UInt8)) := do
  if maxLen < root.length + extension.length + 1 then .ok none
  else do
    -- `root[strlen(root) - 1]`
    require .outOfBounds (root ≠ [])
    let slash := if root.getLast? ≠ some 47 ∧ extension.head? ≠ some 47 then [47] else []
    require .overflow ((root ++ slash ++ extension).length < maxLen)
    .ok (some (root ++ slash ++ extension))

def initialDatastore (path : List UInt8) : DatastoreConfig where
  type := some (asciiBytes "lmdb")
  path := some path
  storageMax := some (asciiBytes "10GB")
  storageGcWatermark := 90
  gcPeriod := some (asciiBytes "1h")
  hashOnRead := 0
  bloomFilterSize := 0
  noSync := 0

/-- the result of the join is not looked at -/
def datastoreInit (configRoot : List UInt8) : Exec DatastoreConfig := do
  match ← osUtilsFilepathJoin configRoot (asciiBytes "datastore") (configRoot.length + 12) with
  | none => .error .uninitialized
  | some path => .ok (initialDatastore path)

/-- `%d` of an address whose port is given -/
def portAddress (front : List UInt8) (port : Int) : List UInt8 :=
  front ++ asciiBytes "/tcp/" ++ intText port

def isInt (z : Int) : Prop := -2 ^ 31 ≤ z ∧ z < 2 ^ 31

instance (z : Int) : Decidable (isInt z) := by
  unfold isInt
  infer_instance

/-- the ports of the three addresses are as far from each other as those of the defaults -/
def addressesInit (swarmPort : Int) : Exec ConfigAddresses := do
  let portAdder := swarmPort - 4001
  require .overflow (isInt portAdder ∧ isInt (5001 + portAdder) ∧ isInt (8080 + portAdder))
  .ok
    { swarm :=
        [portAddress (asciiBytes "/ip4/0.0.0.0") swarmPort,
         portAddress (asciiBytes "/ip6/::") swarmPort]
      api := some (portAddress (asciiBytes "/ip4/127.0.0.1") (5001 + portAdder))
      gateway := some (portAddress (asciiBytes "/ip4/127.0.0.1") (8080 + portAdder)) }

def defaultHeaders : List HttpHeader :=
  [{ header := asciiBytes "Access-Control-Allow-Origin", value := asciiBytes "*" },
   { header := asciiBytes "Access-Control-Allow-Methods", value := asciiBytes "GET" },
   { header := asciiBytes "Access-Control-Allow-Headers", value := asciiBytes "X-Requested-With" }]

/-- `identity` is the last of at most five that are generated; `none` when the function returns
0 -/
def ipfsRepoConfigInit (identity : Identity) (repoPath : List UInt8) (swarmPort : Int)
    (bootstrapPeers : Option (List ConfigAddress)) : Exec (Option RepoConfig) := do
  if configIsValidIdentity identity then do
    let datastore ← datastoreInit repoPath
    let addresses ← addressesInit swarmPort
    .ok (some
      { identity := identity
        datastore := datastore
        addresses := addresses
        mountsIpfs := some (asciiBytes "/ipfs")
        mountsIpns := some (asciiBytes "/ipns")
        mdnsEnabled := 1
        mdnsInterval := 10
        resolveCacheSize := 128
        bootstrapPeers := some (bootstrapPeers.getD [])
        gateway :=
          { rootRedirect := some []
            writable := 0
            httpHeaders := defaultHeaders } })
  else .ok none

/-! ## the file -/

/-- one piece after the other, in front of what follows -/
def printPieces (pieces : List (List UInt8)) (rest : List UInt8) : List UInt8 :=
  pieces.foldr (· ++ ·) rest

def boolText (z : Int) : List UInt8 := if z ≠ 0 then asciiBytes "true" else asciiBytes "false"

def printIdentity (id encodedBuffer : List UInt8) : List UInt8 → List UInt8 :=
  printPieces
    [asciiBytes "\x7b\n",
     asciiBytes " \"Identity\": \x7b\n",
     asciiBytes "  \"PeerID\": \"", id, asciiBytes "\",\n",
     asciiBytes "  \"PrivKey\": \"", encodedBuffer, asciiBytes "\"\n",
     asciiBytes " \x7d,\n"]

def printDatastore (type path storageMax gcPeriod : List UInt8) (datastore : DatastoreConfig) :
    List UInt8 → List UInt8 :=
  printPieces
    [asciiBytes " \"Datastore\": \x7b\n",
     asciiBytes "  \"Type\": \"", type, asciiBytes "\",\n",
     asciiBytes "  \"Path\": \"", path, asciiBytes "\",\n",
     asciiBytes "  \"StorageMax\": \"", storageMax, asciiBytes "\",\n",
     asciiBytes "  \"StorageGCWatermark\": ", intText datastore.storageGcWatermark,
     asciiBytes ",\n",
     asciiBytes "  \"GCPeriod\": \"", gcPeriod, asciiBytes "\",\n",
     asciiBytes "  \"Params\": null,\n",
     asciiBytes "  \"NoSync\": ", boolText datastore.noSync, asciiBytes ",\n",
     asciiBytes "  \"HashOnRead\": ", boolText datastore.hashOnRead, asciiBytes ",\n",
     asciiBytes "  \"BloomFilterSize\": ", intText datastore.bloomFilterSize, asciiBytes "\n"]

/-- every one on a line, with a comma behind it when there is a next -/
def printStrings : List (List UInt8) → List UInt8 → List UInt8
  | [], rest => rest
  | [text], rest => printPieces [asciiBytes "  \"", text, asciiBytes "\"", asciiBytes "\n"] rest
  | text :: next :: texts, rest =>
    printPieces [asciiBytes "  \"", text, asciiBytes "\"", asciiBytes ",\n"]
      (printStrings (next :: texts) rest)

def printAddresses (swarm : List (List UInt8)) (api gateway rest : List UInt8) : List UInt8 :=
  printPieces [asciiBytes " \x7d,\n \"Addresses\": \x7b\n", asciiBytes "  \"Swarm\": [\n"]
    (printStrings swarm
      (printPieces
        [asciiBytes "  ],\n",
         asciiBytes "  \"API\": \"", api, asciiBytes "\",\n",
         asciiBytes "  \"Gateway\": \"", gateway, asciiBytes "\"\n"] rest))

def printServices (ipfs ipns : List UInt8) (mdnsEnabled mdnsInterval resolveCacheSize : Int) :
    List UInt8 → List UInt8 :=
  printPieces
    [asciiBytes " \x7d,\n  \"Mounts\": \x7b\n",
     asciiBytes "  \"IPFS\": \"", ipfs, asciiBytes "\",\n",
     asciiBytes "  \"IPNS\": \"", ipns, asciiBytes "\",\n",
     asciiBytes "  \"FuseAllowOther\": ", asciiBytes "false", asciiBytes "\n",
     asciiBytes " \x7d,\n  \"Discovery\": \x7b\n   \"MDNS\": \x7b\n",
     asciiBytes "   \"Enabled\": ", boolText mdnsEnabled, asciiBytes ",\n",
     asciiBytes "   \"Interval\": ", intText mdnsInterval, asciiBytes "\n  \x7d\n \x7d,\n",
     asciiBytes " \"Ipns\": \x7b\n",
     asciiBytes "  \"RepublishedPeriod\": \"\",\n",
     asciiBytes "  \"RecordLifetime\": \"\",\n",
     asciiBytes "  \"ResolveCacheSize\": ", intText resolveCacheSize, asciiBytes "\n"]

def printBootstrap (peers : List ConfigAddress) (rest : List UInt8) : List UInt8 :=
  printPieces [asciiBytes " \x7d,\n \"Bootstrap\": [\n"]
    (printStrings (peers.map ConfigAddress.string)
      (printPieces [asciiBytes " ],\n \"Tour\": \x7b\n  \"Last\": \"\"\n \x7d,\n"] rest))

def printHeader (h : HttpHeader) : List UInt8 → List UInt8 :=
  printPieces
    [asciiBytes "   \"", h.header, asciiBytes "\": [\n    \"", h.value, asciiBytes "\"\n  ]"]

/-- the brace of the headers is closed behind the last of them -/
def printHeaders : List HttpHeader → List UInt8 → List UInt8
  | [], rest => rest
  | [h], rest => printHeader h (printPieces [asciiBytes "\n \x7d,\n"] rest)
  | h :: next :: headers, rest =>
    printHeader h (printPieces [asciiBytes ",\n"] (printHeaders (next :: headers) rest))

def printGateway (rootRedirect : List UInt8) (gateway : GatewayConfig) (rest : List UInt8) :
    List UInt8 :=
  printPieces [asciiBytes " \"Gateway\": \x7b\n", asciiBytes "  \"HTTPHeaders\": \x7b\n"]
    (printHeaders gateway.httpHeaders
      (printPieces
        [asciiBytes "  \"RootRedirect\": \"", rootRedirect, asciiBytes "\"\n",
         asciiBytes "  \"Writable\": ", boolText gateway.writable, asciiBytes "\n",
         asciiBytes "  \"PathPrefixes\": []\n",
         asciiBytes " \x7d,\n \"SupernodeRouting\": \x7b\n",
         asciiBytes "  \"Servers\": null\n \x7d,"] rest))

def printEnd : List UInt8 :=
  printPieces
    [asciiBytes " \"API\": \x7b\n  \"HTTPHeaders\": null\n \x7d,\n",
     asciiBytes " \"Swarm\": \x7b\n  \"AddrFilters\": null\n \x7d\n\x7d"] []

/-- what is in the file; `none` when the function returns 0 -/
def repoConfigWriteConfigFile (config : RepoConfig) : Exec (Option (List UInt8)) := do
  let peer ← deref config.identity.peer
  match ← privateKeyText config.identity.privateKey with
  | none => .ok none
  | some encodedBuffer => do
    let type ← deref config.datastore.type
    let path ← deref config.datastore.path
    let storageMax ← deref config.datastore.storageMax
    let gcPeriod ← deref config.datastore.gcPeriod
    let api ← deref config.addresses.api
    let gateway ← deref config.addresses.gateway
    let ipfs ← deref config.mountsIpfs
    let ipns ← deref config.mountsIpns
    let bootstrapPeers ← deref config.bootstrapPeers
    let rootRedirect ← deref config.gateway.rootRedirect
    .ok (some
      (printIdentity peer.id encodedBuffer
        (printDatastore type path storageMax gcPeriod config.datastore
          (printAddresses config.addresses.swarm api gateway
            (printServices ipfs ipns config.mdnsEnabled config.mdnsInterval
                config.resolveCacheSize
              (printBootstrap bootstrapPeers
                (printGateway rootRedirect config.gateway printEnd)))))))

end Ipfs
