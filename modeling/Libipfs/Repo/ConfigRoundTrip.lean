import Libipfs.Repo.ConfigReplication

/-!
# The config file is read back

The initialiser builds a configuration, its file is written, and the file is opened again.

* `Initialised`           what can be configured: any addresses of the swarm, bootstrap peers and
                          headers;
* `repoConfigWriteConfigFile_eq`, `fsRepoOpenConfig_eq`, `fsRepoOpenConfig_eq_ok`   the two
  functions on such a file;
* `RepoConfig.Restored`   the file is opened, and what counts is as it was;
* `RepoConfig.Restorable` when it is;
* `restored_config`       **the file is read back** exactly then.
-/

namespace Ipfs
open CSem Libp2p

/-! ## what the initialiser builds -/

/-- another list of addresses of the swarm, or of headers, is put in afterwards -/
def Initialised (sha256 : List UInt8 → Digest) (rsa : RsaLibrary) (repoPath : List UInt8)
    (c : RepoConfig) : Prop :=
  ∃ (identity : Identity) (swarmPort : Int) (bootstrapPeers : Option (List ConfigAddress))
    (config : RepoConfig), identity.Generated sha256 rsa ∧
      ipfsRepoConfigInit identity repoPath swarmPort bootstrapPeers = .ok (some config) ∧
      c = { config with
        addresses := { config.addresses with swarm := c.addresses.swarm }
        gateway := { config.gateway with httpHeaders := c.gateway.httpHeaders } }

/-- what is written of a configuration -/
def RepoConfig.texts (c : RepoConfig) : ConfigTexts where
  id := (c.identity.peer.map IdentityPeer.id).getD []
  key := base64Chars (keyProtobuf c.identity.privateKey)
  path := c.datastore.path.getD []
  swarm := c.addresses.swarm
  api := c.addresses.api.getD []
  gateway := c.addresses.gateway.getD []
  bootstrap := (c.bootstrapPeers.getD []).map ConfigAddress.string
  headers := c.gateway.httpHeaders

/-- a configuration in terms of its texts -/
structure RepoConfig.Initial (sha256 : List UInt8 → Digest) (rsa : RsaLibrary) (c : RepoConfig)
    (peer : IdentityPeer) (peers : List ConfigAddress) : Prop where
  identity : c.identity.Generated sha256 rsa
  peer : c.identity.peer = some peer
  datastore : c.datastore = initialDatastore c.texts.path
  addresses : c.addresses =
    { swarm := c.texts.swarm, api := some c.texts.api, gateway := some c.texts.gateway }
  mounts : c.mountsIpfs = some (asciiBytes "/ipfs") ∧ c.mountsIpns = some (asciiBytes "/ipns")
  numbers : c.mdnsEnabled = 1 ∧ c.mdnsInterval = 10 ∧ c.resolveCacheSize = 128
  bootstrapPeers : c.bootstrapPeers = some peers
  gateway : c.gateway =
    { rootRedirect := some [], writable := 0, httpHeaders := c.texts.headers }
  distinct : c.texts.Distinct
  id : JsonText c.texts.id
  api : JsonText c.texts.api
  gatewayText : JsonText c.texts.gateway

section
variable {sha256 : List UInt8 → Digest} {rsa : RsaLibrary} {repoPath : List UInt8}
  {c : RepoConfig} {peer : IdentityPeer} {peers : List ConfigAddress}

/-! ### the texts that are not free -/

theorem intText_plain (z : Int) : ∀ c ∈ intText z, c ≠ 0 ∧ c ≠ 34 ∧ c ≠ 92 := by
  have hdigit : ∀ n, ∀ c ∈ numeral 10 n, c ≠ 0 ∧ c ≠ 34 ∧ c ≠ 92 := by
    intro n c hc
    obtain ⟨d, hd⟩ := exists_digit_of_mem_numeral (by decide) (by decide) hc
    have hnone : ∀ c : UInt8, c = 0 ∨ c = 34 ∨ c = 92 → digitIn 10 c = none := by
      rintro c (rfl | rfl | rfl)
      · decide
      · decide
      · decide
    have hne : ∀ b : UInt8, b = 0 ∨ b = 34 ∨ b = 92 → c ≠ b := by
      rintro b hb rfl
      rw [hnone c hb] at hd
      cases hd
    exact ⟨hne 0 (.inl rfl), hne 34 (.inr (.inl rfl)), hne 92 (.inr (.inr rfl))⟩
  intro c hc
  unfold intText at hc
  split at hc
  · obtain rfl | hc := List.mem_cons.1 hc
    · decide
    · exact hdigit _ c hc
  · exact hdigit _ c hc

theorem jsonText_portAddress {front : List UInt8} (hfront : JsonText front) (port : Int) :
    JsonText (portAddress front port) := by
  have htcp : JsonText (asciiBytes "/tcp/") := jsonText_asciiBytes (by decide)
  exact (hfront.append htcp).append (jsonText_of_plain (intText_plain port))

theorem slash_mem_portAddress (front : List UInt8) (port : Int) : 47 ∈ portAddress front port := by
  have htcp : 47 ∈ asciiBytes "/tcp/" := by decide
  exact List.mem_append_left _ (List.mem_append_right _ htcp)

theorem jsonText_base64Chars (src : List UInt8) : JsonText (base64Chars src) := by
  have hchar : ∀ v, base64EncMap v ≠ 0 ∧ base64EncMap v ≠ 34 ∧ base64EncMap v ≠ 92 := fun v =>
    ⟨base64EncMap_ne (by decide) v, base64EncMap_ne (by decide) v, (base64EncMap_plain v).2.2.2⟩
  have hcons : ∀ (v : Nat) {text : List UInt8}, JsonText text → JsonText (base64EncMap v :: text) :=
    fun v text h => .char (hchar v).1 (hchar v).2.1 (hchar v).2.2 h
  have hpad : ∀ {text : List UInt8}, JsonText text → JsonText (61 :: text) :=
    fun h => .char (by decide) (by decide) (by decide) h
  induction src using base64Chars.induct with
  | case1 => exact .nil
  | case2 c1 => exact hcons _ (hcons _ (hpad (hpad .nil)))
  | case3 c1 c2 => exact hcons _ (hcons _ (hcons _ (hpad .nil)))
  | case4 c1 c2 c3 src ih => exact hcons _ (hcons _ (hcons _ (hcons _ ih)))

theorem jsonText_peerId {key : PublicKey} {id : List UInt8}
    (h : publicKeyToPeerId sha256 key = .ok (some id)) : JsonText id := by
  obtain ⟨-, htext⟩ := publicKeyToPeerId_eq_ok.1 h
  obtain ⟨ds, hds, -, -, henc⟩ :=
    base58Encode_digits (show (0x12 :: 0x20 :: cString (key.hash sha256)).head? ≠ some 0 by simp)
  obtain rfl := Except.ok.inj (henc.symm.trans htext)
  have hall : ∀ d < 58, base58Char d ≠ 0 ∧ base58Char d ≠ 34 ∧ base58Char d ≠ 92 := by decide
  refine jsonText_of_plain fun c hc => ?_
  obtain ⟨d, hd, rfl⟩ := List.mem_map.1 hc
  exact hall d (hds d hd)

/-- the datastore is in a directory of the repository -/
theorem osUtilsFilepathJoin_eq_ok {root path : List UInt8} {maxLen : Nat}
    (h : osUtilsFilepathJoin root (asciiBytes "datastore") maxLen = .ok (some path)) :
    root ≠ [] ∧ 47 ∈ path := by
  unfold osUtilsFilepathJoin at h
  split at h
  · cases h
  obtain ⟨hroot, h⟩ := require_bind_eq_ok.1 h
  dsimp only at h
  obtain ⟨-, h⟩ := require_bind_eq_ok.1 h
  obtain rfl := Option.some.inj (Except.ok.inj h)
  refine ⟨hroot, ?_⟩
  have hhead : (asciiBytes "datastore").head? ≠ some 47 := by decide
  by_cases hlast : root.getLast? = some 47
  · exact List.mem_append_left _ (List.mem_append_left _ (List.mem_of_getLast? hlast))
  · rw [if_pos ⟨hlast, hhead⟩]
    exact List.mem_append_left _ (List.mem_append_right _ List.mem_cons_self)

theorem Initialised.initial (h : Initialised sha256 rsa repoPath c) :
    repoPath ≠ [] ∧ ∃ peer peers, c.Initial sha256 rsa peer peers := by
  obtain ⟨identity, swarmPort, bootstrapPeers, config, hgenerated, hinit, hc⟩ := h
  unfold ipfsRepoConfigInit at hinit
  rw [if_pos hgenerated.valid] at hinit
  obtain ⟨datastore, hdatastore, hinit⟩ := bind_eq_ok.1 hinit
  obtain ⟨addresses, haddresses, hinit⟩ := bind_eq_ok.1 hinit
  obtain rfl := Option.some.inj (Except.ok.inj hinit)
  unfold datastoreInit at hdatastore
  obtain ⟨path, hpath, hdatastore⟩ := bind_eq_ok.1 hdatastore
  cases path with
  | none => cases hdatastore
  | some path =>
    obtain rfl := Except.ok.inj hdatastore
    obtain ⟨hroot, hslash⟩ := osUtilsFilepathJoin_eq_ok hpath
    obtain ⟨_, haddresses⟩ := require_bind_eq_ok.1 haddresses
    obtain rfl := Except.ok.inj haddresses
    obtain ⟨peer, hpeer, hid⟩ := hgenerated.peer
    have hhead : peer.id.head? = some 81 := by
      have hvalid := hgenerated.valid
      unfold configIsValidIdentity at hvalid
      rw [hpeer] at hvalid
      exact (of_decide_eq_true hvalid).1
    have htexts : c.texts.id = peer.id := by
      rw [hc]
      show (identity.peer.map IdentityPeer.id).getD [] = _
      rw [hpeer]
      rfl
    have hip : JsonText (asciiBytes "/ip4/127.0.0.1") := jsonText_asciiBytes (by decide)
    obtain ⟨rest, hrest⟩ := base64Chars_keyProtobuf identity.privateKey
    refine ⟨hroot, peer, bootstrapPeers.getD [], ?_⟩
    constructor
    case distinct =>
      refine ⟨by rw [htexts]; exact hhead, ?_, ?_, ?_, ?_⟩
      · rw [hc]
        show (base64Chars (keyProtobuf identity.privateKey)).head? = _
        rw [hrest]
        rfl
      · rw [hc]
        exact hslash
      · rw [hc]
        exact slash_mem_portAddress _ _
      · rw [hc]
        exact slash_mem_portAddress _ _
    case id =>
      rw [htexts]
      exact jsonText_peerId hid
    case api =>
      rw [hc]
      exact jsonText_portAddress hip _
    case gatewayText =>
      rw [hc]
      exact jsonText_portAddress hip _
    case identity =>
      rw [hc]
      exact hgenerated
    case peer =>
      rw [hc]
      exact hpeer
    case mounts =>
      rw [hc]
      exact ⟨rfl, rfl⟩
    case numbers =>
      rw [hc]
      exact ⟨rfl, rfl, rfl⟩
    case datastore => rw [hc]; rfl
    case addresses => rw [hc]; rfl
    case bootstrapPeers => rw [hc]
    case gateway => rw [hc]; rfl

theorem RepoConfig.Initial.texts_id (h : c.Initial sha256 rsa peer peers) :
    c.texts.id = peer.id := by
  show (c.identity.peer.map IdentityPeer.id).getD [] = _
  rw [h.peer]
  rfl

theorem RepoConfig.Initial.texts_bootstrap (h : c.Initial sha256 rsa peer peers) :
    c.texts.bootstrap = peers.map ConfigAddress.string := by
  show (c.bootstrapPeers.getD []).map ConfigAddress.string = _
  rw [h.bootstrapPeers]
  rfl

/-- **the file** of a configuration -/
theorem repoConfigWriteConfigFile_eq (h : c.Initial sha256 rsa peer peers) :
    repoConfigWriteConfigFile c = .ok (some (writeLexemes (configLexemes c.texts) [])) := by
  have hid := h.texts_id
  have hboot := h.texts_bootstrap
  have hapi : c.addresses.api = some c.texts.api := by rw [h.addresses]
  have hport : c.addresses.gateway = some c.texts.gateway := by rw [h.addresses]
  have hroot : c.gateway.rootRedirect = some [] := by rw [h.gateway]
  have hgateway := printGateway_eq (show c.gateway.writable = 0 by rw [h.gateway])
  have hprint : printIdentity peer.id (base64Chars (keyProtobuf c.identity.privateKey))
      (printDatastore (asciiBytes "lmdb") c.texts.path (asciiBytes "10GB") (asciiBytes "1h")
        (initialDatastore c.texts.path)
        (printAddresses c.addresses.swarm c.texts.api c.texts.gateway
          (printServices (asciiBytes "/ipfs") (asciiBytes "/ipns") c.mdnsEnabled c.mdnsInterval
            c.resolveCacheSize
            (printBootstrap peers (printGateway [] c.gateway printEnd))))) =
      writeLexemes (configLexemes c.texts) [] := by
    rw [h.numbers.1, h.numbers.2.1, h.numbers.2.2, hgateway, printBootstrap_eq, printServices_eq,
      printAddresses_eq, printDatastore_eq, printIdentity_eq, ← hid, ← hboot]
    unfold configLexemes
    simp only [writeLexemes_append]
    rfl
  unfold repoConfigWriteConfigFile
  rw [h.peer, deref_some, ok_bind, privateKeyText_eq h.identity.der, ok_bind]
  show (deref c.datastore.type >>= _) = _
  rw [h.datastore, h.bootstrapPeers, h.mounts.1, h.mounts.2, hapi, hport, hroot]
  exact congrArg (fun file => Except.ok (some file)) hprint

/-! ### the file is opened -/

theorem osUtilsFilepathJoin_config (hroot : repoPath ≠ []) : ∃ name,
    osUtilsFilepathJoin repoPath (asciiBytes "config") (repoPath.length + 8) = .ok (some name) := by
  have hlen : (asciiBytes "config").length = 6 := by decide
  unfold osUtilsFilepathJoin
  rw [if_neg (by omega)]
  dsimp only
  refine ⟨_, require_bind_eq_ok.2 ⟨hroot, require_bind_eq_ok.2 ⟨?_, rfl⟩⟩⟩
  split
  · rw [List.length_append, List.length_append, hlen]
    exact Nat.lt_succ_self _
  · rw [List.length_append, List.length_append, hlen]
    exact Nat.lt_of_le_of_lt (Nat.le_succ _) (Nat.lt_succ_self _)

/-- a file that can be tokenised as a whole -/
theorem fsRepoOpenConfig_eq (hroot : repoPath ≠ []) {texts : ConfigTexts} (h : texts.Json)
    (hheaders : texts.headers ≠ []) (hroom : texts.tokens ≤ 256) (hsize : texts.fileSize < 2 ^ 31) :
    fsRepoOpenConfig sha256 rsa repoPath (writeLexemes (configLexemes texts) []) {} =
      readTokens sha256 rsa texts.toks {} := by
  obtain ⟨name, hname⟩ := osUtilsFilepathJoin_config hroot
  have hlen := length_config texts
  have hpos : 0 < texts.fileSize := by
    unfold ConfigTexts.fileSize
    omega
  have hread : readFile (writeLexemes (configLexemes texts) []) =
      .ok (writeLexemes (configLexemes texts) []) := by
    unfold readFile
    dsimp only
    rw [hlen, toInt32_natCast_of_lt hsize, if_neg (by omega), Int.toNat_natCast, ← hlen,
      List.take_length]
  have hzero := writeLexemes_ne_zero (validLexemes_config h)
  have hparse := jsmnParse_config h hheaders hroom
  rw [tokens_configMembers] at hparse
  unfold fsRepoOpenConfig
  rw [hname, ok_bind]
  show (readFile _ >>= _) = _
  rw [hread, ok_bind, cString_of_not_mem hzero, hparse]
  rfl

/-- what was read are the tokens of the file, or of a front of it -/
theorem fsRepoOpenConfig_eq_ok {file : List UInt8} {r : RepoConfig}
    (h : fsRepoOpenConfig sha256 rsa repoPath file {} = .ok (some r)) : ∃ cut tokens,
      cut <+: file ∧ 0 ∉ cut ∧ cut.length < 2 ^ 31 ∧ jsmnParse 256 cut = .ok tokens ∧
        tokens ≠ [] ∧ readTokens sha256 rsa tokens {} = .ok (some r) := by
  unfold fsRepoOpenConfig at h
  obtain ⟨name, -, h⟩ := bind_eq_ok.1 h
  cases name with
  | none => cases h
  | some name =>
    obtain ⟨data, hdata, h⟩ := bind_eq_ok.1 h
    have hfront : data <+: file ∧ data.length < 2 ^ 31 := by
      have hbounds := toInt32_bounds file.length
      unfold readFile at hdata
      dsimp only at hdata
      split at hdata
      · cases hdata
      · obtain rfl := Except.ok.inj hdata
        refine ⟨List.take_prefix _ _, ?_⟩
        have hle := List.length_take_le (toInt32 file.length).toNat file
        omega
    have hcut : cString data <+: data := List.takeWhile_prefix _
    cases hparse : jsmnParse 256 (cString data) with
    | error e =>
      rw [hparse] at h
      cases h
    | ok tokens =>
      rw [hparse] at h
      cases tokens with
      | nil => cases h
      | cons t tokens =>
        exact ⟨_, _, hcut.trans hfront.1, not_mem_cString data,
          Nat.lt_of_le_of_lt hcut.length_le hfront.2, hparse, List.cons_ne_nil _ _, h⟩

end

/-! ## what is read back -/

/-- what counts of two configurations -/
structure RepoConfig.Same (c r : RepoConfig) : Prop where
  privateKey : r.identity.privateKey = c.identity.privateKey
  peerId : r.identity.peer.map IdentityPeer.id = c.identity.peer.map IdentityPeer.id
  datastore : r.datastore = c.datastore
  addresses : r.addresses = c.addresses
  bootstrapPeers : r.bootstrapPeers = c.bootstrapPeers

/-- the file is written, and a new repository opens it -/
def RepoConfig.Restored (sha256 : List UInt8 → Digest) (rsa : RsaLibrary) (repoPath : List UInt8)
    (c : RepoConfig) : Prop :=
  ∃ file r, repoConfigWriteConfigFile c = .ok (some file) ∧
    fsRepoOpenConfig sha256 rsa repoPath file {} = .ok (some r) ∧ c.Same r

/-- there is a header, the tokens fit, the size is an `int`, the texts need no escape, the addresses
can be converted, and no text is taken for a key -/
structure RepoConfig.Restorable (c : RepoConfig) : Prop where
  header : c.gateway.httpHeaders ≠ []
  room : c.texts.tokens ≤ 256
  size : c.texts.fileSize < 2 ^ 31
  path : JsonText c.texts.path
  swarm : ∀ text ∈ c.addresses.swarm, JsonText text ∧ Safe (multiaddressNewFromString text)
  peers : ∀ p ∈ c.bootstrapPeers.getD [], JsonText p.string ∧
    multiaddressNewFromString p.string = .ok (some p.bytes)
  headers : ∀ h ∈ c.gateway.httpHeaders, JsonText h.header ∧ JsonText h.value
  api : NotHidden c.addresses.swarm "API" c.texts.api
  gateway : NotHidden c.addresses.swarm "Gateway" c.texts.gateway
  bootstrap : asciiBytes "Bootstrap" ∉ c.addresses.swarm
  replication : ∀ val, replicationPeer c.texts.named = some val → PeerReadable val

section
variable {sha256 : List UInt8 → Digest} {rsa : RsaLibrary} {repoPath : List UInt8}
  {c : RepoConfig} {peer : IdentityPeer} {peers : List ConfigAddress}

theorem RepoConfig.Initial.json (h : c.Initial sha256 rsa peer peers) (hpath : JsonText c.texts.path)
    (hswarm : ∀ text ∈ c.addresses.swarm, JsonText text)
    (hpeers : ∀ p ∈ peers, JsonText p.string)
    (hheaders : ∀ h ∈ c.gateway.httpHeaders, JsonText h.header ∧ JsonText h.value) :
    c.texts.Json where
  id := h.id
  key := jsonText_base64Chars _
  path := hpath
  swarm := hswarm
  api := h.api
  gateway := h.gatewayText
  bootstrap := by
    intro text htext
    have htext : text ∈ (c.bootstrapPeers.getD []).map ConfigAddress.string := htext
    rw [h.bootstrapPeers] at htext
    obtain ⟨p, hp, rfl⟩ := List.mem_map.1 htext
    exact hpeers p hp
  headers := hheaders

/-- the tokens of the file are read to the same configuration -/
theorem RepoConfig.Initial.readTokens_iff (h : c.Initial sha256 rsa peer peers) :
    (∃ r, readTokens sha256 rsa c.texts.toks {} = .ok (some r) ∧ c.Same r) ↔
      c.texts.Findable peers := by
  have hid := h.texts_id
  have hboot := h.texts_bootstrap
  have hpeer : c.identity.peer.map IdentityPeer.id = some peer.id := by rw [h.peer]; rfl
  rw [← readTokens_toks_iff h.distinct h.identity h.peer hid rfl hboot]
  constructor
  · intro ⟨r, hread, hsame⟩
    exact ⟨r, hread, hsame.privateKey, hsame.peerId.trans hpeer,
      hsame.datastore.trans h.datastore, hsame.addresses.trans h.addresses,
      hsame.bootstrapPeers.trans h.bootstrapPeers⟩
  · intro ⟨r, hread, hkey, hid, hdatastore, haddresses, hbootstrap⟩
    exact ⟨r, hread, hkey, hid.trans hpeer.symm, hdatastore.trans h.datastore.symm,
      haddresses.trans h.addresses.symm, hbootstrap.trans h.bootstrapPeers.symm⟩

/-- a text that is read back stands in a string -/
theorem jsonText_of_stringIn {cut text : List UInt8} {tokens : List JsmnTok} (hzero : 0 ∉ cut)
    (hparse : jsmnParse 256 cut = .ok tokens) (h : StringIn tokens text) : JsonText text := by
  obtain ⟨t, ht, htype, rfl⟩ := h
  exact jsmnParse_strings hzero hparse ht htype

/-- **enough** that the file is read back -/
theorem RepoConfig.Restorable.restored (hc : c.Restorable) (h : Initialised sha256 rsa repoPath c) :
    c.Restored sha256 rsa repoPath := by
  obtain ⟨hroot, peer, peers, hinitial⟩ := h.initial
  have hback : ∀ p ∈ peers, JsonText p.string ∧
      multiaddressNewFromString p.string = .ok (some p.bytes) := by
    have hpeers := hc.peers
    rw [hinitial.bootstrapPeers] at hpeers
    exact hpeers
  have hjson := hinitial.json hc.path (fun text ht => (hc.swarm text ht).1)
    (fun p hp => (hback p hp).1) hc.headers
  have hfindable : c.texts.Findable peers :=
    ⟨fun text ht => (hc.swarm text ht).2, hc.api, hc.gateway, hc.bootstrap,
      fun p hp => (hback p hp).2,
      (safe_readReplication_toks hinitial.distinct).2 hc.replication⟩
  obtain ⟨r, hread, hsame⟩ := hinitial.readTokens_iff.2 hfindable
  rw [← fsRepoOpenConfig_eq hroot hjson hc.header hc.room hc.size] at hread
  exact ⟨_, r, repoConfigWriteConfigFile_eq hinitial, hread, hsame⟩

/-- **what must be** when the file is read back -/
theorem RepoConfig.Restored.restorable (hc : c.Restored sha256 rsa repoPath)
    (h : Initialised sha256 rsa repoPath c)
    (hheaders : ∀ h ∈ c.gateway.httpHeaders, JsonText h.header ∧ JsonText h.value) :
    c.Restorable := by
  obtain ⟨hroot, peer, peers, hinitial⟩ := h.initial
  obtain ⟨file, r, hfile, hopen, hsame⟩ := hc
  obtain rfl := Option.some.inj
    (Except.ok.inj ((repoConfigWriteConfigFile_eq hinitial).symm.trans hfile))
  obtain ⟨cut, tokens, hcut, hzero, hsize, hparse, htokens, hread⟩ := fsRepoOpenConfig_eq_ok hopen
  -- what was read back needs no escape, so the file can be tokenised
  obtain ⟨hpath, hswarm, hboot⟩ := readTokens_eq_ok hread
  have hpath : JsonText c.texts.path := by
    refine jsonText_of_stringIn hzero hparse (hpath _ ?_)
    rw [hsame.datastore, hinitial.datastore]
    rfl
  have hswarm : ∀ text ∈ c.addresses.swarm, JsonText text := fun text ht =>
    jsonText_of_stringIn hzero hparse (hswarm text (hsame.addresses ▸ ht)).1
  have hstring : ∀ p ∈ peers, JsonText p.string := fun p hp =>
    jsonText_of_stringIn hzero hparse
      (hboot peers (hsame.bootstrapPeers.trans hinitial.bootstrapPeers) p hp).1
  have hjson := hinitial.json hpath hswarm hstring hheaders
  -- a front of the file has a bracket that is open, so all of it was read
  obtain rfl := config_of_cut hjson hcut hparse htokens
  rw [length_config] at hsize
  obtain ⟨hheader, hroom⟩ := config_of_jsmnParse hjson hparse
  rw [fsRepoOpenConfig_eq hroot hjson hheader hroom hsize] at hopen
  have hfindable := hinitial.readTokens_iff.1 ⟨r, hopen, hsame⟩
  exact
    { header := hheader
      room := hroom
      size := hsize
      path := hpath
      swarm := fun text ht => ⟨hswarm text ht, hfindable.swarm text ht⟩
      peers := by
        rw [hinitial.bootstrapPeers]
        exact fun p hp => ⟨hstring p hp, hfindable.peers p hp⟩
      headers := hheaders
      api := hfindable.api
      gateway := hfindable.gateway
      bootstrap := hfindable.bootstrap
      replication := (safe_readReplication_toks hinitial.distinct).1 hfindable.replication }

/-- **the file is read back** when the configuration is restorable, and only then; a header whose
text is none for JSON may be read back as well -/
theorem restored_config (h : Initialised sha256 rsa repoPath c) :
    (c.Restorable → c.Restored sha256 rsa repoPath) ∧
      ((∀ h ∈ c.gateway.httpHeaders, JsonText h.header ∧ JsonText h.value) →
        c.Restored sha256 rsa repoPath → c.Restorable) :=
  ⟨fun hc => hc.restored h, fun hheaders hc => hc.restorable h hheaders⟩

end

/-! ### a key of 1024 bits -/

/-- the private key in DER format -/
def sampleDer : List UInt8 :=
  [48, 130, 2, 93, 2, 1, 0, 2, 129, 129, 0, 199, 39, 219, 95, 139, 128, 217, 70, 137, 127, 0,
   240, 109, 100, 134, 16, 50, 58, 57, 218, 166, 50, 200, 234, 197, 203, 54, 95, 215, 224, 124,
   118, 169, 183, 35, 80, 214, 48, 120, 73, 176, 25, 78, 29, 126, 21, 106, 135, 220, 129, 165,
   241, 140, 71, 217, 70, 192, 76, 25, 13, 71, 163, 136, 4, 226, 228, 125, 251, 76, 88, 3, 232,
   106, 159, 92, 162, 98, 255, 7, 224, 208, 139, 217, 253, 254, 74, 42, 231, 46, 32, 66, 66,
   108, 163, 130, 128, 99, 72, 73, 19, 131, 62, 239, 191, 249, 44, 161, 222, 34, 194, 161, 78,
   249, 167, 54, 200, 144, 118, 227, 88, 241, 55, 144, 43, 46, 103, 245, 229, 2, 3, 1, 0, 1, 2,
   129, 128, 108, 195, 64, 148, 2, 108, 192, 188, 59, 244, 231, 63, 102, 142, 162, 132, 143,
   217, 170, 164, 213, 101, 32, 194, 206, 120, 119, 94, 138, 87, 231, 193, 42, 88, 128, 233,
   241, 191, 144, 193, 181, 113, 108, 110, 192, 223, 211, 73, 21, 76, 156, 162, 184, 216, 184,
   57, 98, 101, 108, 189, 10, 229, 173, 46, 254, 93, 132, 178, 12, 225, 133, 148, 237, 152, 27,
   44, 178, 16, 91, 245, 244, 73, 214, 180, 235, 44, 116, 50, 91, 227, 113, 215, 15, 80, 165,
   28, 10, 22, 201, 26, 16, 143, 186, 63, 176, 52, 6, 60, 133, 18, 253, 214, 198, 218, 166,
   112, 171, 121, 227, 192, 106, 63, 33, 4, 33, 92, 70, 193, 2, 65, 0, 246, 189, 142, 202, 159,
   55, 76, 214, 67, 233, 67, 52, 116, 45, 228, 155, 187, 180, 88, 211, 159, 213, 131, 235, 2,
   134, 236, 236, 67, 67, 44, 107, 200, 253, 68, 46, 197, 99, 9, 210, 211, 31, 2, 49, 222, 239,
   67, 81, 64, 186, 111, 9, 190, 56, 252, 187, 19, 57, 69, 186, 228, 17, 77, 17, 2, 65, 0, 206,
   161, 38, 167, 158, 216, 215, 149, 100, 200, 26, 171, 18, 104, 119, 70, 123, 70, 180, 229,
   37, 136, 70, 198, 185, 166, 214, 231, 40, 164, 70, 174, 224, 98, 10, 198, 40, 204, 173, 191,
   32, 23, 8, 143, 251, 47, 221, 156, 47, 30, 130, 171, 139, 165, 255, 169, 187, 191, 240, 122,
   99, 32, 107, 149, 2, 65, 0, 145, 46, 164, 112, 113, 18, 182, 241, 116, 112, 50, 141, 16,
   183, 88, 70, 146, 65, 225, 234, 83, 167, 236, 193, 65, 113, 102, 194, 246, 40, 246, 96, 77,
   153, 72, 159, 68, 161, 171, 204, 19, 81, 177, 150, 234, 152, 90, 65, 219, 22, 87, 243, 161,
   172, 34, 121, 105, 44, 79, 237, 81, 249, 36, 33, 2, 65, 0, 132, 49, 133, 81, 103, 198, 194,
   229, 200, 252, 92, 83, 102, 11, 127, 131, 144, 10, 196, 96, 117, 138, 161, 253, 49, 121, 19,
   179, 255, 196, 89, 148, 55, 233, 129, 139, 21, 63, 29, 73, 81, 118, 106, 251, 242, 111, 197,
   15, 206, 245, 110, 19, 225, 219, 233, 156, 229, 136, 254, 136, 206, 50, 71, 161, 2, 64, 115,
   149, 93, 4, 170, 226, 17, 44, 75, 119, 110, 130, 236, 186, 151, 61, 234, 149, 225, 203, 48,
   151, 89, 249, 14, 73, 18, 196, 200, 234, 73, 14, 22, 221, 39, 220, 52, 45, 221, 226, 135,
   109, 147, 217, 116, 219, 182, 196, 75, 113, 138, 11, 98, 17, 218, 226, 146, 43, 223, 204,
   173, 139, 89, 144]

/-- the algorithm, then the modulus and the public exponent, as they stand in the private key -/
def samplePublicDer : PublicDer :=
  ⟨[48, 129, 159, 48, 13, 6, 9, 42, 134, 72, 134, 247, 13, 1, 1, 1, 5, 0, 3, 129, 141, 0, 48,
    129, 137] ++ (sampleDer.drop 7).take 137, by decide +kernel⟩

def sampleNumbers : RsaNumbers :=
  ⟨10532758223713950096, 16539749495046555553, 7578520153658827809, 13528796214084004757,
    1385215029385710865, 7655874193176413889, 65537, 17381519801996277221⟩

/-- the hash of the protobuf of the public key -/
def sampleHash : Digest :=
  ⟨[7, 245, 51, 58, 223, 89, 88, 75, 227, 190, 9, 19, 124, 66, 150, 16, 120, 91, 145, 194, 63,
   194, 248, 86, 112, 220, 87, 187, 42, 173, 184, 238], rfl⟩

def samplePeer : IdentityPeer := { id := asciiBytes "QmNsiRHx9Sy4pbivbxy6ZjWX1wZJHnaCzEfJVX8gc3WqQq" }

def sampleIdentity : Identity where
  privateKey := { numbers := sampleNumbers, der := sampleDer, publicKeyDer := samplePublicDer }
  peer := some samplePeer

/-- what the library does with this key -/
def sampleRsa : RsaLibrary where
  parseKey := fun der => if der = sampleDer then some sampleNumbers else none
  writePublicKeyDer := fun der => if der = sampleDer then some samplePublicDer else none

theorem sampleIdentity_generated : sampleIdentity.Generated (fun _ => sampleHash) sampleRsa := by
  have hparse : sampleRsa.parseKey sampleDer = some sampleNumbers := by
    simp only [sampleRsa, if_true]
  have hwrite : sampleRsa.writePublicKeyDer sampleDer = some samplePublicDer := by
    simp only [sampleRsa, if_true]
  have hlen : sampleDer.length ≤ 1600 := by decide +kernel
  have hid : publicKeyToPeerId (fun _ => sampleHash) sampleIdentity.privateKey.publicKey =
      .ok (some samplePeer.id) := by decide +kernel
  have hvalid : configIsValidIdentity sampleIdentity = true := by decide +kernel
  exact ⟨hlen, hparse, hwrite, ⟨samplePeer, rfl, hid⟩, hvalid⟩

/-- the defaults, but for the headers -/
def sampleConfig (repoPath : List UInt8) (headers : List HttpHeader) : RepoConfig where
  identity := sampleIdentity
  datastore := initialDatastore (repoPath ++ asciiBytes "/datastore")
  addresses :=
    { swarm := [asciiBytes "/ip4/0.0.0.0/tcp/4001", asciiBytes "/ip6/::/tcp/4001"]
      api := some (asciiBytes "/ip4/127.0.0.1/tcp/5001")
      gateway := some (asciiBytes "/ip4/127.0.0.1/tcp/8080") }
  mountsIpfs := some (asciiBytes "/ipfs")
  mountsIpns := some (asciiBytes "/ipns")
  mdnsEnabled := 1
  mdnsInterval := 10
  resolveCacheSize := 128
  bootstrapPeers := some []
  gateway := { rootRedirect := some [], writable := 0, httpHeaders := headers }

def plainPath : List UInt8 := asciiBytes "/home/user/.ipfs"

/-- a name with a quote in it -/
def quotePath : List UInt8 := asciiBytes "/home/us\"er/.ipfs"

theorem initialised_sampleConfig {repoPath : List UInt8} (headers : List HttpHeader)
    (hpath : datastoreInit repoPath =
      .ok (initialDatastore (repoPath ++ asciiBytes "/datastore"))) :
    Initialised (fun _ => sampleHash) sampleRsa repoPath (sampleConfig repoPath headers) := by
  refine ⟨sampleIdentity, 4001, none, sampleConfig repoPath defaultHeaders,
    sampleIdentity_generated, ?_, rfl⟩
  have haddresses : addressesInit 4001 = .ok (sampleConfig [] []).addresses := by decide +kernel
  unfold ipfsRepoConfigInit
  rw [if_pos sampleIdentity_generated.valid, hpath, ok_bind, haddresses]
  rfl

theorem restorable_sampleConfig : (sampleConfig plainPath defaultHeaders).Restorable where
  header := List.cons_ne_nil _ _
  room := by decide +kernel
  size := by decide +kernel
  path := jsonText_of_plain (by decide)
  swarm := by
    have hplain : ∀ text ∈ (sampleConfig plainPath defaultHeaders).addresses.swarm,
        (∀ c ∈ text, c ≠ 0 ∧ c ≠ 34 ∧ c ≠ 92) ∧ (multiaddressNewFromString text).isOk = true := by
      decide +kernel
    intro text ht
    obtain ⟨htext, hok⟩ := hplain text ht
    exact ⟨jsonText_of_plain htext, safe_of_isOk hok⟩
  peers := fun p hp => absurd hp List.not_mem_nil
  headers := by
    have hplain : ∀ h ∈ defaultHeaders, (∀ c ∈ h.header, c ≠ 0 ∧ c ≠ 34 ∧ c ≠ 92) ∧
        ∀ c ∈ h.value, c ≠ 0 ∧ c ≠ 34 ∧ c ≠ 92 := by
      decide
    exact fun h hh => ⟨jsonText_of_plain (hplain h hh).1, jsonText_of_plain (hplain h hh).2⟩
  api := notHidden_of_not_mem (by decide)
  gateway := notHidden_of_not_mem (by decide)
  bootstrap := by decide
  replication := by
    have hnone : replicationPeer (sampleConfig plainPath defaultHeaders).texts.named = none := by
      decide
    intro val hval
    rw [hnone] at hval
    cases hval

theorem restored_config_sample :
    (sampleConfig plainPath defaultHeaders).Restored (fun _ => sampleHash) sampleRsa plainPath :=
  (restored_config (initialised_sampleConfig defaultHeaders (by decide))).1
    restorable_sampleConfig

/-- a quote in the path of the repository, and a configuration without headers: neither is read
back -/
theorem not_restored_sampleConfig :
    (Initialised (fun _ => sampleHash) sampleRsa quotePath
        (sampleConfig quotePath defaultHeaders) ∧
      ¬ (sampleConfig quotePath defaultHeaders).Restored (fun _ => sampleHash) sampleRsa
        quotePath) ∧
    (Initialised (fun _ => sampleHash) sampleRsa plainPath (sampleConfig plainPath []) ∧
      ¬ (sampleConfig plainPath []).Restored (fun _ => sampleHash) sampleRsa plainPath) := by
  have hquote := @initialised_sampleConfig quotePath defaultHeaders (by decide)
  have hnone := @initialised_sampleConfig plainPath [] (by decide)
  refine ⟨⟨hquote, fun hrestored => ?_⟩, hnone, fun hrestored => ?_⟩
  · have hpath := (hrestored.restorable hquote restorable_sampleConfig.headers).path
    have hparse := hpath.parse []
    have hshort : (jsmnParseString
        ((sampleConfig quotePath defaultHeaders).texts.path ++ [34])).map (fun r => r.1.length) =
          .ok 8 := by decide +kernel
    rw [hparse] at hshort
    exact absurd hshort (by decide)
  · exact (hrestored.restorable hnone fun h hh => absurd hh List.not_mem_nil).header rfl

end Ipfs
