import Libipfs.Repo.ConfigFile
import Libipfs.Repo.FsRepo

/-!
# Reading the tokens of the config file

The tokens of the file have fixed places up to the addresses of the swarm; what comes behind them
is searched from the addresses on.

* `findToken_append_left`, `findToken_append_none`   where a string is found;
* `findToken_front`, `findToken_behind`   that the texts of the file do not hide a key;
* `readIdentity_front`, `readDatastore_front`, `readAddresses_toks_iff`,
  `readBootstrap_toks_iff`  the parts of the file;
* `readTokens_toks_iff`   **what is read** from the tokens of a file;
* `readTokens_eq_ok`      **what is read** stands in a string of the file.
-/

namespace Ipfs
open CSem Libp2p

/-! ## finding tokens -/

/-- no string has this text -/
def Absent (tag : List UInt8) (tokens : List JsmnTok) : Prop := ∀ t ∈ tokens, ¬ t.Tagged tag

instance (tag : List UInt8) (tokens : List JsmnTok) : Decidable (Absent tag tokens) := by
  unfold Absent
  infer_instance

section
variable {us vs : List JsmnTok} {tag : List UInt8} {start i : Nat} {t : JsmnTok}

theorem findToken_eq_none : findToken us start tag = none ↔ Absent tag (us.drop start) := by
  unfold findToken Absent
  rw [Option.map_eq_none_iff, List.findIdx?_eq_none_iff]
  exact forall₂_congr fun t ht => decide_eq_false_iff_not

/-- what is found stays where it is -/
theorem findToken_append_left (h : findToken us start tag = some i) :
    findToken (us ++ vs) start tag = some i := by
  unfold findToken at h ⊢
  rw [List.drop_append, List.findIdx?_append]
  cases hfound : (us.drop start).findIdx? fun t => t.Tagged tag with
  | none =>
    rw [hfound] at h
    cases h
  | some k =>
    rw [hfound] at h
    exact h

/-- what is not found in front is searched behind -/
theorem findToken_append_none (hstart : start ≤ us.length) (h : findToken us start tag = none) :
    findToken (us ++ vs) start tag = (findToken vs 0 tag).map fun i => us.length + i := by
  have hnone : ((us.drop start).findIdx? fun t => t.Tagged tag) = none := Option.map_eq_none_iff.1 h
  unfold findToken
  rw [List.drop_append, List.findIdx?_append, hnone, Nat.sub_eq_zero_of_le hstart, List.drop_zero,
    List.length_drop, Option.none_or, Option.map_map, Option.map_map]
  congr 1
  funext k
  show start + (k + (us.length - start)) = us.length + (0 + k)
  omega

/-- only the texts count, and only whether they are the one that is searched -/
theorem findToken_congr
    (h : us.map (fun t => decide (t.Tagged tag)) = vs.map fun t => decide (t.Tagged tag)) :
    findToken us start tag = findToken vs start tag := by
  have hmarks : ∀ ts : List JsmnTok, ((ts.drop start).findIdx? fun t => t.Tagged tag) =
      ((ts.map fun t => decide (t.Tagged tag)).drop start).findIdx? fun b => b := by
    intro ts
    rw [← List.map_drop, List.findIdx?_map]
    rfl
  unfold findToken
  rw [hmarks, hmarks, h]

theorem getJsonStringValue_of_find (h : findToken us start tag = some i)
    (ht : us[i + 1]? = some t) : getJsonStringValue us start (some tag) = .ok t.string := by
  unfold getJsonStringValue tokenAt
  dsimp only
  rw [h]
  dsimp only
  rw [ht]
  rfl

theorem getJsonIntValue_of_find (h : findToken us start tag = some i)
    (ht : us[i + 1]? = some t) : getJsonIntValue us start tag = t.int := by
  unfold getJsonIntValue tokenAt
  rw [h]
  dsimp only
  rw [ht, ok_bind]

theorem getJsonStringValue_at (h : us[start]? = some t) :
    getJsonStringValue us start none = .ok t.string := by
  unfold getJsonStringValue tokenAt
  dsimp only
  rw [h]
  rfl

end

/-! ## what was in the file -/

/-- a string of the file -/
def StringIn (tokens : List JsmnTok) (text : List UInt8) : Prop :=
  ∃ t ∈ tokens, t.type = .string ∧ t.text = text

section
variable {tokens : List JsmnTok} {text : List UInt8} {tag : Option (List UInt8)} {pos n : Nat}

theorem tokenAt_eq_ok {t : JsmnTok} (h : tokenAt tokens pos = .ok t) : t ∈ tokens := by
  unfold tokenAt at h
  split at h
  · rename_i hget
    cases h
    exact List.mem_of_getElem? hget
  · cases h

theorem getJsonStringValue_eq_ok (h : getJsonStringValue tokens pos tag = .ok (.text text)) :
    StringIn tokens text := by
  have hstring : ∀ k, (tokenAt tokens k).map JsmnTok.string = .ok (.text text) →
      StringIn tokens text := by
    intro k hk
    cases ht : tokenAt tokens k with
    | error e =>
      rw [ht] at hk
      cases hk
    | ok t =>
      rw [ht] at hk
      replace hk : t.string = .text text := Except.ok.inj hk
      refine ⟨t, tokenAt_eq_ok ht, ?_⟩
      unfold JsmnTok.string at hk
      split at hk
      · cases hk
      · rename_i htype
        exact ⟨htype, JsonString.text.inj hk⟩
      · cases hk
  unfold getJsonStringValue at h
  split at h
  · exact hstring pos h
  · split at h
    · cases h
    · exact hstring _ h

theorem readDatastore_path {d : DatastoreConfig} (h : readDatastore tokens pos {} = .ok d)
    (hpath : d.path = some text) : StringIn tokens text := by
  unfold readDatastore at h
  obtain ⟨type, -, h⟩ := bind_eq_ok.1 h
  obtain ⟨path, hread, h⟩ := bind_eq_ok.1 h
  obtain ⟨storageMax, -, h⟩ := bind_eq_ok.1 h
  obtain ⟨watermark, -, h⟩ := bind_eq_ok.1 h
  obtain ⟨gcPeriod, -, h⟩ := bind_eq_ok.1 h
  obtain ⟨params, -, h⟩ := bind_eq_ok.1 h
  obtain ⟨noSync, -, h⟩ := bind_eq_ok.1 h
  obtain ⟨hashOnRead, -, h⟩ := bind_eq_ok.1 h
  obtain ⟨bloomFilterSize, -, h⟩ := bind_eq_ok.1 h
  obtain rfl := Except.ok.inj h
  replace hpath : path.store none = some text := hpath
  cases path with
  | untouched => cases hpath
  | null => cases hpath
  | text string =>
    obtain rfl : string = text := Option.some.inj hpath
    exact getJsonStringValue_eq_ok hread

theorem readSwarm_eq_ok {swarm : List (List UInt8)} {addrs : List Multiaddress}
    (h : readSwarm tokens n pos = .ok (swarm, addrs)) :
    ∀ text ∈ swarm, StringIn tokens text ∧ Safe (multiaddressNewFromString text) := by
  induction n generalizing pos swarm addrs with
  | zero =>
    cases h
    exact fun text ht => absurd ht List.not_mem_nil
  | succ n ih =>
    rw [readSwarm] at h
    obtain ⟨value, hvalue, h⟩ := bind_eq_ok.1 h
    cases value with
    | untouched =>
      cases h
      exact fun text ht => absurd ht List.not_mem_nil
    | null =>
      cases h
      exact fun text ht => absurd ht List.not_mem_nil
    | text item =>
      obtain ⟨ma, hma, h⟩ := bind_eq_ok.1 h
      obtain ⟨⟨swarm', addrs'⟩, hrest, h⟩ := bind_eq_ok.1 h
      obtain ⟨rfl, -⟩ := Prod.mk.inj (Except.ok.inj h)
      intro text ht
      obtain rfl | ht := List.mem_cons.1 ht
      · exact ⟨getJsonStringValue_eq_ok hvalue, ma, hma⟩
      · exact ih hrest text ht

theorem readPeers_eq_ok {peers : List ConfigAddress} (h : readPeers tokens n pos = .ok peers) :
    ∀ p ∈ peers, StringIn tokens p.string ∧
      multiaddressNewFromString p.string = .ok (some p.bytes) := by
  induction n generalizing pos peers with
  | zero =>
    cases h
    exact fun p hp => absurd hp List.not_mem_nil
  | succ n ih =>
    rw [readPeers] at h
    obtain ⟨value, hvalue, h⟩ := bind_eq_ok.1 h
    cases value with
    | untouched =>
      cases h
      exact fun p hp => absurd hp List.not_mem_nil
    | null =>
      cases h
      exact fun p hp => absurd hp List.not_mem_nil
    | text val =>
      obtain ⟨cur, hcur, h⟩ := bind_eq_ok.1 h
      obtain ⟨peers', hrest, h⟩ := bind_eq_ok.1 h
      obtain rfl := Except.ok.inj h
      intro p hp
      obtain hp | hp := List.mem_append.1 hp
      · cases cur with
        | none => exact absurd hp List.not_mem_nil
        | some bytes =>
          rw [List.mem_singleton.1 hp]
          exact ⟨getJsonStringValue_eq_ok hvalue, hcur⟩
      · exact ih hrest p hp

end

/-! ## the tokens of a file -/

/-- up to the array of the swarm -/
def frontTokens (size : Nat) (id key path : List UInt8) : List JsmnTok :=
  { type := .object, size := 12 } ::
    ((identityMember id key (datastoreMember path .nil)).tokens ++
      [stringTok (asciiBytes "Addresses") 1, { type := .object, size := 3 },
       stringTok (asciiBytes "Swarm") 1, { type := .array, size := size }])

/-- from there up to the array of the bootstrap peers -/
def middleTokens (size : Nat) (api gateway : List UInt8) : List JsmnTok :=
  (stringMember "API" api (stringMember "Gateway" gateway .nil)).tokens ++
    ((servicesMembers .nil).tokens ++
      [stringTok (asciiBytes "Bootstrap") 1, { type := .array, size := size }])

def tourTokens : List JsmnTok :=
  (objectMember "Tour" (stringMember "Last" [] .nil) .nil).tokens ++
    [stringTok (asciiBytes "Gateway") 1, { type := .object, size := 2 },
     stringTok (asciiBytes "HTTPHeaders") 1]

/-- behind the headers -/
def endTokens : List JsmnTok :=
  looseTokens
      [(asciiBytes "RootRedirect", .string []),
       (asciiBytes "Writable", .primitive (asciiBytes "false"))] ++
    stringTok (asciiBytes "PathPrefixes") 1 :: { type := .array } :: endMembers.tokens

def backTokens (headers : List HttpHeader) : List JsmnTok :=
  tourTokens ++ ({ type := .object, size := (headersMembers headers).size } ::
    ((headersMembers headers).tokens ++ endTokens))

def stringToks (texts : List (List UInt8)) : List JsmnTok :=
  texts.map fun text => stringTok text 0

def ConfigTexts.toks (c : ConfigTexts) : List JsmnTok :=
  frontTokens c.swarm.length c.id c.key c.path ++ (stringToks c.swarm ++
    (middleTokens c.bootstrap.length c.api c.gateway ++ (stringToks c.bootstrap ++
      backTokens c.headers)))

theorem tokens_configMembers (c : ConfigTexts) :
    (Json.object (configMembers c)).tokens = c.toks := by
  simp only [configMembers, identityMember, datastoreMember, addressesMember, servicesMembers,
    gatewayMember, endMembers, objectMember, stringMember, stringsMember, primitiveMember,
    Json.tokens, Members.tokens, ConfigTexts.toks, frontTokens, middleTokens, backTokens,
    tourTokens, endTokens, stringToks, List.append_assoc, List.cons_append, List.nil_append]
  rfl

/-- what the keys are and the texts are not: not empty, no slash, no `Q` and no `C` in front -/
def KeyLike (tag : List UInt8) : Prop :=
  tag ≠ [] ∧ 47 ∉ tag ∧ tag.head? ≠ some 81 ∧ tag.head? ≠ some 67

instance (tag : List UInt8) : Decidable (KeyLike tag) := by
  unfold KeyLike
  infer_instance

/-- the texts that are not free -/
structure ConfigTexts.Distinct (c : ConfigTexts) : Prop where
  id : c.id.head? = some 81
  key : c.key.head? = some 67
  path : 47 ∈ c.path
  api : 47 ∈ c.api
  gateway : 47 ∈ c.gateway

section
variable {c : ConfigTexts} {tag : List UInt8} {size start i : Nat} {ts : List JsmnTok} {t : JsmnTok}

theorem ne_of_slash {text : List UInt8} (h : 47 ∈ text) (htag : KeyLike tag) : text ≠ tag := by
  rintro rfl
  exact htag.2.1 h

/-- the texts of a file are found nowhere -/
theorem findToken_front (h : c.Distinct) (htag : KeyLike tag) :
    findToken (frontTokens size c.id c.key c.path) start tag =
      findToken (frontTokens 0 [] [] []) start tag := by
  have hid : c.id ≠ tag := by
    rintro rfl
    exact htag.2.2.1 h.id
  have hkey : c.key ≠ tag := by
    rintro rfl
    exact htag.2.2.2 h.key
  have hpath := ne_of_slash h.path htag
  have hempty : [] ≠ tag := fun h => htag.1 h.symm
  refine findToken_congr ?_
  simp [frontTokens, identityMember, datastoreMember, objectMember, stringMember, primitiveMember,
    Json.tokens, Members.tokens, looseTokens, Leaf.tok, stringTok, primitiveTok, JsmnTok.Tagged,
    hid, hkey, hpath, hempty]

theorem findToken_middle (h : c.Distinct) (htag : KeyLike tag) :
    findToken (middleTokens size c.api c.gateway) start tag =
      findToken (middleTokens 0 [] []) start tag := by
  have hapi := ne_of_slash h.api htag
  have hgateway := ne_of_slash h.gateway htag
  have hempty : [] ≠ tag := fun h => htag.1 h.symm
  refine findToken_congr ?_
  simp [middleTokens, servicesMembers, objectMember, stringMember, primitiveMember, Json.tokens,
    Members.tokens, looseTokens, Leaf.tok, stringTok, primitiveTok, JsmnTok.Tagged, hapi, hgateway,
    hempty]

/-- the key is the token `k` of the front -/
abbrev InFront (key : List UInt8) (k : Nat) : Prop :=
  KeyLike key ∧ findToken (frontTokens 0 [] [] []) 1 key = some k

/-- the key is the token `k` behind the swarm, and none of the front -/
abbrev InMiddle (key : List UInt8) (k : Nat) : Prop :=
  KeyLike key ∧ findToken (frontTokens 0 [] [] []) 27 key = none ∧
    findToken (middleTokens 0 [] []) 0 key = some k

theorem getJsonStringValue_front (key : String) (k : Nat) (h : c.Distinct)
    (htag : InFront (asciiBytes key) k)
    (ht : (frontTokens size c.id c.key c.path ++ ts)[k + 1]? = some t) :
    getJsonStringValue (frontTokens size c.id c.key c.path ++ ts) 1 (some (asciiBytes key)) =
      .ok t.string :=
  getJsonStringValue_of_find
    (findToken_append_left ((findToken_front h htag.1).trans htag.2)) ht

theorem getJsonIntValue_front (key : String) (k : Nat) (h : c.Distinct)
    (htag : InFront (asciiBytes key) k)
    (ht : (frontTokens size c.id c.key c.path ++ ts)[k + 1]? = some t) :
    getJsonIntValue (frontTokens size c.id c.key c.path ++ ts) 1 (asciiBytes key) = t.int :=
  getJsonIntValue_of_find
    (findToken_append_left ((findToken_front h htag.1).trans htag.2)) ht

theorem readDatastore_front (h : c.Distinct) :
    readDatastore (frontTokens size c.id c.key c.path ++ ts) 1 {} =
      .ok (initialDatastore c.path) := by
  unfold readDatastore
  rw [getJsonStringValue_front "Type" 9 h (by decide) rfl,
    getJsonStringValue_front "Path" 11 h (by decide) rfl,
    getJsonStringValue_front "StorageMax" 13 h (by decide) rfl,
    getJsonIntValue_front "StorageGCWatermark" 15 h (by decide) rfl,
    getJsonStringValue_front "GCPeriod" 17 h (by decide) rfl,
    getJsonStringValue_front "Params" 19 h (by decide) rfl,
    getJsonIntValue_front "NoSync" 21 h (by decide) rfl,
    getJsonIntValue_front "HashOnRead" 23 h (by decide) rfl,
    getJsonIntValue_front "BloomFilterSize" 25 h (by decide) rfl]
  have hwatermark : (Leaf.primitive (intText 90)).tok.int = .ok (some 90) := by decide +kernel
  have hzero : (Leaf.primitive (intText 0)).tok.int = .ok (some 0) := by decide +kernel
  have hfalse : (Leaf.primitive (asciiBytes "false")).tok.int = .ok (some 0) := by decide
  simp only [ok_bind, hwatermark, hzero, hfalse]
  rfl

/-- **the identity** that was generated -/
theorem readIdentity_front {sha256 : List UInt8 → Digest} {rsa : RsaLibrary} {identity : Identity}
    {peer : IdentityPeer} (h : c.Distinct) (hgenerated : identity.Generated sha256 rsa)
    (hpeer : identity.peer = some peer) (hid : c.id = peer.id)
    (hkey : c.key = base64Chars (keyProtobuf identity.privateKey)) :
    readIdentity sha256 rsa (frontTokens size c.id c.key c.path ++ ts) 1 {} =
      .ok (some
        { privateKey := identity.privateKey
          peer := some { id := peer.id, isLocal := true } }) := by
  obtain ⟨peer', hpeer', hbuild⟩ := buildPrivateKey_generated hgenerated {}
  obtain rfl : peer = peer' := Option.some.inj (hpeer.symm.trans hpeer')
  unfold readIdentity
  rw [getJsonStringValue_front "PeerID" 3 h (by decide) rfl, ok_bind,
    getJsonStringValue_front "PrivKey" 5 h (by decide) rfl, ok_bind]
  show (repoConfigIdentityBuildPrivateKey sha256 rsa {} c.key >>= _) = _
  rw [hkey, hbuild, ok_bind]
  show (if c.id ≠ peer.id then _ else _) = _
  rw [if_neg (not_not.2 hid)]
  rfl

theorem findToken_stringToks {texts : List (List UInt8)} (h : tag ∉ texts) :
    findToken (stringToks texts) 0 tag = none := by
  refine findToken_eq_none.2 ?_
  rintro t ht ⟨-, htext⟩
  obtain ⟨text, hmem, rfl⟩ := List.mem_map.1 ht
  exact h (htext ▸ hmem)

/-- from the addresses on, behind those of the swarm -/
theorem findToken_behind {texts : List (List UInt8)} (h : c.Distinct) (htag : KeyLike tag)
    (hfront : findToken (frontTokens 0 [] [] []) 27 tag = none) (htexts : tag ∉ texts) :
    findToken (frontTokens size c.id c.key c.path ++ (stringToks texts ++ ts)) 27 tag =
      (findToken ts 0 tag).map fun i => 31 + (texts.length + i) := by
  have hlen : (frontTokens size c.id c.key c.path).length = 31 := rfl
  rw [findToken_append_none (by rw [hlen]; omega) ((findToken_front h htag).trans hfront),
    findToken_append_none (Nat.zero_le _) (findToken_stringToks htexts), Option.map_map, hlen]
  unfold stringToks
  rw [List.length_map]
  rfl

theorem toks_behind {texts : List (List UInt8)} {id key path : List UInt8} (k : Nat) :
    (frontTokens size id key path ++ (stringToks texts ++ ts))[31 + (texts.length + k)]? =
      ts[k]? := by
  have hlen : (frontTokens size id key path).length = 31 := rfl
  have hstrings : (stringToks texts).length = texts.length := List.length_map _
  rw [List.getElem?_append_right (by rw [hlen]; omega), hlen, Nat.add_sub_cancel_left,
    List.getElem?_append_right (by rw [hstrings]; omega), hstrings, Nat.add_sub_cancel_left]

/-- all strings of an array, and what is made of them -/
theorem readSwarm_stringToks {texts : List (List UInt8)} (before after : List JsmnTok)
    (h : ∀ text ∈ texts, Safe (multiaddressNewFromString text)) :
    ∃ addrs, readSwarm (before ++ (stringToks texts ++ after)) texts.length before.length =
      .ok (texts, addrs) := by
  induction texts generalizing before with
  | nil => exact ⟨[], rfl⟩
  | cons text texts ih =>
    obtain ⟨ma, hma⟩ := h text List.mem_cons_self
    obtain ⟨addrs, hrest⟩ := ih (before ++ [stringTok text 0])
      fun t ht => h t (List.mem_cons_of_mem _ ht)
    have htoks : before ++ [stringTok text 0] ++ (stringToks texts ++ after) =
        before ++ (stringToks (text :: texts) ++ after) := List.append_assoc _ _ _
    have hat : (before ++ (stringToks (text :: texts) ++ after))[before.length]? =
        some (stringTok text 0) := by
      rw [List.getElem?_append_right (Nat.le_refl _), Nat.sub_self]
      rfl
    rw [htoks, List.length_append] at hrest
    refine ⟨ma.toList ++ addrs, ?_⟩
    rw [List.length_cons, readSwarm, getJsonStringValue_at hat, ok_bind]
    show (multiaddressNewFromString text >>= _) = _
    rw [hma, ok_bind]
    show (readSwarm _ texts.length (before.length + 1) >>= _) = _
    rw [show before.length + 1 = before.length + [stringTok text 0].length from rfl, hrest]
    rfl

/-- all of them are converted -/
theorem readPeers_stringToks {peers : List ConfigAddress} (before after : List JsmnTok)
    (h : ∀ p ∈ peers, multiaddressNewFromString p.string = .ok (some p.bytes)) :
    readPeers (before ++ (stringToks (peers.map ConfigAddress.string) ++ after)) peers.length
      before.length = .ok peers := by
  induction peers generalizing before with
  | nil => rfl
  | cons p peers ih =>
    have hrest := ih (before ++ [stringTok p.string 0])
      fun q hq => h q (List.mem_cons_of_mem _ hq)
    have htoks : before ++ [stringTok p.string 0] ++
          (stringToks (peers.map ConfigAddress.string) ++ after) =
        before ++ (stringToks ((p :: peers).map ConfigAddress.string) ++ after) :=
      List.append_assoc _ _ _
    have hat : (before ++ (stringToks ((p :: peers).map ConfigAddress.string) ++ after))[
        before.length]? = some (stringTok p.string 0) := by
      rw [List.getElem?_append_right (Nat.le_refl _), Nat.sub_self]
      rfl
    rw [htoks, List.length_append] at hrest
    rw [List.length_cons, readPeers, getJsonStringValue_at hat, ok_bind]
    show (multiaddressNewFromString p.string >>= _) = _
    rw [h p List.mem_cons_self, ok_bind]
    show (readPeers _ peers.length (before.length + 1) >>= _) = _
    rw [show before.length + 1 = before.length + [stringTok p.string 0].length from rfl, hrest]
    rfl

theorem findToken_toks (key : String) (k : Nat) (h : c.Distinct)
    (htag : InMiddle (asciiBytes key) k) (hswarm : asciiBytes key ∉ c.swarm) :
    findToken c.toks 27 (asciiBytes key) = some (31 + (c.swarm.length + k)) := by
  obtain ⟨hkey, hfront, hmiddle⟩ := htag
  unfold ConfigTexts.toks
  rw [findToken_behind h hkey hfront hswarm,
    findToken_append_left ((findToken_middle h hkey).trans hmiddle)]
  rfl

theorem getJsonStringValue_toks (key : String) (k : Nat) (h : c.Distinct)
    (htag : InMiddle (asciiBytes key) k) (hswarm : asciiBytes key ∉ c.swarm)
    (ht : ∀ ts, (middleTokens c.bootstrap.length c.api c.gateway ++ ts)[k + 1]? = some t) :
    getJsonStringValue c.toks 27 (some (asciiBytes key)) = .ok t.string :=
  getJsonStringValue_of_find (findToken_toks key k h htag hswarm)
    ((@toks_behind _ _ _ _ _ _ (k + 1)).trans (ht _))

/-- a text of the swarm that is the name of a value hides the value, unless it stands behind the
first such text as well -/
def NotHidden (swarm : List (List UInt8)) (key : String) (text : List UInt8) : Prop :=
  ∀ before after, swarm = before ++ asciiBytes key :: after → asciiBytes key ∉ before →
    after.head? = some text

theorem notHidden_of_not_mem {swarm : List (List UInt8)} {key : String} {text : List UInt8}
    (h : asciiBytes key ∉ swarm) : NotHidden swarm key text := by
  intro before after hswarm _
  refine absurd ?_ h
  rw [hswarm]
  exact List.mem_append_right _ List.mem_cons_self

/-- a name is found among the texts of the swarm -/
theorem findToken_swarm {before after : List (List UInt8)} {key : List UInt8} (h : c.Distinct)
    (htag : KeyLike key ∧ findToken (frontTokens 0 [] [] []) 27 key = none)
    (hswarm : c.swarm = before ++ key :: after) (hfirst : key ∉ before) :
    findToken c.toks 27 key = some (31 + before.length) ∧
      c.toks[31 + before.length + 1]? =
        some (stringTok (after.head?.getD (asciiBytes "API")) (if after = [] then 1 else 0)) := by
  have hsplit : stringToks c.swarm = stringToks before ++ (stringTok key 0 :: stringToks after) := by
    unfold stringToks
    rw [hswarm, List.map_append, List.map_cons]
  have hfound : findToken (stringTok key 0 :: stringToks after ++
      (middleTokens c.bootstrap.length c.api c.gateway ++ (stringToks c.bootstrap ++
        backTokens c.headers))) 0 key = some 0 := by
    unfold findToken
    rw [List.drop_zero, List.cons_append, List.findIdx?_cons,
      if_pos (decide_eq_true (show (stringTok key 0).Tagged key from ⟨rfl, rfl⟩))]
    rfl
  unfold ConfigTexts.toks
  rw [hsplit, List.append_assoc]
  constructor
  · rw [findToken_behind h htag.1 htag.2 hfirst, hfound]
    rfl
  · rw [show 31 + before.length + 1 = 31 + (before.length + 1) from rfl, toks_behind]
    cases after with
    | nil => rfl
    | cons text after => rfl

/-- a value of the addresses is found when its name is not among the texts of the swarm -/
theorem getJsonStringValue_toks_iff {text : List UInt8} (key : String) (k : Nat) (h : c.Distinct)
    (htag : InMiddle (asciiBytes key) k) (htext : 47 ∈ text)
    (ht : ∀ ts, (middleTokens c.bootstrap.length c.api c.gateway ++ ts)[k + 1]? =
      some (stringTok text 0)) :
    getJsonStringValue c.toks 27 (some (asciiBytes key)) = .ok (.text text) ↔
      NotHidden c.swarm key text := by
  have hne : asciiBytes "API" ≠ text := fun he => by
    have hslash : 47 ∉ asciiBytes "API" := by decide
    exact hslash (he ▸ htext)
  by_cases hmem : asciiBytes key ∈ c.swarm
  · obtain ⟨before, after, hswarm, hfirst⟩ := List.eq_append_cons_of_mem hmem
    obtain ⟨hfind, hnext⟩ := findToken_swarm h ⟨htag.1, htag.2.1⟩ hswarm hfirst
    rw [getJsonStringValue_of_find hfind hnext]
    show Except.ok (JsonString.text (after.head?.getD (asciiBytes "API"))) = _ ↔ _
    rw [Except.ok.injEq, JsonString.text.injEq]
    constructor
    · intro hhead before' after' hswarm' hfirst'
      -- there is one first place
      have hlength : before.length = before'.length := by
        obtain ⟨hfind', _⟩ := findToken_swarm h ⟨htag.1, htag.2.1⟩ hswarm' hfirst'
        have heq := Option.some.inj (hfind.symm.trans hfind')
        omega
      have hsame := hswarm.symm.trans hswarm'
      obtain ⟨_, hcons⟩ := List.append_inj hsame hlength
      obtain rfl := (List.cons.inj hcons).2
      cases after with
      | nil => exact absurd hhead hne
      | cons next after => exact congrArg some hhead
    · intro hnot
      rw [hnot before after hswarm hfirst]
      rfl
  · refine iff_of_true ?_ (notHidden_of_not_mem hmem)
    exact getJsonStringValue_toks key k h htag hmem ht

/-- **the addresses** of the file -/
theorem readAddresses_toks_iff (h : c.Distinct) :
    (∃ addrs, readAddresses c.toks 27 {} =
      .ok (some ({ swarm := c.swarm, api := some c.api, gateway := some c.gateway }, addrs))) ↔
      (∀ text ∈ c.swarm, Safe (multiaddressNewFromString text)) ∧
        NotHidden c.swarm "API" c.api ∧ NotHidden c.swarm "Gateway" c.gateway := by
  have hswarm : findToken c.toks 27 (asciiBytes "Swarm") = some 29 :=
    findToken_append_left ((findToken_front h (by decide)).trans (by decide))
  have htoken : tokenAt c.toks 30 = .ok { type := .array, size := c.swarm.length } := rfl
  have hread : readAddresses c.toks 27 {} = (readSwarm c.toks c.swarm.length 31 >>= fun read =>
      getJsonStringValue c.toks 27 (some (asciiBytes "API")) >>= fun api =>
        getJsonStringValue c.toks 27 (some (asciiBytes "Gateway")) >>= fun gateway =>
          .ok (some ({ swarm := read.1, api := api.store none, gateway := gateway.store none },
            read.2))) := by
    unfold readAddresses
    rw [hswarm]
    show (tokenAt c.toks 30 >>= _) = _
    rw [htoken, ok_bind]
    rfl
  have hapi := getJsonStringValue_toks_iff "API" 0 h (by decide) h.api fun ts => rfl
  have hgateway :=
    getJsonStringValue_toks_iff "Gateway" 2 h (by decide) h.gateway fun ts => rfl
  have hstore {value : JsonString} {text : List UInt8} (hv : value.store none = some text) :
      value = .text text := by
    cases value with
    | untouched => cases hv
    | null => cases hv
    | text string => exact congrArg JsonString.text (Option.some.inj hv)
  rw [← hapi, ← hgateway, hread]
  constructor
  · intro ⟨addrs, hok⟩
    obtain ⟨⟨swarm, addrs'⟩, hswarm, hok⟩ := bind_eq_ok.1 hok
    obtain ⟨api, hapi, hok⟩ := bind_eq_ok.1 hok
    obtain ⟨gateway, hgateway, hok⟩ := bind_eq_ok.1 hok
    obtain ⟨haddresses, _⟩ := Prod.mk.inj (Option.some.inj (Except.ok.inj hok))
    obtain ⟨hs, ha, hg⟩ := ConfigAddresses.mk.inj haddresses
    obtain rfl : swarm = c.swarm := hs
    rw [hstore ha] at hapi
    rw [hstore hg] at hgateway
    exact ⟨fun text ht => (readSwarm_eq_ok hswarm text ht).2, hapi, hgateway⟩
  · intro ⟨hsafe, hapi, hgateway⟩
    obtain ⟨addrs, hswarm⟩ := readSwarm_stringToks (frontTokens c.swarm.length c.id c.key c.path)
      (middleTokens c.bootstrap.length c.api c.gateway ++ (stringToks c.bootstrap ++
        backTokens c.headers)) hsafe
    have hswarm : readSwarm c.toks c.swarm.length 31 = .ok (c.swarm, addrs) := hswarm
    refine ⟨addrs, ?_⟩
    rw [hswarm, ok_bind, hapi, ok_bind, hgateway]
    rfl

/-- **the bootstrap peers** of the file -/
theorem readBootstrap_toks_iff {peers : List ConfigAddress} {old : Option (List ConfigAddress)}
    (h : c.Distinct) (hpeers : c.bootstrap = peers.map ConfigAddress.string) :
    readBootstrap c.toks 27 old = .ok (some (some peers)) ↔ asciiBytes "Bootstrap" ∉ c.swarm ∧
      ∀ p ∈ peers, multiaddressNewFromString p.string = .ok (some p.bytes) := by
  by_cases hmem : asciiBytes "Bootstrap" ∈ c.swarm
  · refine iff_of_false ?_ fun hnot => hnot.1 hmem
    obtain ⟨before, after, hswarm, hfirst⟩ := List.eq_append_cons_of_mem hmem
    obtain ⟨hfind, hnext⟩ := findToken_swarm h (by decide) hswarm hfirst
    unfold readBootstrap tokenAt
    rw [hfind]
    simp only
    rw [hnext]
    exact fun hok => nomatch hok
  have hfind := findToken_toks "Bootstrap" 28 h (by decide) hmem
  have htoken : tokenAt c.toks (31 + (c.swarm.length + 28) + 1) =
      .ok { type := .array, size := c.bootstrap.length } := by
    unfold tokenAt ConfigTexts.toks
    rw [show 31 + (c.swarm.length + 28) + 1 = 31 + (c.swarm.length + 29) from rfl, toks_behind]
    rfl
  have hsize : c.bootstrap.length = peers.length := by rw [hpeers, List.length_map]
  have hreads : readBootstrap c.toks 27 old =
      (readPeers c.toks peers.length (31 + (c.swarm.length + 28) + 2) >>= fun peers =>
        .ok (some (some peers))) := by
    unfold readBootstrap
    rw [hfind]
    show (tokenAt c.toks (31 + (c.swarm.length + 28) + 1) >>= _) = _
    rw [htoken, ok_bind, hsize]
    rfl
  rw [hreads, and_iff_right hmem]
  constructor
  · intro hok p hp
    obtain ⟨peers', hread, hok⟩ := bind_eq_ok.1 hok
    obtain rfl : peers' = peers := Option.some.inj (Option.some.inj (Except.ok.inj hok))
    exact (readPeers_eq_ok hread p hp).2
  · intro hback
    have hread := readPeers_stringToks (frontTokens c.swarm.length c.id c.key c.path ++
      (stringToks c.swarm ++ middleTokens c.bootstrap.length c.api c.gateway))
      (backTokens c.headers) hback
    have hlen : (frontTokens c.swarm.length c.id c.key c.path ++ (stringToks c.swarm ++
        middleTokens c.bootstrap.length c.api c.gateway)).length =
          31 + (c.swarm.length + 28) + 2 := by
      have hmiddle : (middleTokens c.bootstrap.length c.api c.gateway).length = 30 := rfl
      have hfront : (frontTokens c.swarm.length c.id c.key c.path).length = 31 := rfl
      unfold stringToks
      rw [List.length_append, List.length_append, List.length_map, hfront, hmiddle]
      rfl
    have htoks : frontTokens c.swarm.length c.id c.key c.path ++ (stringToks c.swarm ++
        middleTokens c.bootstrap.length c.api c.gateway) ++
          (stringToks (peers.map ConfigAddress.string) ++ backTokens c.headers) = c.toks := by
      unfold ConfigTexts.toks
      rw [hpeers, List.append_assoc, List.append_assoc]
    rw [htoks, hlen] at hread
    rw [hread]
    rfl

end

/-! ## what is read -/

/-- the values of a file are found in its tokens, and the addresses among them can be converted -/
structure ConfigTexts.Findable (c : ConfigTexts) (peers : List ConfigAddress) : Prop where
  swarm : ∀ text ∈ c.swarm, Safe (multiaddressNewFromString text)
  api : NotHidden c.swarm "API" c.api
  gateway : NotHidden c.swarm "Gateway" c.gateway
  bootstrap : asciiBytes "Bootstrap" ∉ c.swarm
  peers : ∀ p ∈ peers, multiaddressNewFromString p.string = .ok (some p.bytes)
  replication : Safe (readReplication c.toks 27 {})

section
variable {sha256 : List UInt8 → Digest} {rsa : RsaLibrary} {c : ConfigTexts}
  {peers : List ConfigAddress} {identity : Identity} {peer : IdentityPeer}

/-- **what is read** from the tokens of a file -/
theorem readTokens_toks_iff (h : c.Distinct) (hgenerated : identity.Generated sha256 rsa)
    (hpeer : identity.peer = some peer) (hid : c.id = peer.id)
    (hkey : c.key = base64Chars (keyProtobuf identity.privateKey))
    (hpeers : c.bootstrap = peers.map ConfigAddress.string) :
    (∃ r, readTokens sha256 rsa c.toks {} = .ok (some r) ∧
        r.identity.privateKey = identity.privateKey ∧
        r.identity.peer.map IdentityPeer.id = some peer.id ∧
        r.datastore = initialDatastore c.path ∧
        r.addresses = { swarm := c.swarm, api := some c.api, gateway := some c.gateway } ∧
        r.bootstrapPeers = some peers) ↔ c.Findable peers := by
  have hidentityPos : findToken c.toks 0 (asciiBytes "Identity") = some 1 :=
    findToken_append_left ((findToken_front h (by decide)).trans (by decide))
  have haddressesPos : findToken c.toks 1 (asciiBytes "Addresses") = some 27 :=
    findToken_append_left ((findToken_front h (by decide)).trans (by decide))
  have hidentity : readIdentity sha256 rsa c.toks 1 {} = _ :=
    readIdentity_front h hgenerated hpeer hid hkey
  have hdatastore : readDatastore c.toks 1 {} = _ := readDatastore_front h
  unfold readTokens
  rw [hidentityPos]
  simp only
  rw [hidentity, ok_bind]
  simp only
  rw [hdatastore, ok_bind, haddressesPos]
  simp only [deref_some, ok_bind]
  constructor
  · intro h
    obtain ⟨r, hok, _, _, _, haddresses, hbootstrap⟩ := h
    obtain ⟨read, hswarm, hok⟩ := bind_eq_ok.1 hok
    cases read with
    | none => cases hok
    | some read =>
      obtain ⟨addresses, addrs⟩ := read
      obtain ⟨boot, hboot, hok⟩ := bind_eq_ok.1 hok
      cases boot with
      | none => cases hok
      | some boot =>
        obtain ⟨replication, hreplication, hok⟩ := bind_eq_ok.1 hok
        cases hok
        obtain rfl : addresses = _ := haddresses
        obtain rfl : boot = _ := hbootstrap
        obtain ⟨hsafe, hapi, hgateway⟩ := (readAddresses_toks_iff h).1 ⟨addrs, hswarm⟩
        obtain ⟨hmem, hback⟩ := (readBootstrap_toks_iff h hpeers).1 hboot
        exact ⟨hsafe, hapi, hgateway, hmem, hback, ⟨replication, hreplication⟩⟩
  · intro h
    obtain ⟨hsafe, hapi, hgateway, hmem, hback, ⟨replication, hreplication⟩⟩ := h
    obtain ⟨addrs, hswarm⟩ := (readAddresses_toks_iff h).2 ⟨hsafe, hapi, hgateway⟩
    have hboot : readBootstrap c.toks 27 none = _ := (readBootstrap_toks_iff h hpeers).2 ⟨hmem, hback⟩
    rw [hswarm, ok_bind]
    simp only
    rw [hboot, ok_bind]
    simp only
    rw [hreplication]
    exact ⟨_, rfl, rfl, rfl, rfl, rfl, rfl⟩

end

section
variable {sha256 : List UInt8 → Digest} {rsa : RsaLibrary} {tokens : List JsmnTok}
  {r : RepoConfig}

/-- **what is read** stands in a string of the file, and the addresses are made of them -/
theorem readTokens_eq_ok (h : readTokens sha256 rsa tokens {} = .ok (some r)) :
    (∀ path, r.datastore.path = some path → StringIn tokens path) ∧
    (∀ text ∈ r.addresses.swarm,
      StringIn tokens text ∧ Safe (multiaddressNewFromString text)) ∧
    (∀ peers, r.bootstrapPeers = some peers → ∀ p ∈ peers, StringIn tokens p.string ∧
      multiaddressNewFromString p.string = .ok (some p.bytes)) := by
  unfold readTokens at h
  split at h
  · cases h
  obtain ⟨identity, -, h⟩ := bind_eq_ok.1 h
  split at h
  · cases h
  rename_i identity
  obtain ⟨datastore, hdatastore, h⟩ := bind_eq_ok.1 h
  dsimp only at h
  split at h
  · cases h
  obtain ⟨addresses, haddresses, h⟩ := bind_eq_ok.1 h
  split at h
  · cases h
  rename_i addresses addrs
  obtain ⟨peer, -, h⟩ := bind_eq_ok.1 h
  obtain ⟨bootstrap, hbootstrap, h⟩ := bind_eq_ok.1 h
  split at h
  · cases h
  rename_i bootstrap
  obtain ⟨replication, -, h⟩ := bind_eq_ok.1 h
  obtain rfl := Option.some.inj (Except.ok.inj h)
  refine ⟨fun path hpath => readDatastore_path hdatastore hpath, ?_, ?_⟩
  · unfold readAddresses at haddresses
    dsimp only at haddresses
    obtain ⟨array, -, haddresses⟩ := bind_eq_ok.1 haddresses
    split at haddresses
    · cases haddresses
    obtain ⟨⟨swarm, addrs'⟩, hswarm, haddresses⟩ := bind_eq_ok.1 haddresses
    obtain ⟨api, -, haddresses⟩ := bind_eq_ok.1 haddresses
    obtain ⟨gateway, -, haddresses⟩ := bind_eq_ok.1 haddresses
    obtain ⟨rfl, -⟩ := Prod.mk.inj (Option.some.inj (Except.ok.inj haddresses))
    exact readSwarm_eq_ok hswarm
  · rintro peers hpeers
    unfold readBootstrap at hbootstrap
    split at hbootstrap
    · obtain rfl := Option.some.inj (Except.ok.inj hbootstrap)
      cases hpeers
    obtain ⟨array, -, hbootstrap⟩ := bind_eq_ok.1 hbootstrap
    split at hbootstrap
    · cases hbootstrap
    obtain ⟨peers', hread, hbootstrap⟩ := bind_eq_ok.1 hbootstrap
    obtain rfl := Option.some.inj (Except.ok.inj hbootstrap)
    obtain rfl : peers' = peers := Option.some.inj hpeers
    exact readPeers_eq_ok hread

end

end Ipfs
