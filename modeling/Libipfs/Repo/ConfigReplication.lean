import Libipfs.Repo.ConfigRead

/-!
# The replication peers of the config file

The file has none, but a text in it may be called what they would be called, and a header behind it
may be taken for the list of them.

* `behindToken`           what stands behind the first string with a text;
* `ShowsNames`            tokens among which these names are, with the value of those of a header;
* `replicationPeer`       the value that is taken for a peer;
* `safe_readReplication_iff`   when what is found is read;
* `safe_readReplication_toks`  **when what is found in a file is read**.
-/

namespace Ipfs
open CSem Libp2p

/-! ## what is behind a token -/

def behindToken (tag : List UInt8) : List JsmnTok → Option (List JsmnTok)
  | [] => none
  | t :: ts => if t.Tagged tag then some ts else behindToken tag ts

section
variable {us ts : List JsmnTok} {tag : List UInt8} {start i : Nat} {t : JsmnTok}

theorem behindToken_eq (us : List JsmnTok) (start : Nat) (tag : List UInt8) :
    behindToken tag (us.drop start) = (findToken us start tag).map fun i => us.drop (i + 1) := by
  have hbehind : ∀ vs : List JsmnTok, behindToken tag vs =
      (vs.findIdx? fun t => t.Tagged tag).map fun k => vs.drop (k + 1) := by
    intro vs
    induction vs with
    | nil => rfl
    | cons t vs ih =>
      rw [behindToken, List.findIdx?_cons]
      by_cases ht : t.Tagged tag
      · rw [if_pos ht, if_pos (decide_eq_true ht)]
        rfl
      · rw [if_neg ht, if_neg (by simpa using ht), ih, Option.map_map]
        rfl
  unfold findToken
  rw [hbehind, Option.map_map]
  congr 1
  funext k
  show (us.drop start).drop (k + 1) = us.drop (start + k + 1)
  rw [List.drop_drop]
  rfl

theorem findToken_tagged (h : findToken us start tag = some i) :
    ∃ t, us[i]? = some t ∧ t.Tagged tag := by
  unfold findToken at h
  obtain ⟨k, hk, rfl⟩ := Option.map_eq_some_iff.1 h
  obtain ⟨hlt, htag, -⟩ := List.findIdx?_eq_some_iff_getElem.1 hk
  refine ⟨_, ?_, of_decide_eq_true htag⟩
  rw [← List.getElem?_drop]
  exact List.getElem?_eq_getElem hlt

theorem tokenAt_of_drop (h : us.drop i = t :: ts) : tokenAt us i = .ok t := by
  have hget : us[i]? = some t := by
    rw [← Nat.add_zero i, ← List.getElem?_drop, h]
    rfl
  unfold tokenAt
  rw [hget]

/-- a number is looked for behind a string, and there is a token behind every string -/
theorem safe_getJsonIntValue (hlast : ∀ t, us.getLast? = some t → t.type ≠ .string)
    (hint : ∀ t ∈ us, Safe t.int) (start : Nat) (tag : List UInt8) :
    Safe (getJsonIntValue us start tag) := by
  unfold getJsonIntValue
  cases hfind : findToken us start tag with
  | none => exact safe_ok _
  | some pos =>
    obtain ⟨t, ht, htag⟩ := findToken_tagged hfind
    obtain ⟨hlt, -⟩ := List.getElem?_eq_some_iff.1 ht
    have hnext : pos + 1 < us.length := by
      by_contra hend
      have hpos : pos = us.length - 1 := by omega
      rw [hpos, ← List.getLast?_eq_getElem?] at ht
      exact hlast t ht htag.1
    have hget : us[pos + 1]? = some us[pos + 1] := List.getElem?_eq_getElem hnext
    unfold tokenAt
    simp only
    rw [hget]
    exact hint _ (List.getElem_mem hnext)

end

/-! ## the names that count -/

/-- the texts from the swarm on, the name of a header with the value of the header -/
def ConfigTexts.named (c : ConfigTexts) : List (List UInt8 × Option (List UInt8)) :=
  c.swarm.map (fun text => (text, none)) ++ (c.bootstrap.map (fun text => (text, none)) ++
    c.headers.flatMap fun h => [(h.header, some h.value), (h.value, none)])

/-- the value of a header called `Peers`, when that is the first text of this name behind one that
is called `Replication` -/
def replicationPeer (names : List (List UInt8 × Option (List UInt8))) : Option (List UInt8) :=
  ((names.dropWhile fun x => x.1 ≠ asciiBytes "Replication").find? fun x =>
    x.1 = asciiBytes "Peers").bind Prod.snd

/-- an address in it is converted, and its id has room in the log -/
def PeerReadable (val : List UInt8) : Prop :=
  ∃ ma, multiaddressNewFromString val = .ok ma ∧
    (ma ≠ none → ((multiaddressGetPeerId val).getD []).length < 100)

/-- the array of a header -/
def headerArray : JsmnTok := { type := .array, size := 1 }

def Unnamed (t : JsmnTok) : Prop :=
  ¬ t.Tagged (asciiBytes "Replication") ∧ ¬ t.Tagged (asciiBytes "Peers")

/-- a name is left out when it is neither of the two -/
inductive ShowsNames : List JsmnTok → List (List UInt8 × Option (List UInt8)) → Prop
  | nil : ShowsNames [] []
  | other {t : JsmnTok} {ts : List JsmnTok} {names : List (List UInt8 × Option (List UInt8))} :
      Unnamed t → ShowsNames ts names → ShowsNames (t :: ts) names
  | text {text : List UInt8} {size : Nat} {next : JsmnTok} {ts : List JsmnTok}
      {names : List (List UInt8 × Option (List UInt8))} :
      next.type ≠ .array → ShowsNames (next :: ts) names →
        ShowsNames (stringTok text size :: next :: ts) ((text, none) :: names)
  | header {text val : List UInt8} {ts : List JsmnTok}
      {names : List (List UInt8 × Option (List UInt8))} :
      ShowsNames (headerArray :: stringTok val 0 :: ts) names →
        ShowsNames (stringTok text 1 :: headerArray :: stringTok val 0 :: ts)
          ((text, some val) :: names)

section
variable {us ts : List JsmnTok} {tag : List UInt8} {start i : Nat} {t next : JsmnTok}
  {names : List (List UInt8 × Option (List UInt8))}

theorem tagged_stringTok {text : List UInt8} {size : Nat} :
    (stringTok text size).Tagged tag ↔ text = tag :=
  ⟨fun h => h.2, fun h => ⟨rfl, h⟩⟩

theorem unnamed_of_type (h : t.type ≠ .string) : Unnamed t :=
  ⟨fun ht => h ht.1, fun ht => h ht.1⟩

/-- a text called `Replication` is found among the names where it is found among the tokens -/
def FoundTogether (names : List (List UInt8 × Option (List UInt8))) (ts : List JsmnTok) : Prop :=
  ((names.dropWhile fun x => x.1 ≠ asciiBytes "Replication") = [] ∧
    behindToken (asciiBytes "Replication") ts = none) ∨
  ∃ val names' ts',
    (names.dropWhile fun x => x.1 ≠ asciiBytes "Replication") =
      (asciiBytes "Replication", val) :: names' ∧
    behindToken (asciiBytes "Replication") ts = some ts' ∧ ShowsNames ts' names'

theorem FoundTogether.string {text : List UInt8} {size : Nat} {val : Option (List UInt8)}
    (hshows : ShowsNames ts names) (h : FoundTogether names ts) :
    FoundTogether ((text, val) :: names) (stringTok text size :: ts) := by
  unfold FoundTogether
  by_cases htext : text = asciiBytes "Replication"
  · refine .inr ⟨val, names, ts, ?_, ?_, hshows⟩
    · rw [List.dropWhile_cons_of_neg (by simpa using htext), htext]
    · rw [behindToken, if_pos (tagged_stringTok.2 htext)]
  · rw [List.dropWhile_cons_of_pos (by simpa using htext), behindToken,
      if_neg (fun h => htext (tagged_stringTok.1 h))]
    exact h

theorem ShowsNames.replication (h : ShowsNames ts names) : FoundTogether names ts := by
  induction h with
  | nil => exact .inl ⟨rfl, rfl⟩
  | other ht _ ih =>
    unfold FoundTogether
    rw [behindToken, if_neg ht.1]
    exact ih
  | text _ hshows ih => exact ih.string hshows
  | header hshows ih => exact ih.string hshows

/-- **a text called `Peers`** is found where it stands, and has an array behind it when it is the
name of a header -/
theorem ShowsNames.peers (h : ShowsNames ts names) :
    ((names.find? fun x => x.1 = asciiBytes "Peers") = none ∧
      behindToken (asciiBytes "Peers") ts = none) ∨
    (∃ text next ts', (names.find? fun x => x.1 = asciiBytes "Peers") = some (text, none) ∧
      behindToken (asciiBytes "Peers") ts = some (next :: ts') ∧ next.type ≠ .array) ∨
    ∃ text val ts', (names.find? fun x => x.1 = asciiBytes "Peers") = some (text, some val) ∧
      behindToken (asciiBytes "Peers") ts = some (headerArray :: stringTok val 0 :: ts') := by
  induction h with
  | nil => exact .inl ⟨rfl, rfl⟩
  | other ht _ ih =>
    rw [behindToken, if_neg ht.2]
    exact ih
  | @text text size next ts names hnext _ ih =>
    by_cases htext : text = asciiBytes "Peers"
    · refine .inr (.inl ⟨text, next, ts, ?_, ?_, hnext⟩)
      · rw [List.find?_cons_of_pos (by simpa using htext)]
      · rw [behindToken, if_pos (tagged_stringTok.2 htext)]
    · rw [List.find?_cons_of_neg (by simpa using htext), behindToken,
        if_neg (fun h => htext (tagged_stringTok.1 h))]
      exact ih
  | @header text val ts names _ ih =>
    by_cases htext : text = asciiBytes "Peers"
    · refine .inr (.inr ⟨text, val, ts, ?_, ?_⟩)
      · rw [List.find?_cons_of_pos (by simpa using htext)]
      · rw [behindToken, if_pos (tagged_stringTok.2 htext)]
    · rw [List.find?_cons_of_neg (by simpa using htext), behindToken,
        if_neg (fun h => htext (tagged_stringTok.1 h))]
      exact ih

/-- the one string of a header's array -/
theorem safe_readReplicationPeers_iff {val : List UInt8} (h : us[i]? = some (stringTok val 0)) :
    Safe (readReplicationPeers us i 1) ↔ PeerReadable val := by
  rw [readReplicationPeers, getJsonStringValue_at h, ok_bind]
  show Safe (multiaddressNewFromString val >>= _) ↔ _
  constructor
  · intro ⟨peers, hread⟩
    obtain ⟨ma, hma, hread⟩ := bind_eq_ok.1 hread
    refine ⟨ma, hma, fun hne => ?_⟩
    cases ma with
    | none => exact absurd rfl hne
    | some bytes => exact (require_bind_eq_ok.1 hread).1
  · intro ⟨ma, hma, hid⟩
    rw [hma, ok_bind]
    cases ma with
    | none => exact safe_ok _
    | some bytes => exact ⟨_, require_bind_eq_ok.2 ⟨hid (Option.some_ne_none _), rfl⟩⟩

/-- **what is found** is read, when a value that is taken for a peer is readable -/
theorem safe_readReplication_iff (h : ShowsNames (us.drop start) names)
    (hint : ∀ start tag, Safe (getJsonIntValue us start tag)) :
    Safe (readReplication us start {}) ↔
      ∀ val, replicationPeer names = some val → PeerReadable val := by
  have hne : asciiBytes "Replication" ≠ asciiBytes "Peers" := by decide
  unfold readReplication replicationPeer
  obtain ⟨hnames, hnone⟩ | ⟨val, names', ts, hnames, hsome, hshows⟩ := h.replication
  · rw [behindToken_eq, Option.map_eq_none_iff] at hnone
    rw [hnames, hnone]
    exact iff_of_true (safe_ok _) fun val hval => nomatch hval
  rw [behindToken_eq, Option.map_eq_some_iff] at hsome
  obtain ⟨pos, hpos, rfl⟩ := hsome
  obtain ⟨minutes, hminutes⟩ := hint (pos + 1) (asciiBytes "AnnounceMinutes")
  obtain ⟨announce, hannounce⟩ := hint (pos + 1) (asciiBytes "Announce")
  rw [hnames, List.find?_cons_of_neg (by simpa using hne), hpos]
  simp only
  rw [hminutes, ok_bind, hannounce, ok_bind]
  obtain ⟨hfind, hbehind⟩ | ⟨text, next, ts, hfind, hbehind, hnext⟩ |
    ⟨text, val, ts, hfind, hbehind⟩ := hshows.peers
  · rw [behindToken_eq, Option.map_eq_none_iff] at hbehind
    rw [hfind, hbehind]
    exact iff_of_true (safe_ok _) fun val hval => nomatch hval
  · rw [behindToken_eq, Option.map_eq_some_iff] at hbehind
    obtain ⟨nodesPos, hnodes, hdrop⟩ := hbehind
    rw [hfind, hnodes]
    simp only
    rw [tokenAt_of_drop hdrop, ok_bind, if_pos hnext]
    exact iff_of_true (safe_ok _) fun val hval => nomatch hval
  · rw [behindToken_eq, Option.map_eq_some_iff] at hbehind
    obtain ⟨nodesPos, hnodes, hdrop⟩ := hbehind
    have hval : us[nodesPos + 2]? = some (stringTok val 0) := by
      rw [show nodesPos + 2 = nodesPos + 1 + 1 from rfl, ← List.getElem?_drop, hdrop]
      rfl
    rw [hfind, hnodes]
    simp only
    rw [tokenAt_of_drop hdrop, ok_bind, if_neg (not_not.2 (show headerArray.type = .array from rfl))]
    show Safe (readReplicationPeers us (nodesPos + 2) 1 >>= _) ↔ _
    constructor
    · intro ⟨r, hread⟩ val' hval'
      obtain ⟨peers, hpeers, -⟩ := bind_eq_ok.1 hread
      obtain rfl : val = val' := Option.some.inj hval'
      exact (safe_readReplicationPeers_iff hval).1 ⟨peers, hpeers⟩
    · intro hreadable
      obtain ⟨peers, hpeers⟩ := (safe_readReplicationPeers_iff hval).2 (hreadable val rfl)
      rw [hpeers]
      exact safe_ok _

end

/-! ## the names of a file -/

section
variable {c : ConfigTexts} {us ts : List JsmnTok} {next : JsmnTok}
  {names : List (List UInt8 × Option (List UInt8))}

theorem ShowsNames.append_unnamed (hus : ∀ t ∈ us, Unnamed t) (h : ShowsNames ts names) :
    ShowsNames (us ++ ts) names := by
  induction us with
  | nil => exact h
  | cons t us ih =>
    obtain ⟨ht, hrest⟩ := List.forall_mem_cons.1 hus
    exact .other ht (ih hrest)

/-- the strings of an array have no array behind them -/
theorem ShowsNames.strings (texts : List (List UInt8)) (hnext : next.type ≠ .array)
    (h : ShowsNames (next :: ts) names) :
    ShowsNames (stringToks texts ++ next :: ts) (texts.map (fun text => (text, none)) ++ names) := by
  induction texts with
  | nil => exact h
  | cons text texts ih =>
    cases texts with
    | nil => exact .text hnext h
    | cons text' texts =>
      have hstring : (stringTok text' 0).type ≠ .array := fun h => JsmnType.noConfusion h
      exact .text hstring ih

/-- a header is a name with an array behind it, and its value is one with none -/
theorem ShowsNames.headers (headers : List HttpHeader) (hnext : next.type ≠ .array)
    (h : ShowsNames (next :: ts) names) :
    ShowsNames ((headersMembers headers).tokens ++ next :: ts)
      ((headers.flatMap fun h => [(h.header, some h.value), (h.value, none)]) ++ names) := by
  induction headers with
  | nil => exact h
  | cons first headers ih =>
    have harray : Unnamed headerArray := unnamed_of_type fun h => JsmnType.noConfusion h
    cases headers with
    | nil => exact .header (.other harray (.text hnext h))
    | cons second headers =>
      have hstring : (stringTok second.header 1).type ≠ .array := fun h => JsmnType.noConfusion h
      exact .header (.other harray (.text hstring ih))

/-- neither the keys of the file nor the texts that are not free -/
theorem unnamed_fixed (h : c.Distinct) :
    (∀ t ∈ (frontTokens c.swarm.length c.id c.key c.path).drop 27, Unnamed t) ∧
      (∀ t ∈ middleTokens c.bootstrap.length c.api c.gateway, Unnamed t) ∧
        (∀ t ∈ tourTokens, Unnamed t) ∧ ∀ t ∈ endTokens, Unnamed t := by
  have habsent : ∀ tag, KeyLike tag →
      findToken (frontTokens 0 [] [] []) 27 tag = none ∧
        findToken (middleTokens 0 [] []) 0 tag = none →
      Absent tag ((frontTokens c.swarm.length c.id c.key c.path).drop 27) ∧
        Absent tag (middleTokens c.bootstrap.length c.api c.gateway) := by
    intro tag htag ⟨hfront, hmiddle⟩
    have hnone : findToken (middleTokens c.bootstrap.length c.api c.gateway) 0 tag = none :=
      (findToken_middle h htag).trans hmiddle
    exact ⟨findToken_eq_none.1 ((findToken_front h htag).trans hfront), findToken_eq_none.1 hnone⟩
  obtain ⟨hfront, hmiddle⟩ :=
    habsent (asciiBytes "Replication") (by decide) (by decide)
  obtain ⟨hfront', hmiddle'⟩ := habsent (asciiBytes "Peers") (by decide) (by decide)
  refine ⟨fun t ht => ⟨hfront t ht, hfront' t ht⟩, fun t ht => ⟨hmiddle t ht, hmiddle' t ht⟩,
    ?_, ?_⟩
  · unfold Unnamed
    decide
  · unfold Unnamed
    decide

/-- **the names of a file** -/
theorem shows_toks (h : c.Distinct) : ShowsNames (c.toks.drop 27) c.named := by
  obtain ⟨hfront, hmiddle, htour, hend⟩ := unnamed_fixed h
  have hobject : Unnamed { type := .object, size := (headersMembers c.headers).size } :=
    unnamed_of_type fun h => JsmnType.noConfusion h
  have hstring : ∀ text size, (stringTok text size).type ≠ .array :=
    fun text size h => JsmnType.noConfusion h
  have hheaders : ShowsNames ((headersMembers c.headers).tokens ++ endTokens)
      ((c.headers.flatMap fun h => [(h.header, some h.value), (h.value, none)]) ++ []) := by
    have hnil : ShowsNames endTokens [] := by
      rw [← List.append_nil endTokens]
      exact ShowsNames.append_unnamed hend .nil
    exact ShowsNames.headers c.headers (hstring (asciiBytes "RootRedirect") 1) hnil
  have hback := ShowsNames.append_unnamed htour (.other hobject hheaders)
  have hbootstrap := ShowsNames.strings c.bootstrap (hstring (asciiBytes "Tour") 1) hback
  have hservices := ShowsNames.append_unnamed hmiddle hbootstrap
  have hswarm := ShowsNames.strings c.swarm (hstring (asciiBytes "API") 1) hservices
  rw [List.append_nil] at hswarm
  exact ShowsNames.append_unnamed hfront hswarm

theorem safe_of_isOk {α : Type} {x : Exec α} (h : x.isOk = true) : Safe x := by
  cases x with
  | ok value => exact safe_ok value
  | error e => cases h

/-- a token that is no primitive is no number -/
theorem safe_int_of_primitives (primitives : List JsmnTok)
    (hfilter : (ts.filter fun t => t.type = .primitive) = primitives)
    (hall : ∀ t ∈ primitives, t.int.isOk = true) : ∀ t ∈ ts, Safe t.int := by
  intro t ht
  by_cases htype : t.type = .primitive
  · exact safe_of_isOk (hall t (hfilter ▸ List.mem_filter.2 ⟨ht, decide_eq_true htype⟩))
  · unfold JsmnTok.int
    rw [if_pos htype]
    exact safe_ok _

/-- every number of a file can be read -/
theorem safe_int_toks (c : ConfigTexts) : ∀ t ∈ c.toks, Safe t.int := by
  have hfront : ∀ t ∈ frontTokens c.swarm.length c.id c.key c.path, Safe t.int :=
    safe_int_of_primitives ((frontTokens 0 [] [] []).filter fun t => t.type = .primitive) rfl
      (by decide)
  have hmiddle : ∀ t ∈ middleTokens c.bootstrap.length c.api c.gateway, Safe t.int :=
    safe_int_of_primitives ((middleTokens 0 [] []).filter fun t => t.type = .primitive) rfl
      (by decide)
  have hback : ∀ t ∈ tourTokens ++ endTokens, Safe t.int :=
    safe_int_of_primitives _ rfl (by decide)
  have hstrings : ∀ texts, ∀ t ∈ stringToks texts, Safe t.int := by
    intro texts t ht
    obtain ⟨text, -, rfl⟩ := List.mem_map.1 ht
    exact safe_ok _
  have hheaders : ∀ t ∈ (headersMembers c.headers).tokens, Safe t.int := by
    induction c.headers with
    | nil => exact fun t ht => absurd ht List.not_mem_nil
    | cons h headers ih =>
      exact List.forall_mem_cons.2 ⟨safe_ok _, List.forall_mem_cons.2 ⟨safe_ok _,
        List.forall_mem_cons.2 ⟨safe_ok _, ih⟩⟩⟩
  obtain ⟨htour, hend⟩ := List.forall_mem_append.1 hback
  unfold ConfigTexts.toks backTokens
  simp only [List.forall_mem_append, List.forall_mem_cons]
  exact ⟨hfront, hstrings _, hmiddle, hstrings _, htour, safe_ok _, hheaders, hend⟩

theorem getLast?_toks (c : ConfigTexts) :
    c.toks.getLast? = some (primitiveTok (asciiBytes "null")) := by
  have hend : endTokens.getLast? = some (primitiveTok (asciiBytes "null")) := by decide
  unfold ConfigTexts.toks backTokens
  simp only [List.getLast?_append, List.getLast?_cons, hend]
  rfl

/-- **when what is found in a file** is read -/
theorem safe_readReplication_toks (h : c.Distinct) : Safe (readReplication c.toks 27 {}) ↔
    ∀ val, replicationPeer c.named = some val → PeerReadable val := by
  refine safe_readReplication_iff (shows_toks h) (safe_getJsonIntValue ?_ (safe_int_toks c))
  intro t ht
  rw [getLast?_toks] at ht
  obtain rfl := Option.some.inj ht
  exact fun h => JsmnType.noConfusion h

end

end Ipfs
