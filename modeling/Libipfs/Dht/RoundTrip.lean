import Libipfs.Dht.Parse
import Libipfs.Lib.Template
import Mathlib.Tactic.IntervalCases

/-!
# Requests that are sent are read

The parser looks for its keys wherever they are, so a request is read as it was meant when no key
turns up in the bytes that it carries.

* `Layout`            where the parts of a message are that the parser is after;
* `Layout.Agrees`     the template of the message tells that it finds them there;
* `parseMessage_of_agrees`   then they are what is read;
* `request_read`      **every request that is sent is read as it was meant**.
-/

namespace Libp2p.Dht
open CSem

/-! ## templates of messages -/

/-- a colon is in every key but `porti` -/
def separators : List UInt8 := [58, 112]

abbrev Template := List (List (Option UInt8))

/-- where a part begins -/
def place (t : Template) (k : Nat) : Nat := (t.take k).flatten.length

/-- the key is right before part `k`, but for what is in front of the part; or there is none -/
def Finds (t : Template) (key : String) (front : List UInt8) : Option Nat → Prop
  | none => findIn separators (asciiBytes key) t.flatten = some none
  | some k =>
    (asciiBytes key ++ front).length ≤ place t k ∧
    findIn separators (asciiBytes key) t.flatten =
      some (some (place t k - (asciiBytes key ++ front).length)) ∧
    (t.flatten.drop (place t k - front.length)).take front.length = front.map some

instance (t : Template) (key : String) (front : List UInt8) (k : Option Nat) :
    Decidable (Finds t key front k) :=
  match k with
  | none => inferInstanceAs (Decidable (_ = _))
  | some _ => inferInstanceAs (Decidable (_ ∧ _ ∧ _))

/-- the part at the place, if it is one of the parts that the parser is after -/
def PartAt (parts : List (List UInt8)) (k : Option Nat) (bytes : List UInt8) : Prop :=
  ∀ j, k = some j → parts[j]? = some bytes

section
variable {t : Template} {parts : List (List UInt8)} {key : String} {front bytes rest buf : List UInt8}
variable {k : Option Nat} {j n p : Nat} {absent : List UInt8} {limit : Int} {id : InfoHash}

theorem findSub_of_finds (h : List.Forall₂ (Fills separators) t parts) (hk : Finds t key front none) :
    findSub (asciiBytes key) parts.flatten = none :=
  findSub_of_findIn (fills_flatten h) hk

/-- **what the parser finds behind the key** -/
theorem Finds.spec (hk : Finds t key front (some j)) (h : List.Forall₂ (Fills separators) t parts)
    (hj : parts[j]? = some bytes) :
    ∃ p rest, findSub (asciiBytes key) parts.flatten = some p ∧
      parts.flatten.drop (p + (asciiBytes key).length) = front ++ (bytes ++ rest) := by
  obtain ⟨hle, hfind, hfront⟩ := hk
  have hfills := fills_flatten h
  have hpart := drop_flatten_of_fills h hj
  refine ⟨_, (parts.drop (j + 1)).flatten, findSub_of_findIn hfills hfind, ?_⟩
  rw [List.length_append] at hle ⊢
  have hplace : place t j - ((asciiBytes key).length + front.length) + (asciiBytes key).length =
      place t j - front.length := by omega
  rw [hplace, (hfills.drop _).eq_append hfront, List.drop_drop]
  rw [show place t j - front.length + front.length = (t.take j).flatten.length from
    Nat.sub_add_cancel (by omega), hpart]

/-! ## what is read -/

theorem numberAt_numeral {c : UInt8} (hc : c = 58 ∨ c = 101)
    (hdrop : buf.drop p = numeral 10 n ++ c :: rest) (hp : p ≤ buf.length) (hn : n < 2 ^ 63) :
    numberAt buf p = .ok (n, p + (numeral 10 n).length, c) := by
  have hdigit : digitIn 10 c = none ∧ c ≠ 120 ∧ c ≠ 88 := by
    rcases hc with rfl | rfl <;> decide
  have hmem : memoryAt buf p = [] ++ (numeral 10 n ++ c :: (rest ++ [0])) := by
    unfold memoryAt
    rw [List.drop_append_of_le_length hp, hdrop, List.append_assoc]
    rfl
  have hget : (buf ++ [0])[p + (numeral 10 n).length]? = some c := by
    have hlt : (numeral 10 n).length < (buf.drop p).length := by
      rw [hdrop, List.length_append, List.length_cons]
      omega
    rw [List.length_drop] at hlt
    rw [List.getElem?_append_left (by omega), ← List.getElem?_drop, hdrop,
      List.getElem?_append_right (le_refl _), Nat.sub_self]
    rfl
  unfold numberAt
  rw [hmem, strtol_numeral (by norm_num) (by norm_num) (fun s hs => absurd hs List.not_mem_nil)
    hdigit.1 hdigit.2, ok_bind, toLong_natCast_of_lt hn]
  simp only [List.length_nil, Nat.zero_add]
  rw [hget, deref_some, ok_bind]

/-- the numeral in front of a string of so many bytes -/
def countFront (n : Nat) : List UInt8 := numeral 10 n ++ [58]

theorem parseCounted_found (h : List.Forall₂ (Fills separators) t parts)
    (hk : Finds t key (countFront bytes.length) (some j)) (hj : parts[j]? = some bytes)
    (hpos : bytes ≠ []) (hlimit : (bytes.length : Int) < limit) (hlong : bytes.length < 2 ^ 63)
    (absent : List UInt8) :
    parseCounted parts.flatten key limit absent = .ok (some bytes) := by
  obtain ⟨p, rest, hfind, hdrop⟩ := hk.spec h hj
  have hle := findSub_le hfind
  unfold countFront at hdrop
  rw [List.append_assoc, List.singleton_append] at hdrop
  have hpos := List.length_pos_of_ne_nil hpos
  have hlen := congrArg List.length hdrop
  rw [List.length_drop, List.length_append, List.length_cons, List.length_append] at hlen
  have hbytes : parts.flatten.drop (p + (asciiBytes key).length +
      (numeral 10 bytes.length).length + 1) = bytes ++ rest := by
    rw [← List.drop_drop, ← List.drop_drop, hdrop, List.drop_left]
    rfl
  unfold parseCounted
  rw [hfind]
  simp only
  rw [numberAt_numeral (.inl rfl) hdrop hle hlong, ok_bind]
  simp only
  rw [if_pos ⟨trivial, by omega, hlimit⟩, if_neg (by omega), Int.toNat_natCast, copyAt_ok (by omega),
    ok_bind, hbytes, List.take_left]

theorem parseCounted_absent (h : List.Forall₂ (Fills separators) t parts) (hk : Finds t key front none)
    (limit : Int) (absent : List UInt8) :
    parseCounted parts.flatten key limit absent = .ok (some absent) := by
  unfold parseCounted
  rw [findSub_of_finds h hk]

theorem idAt_of_drop (hdrop : buf.drop p = id.toList ++ rest) : idAt buf p = .ok id := by
  have hlen := congrArg List.length hdrop
  rw [List.length_drop, List.length_append, id.length_toList] at hlen
  have htake : (buf.drop p).take 20 = id.toList := by
    rw [hdrop]
    exact List.take_left' id.length_toList
  rw [idAt_ok (by omega), htake, Except.ok.injEq]
  apply Vector.ext
  intro k hk
  have hlt : k < id.toList.length := by rwa [id.length_toList]
  rw [Vector.getElem_ofFn, List.getD_eq_getElem?_getD, List.getElem?_eq_getElem hlt, Option.getD_some]
  exact Vector.getElem_toList hlt

theorem parseId_finds (h : List.Forall₂ (Fills separators) t parts) (hk : Finds t key [] k)
    (hj : PartAt parts k id.toList) (hnone : k = none → id = zeroes) :
    parseId parts.flatten key = .ok (some id) := by
  unfold parseId
  cases k with
  | none => rw [findSub_of_finds h hk, hnone rfl]
  | some j =>
    obtain ⟨p, rest, hfind, hdrop⟩ := hk.spec h (hj j rfl)
    rw [List.nil_append] at hdrop
    have hlen := congrArg List.length hdrop
    rw [List.length_drop, List.length_append, id.length_toList] at hlen
    rw [hfind]
    simp only
    rw [if_neg (by omega), idAt_of_drop hdrop, ok_bind]

/-- the part is the port with an `e` behind it -/
theorem parsePort_finds {port : Nat} (h : List.Forall₂ (Fills separators) t parts)
    (hk : Finds t "porti" [] k) (hj : PartAt parts k (numeral 10 port ++ [101]))
    (hport : k ≠ none → 0 < port) (hmax : port < 0x10000) (hnone : k = none → port = 0) :
    parsePort parts.flatten = .ok (some port) := by
  unfold parsePort
  cases k with
  | none => rw [findSub_of_finds h hk, hnone rfl]
  | some j =>
    obtain ⟨p, rest, hfind, hdrop⟩ := hk.spec h (hj j rfl)
    have hle := findSub_le hfind
    have hkey : (asciiBytes "porti").length = 5 := by decide
    rw [hkey] at hdrop hle
    rw [List.nil_append, List.append_assoc, List.singleton_append] at hdrop
    have hpos := hport (by simp)
    rw [hfind]
    simp only
    rw [numberAt_numeral (.inr rfl) hdrop hle (by omega), ok_bind]
    simp only
    rw [if_pos ⟨trivial, by omega, by omega⟩, Int.toNat_natCast]

/-- the flags that a request may have -/
def wantText (want : Nat) : List UInt8 :=
  (if want &&& want4 ≠ 0 then asciiBytes "2:n4" else []) ++
    (if want &&& want6 ≠ 0 then asciiBytes "2:n6" else []) ++ asciiBytes "e"

/-- one flag is read -/
theorem parseWantFrom_flag {fuel i want : Nat} {flag : List UInt8} {value : Nat}
    (hflag : (flag = asciiBytes "n4" ∧ value = want4) ∨ (flag = asciiBytes "n6" ∧ value = want6))
    (hdrop : buf.drop i = 50 :: 58 :: (flag ++ rest)) (hrest : rest ≠ []) :
    parseWantFrom buf (fuel + 1) i want = parseWantFrom buf fuel (i + 4) (want ||| value) := by
  have hlength : flag.length = 2 := by rcases hflag with ⟨rfl, -⟩ | ⟨rfl, -⟩ <;> decide
  have hlen := congrArg List.length hdrop
  rw [List.length_drop, List.length_cons, List.length_cons, List.length_append, hlength] at hlen
  have hpos := List.length_pos_of_ne_nil hrest
  have hget : ∀ k, (buf ++ [0])[i + k]? = if i + k < buf.length then (buf.drop i)[k]? else
      ([0] : List UInt8)[i + k - buf.length]? := by
    intro k
    split
    · rename_i hlt
      rw [List.getElem?_append_left hlt, List.getElem?_drop]
    · rw [List.getElem?_append_right (by omega)]
  have hfirst : (buf ++ [0])[i]? = some 50 := by
    have := hget 0
    rw [if_pos (by omega), hdrop] at this
    exact this
  have hsecond : (buf ++ [0])[i + 1]? = some 58 := by
    rw [hget, if_pos (by omega), hdrop]
    rfl
  have htake : (buf.drop (i + 2)).take 2 = flag := by
    rw [← List.drop_drop, hdrop]
    show (flag ++ rest).take 2 = flag
    rw [← hlength, List.take_left]
  rw [parseWantFrom, hfirst, deref_some, ok_bind, if_pos (by decide), hsecond, deref_some, ok_bind]
  simp only
  have hread : wantFlag buf (i + 2) 2 = .ok value := by
    unfold wantFlag
    rw [if_pos rfl, copyAt_ok (by omega), ok_bind, htake]
    rcases hflag with ⟨rfl, rfl⟩ | ⟨rfl, rfl⟩
    · rw [if_pos rfl]
    · rw [if_neg (by decide), if_pos rfl]
  rw [if_pos ⟨trivial, by show i + 2 + 2 < buf.length; omega⟩,
    if_neg (by show ¬ buf.length < i + 2 + 2; omega), show (50 : UInt8).toNat - 48 = 2 by decide, hread,
    ok_bind]

/-- there are no more of them -/
theorem parseWantFrom_end {fuel i want : Nat} (hdrop : buf.drop i = 101 :: rest) :
    parseWantFrom buf (fuel + 1) i want = .ok (some want) := by
  have hlen := congrArg List.length hdrop
  rw [List.length_drop, List.length_cons] at hlen
  have hfirst : (buf ++ [0])[i]? = some 101 := by
    rw [List.getElem?_append_left (by omega), ← Nat.add_zero i, ← List.getElem?_drop, hdrop]
    rfl
  rw [parseWantFrom, hfirst, deref_some, ok_bind, if_neg (by decide)]

/-- **the flags are read** -/
theorem parseWantFrom_text (fuel : Nat) {i want : Nat} (hwant : want = 1 ∨ want = 2 ∨ want = 3)
    (hdrop : buf.drop i = wantText want ++ rest) :
    parseWantFrom buf (fuel + 3) i 0 = .ok (some want) := by
  have hnext : ∀ {flag rest' : List UInt8} {k : Nat}, flag.length = 2 →
      buf.drop k = 50 :: 58 :: (flag ++ rest') → buf.drop (k + 4) = rest' := by
    intro flag rest' k hlen hd
    rw [← List.drop_drop, hd]
    show (flag ++ rest').drop 2 = rest'
    rw [← hlen, List.drop_left]
  have htext : wantText 1 = [50, 58] ++ asciiBytes "n4" ++ [101] ∧
      wantText 2 = [50, 58] ++ asciiBytes "n6" ++ [101] ∧
      wantText 3 = [50, 58] ++ asciiBytes "n4" ++ ([50, 58] ++ asciiBytes "n6" ++ [101]) := by decide
  have hlen4 : (asciiBytes "n4").length = 2 := by decide
  have hlen6 : (asciiBytes "n6").length = 2 := by decide
  obtain ⟨h1, h2, h3⟩ := htext
  rcases hwant with rfl | rfl | rfl
  · rw [h1, List.append_assoc, List.append_assoc] at hdrop
    rw [parseWantFrom_flag (.inl ⟨rfl, rfl⟩) hdrop (List.cons_ne_nil _ _)]
    exact parseWantFrom_end (hnext hlen4 hdrop)
  · rw [h2, List.append_assoc, List.append_assoc] at hdrop
    rw [parseWantFrom_flag (.inr ⟨rfl, rfl⟩) hdrop (List.cons_ne_nil _ _)]
    exact parseWantFrom_end (hnext hlen6 hdrop)
  · rw [h3, List.append_assoc, List.append_assoc, List.append_assoc, List.append_assoc] at hdrop
    have hrest := hnext hlen4 hdrop
    rw [parseWantFrom_flag (.inl ⟨rfl, rfl⟩) hdrop (List.cons_ne_nil _ _),
      parseWantFrom_flag (.inr ⟨rfl, rfl⟩) hrest (List.cons_ne_nil _ _)]
    exact parseWantFrom_end (hnext hlen6 hrest)

theorem parseWant_finds {want : Nat} (h : List.Forall₂ (Fills separators) t parts)
    (hk : Finds t "4:wantl" [] k) (hj : PartAt parts k (wantText want))
    (hwant : k ≠ none → want = 1 ∨ want = 2 ∨ want = 3) :
    parseWant parts.flatten = .ok (some (if k = none then -1 else (want : Int))) := by
  unfold parseWant
  cases k with
  | none => rw [findSub_of_finds h hk, if_pos rfl]
  | some j =>
    obtain ⟨p, rest, hfind, hdrop⟩ := hk.spec h (hj j rfl)
    have hkey : (asciiBytes "4:wantl").length = 7 := by decide
    have hle := findSub_le hfind
    rw [hkey] at hdrop hle
    rw [List.nil_append] at hdrop
    obtain ⟨fuel, hfuel⟩ : ∃ fuel, parts.flatten.length + 1 = fuel + 3 :=
      ⟨parts.flatten.length - 2, by omega⟩
    have hread := parseWantFrom_text fuel (hwant (by simp)) hdrop
    rw [hfind, if_neg (by simp)]
    simp only
    rw [hfuel, hread]
    rfl

/-! ## the kind of a message -/

def kindKeys : List String :=
  ["1:y1:r", "1:y1:e", "1:y1:q", "1:q4:ping", "1:q9:find_node", "1:q9:get_peers",
    "1:q13:announce_peer"]

/-- whether the key is there, if the template tells it -/
def tells (t : Template) (key : String) : Option Bool :=
  (findIn separators (asciiBytes key) t.flatten).map Option.isSome

def kindIn (t : Template) : Option MessageKind :=
  if tells t "1:y1:r" = some true then some .reply
  else if tells t "1:y1:e" = some true then some .error
  else if ¬ tells t "1:y1:q" = some true then none
  else if tells t "1:q4:ping" = some true then some .ping
  else if tells t "1:q9:find_node" = some true then some .findNode
  else if tells t "1:q9:get_peers" = some true then some .getPeers
  else if tells t "1:q13:announce_peer" = some true then some .announcePeer
  else none

theorem contains_iff_tells (h : List.Forall₂ (Fills separators) t parts)
    (hkey : (tells t key).isSome = true) :
    contains parts.flatten key = true ↔ tells t key = some true := by
  unfold tells at hkey ⊢
  rw [Option.isSome_map] at hkey
  obtain ⟨r, hr⟩ := Option.isSome_iff_exists.1 hkey
  unfold contains
  rw [findSub_of_findIn (fills_flatten h) hr, hr]
  simp

theorem messageKind_eq (h : List.Forall₂ (Fills separators) t parts)
    (hkeys : ∀ key ∈ kindKeys, (tells t key).isSome = true) :
    messageKind parts.flatten = kindIn t := by
  have hcontains : ∀ key ∈ kindKeys, (contains parts.flatten key = true ↔ tells t key = some true) :=
    fun key hkey => contains_iff_tells h (hkeys key hkey)
  unfold messageKind kindIn
  simp only [hcontains _ (show "1:y1:r" ∈ kindKeys by decide),
    hcontains _ (show "1:y1:e" ∈ kindKeys by decide),
    hcontains _ (show "1:y1:q" ∈ kindKeys by decide),
    hcontains _ (show "1:q4:ping" ∈ kindKeys by decide),
    hcontains _ (show "1:q9:find_node" ∈ kindKeys by decide),
    hcontains _ (show "1:q9:get_peers" ∈ kindKeys by decide),
    hcontains _ (show "1:q13:announce_peer" ∈ kindKeys by decide)]

/-! ## messages -/

/-- where the parts of a message are that the parser is after -/
structure Layout where
  kind : MessageKind
  tid : Nat
  id : Nat
  infoHash : Option Nat := none
  port : Option Nat := none
  target : Option Nat := none
  token : Option Nat := none
  want : Option Nat := none

/-- the template of the message tells that the parser finds its keys there -/
def Layout.Agrees (l : Layout) (t : Template) : Prop :=
  Finds t "1:t" (countFront 4) (some l.tid) ∧ Finds t "2:id20:" [] (some l.id) ∧
  Finds t "9:info_hash20:" [] l.infoHash ∧ Finds t "porti" [] l.port ∧
  Finds t "6:target20:" [] l.target ∧ Finds t "5:token" (countFront 8) l.token ∧
  Finds t "5:nodes" [] none ∧ Finds t "6:nodes6" [] none ∧ Finds t "6:valuesl" [] none ∧
  Finds t "4:wantl" [] l.want ∧
  (∀ key ∈ kindKeys, (tells t key).isSome = true) ∧ kindIn t = some l.kind

instance (l : Layout) (t : Template) : Decidable (l.Agrees t) := by
  unfold Layout.Agrees
  infer_instance

/-- the parts that are there are those of the fields -/
structure Layout.Holds (l : Layout) (parts : List (List UInt8)) (m : Fields) : Prop where
  tid : parts[l.tid]? = some m.tid ∧ m.tid.length = 4
  id : parts[l.id]? = some m.id.toList
  infoHash : PartAt parts l.infoHash m.infoHash.toList ∧ (l.infoHash = none → m.infoHash = zeroes)
  port : PartAt parts l.port (numeral 10 m.port ++ [101]) ∧ (l.port ≠ none → 0 < m.port) ∧
    m.port < 0x10000 ∧ (l.port = none → m.port = 0)
  target : PartAt parts l.target m.target.toList ∧ (l.target = none → m.target = zeroes)
  token : PartAt parts l.token m.token ∧ (l.token ≠ none → m.token.length = 8) ∧
    (l.token = none → m.token = [])
  others : m.nodes = [] ∧ m.nodes6 = [] ∧ m.values = [] ∧ m.values6 = []
  want : PartAt parts l.want (wantText m.want.toNat) ∧
    (l.want ≠ none → m.want = 1 ∨ m.want = 2 ∨ m.want = 3) ∧ (l.want = none → m.want = -1)

/-- **what the parser finds there is what is read** -/
theorem parseMessage_of_agrees {l : Layout} {m : Fields} (hl : l.Agrees t)
    (h : List.Forall₂ (Fills separators) t parts) (hm : l.Holds parts m) (junk : List UInt8) :
    parseMessage parts.flatten junk = .ok (some (l.kind, m)) := by
  obtain ⟨htid, hid, hhash, hport, htarget, htoken, hnodes, hnodes6, hvalues, hwant, hkeys, hkind⟩ := hl
  obtain ⟨hno, hno6, hnov, hnov6⟩ := hm.others
  have hread_tid : parseCounted parts.flatten "1:t" 16 junk = .ok (some m.tid) := by
    have hlen := hm.tid.2
    refine parseCounted_found h (by rw [hlen]; exact htid) hm.tid.1 ?_ ?_ ?_ junk
    · intro hnil
      rw [hnil] at hlen
      cases hlen
    · rw [hlen]
      norm_num
    · rw [hlen]
      norm_num
  have hread_id := parseId_finds h hid (fun j hj => by cases hj; exact hm.id) (fun hnone => by cases hnone)
  have hread_hash := parseId_finds h hhash hm.infoHash.1 hm.infoHash.2
  have hread_port := parsePort_finds h hport hm.port.1 hm.port.2.1 hm.port.2.2.1 hm.port.2.2.2
  have hread_target := parseId_finds h htarget hm.target.1 hm.target.2
  have hread_token : parseCounted parts.flatten "5:token" 128 [] = .ok (some m.token) := by
    obtain ⟨hpart, hlen, hnone⟩ := hm.token
    cases hcase : l.token with
    | none =>
      rw [hcase] at htoken
      rw [parseCounted_absent h htoken, hnone hcase]
    | some j =>
      have hlen := hlen (by rw [hcase]; simp)
      rw [hcase] at htoken
      refine parseCounted_found h (by rw [hlen]; exact htoken) (hpart j hcase) ?_ ?_ ?_ []
      · intro hnil
        rw [hnil] at hlen
        cases hlen
      · rw [hlen]
        norm_num
      · rw [hlen]
        norm_num
  have hread_values : parseValues parts.flatten = .ok (some ([], [])) := by
    unfold parseValues
    rw [findSub_of_finds h hvalues]
  have hread_want : parseWant parts.flatten = .ok (some m.want) := by
    obtain ⟨hpart, hsome, hnone⟩ := hm.want
    have hread := parseWant_finds h hwant hpart fun hne => by
      rcases hsome hne with hw | hw | hw <;> rw [hw] <;> decide
    rw [hread]
    split
    · rename_i hcase
      rw [hnone hcase]
    · rename_i hcase
      rcases hsome hcase with hw | hw | hw <;> rw [hw] <;> rfl
  unfold parseMessage
  rw [hread_tid, hread_id, hread_hash, hread_port, hread_target, hread_token,
    parseCounted_absent h hnodes, parseCounted_absent h hnodes6, hread_values, hread_want,
    messageKind_eq h hkeys, hkind]
  simp only [unlessOverflow, ok_bind, Option.map_some]
  obtain ⟨tid, id, infoHash, port, target, token, nodes, nodes6, values, values6, want⟩ := m
  simp only at hno hno6 hnov hnov6
  rw [hno, hno6, hnov, hnov6]

end

/-! ## requests -/

inductive Request where
  | ping
  | findNode (target : InfoHash) (want : Int)
  | getPeers (infoHash : InfoHash) (want : Int)
  | announcePeer (infoHash : InfoHash) (port : Nat) (token : List UInt8)

/-- the version of the program, as `dht_init` keeps it -/
def versionBytes (v : Vector UInt8 4) : List UInt8 := asciiBytes "1:v4:" ++ v.toList

section
variable (myid : InfoHash) (v : Option (Vector UInt8 4)) (seqno : UInt16)

def Request.tid : Request → List UInt8
  | .ping => makeTid "pn" seqno
  | .findNode _ _ => makeTid "fn" seqno
  | .getPeers _ _ => makeTid "gp" seqno
  | .announcePeer _ _ _ => makeTid "ap" seqno

/-- what is sent -/
def Request.pieces (r : Request) : List Piece :=
  match r with
  | .ping => pingPieces myid (v.map versionBytes) (r.tid seqno)
  | .findNode target want => findNodePieces myid (v.map versionBytes) (r.tid seqno) target want
  | .getPeers infoHash want => getPeersPieces myid (v.map versionBytes) (r.tid seqno) infoHash want
  | .announcePeer infoHash port token =>
    announcePeerPieces myid (v.map versionBytes) (r.tid seqno) infoHash port token

def Request.kind : Request → MessageKind
  | .ping => .ping
  | .findNode _ _ => .findNode
  | .getPeers _ _ => .getPeers
  | .announcePeer _ _ _ => .announcePeer

/-- what is meant -/
def Request.fields (r : Request) : Fields :=
  let plain : Fields :=
    { tid := r.tid seqno, id := myid, infoHash := zeroes, port := 0, target := zeroes, token := [],
      nodes := [], nodes6 := [], values := [], values6 := [], want := -1 }
  match r with
  | .ping => plain
  | .findNode target want => { plain with target := target, want := want }
  | .getPeers infoHash want => { plain with infoHash := infoHash, want := want }
  | .announcePeer infoHash port token =>
    { plain with infoHash := infoHash, port := port, token := token }

/-- a byte that no key turns up with -/
def Clean (bytes : List UInt8) : Prop := ∀ b ∈ bytes, b ∉ separators

instance (bytes : List UInt8) : Decidable (Clean bytes) :=
  List.decidableBAll (fun b => b ∉ separators) bytes

def Want (want : Int) : Prop := want = -1 ∨ want = 1 ∨ want = 2 ∨ want = 3

/-- what a request is about is as the program has it, and clean -/
def Request.Clean : Request → Prop
  | .ping => True
  | .findNode target want => Dht.Clean target.toList ∧ Want want
  | .getPeers infoHash want => Dht.Clean infoHash.toList ∧ Want want
  | .announcePeer infoHash port token =>
    Dht.Clean infoHash.toList ∧ (0 < port ∧ port < 0x10000) ∧ Dht.Clean token ∧ token.length = tokenSize

/-! ## the parts of a request -/

/-- the flags, or two empty parts -/
def wantParts (want : Int) : List (List UInt8) :=
  if 0 < want then [asciiBytes "4:wantl", wantText want.toNat] else [[], []]

def Request.parts (r : Request) : List (List UInt8) :=
  [asciiBytes "d1:ad2:id20:", myid.toList] ++
    (match r with
      | .ping => [asciiBytes "e1:q4:ping1:t4:"]
      | .findNode target want => [asciiBytes "6:target20:", target.toList] ++ wantParts want ++
          [asciiBytes "e1:q9:find_node1:t4:"]
      | .getPeers infoHash want => [asciiBytes "9:info_hash20:", infoHash.toList] ++ wantParts want ++
          [asciiBytes "e1:q9:get_peers1:t4:"]
      | .announcePeer infoHash port token => [asciiBytes "9:info_hash20:", infoHash.toList,
          asciiBytes "4:porti", numeral 10 port ++ [101], asciiBytes "5:token8:", token,
          asciiBytes "e1:q13:announce_peer1:t4:"]) ++
    [r.tid seqno, (v.map versionBytes).getD [], asciiBytes "1:y1:qe"]

end

def known (text : String) : List (Option UInt8) := (asciiBytes text).map some

def unknown (n : Nat) : List (Option UInt8) := List.replicate n none

def wantTemplate (want : Nat) : Template :=
  if 0 < want then [known "4:wantl", (wantText want).map some] else [[], []]

/-- the template and the layout of a request with so many digits in its port -/
def requestTemplate (kind : MessageKind) (want digits : Nat) (version : Bool) : Template :=
  [known "d1:ad2:id20:", unknown 20] ++
    (match kind with
      | .ping => [known "e1:q4:ping1:t4:", known "pn" ++ unknown 2]
      | .findNode => [known "6:target20:", unknown 20] ++ wantTemplate want ++
          [known "e1:q9:find_node1:t4:", known "fn" ++ unknown 2]
      | .getPeers => [known "9:info_hash20:", unknown 20] ++ wantTemplate want ++
          [known "e1:q9:get_peers1:t4:", known "gp" ++ unknown 2]
      | _ => [known "9:info_hash20:", unknown 20, known "4:porti", unknown digits ++ [some 101],
          known "5:token8:", unknown 8, known "e1:q13:announce_peer1:t4:", known "ap" ++ unknown 2]) ++
    [if version then known "1:v4:" ++ unknown 4 else [], known "1:y1:qe"]

def requestLayout (kind : MessageKind) (want : Nat) : Layout :=
  match kind with
  | .ping => { kind := .ping, tid := 3, id := 1 }
  | .findNode => { kind := .findNode, tid := 7, id := 1, target := some 3
                   want := if 0 < want then some 5 else none }
  | .getPeers => { kind := .getPeers, tid := 7, id := 1, infoHash := some 3
                   want := if 0 < want then some 5 else none }
  | _ => { kind := .announcePeer, tid := 9, id := 1, infoHash := some 3, port := some 5
           token := some 7 }

/-- **every key is found where it should be**: all templates are searched -/
theorem agrees_ping (version : Bool) :
    (requestLayout .ping 0).Agrees (requestTemplate .ping 0 0 version) := by
  cases version <;> decide

theorem agrees_want : ∀ want < 4, ∀ version : Bool,
    (requestLayout .findNode want).Agrees (requestTemplate .findNode want 0 version) ∧
      (requestLayout .getPeers want).Agrees (requestTemplate .getPeers want 0 version) := by
  intro want hwant
  interval_cases want
  all_goals decide +kernel

theorem agrees_announcePeer : ∀ digits < 6, 0 < digits → ∀ version : Bool,
    (requestLayout .announcePeer 0).Agrees (requestTemplate .announcePeer 0 digits version) := by
  intro digits hdigits hpos
  interval_cases digits
  all_goals decide +kernel

section
variable {myid : InfoHash} {v : Option (Vector UInt8 4)} {seqno : UInt16} {bytes : List UInt8}
variable {flags : Int} {r : Request}

theorem fills_clean {n : Nat} (h : Clean bytes) (hn : bytes.length = n) :
    Fills separators (unknown n) bytes := by
  rw [← hn]
  exact fills_unknown h

theorem fills_tid (pre : String) (h : Clean (makeTid "" seqno)) :
    Fills separators (known pre ++ unknown 2) (makeTid pre seqno) :=
  (fills_known (asciiBytes pre)).append (fills_clean h rfl)

theorem fills_version (h : ∀ w, v = some w → Clean w.toList) :
    Fills separators (if v.isSome then known "1:v4:" ++ unknown 4 else [])
      ((v.map versionBytes).getD []) := by
  cases v with
  | none => exact .nil
  | some w => exact (fills_known _).append (fills_clean (h w rfl) w.length_toList)

theorem fills_port {port digits : Nat} (h : (numeral 10 port).length = digits) :
    Fills separators (unknown digits ++ [some 101]) (numeral 10 port ++ [101]) := by
  refine (fills_clean (fun b hb hmem => ?_) h).append (fills_known [101])
  obtain ⟨k, hk⟩ := exists_digit_of_mem_numeral (by norm_num) (by norm_num) hb
  rcases List.mem_pair.1 hmem with rfl | rfl <;> cases hk

/-- the flags of a request, if it has any -/
def Request.want : Request → Int
  | .findNode _ want => want
  | .getPeers _ want => want
  | _ => 0

/-- the number of digits of its port -/
def Request.digits : Request → Nat
  | .announcePeer _ port _ => (numeral 10 port).length
  | _ => 0

def Request.template (v : Option (Vector UInt8 4)) (r : Request) : Template :=
  requestTemplate r.kind r.want.toNat r.digits v.isSome

theorem fills_request (hid : Clean myid.toList) (htid : Clean (makeTid "" seqno))
    (hv : ∀ w, v = some w → Clean w.toList) (hr : r.Clean) :
    List.Forall₂ (Fills separators) (r.template v) (r.parts myid v seqno) := by
  have hmyid := fills_clean hid myid.length_toList
  have hversion := fills_version hv
  have hend : ∀ pre, List.Forall₂ (Fills separators)
      [known pre ++ unknown 2, if v.isSome then known "1:v4:" ++ unknown 4 else [], known "1:y1:qe"]
      [makeTid pre seqno, (v.map versionBytes).getD [], asciiBytes "1:y1:qe"] :=
    fun pre => .cons (fills_tid pre htid) (.cons hversion (.cons (fills_known _) .nil))
  cases r with
  | ping => exact .cons (fills_known _) (.cons hmyid (.cons (fills_known _) (hend "pn")))
  | findNode target want =>
    obtain ⟨htarget, hwant⟩ := hr
    have htarget := fills_clean htarget target.length_toList
    refine .cons (fills_known _) (.cons hmyid (.cons (fills_known _) (.cons htarget ?_)))
    rcases hwant with rfl | rfl | rfl | rfl
    · exact .cons .nil (.cons .nil (.cons (fills_known _) (hend "fn")))
    all_goals exact .cons (fills_known _) (.cons (fills_known _) (.cons (fills_known _) (hend "fn")))
  | getPeers infoHash want =>
    obtain ⟨hhash, hwant⟩ := hr
    have hhash := fills_clean hhash infoHash.length_toList
    refine .cons (fills_known _) (.cons hmyid (.cons (fills_known _) (.cons hhash ?_)))
    rcases hwant with rfl | rfl | rfl | rfl
    · exact .cons .nil (.cons .nil (.cons (fills_known _) (hend "gp")))
    all_goals exact .cons (fills_known _) (.cons (fills_known _) (.cons (fills_known _) (hend "gp")))
  | announcePeer infoHash port token =>
    obtain ⟨hhash, hport, htoken, hlen⟩ := hr
    exact .cons (fills_known _) (.cons hmyid (.cons (fills_known _)
      (.cons (fills_clean hhash infoHash.length_toList) (.cons (fills_known _) (.cons (fills_port rfl)
        (.cons (fills_known _) (.cons (fills_clean htoken hlen) (.cons (fills_known _) (hend "ap")))))))))

theorem flatten_wantPieces (hwant : Want flags) :
    flatten (piecesWant flags) = (wantParts flags).flatten := by
  rcases hwant with rfl | rfl | rfl | rfl
  all_goals decide

theorem flatten_version (v : Option (Vector UInt8 4)) :
    flatten (piecesV (v.map versionBytes)) = (v.map versionBytes).getD [] := by
  cases v with
  | none => rfl
  | some w => exact List.append_nil _

theorem content_counted {text whole : String} {n : Nat}
    (h : asciiBytes text ++ numeral 10 n ++ asciiBytes ":" = asciiBytes whole) :
    (counted text n).content = asciiBytes whole := h

/-- the pieces of a request are its parts -/
theorem flatten_request (hr : r.Clean) :
    flatten (r.pieces myid v seqno) = (r.parts myid v seqno).flatten := by
  have hversion := flatten_version v
  have htid : ∀ pre : String, (asciiBytes pre).length = 2 → (makeTid pre seqno).length = 4 :=
    fun pre hpre => by
      unfold makeTid
      rw [List.length_append, hpre]
      rfl
  cases r with
  | ping =>
    have hcount := content_counted (show asciiBytes "e1:q4:ping1:t" ++ numeral 10 4 ++ asciiBytes ":" =
      asciiBytes "e1:q4:ping1:t4:" by decide)
    simp only [Request.pieces, Request.parts, Request.tid, pingPieces, htid "pn" (by decide),
      flatten_append, flatten_cons, hversion, hcount]
    simp [flatten, ascii, Piece.content]
  | findNode target want =>
    have hcount := content_counted (show asciiBytes "e1:q9:find_node1:t" ++ numeral 10 4 ++
      asciiBytes ":" = asciiBytes "e1:q9:find_node1:t4:" by decide)
    simp only [Request.pieces, Request.parts, Request.tid, findNodePieces, htid "fn" (by decide),
      flatten_append, flatten_cons, hversion, hcount, flatten_wantPieces hr.2]
    simp [flatten, ascii, Piece.content]
  | getPeers infoHash want =>
    have hcount := content_counted (show asciiBytes "e1:q9:get_peers1:t" ++ numeral 10 4 ++
      asciiBytes ":" = asciiBytes "e1:q9:get_peers1:t4:" by decide)
    simp only [Request.pieces, Request.parts, Request.tid, getPeersPieces, htid "gp" (by decide),
      flatten_append, flatten_cons, hversion, hcount, flatten_wantPieces hr.2]
    simp [flatten, ascii, Piece.content]
  | announcePeer infoHash port token =>
    obtain ⟨-, -, -, hlen⟩ := hr
    have hcount := content_counted (show asciiBytes "e1:q13:announce_peer1:t" ++ numeral 10 4 ++
      asciiBytes ":" = asciiBytes "e1:q13:announce_peer1:t4:" by decide)
    have hport : (Piece.text (asciiBytes "4:porti" ++ numeral 10 port ++ asciiBytes "e5:token" ++
        numeral 10 8 ++ asciiBytes ":")).content =
        asciiBytes "4:porti" ++ ((numeral 10 port ++ [101]) ++ asciiBytes "5:token8:") := by
      have htoken : asciiBytes "e5:token" ++ (numeral 10 8 ++ asciiBytes ":") =
          [101] ++ asciiBytes "5:token8:" := by decide
      show asciiBytes "4:porti" ++ numeral 10 port ++ asciiBytes "e5:token" ++ numeral 10 8 ++
        asciiBytes ":" = _
      rw [List.append_assoc, List.append_assoc, List.append_assoc, htoken, List.append_assoc]
    have hlen : token.length = 8 := hlen
    simp only [Request.pieces, Request.parts, Request.tid, announcePeerPieces, htid "ap" (by decide),
      flatten_append, flatten_cons, hversion, hcount, hlen, hport]
    simp [flatten, ascii, Piece.content]

theorem holds_request (hr : r.Clean) :
    (requestLayout r.kind r.want.toNat).Holds (r.parts myid v seqno) (r.fields myid seqno) := by
  have hnone : ∀ {parts : List (List UInt8)} {bytes : List UInt8}, PartAt parts none bytes :=
    fun j hj => by cases hj
  have hsome : ∀ {parts : List (List UInt8)} {j : Nat} {bytes : List UInt8}, parts[j]? = some bytes →
      PartAt parts (some j) bytes := fun h k hk => by cases hk; exact h
  have hno : ∀ {p : Prop}, (none : Option Nat) ≠ none → p := fun h => absurd rfl h
  have hzero : 0 < 0x10000 := by norm_num
  cases r with
  | ping =>
    exact ⟨⟨rfl, rfl⟩, rfl, ⟨hnone, fun _ => rfl⟩, ⟨hnone, hno, hzero, fun _ => rfl⟩,
      ⟨hnone, fun _ => rfl⟩, ⟨hnone, hno, fun _ => rfl⟩, ⟨rfl, rfl, rfl, rfl⟩,
      ⟨hnone, hno, fun _ => rfl⟩⟩
  | findNode target want =>
    obtain ⟨-, hwant⟩ := hr
    rcases hwant with rfl | rfl | rfl | rfl
    · exact ⟨⟨rfl, rfl⟩, rfl, ⟨hnone, fun _ => rfl⟩, ⟨hnone, hno, hzero, fun _ => rfl⟩,
        ⟨hsome rfl, fun h => by cases h⟩, ⟨hnone, hno, fun _ => rfl⟩, ⟨rfl, rfl, rfl, rfl⟩,
        ⟨hnone, hno, fun _ => rfl⟩⟩
    all_goals exact ⟨⟨rfl, rfl⟩, rfl, ⟨hnone, fun _ => rfl⟩, ⟨hnone, hno, hzero, fun _ => rfl⟩,
      ⟨hsome rfl, fun h => by cases h⟩, ⟨hnone, hno, fun _ => rfl⟩, ⟨rfl, rfl, rfl, rfl⟩,
      ⟨hsome rfl, fun _ => by norm_num [Request.fields], fun h => by cases h⟩⟩
  | getPeers infoHash want =>
    obtain ⟨-, hwant⟩ := hr
    rcases hwant with rfl | rfl | rfl | rfl
    · exact ⟨⟨rfl, rfl⟩, rfl, ⟨hsome rfl, fun h => by cases h⟩, ⟨hnone, hno, hzero, fun _ => rfl⟩,
        ⟨hnone, fun _ => rfl⟩, ⟨hnone, hno, fun _ => rfl⟩, ⟨rfl, rfl, rfl, rfl⟩,
        ⟨hnone, hno, fun _ => rfl⟩⟩
    all_goals exact ⟨⟨rfl, rfl⟩, rfl, ⟨hsome rfl, fun h => by cases h⟩,
      ⟨hnone, hno, hzero, fun _ => rfl⟩, ⟨hnone, fun _ => rfl⟩, ⟨hnone, hno, fun _ => rfl⟩,
      ⟨rfl, rfl, rfl, rfl⟩, ⟨hsome rfl, fun _ => by norm_num [Request.fields], fun h => by cases h⟩⟩
  | announcePeer infoHash port token =>
    obtain ⟨-, hport, -, hlen⟩ := hr
    exact ⟨⟨rfl, rfl⟩, rfl, ⟨hsome rfl, fun h => by cases h⟩,
      ⟨hsome rfl, fun _ => hport.1, hport.2, fun h => by cases h⟩, ⟨hnone, fun _ => rfl⟩,
      ⟨hsome rfl, fun _ => hlen, fun h => by cases h⟩, ⟨rfl, rfl, rfl, rfl⟩,
      ⟨hnone, hno, fun _ => rfl⟩⟩

theorem Want.lt (h : Want flags) : flags.toNat < 4 := by
  rcases h with rfl | rfl | rfl | rfl <;> decide

theorem want_lt (hr : r.Clean) : r.want.toNat < 4 := by
  cases r with
  | findNode target want => exact hr.2.lt
  | getPeers infoHash want => exact hr.2.lt
  | _ => exact (by decide : (0 : Int).toNat < 4)

theorem digits_lt (hr : r.Clean) : r.digits < 6 := by
  cases r with
  | announcePeer infoHash port token =>
    have hport := hr.2.1
    exact Nat.lt_succ_of_le ((length_numeral_le_iff (by norm_num) (by norm_num)).2 (by omega))
  | _ => exact (by decide : 0 < 6)

theorem agrees_request (hr : r.Clean) :
    (requestLayout r.kind r.want.toNat).Agrees (r.template v) := by
  cases r with
  | ping => exact agrees_ping v.isSome
  | findNode target want => exact (agrees_want want.toNat hr.2.lt v.isSome).1
  | getPeers infoHash want => exact (agrees_want want.toNat hr.2.lt v.isSome).2
  | announcePeer infoHash port token =>
    exact agrees_announcePeer _ (digits_lt hr) length_numeral_pos v.isSome

theorem length_requestTemplate (kind : MessageKind) : ∀ want < 4, ∀ digits < 6, ∀ version : Bool,
    (requestTemplate kind want digits version).flatten.length < 512 := by
  cases kind <;> decide +kernel

/-- there is room for it in the buffer -/
theorem length_request (hfills : List.Forall₂ (Fills separators) (r.template v) (r.parts myid v seqno))
    (hr : r.Clean) : (r.parts myid v seqno).flatten.length < 512 := by
  rw [← (fills_flatten hfills).length]
  exact length_requestTemplate r.kind _ (want_lt hr) _ (digits_lt hr) v.isSome

theorem kind_requestLayout (r : Request) : (requestLayout r.kind r.want.toNat).kind = r.kind := by
  cases r <;> rfl

/-- **every request that is sent is read as it was meant**, when what it carries is clean -/
theorem request_read (hid : Clean myid.toList) (htid : Clean (makeTid "" seqno))
    (hv : ∀ w, v = some w → Clean w.toList) (hr : r.Clean) (junk : List UInt8) :
    ∃ buf, build 512 (r.pieces myid v seqno) = some buf ∧
      parseMessage buf junk = .ok (some (r.kind, r.fields myid seqno)) := by
  have hfills : List.Forall₂ (Fills separators) (r.template v) (r.parts myid v seqno) :=
    fills_request hid htid hv hr
  have hlen : (flatten (r.pieces myid v seqno)).length < 512 := by
    rw [flatten_request hr]
    exact length_request hfills hr
  refine ⟨_, build_of_lt hlen, ?_⟩
  rw [flatten_request hr, parseMessage_of_agrees (agrees_request hr) hfills (holds_request hr),
    kind_requestLayout]

/-- a peer is announced, and its token is as long as this program makes them -/
theorem request_read_announced : ∃ buf,
    build 512 ((Request.announcePeer (Vector.replicate 20 66) 6881 (List.replicate 8 7)).pieces
      (Vector.replicate 20 65) (some (Vector.replicate 4 76)) 300) = some buf ∧
    parseMessage buf [] = .ok (some (.announcePeer,
      (Request.announcePeer (Vector.replicate 20 66) 6881 (List.replicate 8 7)).fields
        (Vector.replicate 20 65) 300)) :=
  request_read (r := .announcePeer (Vector.replicate 20 66) 6881 (List.replicate 8 7)) (by decide)
    (by decide) (fun w hw => by
      obtain rfl := Option.some.inj hw
      decide)
    (show Clean (Vector.replicate 20 66 : InfoHash).toList ∧ (0 < 6881 ∧ 6881 < 0x10000) ∧
      Clean (List.replicate 8 7) ∧ 8 = tokenSize by decide) []

-- an id that holds a key is taken for it
example : (parseMessage (flatten (pingPieces (Vector.ofFn fun k : Fin 20 =>
    (asciiBytes "1:t").getD k 65) none (makeTid "pn" 0))) []).toOption.join.map
    (fun m => m.2.tid) = some [] := by decide

end

end Libp2p.Dht
