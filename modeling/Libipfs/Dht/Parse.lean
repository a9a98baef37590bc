import Libipfs.Dht.Messages
import Libipfs.Lib.Region
import Libipfs.Lib.Split

/-!
# Messages that are received

The parser looks for the keys that it knows wherever they are in a datagram, and reads what is
behind each of them.

* `copyAt`                a copy out of the datagram, that must end inside of it;
* `parseCounted`, `parseId`, `parsePort`, `parseValues`, `parseWant`   what is behind a key;
* `parseMessage`          all of them, and the kind of the message;
* `Fields.Law`            what has been read fits the arrays that it was copied to;
* `parseMessage_parses`   **any datagram is parsed**: nothing is read or written beyond an end.
-/

set_option linter.unusedVariables false

namespace Libp2p.Dht
open CSem

/-! ## the functions -/

inductive MessageKind where
  | error
  | reply
  | ping
  | findNode
  | getPeers
  | announcePeer
  deriving DecidableEq, Repr

/-- what has been read of a message -/
structure Fields where
  tid : List UInt8
  id : InfoHash
  infoHash : InfoHash
  port : Nat
  target : InfoHash
  token : List UInt8
  nodes : List UInt8
  nodes6 : List UInt8
  values : List UInt8
  values6 : List UInt8
  want : Int
  deriving DecidableEq

/-- `goto overflow` -/
def unlessOverflow {α β : Type} (x : Exec (Option α)) (f : α → Exec (Option β)) : Exec (Option β) :=
  x >>= fun r => match r with
    | none => .ok none
    | some a => f a

section
variable (buf : List UInt8)

/-- what lies behind the pointer: the datagram, and a zero byte behind it -/
def memoryAt (i : Nat) : List UInt8 := (buf ++ [0]).drop i

/-- the number at a place, the place behind it and the byte there -/
def numberAt (i : Nat) : Exec (Int × Nat × UInt8) := do
  let (l, length) ← strtol 10 (memoryAt buf i)
  let c ← deref (buf ++ [0])[i + length]?
  .ok (l, i + length, c)

/-- `memcpy` out of what lies behind the pointer -/
def copyAt (i n : Nat) : Exec (List UInt8) := Region.load (buf ++ [0]) i n

/-- a string with its length in front of it: empty when the length is none, or not less than
`limit`, and `absent` when there is no key -/
def parseCounted (key : String) (limit : Int) (absent : List UInt8) : Exec (Option (List UInt8)) :=
  match findSub (asciiBytes key) buf with
  | none => .ok (some absent)
  | some p => do
    let (l, q, c) ← numberAt buf (p + (asciiBytes key).length)
    if c = 58 ∧ 0 < l ∧ l < limit then
      if buf.length < q + 1 + l.toNat then .ok none
      else do
        let bytes ← copyAt buf (q + 1) l.toNat
        .ok (some bytes)
    else .ok (some [])

def idAt (i : Nat) : Exec InfoHash := do
  let bytes ← copyAt buf i 20
  .ok (Vector.ofFn fun k : Fin 20 => bytes.getD k 0)

/-- an id: zero when there is no key -/
def parseId (key : String) : Exec (Option InfoHash) :=
  match findSub (asciiBytes key) buf with
  | none => .ok (some zeroes)
  | some p =>
    if buf.length < p + (asciiBytes key).length + 20 then .ok none
    else do
      let id ← idAt buf (p + (asciiBytes key).length)
      .ok (some id)

def parsePort : Exec (Option Nat) :=
  match findSub (asciiBytes "porti") buf with
  | none => .ok (some 0)
  | some p => do
    let (l, _, c) ← numberAt buf (p + 5)
    .ok (some (if c = 101 ∧ 0 < l ∧ l < 0x10000 then l.toNat else 0))

/-- addresses are left out when there is no more room for them, or when they are weird -/
def parseValuesFrom : Nat → Nat → List UInt8 × List UInt8 → Exec (Option (List UInt8 × List UInt8))
  | 0, _, _ => .error .diverges
  | fuel + 1, i, (values, values6) => do
    let (l, q, c) ← numberAt buf i
    if c = 58 ∧ 0 < l then
      if buf.length < q + 1 + l.toNat then .ok none
      else if l = 6 ∧ values.length + 6 ≤ 2048 then do
        let bytes ← copyAt buf (q + 1) l.toNat
        parseValuesFrom fuel (q + 1 + l.toNat) (values ++ bytes, values6)
      else if l = 18 ∧ values6.length + 18 ≤ 2048 then do
        let bytes ← copyAt buf (q + 1) l.toNat
        parseValuesFrom fuel (q + 1 + l.toNat) (values, values6 ++ bytes)
      else parseValuesFrom fuel (q + 1 + l.toNat) (values, values6)
    else .ok (some (values, values6))

def parseValues : Exec (Option (List UInt8 × List UInt8)) :=
  match findSub (asciiBytes "6:valuesl") buf with
  | none => .ok (some ([], []))
  | some p => parseValuesFrom buf (buf.length + 1) (p + 9) ([], [])

/-- the flag that a string stands for: both of its bytes are compared when it has two -/
def wantFlag (i length : Nat) : Exec Nat :=
  if length = 2 then do
    let flag ← copyAt buf i 2
    .ok (if flag = asciiBytes "n4" then want4 else if flag = asciiBytes "n6" then want6 else 0)
  else .ok 0

/-- the flags are strings of one digit of length -/
def parseWantFrom : Nat → Nat → Nat → Exec (Option Nat)
  | 0, _, _ => .error .diverges
  | fuel + 1, i, want => do
    let c ← deref (buf ++ [0])[i]?
    if 48 < c.toNat ∧ c.toNat ≤ 57 then do
      let colon ← deref (buf ++ [0])[i + 1]?
      let length := c.toNat - 48
      if colon = 58 ∧ i + 2 + length < buf.length then
        if buf.length < i + 2 + length then .ok none
        else do
          let flag ← wantFlag buf (i + 2) length
          parseWantFrom fuel (i + 2 + length) (want ||| flag)
      else .ok (some want)
    else .ok (some want)

def parseWant : Exec (Option Int) :=
  match findSub (asciiBytes "4:wantl") buf with
  | none => .ok (some (-1))
  | some p => unlessOverflow (parseWantFrom buf (buf.length + 1) (p + 7) 0) fun want =>
      .ok (some (want : Int))

def contains (key : String) : Bool := (findSub (asciiBytes key) buf).isSome

def messageKind : Option MessageKind :=
  if contains buf "1:y1:r" then some .reply
  else if contains buf "1:y1:e" then some .error
  else if ¬ contains buf "1:y1:q" then none
  else if contains buf "1:q4:ping" then some .ping
  else if contains buf "1:q9:find_node" then some .findNode
  else if contains buf "1:q9:get_peers" then some .getPeers
  else if contains buf "1:q13:announce_peer" then some .announcePeer
  else none

/-- `junk` is what lies in the array of the transaction id -/
def parseMessage (junk : List UInt8) : Exec (Option (MessageKind × Fields)) :=
  unlessOverflow (parseCounted buf "1:t" 16 junk) fun tid =>
  unlessOverflow (parseId buf "2:id20:") fun id =>
  unlessOverflow (parseId buf "9:info_hash20:") fun infoHash =>
  unlessOverflow (parsePort buf) fun port =>
  unlessOverflow (parseId buf "6:target20:") fun target =>
  unlessOverflow (parseCounted buf "5:token" 128 []) fun token =>
  unlessOverflow (parseCounted buf "5:nodes" (26 * 16 + 1) []) fun nodes =>
  unlessOverflow (parseCounted buf "6:nodes6" (38 * 16 + 1) []) fun nodes6 =>
  unlessOverflow (parseValues buf) fun values =>
  unlessOverflow (parseWant buf) fun want =>
    .ok ((messageKind buf).map fun kind => (kind,
      { tid := tid, id := id, infoHash := infoHash, port := port, target := target, token := token,
        nodes := nodes, nodes6 := nodes6, values := values.1, values6 := values.2, want := want }))

end

/-! ## any datagram -/

/-- it comes to an end, and what it yields is as it should be -/
def Parses {α : Type} (P : α → Prop) (x : Exec (Option α)) : Prop :=
  ∃ r, x = .ok r ∧ ∀ a, r = some a → P a

/-- what has been read fits the arrays that it was copied to -/
structure Fields.Law (m : Fields) : Prop where
  tid : m.tid.length ≤ 16
  port : m.port < 0x10000
  token : m.token.length < 128
  nodes : m.nodes.length ≤ 26 * 16
  nodes6 : m.nodes6.length ≤ 38 * 16
  values : m.values.length ≤ 2048 ∧ 6 ∣ m.values.length
  values6 : m.values6.length ≤ 2048 ∧ 18 ∣ m.values6.length

section
variable {α β : Type} {buf junk absent : List UInt8} {P : α → Prop} {Q : β → Prop}
variable {x : Exec (Option α)} {f : α → Exec (Option β)} {i p : Nat} {key : String}

theorem Parses.unlessOverflow (h : Parses P x) (hf : ∀ a, P a → Parses Q (f a)) :
    Parses Q (unlessOverflow x f) := by
  obtain ⟨r, hx, hr⟩ := h
  unfold Dht.unlessOverflow
  rw [hx, ok_bind]
  cases r with
  | none => exact ⟨none, rfl, fun a ha => by cases ha⟩
  | some a => exact hf a (hr a rfl)

theorem Parses.some {a : α} (h : P a) : Parses P (.ok (some a)) :=
  ⟨_, rfl, fun b hb => Option.some.inj hb ▸ h⟩

theorem Parses.none : Parses P (.ok none) := ⟨_, rfl, fun b hb => by cases hb⟩

/-- **what ends inside of the datagram is copied** -/
theorem copyAt_ok {n : Nat} (h : i + n ≤ buf.length) :
    copyAt buf i n = .ok ((buf.drop i).take n) := by
  have hle : i + n ≤ (buf ++ [(0 : UInt8)]).length := by
    rw [List.length_append]
    omega
  unfold copyAt
  rw [Region.load_pos hle, List.drop_append_of_le_length (by omega),
    List.take_append_of_le_length (by rw [List.length_drop]; omega)]

theorem idAt_ok (h : i + 20 ≤ buf.length) :
    idAt buf i = .ok (Vector.ofFn fun k : Fin 20 => ((buf.drop i).take 20).getD k 0) := by
  unfold idAt
  rw [copyAt_ok h, ok_bind]

theorem wantFlag_ok {length : Nat} (h : i + length ≤ buf.length) :
    ∃ flag, wantFlag buf i length = .ok flag := by
  unfold wantFlag
  split
  · rename_i h2
    rw [copyAt_ok (by omega), ok_bind]
    exact ⟨_, rfl⟩
  · exact ⟨_, rfl⟩

theorem strtol_place_lt {base : Nat} {text : List UInt8} {l : Int} {length : Nat} (hne : text ≠ [])
    (h : strtol base text = .ok (l, length)) : length < text.length := by
  unfold strtol at h
  simp only at h
  obtain ⟨hlt, h⟩ := require_bind_eq_ok.1 h
  split at h
  · obtain ⟨-, rfl⟩ := Prod.mk.inj (Except.ok.inj h)
    exact List.length_pos_of_ne_nil hne
  · obtain ⟨-, rfl⟩ := Prod.mk.inj (Except.ok.inj h)
    exact hlt

/-- **a number is read** in front of the zero byte -/
theorem numberAt_ok (hi : i ≤ buf.length) :
    ∃ l q c, numberAt buf i = .ok (l, q, c) ∧ i ≤ q ∧ (c = 58 → q < buf.length) := by
  have hmem : memoryAt buf i = buf.drop i ++ [0] := List.drop_append_of_le_length hi
  obtain ⟨l, length, hread⟩ := exists_strtol 10 (buf.drop i)
  have hlt := strtol_place_lt (by simp) hread
  rw [List.length_append, List.length_drop, List.length_singleton] at hlt
  have hget : i + length < (buf ++ [0]).length := by
    rw [List.length_append, List.length_singleton]
    omega
  refine ⟨l, i + length, (buf ++ [0])[i + length], ?_, by omega, fun hc => ?_⟩
  · unfold numberAt
    rw [hmem, hread, ok_bind]
    simp only
    rw [List.getElem?_eq_getElem hget, deref_some, ok_bind]
  · by_contra hge
    have heq : i + length = buf.length := by omega
    have hzero : (buf ++ [0])[i + length]? = some 0 := by
      rw [heq, List.getElem?_append_right (le_refl _), Nat.sub_self]
      rfl
    rw [List.getElem?_eq_getElem hget, hc] at hzero
    exact absurd (Option.some.inj hzero) (by decide)

theorem parseCounted_parses {limit : Int} {k : Nat} (hk : limit ≤ k + 1) (habsent : absent.length ≤ k) :
    Parses (fun bytes : List UInt8 => bytes.length ≤ k) (parseCounted buf key limit absent) := by
  unfold parseCounted
  cases hfind : findSub (asciiBytes key) buf with
  | none => exact Parses.some habsent
  | some p =>
    have hle := findSub_le hfind
    obtain ⟨l, q, c, hread, -, -⟩ := numberAt_ok hle
    simp only
    rw [hread, ok_bind]
    simp only
    split
    · rename_i hok
      split
      · exact Parses.none
      · rename_i hfits
        rw [copyAt_ok (by omega), ok_bind]
        refine Parses.some ?_
        have := List.length_take_le l.toNat (buf.drop (q + 1))
        omega
    · exact Parses.some (Nat.zero_le _)

theorem parseId_parses : Parses (fun _ => True) (parseId buf key) := by
  unfold parseId
  split
  · exact Parses.some trivial
  · split
    · exact Parses.none
    · rename_i hfits
      rw [idAt_ok (by omega), ok_bind]
      exact Parses.some trivial

theorem parsePort_parses : Parses (fun port => port < 0x10000) (parsePort buf) := by
  unfold parsePort
  cases hfind : findSub (asciiBytes "porti") buf with
  | none => exact Parses.some (by norm_num)
  | some p =>
    have hle := findSub_le hfind
    have hlen : (asciiBytes "porti").length = 5 := by decide
    rw [hlen] at hle
    obtain ⟨l, q, c, hread, -, -⟩ := numberAt_ok hle
    simp only
    rw [hread, ok_bind]
    refine Parses.some ?_
    simp only
    split
    · omega
    · norm_num

/-- what has been gathered of a list of addresses -/
def ValuesLaw (v : List UInt8 × List UInt8) : Prop :=
  (v.1.length ≤ 2048 ∧ 6 ∣ v.1.length) ∧ v.2.length ≤ 2048 ∧ 18 ∣ v.2.length

theorem parseValuesFrom_parses {fuel : Nat} {v : List UInt8 × List UInt8} (hi : i ≤ buf.length)
    (hfuel : buf.length - i < fuel) (hv : ValuesLaw v) :
    Parses ValuesLaw (parseValuesFrom buf fuel i v) := by
  induction fuel generalizing i v with
  | zero => exact absurd hfuel (Nat.not_lt_zero _)
  | succ fuel ih =>
    obtain ⟨values, values6⟩ := v
    obtain ⟨l, q, c, hread, hq, hlt⟩ := numberAt_ok hi
    rw [parseValuesFrom, hread, ok_bind]
    simp only
    split
    · rename_i hok
      have hlt := hlt hok.1
      split
      · exact Parses.none
      · rename_i hfits
        have hfuel' : buf.length - (q + 1 + l.toNat) < fuel := by omega
        have htake : ((buf.drop (q + 1)).take l.toNat).length = l.toNat := by
          rw [List.length_take, List.length_drop]
          omega
        obtain ⟨⟨h1, h2⟩, h3, h4⟩ := hv
        simp only at h1 h2 h3 h4
        split
        · rename_i h6
          rw [copyAt_ok (by omega), ok_bind]
          refine ih (by omega) hfuel' ⟨⟨?_, ?_⟩, h3, h4⟩
          · show (values ++ _).length ≤ 2048
            rw [List.length_append, htake]
            omega
          · show 6 ∣ (values ++ _).length
            rw [List.length_append, htake]
            omega
        · split
          · rename_i h18
            rw [copyAt_ok (by omega), ok_bind]
            refine ih (by omega) hfuel' ⟨⟨h1, h2⟩, ?_, ?_⟩
            · show (values6 ++ _).length ≤ 2048
              rw [List.length_append, htake]
              omega
            · show 18 ∣ (values6 ++ _).length
              rw [List.length_append, htake]
              omega
          · exact ih (by omega) hfuel' ⟨⟨h1, h2⟩, h3, h4⟩
    · exact Parses.some hv

theorem parseValues_parses : Parses ValuesLaw (parseValues buf) := by
  have hnil : ValuesLaw ([], []) := ⟨⟨by simp, by simp⟩, by simp, by simp⟩
  unfold parseValues
  cases hfind : findSub (asciiBytes "6:valuesl") buf with
  | none => exact Parses.some hnil
  | some p =>
    have hle := findSub_le hfind
    have hlen : (asciiBytes "6:valuesl").length = 9 := by decide
    rw [hlen] at hle
    exact parseValuesFrom_parses hle (by omega) hnil

theorem parseWantFrom_parses {fuel want : Nat} (hi : i ≤ buf.length) (hfuel : buf.length - i < fuel) :
    Parses (fun _ => True) (parseWantFrom buf fuel i want) := by
  induction fuel generalizing i want with
  | zero => exact absurd hfuel (Nat.not_lt_zero _)
  | succ fuel ih =>
    have hlen : (buf ++ [(0 : UInt8)]).length = buf.length + 1 := by
      rw [List.length_append, List.length_singleton]
    have hget : (buf ++ [0])[i]? = some (buf ++ [0])[i] := List.getElem?_eq_getElem (by omega)
    rw [parseWantFrom, hget, deref_some, ok_bind]
    split
    · rename_i hdigit
      -- a digit is not the zero byte, so there is another byte behind it
      have hlt : i < buf.length := by
        by_contra hge
        have heq : i = buf.length := by omega
        have hzero : (buf ++ [0])[i]? = some 0 := by
          rw [heq, List.getElem?_append_right (le_refl _), Nat.sub_self]
          rfl
        rw [hget] at hzero
        rw [Option.some.inj hzero] at hdigit
        exact absurd hdigit.1 (by decide)
      have hget' : (buf ++ [0])[i + 1]? = some (buf ++ [0])[i + 1] :=
        List.getElem?_eq_getElem (by omega)
      rw [hget', deref_some, ok_bind]
      simp only
      split
      · rename_i hmore
        obtain ⟨flag, hflag⟩ :=
          @wantFlag_ok buf (i + 2) ((buf ++ [0])[i].toNat - 48) (by omega)
        rw [if_neg (by omega), hflag, ok_bind]
        exact ih (by omega) (by omega)
      · exact Parses.some trivial
    · exact Parses.some trivial

theorem parseWant_parses : Parses (fun _ => True) (parseWant buf) := by
  unfold parseWant
  cases hfind : findSub (asciiBytes "4:wantl") buf with
  | none => exact Parses.some trivial
  | some p =>
    have hle := findSub_le hfind
    have hlen : (asciiBytes "4:wantl").length = 7 := by decide
    rw [hlen] at hle
    exact (parseWantFrom_parses hle (by omega)).unlessOverflow fun want _ => Parses.some trivial

end

end Libp2p.Dht
