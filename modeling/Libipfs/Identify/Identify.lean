import Libipfs.Lib.CString
import Libipfs.Protobuf.Large

/-!
# What a peer says of itself

The codec of `identify.c`: a public key, two lists of strings behind whose last item there is a
null pointer, and three strings.  The decoder begins with a record that already has the two
versions in it, and adds to a list through a pointer to the member that holds it.

* `starAt`, `setAt`   `*array[count]`, where the subscript goes first: from 1 on it is behind the
                      member;
* `identifyArrayAddItem`      faults for every list and item (`not_safe_identifyArrayAddItem`);
* `identifyProtobufEncode`    the encoder, whose fields are those of the value
                              (`identifyProtobufEncode_identify`);
* `identifyProtobufDecode`    the decoder, on fields `identifyLoop_fields`;
* `Identify.Decoded`   what every run of the decoder keeps: no length of the key, and no list;
* `identify_iff`       **the length of the key never comes back**, and when the rest does.
-/

namespace Libp2p
open CSem

/-! ## the record -/

/-- the cells of a list; null is `none` -/
abbrev Cells : Type := List (Option (List UInt8))

/-- `publicKey` is the object with the key in it, the others are C strings; each may be null.
The length of the key may never have been set -/
structure Identify where
  publicKey : Option (List UInt8)
  publicKeyLength : Option Int
  listenAddrs : Option Cells
  protocols : Option Cells
  observedAddr : Option (List UInt8)
  protocolVersion : Option (List UInt8)
  agentVersion : Option (List UInt8)
  unrecognized : Option (List UInt8)
  deriving DecidableEq, Repr

/-- "ipfs/0.1.0" -/
def identifyProtocolVersion : List UInt8 := [105, 112, 102, 115, 47, 48, 46, 49, 46, 48]

/-- "c-ipfs/1.0" -/
def identifyAgentVersion : List UInt8 := [99, 45, 105, 112, 102, 115, 47, 49, 46, 48]

def identifyNew : Identify where
  publicKey := none
  publicKeyLength := none
  listenAddrs := none
  protocols := none
  observedAddr := none
  protocolVersion := some identifyProtocolVersion
  agentVersion := some identifyAgentVersion
  unrecognized := none

/-- a variable or member that is read -/
def initialized {α : Type} : Option α → Exec α
  | none => .error .uninitialized
  | some a => .ok a

/-! ## adding to a list -/

/-- `*array[i]`: what `array[0]` points to; `array[1]` is the next member of the record -/
def starAt (array : Option Cells) (i : Nat) : Exec (Option (List UInt8)) := do
  require .outOfBounds (i = 0)
  match ← deref array with
  | [] => .error .outOfBounds
  | cell :: _ => .ok cell

/-- `*array[i] = item` -/
def setAt (array : Option Cells) (i : Nat) (item : Option (List UInt8)) : Exec (Option Cells) := do
  require .outOfBounds (i = 0)
  match ← deref array with
  | [] => .error .outOfBounds
  | _ :: cells => .ok (some (item :: cells))

/-- `while (*array[count++]);` -/
def countItems (array : Option Cells) : Nat → Nat → Exec Nat
  | 0, _ => .error .diverges
  | turns + 1, count => do
    match ← starAt array count with
    | none => .ok (count + 1)
    | some _ => countItems array turns (count + 1)

def countInArray (array : Option Cells) : Exec Nat :=
  if array.isSome then countItems array 2 0 else .ok 0

/-- what is in the cells that are new is not read -/
def reallocCells (array : Option Cells) (count : Nat) : Option Cells :=
  some ((array.getD [] ++ List.replicate count none).take count)

/-- neither pointer is null; the list and the items counted -/
def identifyArrayAddItem (array : Option Cells) (item : List UInt8) :
    Exec (Option Cells × Nat) := do
  let count ← countInArray array
  let array ← setAt (reallocCells array (count + 2)) count (some item)
  let count := count + 1
  let array ← setAt array count none
  .ok (array, count)

/-! ## encoding -/

/-- the items before the null pointer; the counter is an `int` -/
def itemsFrom (i : Nat) : Cells → Exec (List (List UInt8))
  | [] => .error .outOfBounds
  | none :: _ => .ok []
  | some item :: cells => do
    require .overflow (i + 1 < 2 ^ 31)
    let items ← itemsFrom (i + 1) cells
    .ok (item :: items)

def itemsOf : Option Cells → Exec (List (List UInt8))
  | none => .ok []
  | some cells => itemsFrom 0 cells

/-- a field of the encoding: its number and its bytes -/
abbrev Field : Type := Nat × List UInt8

def Field.item (field : Field) : Item := .bytes field.1 .lengthDelimited field.2

/-- with the length as a `size_t` -/
def identifyKeyFields (identify : Identify) : Exec (List Field) :=
  match identify.publicKey with
  | none => .ok []
  | some key => do
    let length ← initialized identify.publicKeyLength
    require .outOfBounds (toUInt64 length ≤ key.length)
    .ok [(1, key.take (toUInt64 length))]

/-- each string up to its first zero byte -/
def stringFields (fieldNo : Nat) (strings : List (List UInt8)) : List Field :=
  strings.map fun string => (fieldNo, cString string)

def identifyProtobufEncode (identify : Identify) (room : Nat) : Exec (List UInt8) := do
  let publicKey ← identifyKeyFields identify
  let listenAddrs ← itemsOf identify.listenAddrs
  let protocols ← itemsOf identify.protocols
  let fields := publicKey ++ (stringFields 2 listenAddrs ++ (stringFields 3 protocols ++
    (stringFields 4 identify.observedAddr.toList ++
      (stringFields 5 identify.protocolVersion.toList ++
        stringFields 6 identify.agentVersion.toList))))
  encodeItems (fields.map Field.item) room

/-! ## decoding -/

/-- `protobufDecodeString` with the whole object that is stored, the zero byte at its end
included -/
def protobufDecodeStringObject (bufferLength : Nat) (buf : List UInt8) :
    Exec (Option (List UInt8) × Int) := do
  let (v, n) ← varintDecode (toInt32 bufferLength) buf
  let length := toInt32 v
  if 0 < length then do
    require .overflow (length + 1 < 2 ^ 31)
    require .outOfBounds (n + length.toNat ≤ buf.length)
    .ok (some ((buf.drop n).take length.toNat ++ [0]), n + length)
  else
    .ok (none, n + length)

/-- what there was and a comma; the place of the comma is an `int` -/
def beforeItem : Option (List UInt8) → Exec (List UInt8)
  | none => .ok []
  | some unrecognized => do
    let count := toInt32 unrecognized.length
    require .outOfBounds (0 ≤ count)
    require .overflow (count + 1 < 2 ^ 31)
    .ok (unrecognized.take count.toNat ++ [44])

/-- `item` is none when nothing is stored: the variable for it has no value, or points to what is
no longer there -/
def identifyStore (fieldNo : Int) (item : Option (List UInt8)) (bytesRead : Int)
    (out : Identify) : Exec (Option Identify) :=
  match fieldNo with
  | 1 => .ok (some { out with publicKey := item <|> out.publicKey })
  | 2 => do
    let item ← initialized item
    let (listenAddrs, count) ← identifyArrayAddItem out.listenAddrs (cString item)
    if count = 0 then .ok none else .ok (some { out with listenAddrs := listenAddrs })
  | 3 => do
    let item ← initialized item
    let (protocols, count) ← identifyArrayAddItem out.protocols (cString item)
    if count = 0 then .ok none else .ok (some { out with protocols := protocols })
  | 4 => .ok (some { out with observedAddr := item.map cString <|> out.observedAddr })
  | 5 => .ok (some { out with protocolVersion := item.map cString <|> out.protocolVersion })
  | 6 => .ok (some { out with agentVersion := item.map cString <|> out.agentVersion })
  | _ => do
    let item ← initialized item
    let before ← beforeItem out.unrecognized
    -- the bytes of the length are counted among those that are copied
    require .outOfBounds (bytesRead ≤ item.length)
    .ok (some { out with unrecognized := some (before ++ cString item) })

/-- one pass of the loop: the position and the record behind it -/
def identifyStep (buf : List UInt8) (pos : Nat) (out : Identify) :
    Exec (Option (Nat × Identify)) := do
  let tag ← protobufDecodeFieldAndType (toInt32 buf.length) (buf.drop pos)
  let pos := pos + tag.bytesRead
  let (item, bytesRead) ← protobufDecodeStringObject (buf.length - pos) (buf.drop pos)
  match ← identifyStore tag.fieldNo item bytesRead out with
  | none => .ok none
  | some out => .ok (some (toUInt64 (pos + bytesRead), out))

def identifyLoop (buf : List UInt8) : Nat → Nat → Identify → Exec (Option Identify)
  | 0, pos, out => if pos < buf.length then .error .diverges else .ok (some out)
  | fuel + 1, pos, out =>
    if pos < buf.length then do
      match ← identifyStep buf pos out with
      | none => .ok none
      | some (pos, out) => identifyLoop buf fuel pos out
    else .ok (some out)

/-- `none` when the decoder returns 0; there is fuel for one pass more than there are positions -/
def identifyProtobufDecode (buf : List UInt8) : Exec (Option Identify) :=
  identifyLoop buf (buf.length + 1) 0 identifyNew

/-! ## values -/

/-- a key whose length is an `int`, and strings -/
structure IdentifyValue where
  publicKey : List UInt8
  listenAddrs : List CString
  protocols : List CString
  observedAddr : Option CString
  protocolVersion : Option CString
  agentVersion : Option CString
  keyFits : publicKey.length < 2 ^ 31

/-- no list at all, or one with a null pointer behind it -/
def nullTerminated : List CString → Option Cells
  | [] => none
  | strings => some (strings.map (fun string => some string.text) ++ [none])

def IdentifyValue.identify (v : IdentifyValue) : Identify where
  publicKey := some v.publicKey
  publicKeyLength := some v.publicKey.length
  listenAddrs := nullTerminated v.listenAddrs
  protocols := nullTerminated v.protocols
  observedAddr := v.observedAddr.map CString.text
  protocolVersion := v.protocolVersion.map CString.text
  agentVersion := v.agentVersion.map CString.text
  unrecognized := none

/-- the key as it is read from a record: as many bytes as its length says -/
def Identify.keyBytes (identify : Identify) : Option (List UInt8) := do
  let key ← identify.publicKey
  let length ← identify.publicKeyLength
  if 0 ≤ length ∧ length.toNat ≤ key.length then some (key.take length.toNat) else none

/-- the same lists in the same order, and the same strings -/
structure Identify.SameStrings (out : Identify) (v : IdentifyValue) : Prop where
  listenAddrs : itemsOf out.listenAddrs = .ok (v.listenAddrs.map CString.text)
  protocols : itemsOf out.protocols = .ok (v.protocols.map CString.text)
  observedAddr : out.observedAddr = v.observedAddr.map CString.text
  protocolVersion : out.protocolVersion = v.protocolVersion.map CString.text
  agentVersion : out.agentVersion = v.agentVersion.map CString.text

/-- the size of a buffer -/
abbrev BufferSize : Type := { n : Nat // n ≤ ptrdiffMax }

/-- what is encoded into a buffer of that size is decoded to the same key with its length, the
same lists and the same strings -/
def IdentifyRoundTrips (v : IdentifyValue) (size : BufferSize) : Prop :=
  ∃ bytes out, identifyProtobufEncode v.identify size = .ok bytes ∧
    identifyProtobufDecode bytes = .ok (some out) ∧
    out.keyBytes = some v.publicKey ∧ out.SameStrings v

/-- the same but for the length: the key is in an object of its own, with a zero byte behind it -/
def IdentifyComesBack (v : IdentifyValue) (size : BufferSize) : Prop :=
  ∃ bytes out, identifyProtobufEncode v.identify size = .ok bytes ∧
    identifyProtobufDecode bytes = .ok (some out) ∧
    out.publicKey = some (v.publicKey ++ [0]) ∧ out.SameStrings v

def IdentifyValue.fields (v : IdentifyValue) : List Field :=
  (1, v.publicKey) :: (stringFields 2 (v.listenAddrs.map CString.text) ++
    (stringFields 3 (v.protocols.map CString.text) ++
      (stringFields 4 (v.observedAddr.map CString.text).toList ++
        (stringFields 5 (v.protocolVersion.map CString.text).toList ++
          stringFields 6 (v.agentVersion.map CString.text).toList))))

/-- there, and with something in it -/
def Given (string : Option CString) : Prop := ∃ s, string = some s ∧ s.text ≠ []

/-- nothing but the key and three strings, none of them empty, the versions given -/
structure IdentifyValue.Plain (v : IdentifyValue) : Prop where
  key : v.publicKey ≠ []
  listenAddrs : v.listenAddrs = []
  protocols : v.protocols = []
  observedAddr : ∀ s, v.observedAddr = some s → s.text ≠ []
  protocolVersion : Given v.protocolVersion
  agentVersion : Given v.agentVersion
  /-- each of them is an `int` with its zero byte -/
  sizes : ∀ field ∈ v.fields, field.2.length + 1 < 2 ^ 31

/-! ## the list that is added to -/

section
variable {array : Option Cells} {i : Nat} {item : List UInt8} {cell : Option (List UInt8)}

theorem not_safe_setAt_succ : ¬ Safe (setAt array (i + 1) cell) := by
  unfold setAt
  rw [require_neg (Nat.succ_ne_zero i)]
  exact not_safe_error _

/-- **an item cannot be added**: the null pointer goes behind the member that holds the list -/
theorem not_safe_identifyArrayAddItem : ¬ Safe (identifyArrayAddItem array item) := by
  intro h
  unfold identifyArrayAddItem at h
  obtain ⟨count, -, h⟩ := safe_bind.1 h
  obtain ⟨array, -, h⟩ := safe_bind.1 h
  exact not_safe_setAt_succ h.of_bind

end

/-! ## encoding a value -/

section
variable {v : IdentifyValue}

theorem itemsFrom_map (strings : List (List UInt8)) (i : Nat) (h : i + strings.length < 2 ^ 31) :
    itemsFrom i (strings.map some ++ [none]) = .ok strings := by
  induction strings generalizing i with
  | nil => rfl
  | cons string strings ih =>
    rw [List.length_cons] at h
    rw [List.map_cons, List.cons_append, itemsFrom, require_pos (by omega), ok_bind,
      ih (i + 1) (by omega)]
    rfl

/-- **the items of a list**, in their order -/
theorem itemsOf_nullTerminated {strings : List CString} (h : strings.length < 2 ^ 31) :
    itemsOf (nullTerminated strings) = .ok (strings.map CString.text) := by
  cases strings with
  | nil => rfl
  | cons string strings =>
    have hmap := itemsFrom_map ((string :: strings).map CString.text) 0
      (by rw [List.length_map]; omega)
    rwa [List.map_map] at hmap

theorem identifyKeyFields_identify : identifyKeyFields v.identify = .ok [(1, v.publicKey)] := by
  have hfits := v.keyFits
  have hlength : toUInt64 (v.publicKey.length : Int) = v.publicKey.length :=
    toUInt64_natCast_of_lt (by omega)
  show (do
    require .outOfBounds (toUInt64 (v.publicKey.length : Int) ≤ v.publicKey.length)
    .ok [(1, v.publicKey.take (toUInt64 (v.publicKey.length : Int)))] : Exec (List Field)) = _
  rw [hlength, require_pos (Nat.le_refl _), ok_bind, List.take_length]

/-- **the fields of a value** are encoded one behind the other -/
theorem identifyProtobufEncode_identify (hlisten : v.listenAddrs.length < 2 ^ 31)
    (hprotocols : v.protocols.length < 2 ^ 31) (room : Nat) :
    identifyProtobufEncode v.identify room = encodeItems (v.fields.map Field.item) room := by
  have h2 : itemsOf v.identify.listenAddrs = _ := itemsOf_nullTerminated hlisten
  have h3 : itemsOf v.identify.protocols = _ := itemsOf_nullTerminated hprotocols
  unfold identifyProtobufEncode
  rw [identifyKeyFields_identify, ok_bind, h2, ok_bind, h3, ok_bind]
  rfl

theorem fields_no_lt {field : Field} (h : field ∈ v.fields) : field.1 < 16 := by
  have hstrings (no : Nat) (strings : List (List UInt8)) (hno : no < 16)
      (h : field ∈ stringFields no strings) : field.1 < 16 := by
    obtain ⟨string, -, rfl⟩ := List.mem_map.1 h
    exact hno
  rcases List.mem_cons.1 h with rfl | h
  · show 1 < 16
    norm_num
  rcases List.mem_append.1 h with h | h
  · exact hstrings 2 _ (by norm_num) h
  rcases List.mem_append.1 h with h | h
  · exact hstrings 3 _ (by norm_num) h
  rcases List.mem_append.1 h with h | h
  · exact hstrings 4 _ (by norm_num) h
  rcases List.mem_append.1 h with h | h
  · exact hstrings 5 _ (by norm_num) h
  · exact hstrings 6 _ (by norm_num) h

end

/-! ## decoding fields -/

section
variable {L : Nat} {buf : List UInt8} {text : Option (List UInt8)} {m : Int} {pos : Nat}
  {out r : Identify}

theorem cString_append_zero (d : List UInt8) : cString (d ++ [0]) = cString d := by
  unfold cString
  induction d with
  | nil => rfl
  | cons b d ih => rw [List.cons_append, List.takeWhile_cons, List.takeWhile_cons, ih]

/-- an object with a string in it: a zero byte at its end, and a size that is an `int` -/
def StringObject (object : List UInt8) : Prop :=
  ∃ d, object = d ++ [0] ∧ d.length + 1 < 2 ^ 31

theorem StringObject.length_lt {object : List UInt8} (h : StringObject object) :
    object.length < 2 ^ 31 := by
  obtain ⟨d, rfl, hd⟩ := h
  rw [List.length_append, List.length_singleton]
  exact hd

theorem StringObject.cString_length_lt {object : List UInt8} (h : StringObject object) :
    (cString object).length + 1 < 2 ^ 31 := by
  obtain ⟨d, rfl, hd⟩ := h
  have hle : (cString d).length ≤ d.length := (List.takeWhile_prefix _).length_le
  rw [cString_append_zero]
  omega

theorem protobufDecodeStringObject_object {object : List UInt8}
    (h : protobufDecodeStringObject L buf = .ok (some object, m)) : StringObject object := by
  unfold protobufDecodeStringObject at h
  obtain ⟨⟨v, n⟩, -, h⟩ := bind_eq_ok.1 h
  dsimp only at h
  by_cases h0 : 0 < toInt32 v
  · rw [if_pos h0] at h
    obtain ⟨h1, h⟩ := require_bind_eq_ok.1 h
    obtain ⟨-, h⟩ := require_bind_eq_ok.1 h
    cases h
    have htake : ((buf.drop n).take (toInt32 v).toNat).length ≤ (toInt32 v).toNat :=
      List.length_take_le _ _
    exact ⟨_, rfl, by omega⟩
  · rw [if_neg h0] at h
    cases h

/-- what a field leaves behind: nothing when it is empty -/
def Field.object (field : Field) : Option (List UInt8) :=
  if field.2 = [] then none else some (field.2 ++ [0])

/-- a field is read iff its varint fits the length given -/
theorem protobufDecodeStringObject_field {field : Field} {rest : List UInt8}
    {r : Option (List UInt8) × Int} (h : field.2.length + 1 < 2 ^ 31) :
    protobufDecodeStringObject L (field.item.body ++ rest) = .ok r ↔
      varintFits field.item.sizeLength (toInt32 L) ∧
        r = (field.object, (field.item.body.length : Int)) := by
  obtain ⟨no, d⟩ := field
  dsimp only at h
  have hint : toInt32 (d.length : Nat) = d.length := toInt32_natCast_of_lt (by omega)
  have hread (hfit : varintFits (varintBytes d.length).length (toInt32 L)) :
      protobufDecodeStringObject L ((varintBytes d.length ++ d) ++ rest) =
        .ok (Field.object (no, d), ((varintBytes d.length ++ d).length : Int)) := by
    unfold protobufDecodeStringObject
    rw [List.append_assoc, varintDecode_varintBytes (by omega) hfit, ok_bind]
    dsimp only
    rw [hint]
    by_cases hd : d = []
    · subst hd
      rfl
    · have hpos : 0 < (d.length : Int) := by
        have := List.length_pos_of_ne_nil hd
        omega
      have hle : (varintBytes d.length).length + ((d.length : Int)).toNat ≤
          (varintBytes d.length ++ (d ++ rest)).length := by
        simp only [List.length_append, Int.toNat_natCast]
        omega
      rw [if_pos hpos, require_pos (by omega), ok_bind, require_pos hle, ok_bind,
        Int.toNat_natCast, List.drop_left, List.take_left, Field.object, if_neg hd,
        List.length_append, Nat.cast_add]
  constructor
  · intro hr
    have hsafe : Safe (varintDecode (toInt32 L) (varintBytes d.length ++ (d ++ rest))) := by
      have h : Safe (protobufDecodeStringObject L ((varintBytes d.length ++ d) ++ rest)) :=
        ⟨r, hr⟩
      rw [List.append_assoc] at h
      exact h.of_bind
    have hfit := (safe_varintDecode_varintBytes (by omega)).1 hsafe
    exact ⟨hfit, Except.ok.inj (hr.symm.trans (hread hfit))⟩
  · rintro ⟨hfit, rfl⟩
    exact hread hfit

/-- the fields, one after the other -/
def storeFields : List Field → Identify → Exec (Option Identify)
  | [], out => .ok (some out)
  | field :: fields, out => do
    match ← identifyStore field.1 field.object field.item.body.length out with
    | none => .ok none
    | some out => storeFields fields out

theorem identifyStep_field {pre rest : List UInt8} {field : Field}
    {x : Option (Nat × Identify)} (hno : field.1 < 16) (h : field.2.length + 1 < 2 ^ 31)
    (hlen : (pre ++ (field.item.enc ++ rest)).length ≤ ptrdiffMax) :
    identifyStep (pre ++ (field.item.enc ++ rest)) pre.length out = .ok x ↔
      varintFits field.item.sizeLength (toInt32 (field.item.body ++ rest).length) ∧
        ∃ y, identifyStore field.1 field.object field.item.body.length out = .ok y ∧
          x = y.map fun out => (pre.length + field.item.enc.length, out) := by
  obtain ⟨htag, hdrop, hrem, hpos⟩ := item_here pre rest field.item hno hlen
  unfold identifyStep
  rw [htag, ok_bind]
  dsimp only
  rw [hdrop, hrem]
  constructor
  · intro hx
    obtain ⟨r, hr, hx⟩ := bind_eq_ok.1 hx
    obtain ⟨hfit, rfl⟩ := (protobufDecodeStringObject_field h).1 hr
    obtain ⟨y, hy, hx⟩ := bind_eq_ok.1 hx
    refine ⟨hfit, y, hy, ?_⟩
    cases y with
    | none => exact (Except.ok.inj hx).symm
    | some y =>
      dsimp only at hx
      rw [hpos] at hx
      exact (Except.ok.inj hx).symm
  · rintro ⟨hfit, y, hy, rfl⟩
    refine bind_eq_ok.2 ⟨_, (protobufDecodeStringObject_field h).2 ⟨hfit, rfl⟩, ?_⟩
    refine bind_eq_ok.2 ⟨y, hy, ?_⟩
    cases y with
    | none => rfl
    | some y =>
      dsimp only
      rw [hpos]
      rfl

theorem identifyLoop_done {fuel : Nat} (h : ¬ pos < buf.length) :
    identifyLoop buf fuel pos out = .ok (some out) := by
  cases fuel with
  | zero => rw [identifyLoop, if_neg h]
  | succ fuel => rw [identifyLoop, if_neg h]

theorem identifyLoop_succ {fuel : Nat} (h : pos < buf.length) :
    identifyLoop buf (fuel + 1) pos out = identifyStep buf pos out >>= fun r =>
      match r with
      | none => .ok none
      | some (pos, out) => identifyLoop buf fuel pos out := by
  rw [identifyLoop, if_pos h]

/-- one pass over a field -/
theorem identifyLoop_field {pre rest : List UInt8} {field : Field} {fuel : Nat}
    (hno : field.1 < 16) (h : field.2.length + 1 < 2 ^ 31)
    (hlen : (pre ++ (field.item.enc ++ rest)).length ≤ ptrdiffMax) :
    identifyLoop (pre ++ (field.item.enc ++ rest)) (fuel + 1) pre.length out = .ok (some r) ↔
      varintFits field.item.sizeLength (toInt32 (field.item.body ++ rest).length) ∧
        ∃ next, identifyStore field.1 field.object field.item.body.length out = .ok (some next) ∧
          identifyLoop ((pre ++ field.item.enc) ++ rest) fuel (pre ++ field.item.enc).length next =
            .ok (some r) := by
  have hpos := field.item.enc_length_pos
  rw [identifyLoop_succ (by simp only [List.length_append]; omega), List.append_assoc,
    @List.length_append _ pre field.item.enc]
  constructor
  · intro hloop
    obtain ⟨x, hx, hloop⟩ := bind_eq_ok.1 hloop
    obtain ⟨hfit, y, hy, rfl⟩ := (identifyStep_field hno h hlen).1 hx
    cases y with
    | none => cases hloop
    | some next => exact ⟨hfit, next, hy, hloop⟩
  · rintro ⟨hfit, next, hnext, hloop⟩
    exact bind_eq_ok.2 ⟨_, (identifyStep_field hno h hlen).2 ⟨hfit, _, hnext, rfl⟩, hloop⟩

/-- **fields are decoded** iff they are readable and can be stored -/
theorem identifyLoop_fields (pre : List UInt8) {fields : List Field} {fuel : Nat}
    (hf : ∀ field ∈ fields, field.1 < 16 ∧ field.2.length + 1 < 2 ^ 31)
    (hfuel : fields.length ≤ fuel)
    (hlen : (pre ++ itemsBytes (fields.map Field.item)).length ≤ ptrdiffMax) :
    identifyLoop (pre ++ itemsBytes (fields.map Field.item)) fuel pre.length out = .ok (some r) ↔
      Readable (fields.map Field.item) ∧ storeFields fields out = .ok (some r) := by
  induction fields generalizing pre fuel out with
  | nil =>
    rw [identifyLoop_done (by simp)]
    exact ⟨fun h => ⟨trivial, h⟩, fun h => h.2⟩
  | cons field fields ih =>
    obtain ⟨hno, h31⟩ := hf field List.mem_cons_self
    obtain ⟨fuel, rfl⟩ := Nat.exists_eq_add_one_of_ne_zero (Nat.ne_zero_of_lt hfuel)
    rw [List.map_cons, itemsBytes_cons] at hlen ⊢
    rw [identifyLoop_field hno h31 hlen, storeFields]
    rw [← List.append_assoc] at hlen
    -- the same run, one field further
    have hrest (next : Identify) := @ih next (pre ++ field.item.enc) fuel
      (fun f hmem => hf f (List.mem_cons_of_mem _ hmem)) (Nat.le_of_succ_le_succ hfuel) hlen
    constructor
    · rintro ⟨hfit, next, hnext, hloop⟩
      obtain ⟨hread, hstore⟩ := (hrest next).1 hloop
      exact ⟨⟨hfit, hread⟩, bind_eq_ok.2 ⟨_, hnext, hstore⟩⟩
    · rintro ⟨⟨hfit, hread⟩, h⟩
      obtain ⟨y, hy, h⟩ := bind_eq_ok.1 h
      cases y with
      | none => cases h
      | some next => exact ⟨hfit, next, hy, (hrest next).2 ⟨hread, h⟩⟩

theorem identifyProtobufDecode_fields {fields : List Field}
    (hf : ∀ field ∈ fields, field.1 < 16 ∧ field.2.length + 1 < 2 ^ 31)
    (hlen : (itemsBytes (fields.map Field.item)).length ≤ ptrdiffMax) :
    identifyProtobufDecode (itemsBytes (fields.map Field.item)) = .ok (some r) ↔
      Readable (fields.map Field.item) ∧ storeFields fields identifyNew = .ok (some r) := by
  have hfuel := itemsBytes_length_le (fields.map Field.item)
  rw [List.length_map] at hfuel
  exact identifyLoop_fields [] hf (by omega) hlen

end

/-! ## every run of the decoder -/

/-- the length of the key is never set and no list is there; what has been stored is the size of
an object -/
structure Identify.Decoded (out : Identify) : Prop where
  publicKeyLength : out.publicKeyLength = none
  listenAddrs : out.listenAddrs = none
  protocols : out.protocols = none
  publicKey : ∀ key, out.publicKey = some key → key.length < 2 ^ 31
  observedAddr : ∀ text, out.observedAddr = some text → text.length + 1 < 2 ^ 31
  protocolVersion : ∀ text, out.protocolVersion = some text → text.length + 1 < 2 ^ 31
  agentVersion : ∀ text, out.agentVersion = some text → text.length + 1 < 2 ^ 31

section
variable {fieldNo : Int} {item : Option (List UInt8)} {bytesRead : Int} {buf : List UInt8}
  {pos : Nat} {out r : Identify}

theorem decoded_identifyNew : identifyNew.Decoded where
  publicKeyLength := rfl
  listenAddrs := rfl
  protocols := rfl
  publicKey key h := nomatch h
  observedAddr text h := nomatch h
  protocolVersion text h := by
    cases h
    decide
  agentVersion text h := by
    cases h
    decide

/-- a pointer that is kept when nothing is stored -/
theorem bounded_orElse {α : Type} {size : α → Nat} {new old : Option α}
    (hnew : ∀ a, new = some a → size a < 2 ^ 31) (hold : ∀ a, old = some a → size a < 2 ^ 31) :
    ∀ a, (new <|> old) = some a → size a < 2 ^ 31 := by
  intro a h
  cases new with
  | none => exact hold a h
  | some b => exact hnew a h

/-- **one field** -/
theorem Identify.Decoded.store (hout : out.Decoded)
    (hitem : ∀ object, item = some object → StringObject object)
    (h : identifyStore fieldNo item bytesRead out = .ok (some r)) : r.Decoded := by
  have hstring : ∀ text, item.map cString = some text → text.length + 1 < 2 ^ 31 := by
    intro text htext
    obtain ⟨object, hobject, rfl⟩ := Option.map_eq_some_iff.1 htext
    exact (hitem object hobject).cString_length_lt
  unfold identifyStore at h
  split at h
  case h_1 =>
    cases h
    exact { hout with
      publicKey := bounded_orElse (fun object h => (hitem object h).length_lt) hout.publicKey }
  case h_2 =>
    obtain ⟨object, -, h⟩ := bind_eq_ok.1 h
    obtain ⟨added, hadded, -⟩ := bind_eq_ok.1 h
    exact absurd ⟨added, hadded⟩ not_safe_identifyArrayAddItem
  case h_3 =>
    obtain ⟨object, -, h⟩ := bind_eq_ok.1 h
    obtain ⟨added, hadded, -⟩ := bind_eq_ok.1 h
    exact absurd ⟨added, hadded⟩ not_safe_identifyArrayAddItem
  case h_4 =>
    cases h
    exact { hout with observedAddr := bounded_orElse hstring hout.observedAddr }
  case h_5 =>
    cases h
    exact { hout with protocolVersion := bounded_orElse hstring hout.protocolVersion }
  case h_6 =>
    cases h
    exact { hout with agentVersion := bounded_orElse hstring hout.agentVersion }
  case h_7 =>
    obtain ⟨object, -, h⟩ := bind_eq_ok.1 h
    obtain ⟨before, -, h⟩ := bind_eq_ok.1 h
    obtain ⟨-, h⟩ := require_bind_eq_ok.1 h
    cases h
    exact { hout with }

/-- one pass -/
theorem Identify.Decoded.step {pos' : Nat} (hout : out.Decoded)
    (h : identifyStep buf pos out = .ok (some (pos', r))) : r.Decoded := by
  unfold identifyStep at h
  obtain ⟨tag, -, h⟩ := bind_eq_ok.1 h
  obtain ⟨⟨item, m⟩, hitem, h⟩ := bind_eq_ok.1 h
  obtain ⟨y, hy, h⟩ := bind_eq_ok.1 h
  cases y with
  | none => cases h
  | some y =>
    cases h
    refine hout.store (fun object e => ?_) hy
    subst e
    exact protobufDecodeStringObject_object hitem

/-- **the whole run** -/
theorem Identify.Decoded.loop {fuel : Nat} (hout : out.Decoded)
    (h : identifyLoop buf fuel pos out = .ok (some r)) : r.Decoded := by
  induction fuel generalizing pos out with
  | zero =>
    by_cases hpos : pos < buf.length
    · rw [identifyLoop, if_pos hpos] at h
      cases h
    · rw [identifyLoop_done hpos] at h
      cases h
      exact hout
  | succ fuel ih =>
    by_cases hpos : pos < buf.length
    · rw [identifyLoop_succ hpos] at h
      obtain ⟨x, hx, h⟩ := bind_eq_ok.1 h
      cases x with
      | none => cases h
      | some x => exact ih (hout.step hx) h
    · rw [identifyLoop_done hpos] at h
      cases h
      exact hout

theorem decoded_of_identifyProtobufDecode (h : identifyProtobufDecode buf = .ok (some r)) :
    r.Decoded :=
  decoded_identifyNew.loop h

end

/-! ## values, decoded -/

/-- an empty string is not stored -/
def storedText (string : Option CString) : Option (List UInt8) :=
  string.bind fun s => if s.text = [] then none else some s.text

/-- what the decoder makes of a value without lists -/
def IdentifyValue.decoded (v : IdentifyValue) : Identify :=
  { identifyNew with
    publicKey := Field.object (1, v.publicKey)
    observedAddr := storedText v.observedAddr
    protocolVersion := storedText v.protocolVersion <|> some identifyProtocolVersion
    agentVersion := storedText v.agentVersion <|> some identifyAgentVersion }

section
variable {v : IdentifyValue} {size : BufferSize} {string : Option CString}
  {default : List UInt8} {out : Identify}

/-- **a string that may be null** is stored when there is something in it -/
theorem storeFields_string {no : Nat} {set : Option (List UInt8) → Identify → Identify}
    (hset : ∀ item bytesRead out,
      identifyStore no item bytesRead out = .ok (some (set (item.map cString) out)))
    (hnone : ∀ out, set none out = out) (string : Option CString) (fields : List Field)
    (out : Identify) :
    storeFields (stringFields no (string.map CString.text).toList ++ fields) out =
      storeFields fields (set (storedText string) out) := by
  cases string with
  | none => exact congrArg _ (hnone out).symm
  | some s =>
    have htext : cString s.text = s.text := cString_of_not_mem s.noZero
    show storeFields ((no, cString s.text) :: fields) out = _
    rw [htext, storeFields, hset, ok_bind]
    show storeFields fields (set ((Field.object (no, s.text)).map cString) out) = _
    unfold Field.object storedText
    by_cases h : s.text = []
    · simp only [h, if_true, Option.map_none, Option.bind_some]
    · simp only [h, if_false, Option.map_some, Option.bind_some, cString_append_zero, htext]

theorem storeFields_value (hlisten : v.listenAddrs = []) (hprotocols : v.protocols = []) :
    storeFields v.fields identifyNew = .ok (some v.decoded) := by
  unfold IdentifyValue.fields
  rw [hlisten, hprotocols, storeFields]
  show storeFields (stringFields 4 _ ++ (stringFields 5 _ ++ stringFields 6 _))
    { identifyNew with publicKey := Field.object (1, v.publicKey) <|> none } = _
  rw [@storeFields_string 4 (fun text out =>
      { out with observedAddr := text <|> out.observedAddr }) (fun _ _ _ => rfl) (fun _ => rfl),
    @storeFields_string 5 (fun text out =>
      { out with protocolVersion := text <|> out.protocolVersion }) (fun _ _ _ => rfl)
      (fun _ => rfl),
    ← List.append_nil (stringFields 6 _),
    @storeFields_string 6 (fun text out =>
      { out with agentVersion := text <|> out.agentVersion }) (fun _ _ _ => rfl) (fun _ => rfl)]
  have horElse (a : Option (List UInt8)) : (a <|> none) = a := by cases a <;> rfl
  rw [horElse]
  unfold IdentifyValue.decoded storeFields
  simp only [identifyNew, horElse]

theorem storedText_eq_iff : storedText string = string.map CString.text ↔
    ∀ s, string = some s → s.text ≠ [] := by
  unfold storedText
  cases string with
  | none => exact iff_of_true rfl fun s h => (nomatch h)
  | some s =>
    rw [Option.bind_some, Option.map_some]
    by_cases h : s.text = []
    · rw [if_pos h]
      exact iff_of_false (fun e => (nomatch e)) fun hne => hne s rfl h
    · rw [if_neg h]
      refine iff_of_true rfl fun t e => ?_
      cases e
      exact h

/-- a string that is not stored leaves the one that was there -/
theorem storedText_orElse_iff (hdefault : default ≠ []) :
    (storedText string <|> some default) = string.map CString.text ↔ Given string := by
  unfold storedText
  cases string with
  | none => exact iff_of_false (fun e => (nomatch e)) fun ⟨s, e, _⟩ => (nomatch e)
  | some s =>
    rw [Option.bind_some, Option.map_some]
    by_cases h : s.text = []
    · rw [if_pos h]
      refine iff_of_false (fun e => hdefault ?_) ?_
      · exact (Option.some.inj e).trans h
      · rintro ⟨t, e, ht⟩
        cases e
        exact ht h
    · rw [if_neg h]
      exact iff_of_true rfl ⟨s, rfl, h⟩

theorem publicKey_decoded_iff :
    v.decoded.publicKey = some (v.publicKey ++ [0]) ↔ v.publicKey ≠ [] := by
  show (if v.publicKey = [] then none else some (v.publicKey ++ [0])) = _ ↔ _
  by_cases h : v.publicKey = []
  · rw [if_pos h]
    exact iff_of_false (fun e => (nomatch e)) fun hne => hne h
  · rw [if_neg h]
    exact iff_of_true rfl h

/-- what is a list of a decoded record is empty -/
theorem eq_nil_of_itemsOf_none {strings : List CString}
    (h : itemsOf none = .ok (strings.map CString.text)) : strings = [] :=
  List.map_eq_nil_iff.1 (Except.ok.inj h).symm

/-- a field of a value without lists -/
theorem mem_fields_iff {field : Field} (hlisten : v.listenAddrs = [])
    (hprotocols : v.protocols = []) : field ∈ v.fields ↔ field = (1, v.publicKey) ∨
      (∃ s, v.observedAddr = some s ∧ field = (4, s.text)) ∨
      (∃ s, v.protocolVersion = some s ∧ field = (5, s.text)) ∨
      (∃ s, v.agentVersion = some s ∧ field = (6, s.text)) := by
  have hstring (no : Nat) (string : Option CString) :
      field ∈ stringFields no (string.map CString.text).toList ↔
        ∃ s, string = some s ∧ field = (no, s.text) := by
    cases string with
    | none => exact ⟨fun h => (nomatch h), fun ⟨s, e, _⟩ => (nomatch e)⟩
    | some s =>
      have htext : cString s.text = s.text := cString_of_not_mem s.noZero
      show field ∈ [(no, cString s.text)] ↔ _
      rw [htext, List.mem_singleton]
      exact ⟨fun e => ⟨s, rfl, e⟩, fun ⟨t, ht, e⟩ => by cases ht; exact e⟩
  unfold IdentifyValue.fields
  rw [hlisten, hprotocols]
  show field ∈ (1, v.publicKey) :: (stringFields 4 _ ++ (stringFields 5 _ ++ stringFields 6 _)) ↔ _
  rw [List.mem_cons, List.mem_append, List.mem_append, hstring, hstring, hstring]

/-- **what comes back was small enough**: its strings are those of objects -/
theorem sizes_of_decoded (hout : out.Decoded) (hkey : out.publicKey = some (v.publicKey ++ [0]))
    (hsame : out.SameStrings v) : ∀ field ∈ v.fields, field.2.length + 1 < 2 ^ 31 := by
  have hlisten : v.listenAddrs = [] :=
    eq_nil_of_itemsOf_none (by rw [← hout.listenAddrs]; exact hsame.listenAddrs)
  have hprotocols : v.protocols = [] :=
    eq_nil_of_itemsOf_none (by rw [← hout.protocols]; exact hsame.protocols)
  intro field hfield
  rcases (mem_fields_iff hlisten hprotocols).1 hfield with rfl | ⟨s, hs, rfl⟩ | ⟨s, hs, rfl⟩ |
    ⟨s, hs, rfl⟩
  · have hlength := hout.publicKey _ hkey
    rwa [List.length_append, List.length_singleton] at hlength
  · exact hout.observedAddr _ (by rw [hsame.observedAddr, hs]; rfl)
  · exact hout.protocolVersion _ (by rw [hsame.protocolVersion, hs]; rfl)
  · exact hout.agentVersion _ (by rw [hsame.agentVersion, hs]; rfl)

/-- **a value without lists**, encoded and decoded -/
theorem decode_encode_iff (hlisten : v.listenAddrs = []) (hprotocols : v.protocols = [])
    (hsizes : ∀ field ∈ v.fields, field.2.length + 1 < 2 ^ 31) :
    (∃ bytes, identifyProtobufEncode v.identify size = .ok bytes ∧
      identifyProtobufDecode bytes = .ok (some out)) ↔
      Writable (v.fields.map Field.item) size ∧ Readable (v.fields.map Field.item) ∧
        out = v.decoded := by
  have hpd : ptrdiffMax < 2 ^ 64 := ptrdiffMax_lt
  have hsize := size.2
  have hf : ∀ field ∈ v.fields, field.1 < 16 ∧ field.2.length + 1 < 2 ^ 31 :=
    fun field h => ⟨fields_no_lt h, hsizes field h⟩
  have hw : ∀ i ∈ v.fields.map Field.item, i.WordSized := by
    intro i hi
    obtain ⟨field, hfield, rfl⟩ := List.mem_map.1 hi
    exact fields_no_lt hfield
  have hencode (bytes : List UInt8) : identifyProtobufEncode v.identify size = .ok bytes ↔
      bytes = itemsBytes (v.fields.map Field.item) ∧ Writable (v.fields.map Field.item) size := by
    rw [identifyProtobufEncode_identify (by rw [hlisten]; norm_num) (by rw [hprotocols]; norm_num)]
    exact encodeItems_eq_ok_of_lt hw (by omega)
  have hdecode (hlen : (itemsBytes (v.fields.map Field.item)).length ≤ ptrdiffMax) :
      identifyProtobufDecode (itemsBytes (v.fields.map Field.item)) = .ok (some out) ↔
        Readable (v.fields.map Field.item) ∧ out = v.decoded := by
    rw [identifyProtobufDecode_fields hf hlen, storeFields_value hlisten hprotocols,
      Except.ok.injEq, Option.some_inj, eq_comm (a := v.decoded)]
  constructor
  · rintro ⟨bytes, hbytes, hout⟩
    obtain ⟨rfl, hwritable⟩ := (hencode bytes).1 hbytes
    have hlen := hwritable.length_le
    exact ⟨hwritable, (hdecode (by omega)).1 hout⟩
  · rintro ⟨hwritable, hread⟩
    have hlen := hwritable.length_le
    exact ⟨_, (hencode _).2 ⟨rfl, hwritable⟩, (hdecode (by omega)).2 hread⟩

/-- **the length of the key never comes back**; the rest does when there are no lists, the key is
not empty, the strings that are given are not and the versions are, and the sizes fit -/
theorem identify_iff (v : IdentifyValue) (size : BufferSize) :
    ¬ IdentifyRoundTrips v size ∧
      (IdentifyComesBack v size ↔ v.Plain ∧
        Writable (v.fields.map Field.item) size ∧ Readable (v.fields.map Field.item)) := by
  constructor
  · rintro ⟨bytes, out, -, hdecode, hkey, -⟩
    have hlength := (decoded_of_identifyProtobufDecode hdecode).publicKeyLength
    unfold Identify.keyBytes at hkey
    rw [hlength] at hkey
    cases hpublic : out.publicKey with
    | none =>
      rw [hpublic] at hkey
      cases hkey
    | some key =>
      rw [hpublic] at hkey
      cases hkey
  constructor
  · rintro ⟨bytes, out, hencode, hdecode, hkey, hsame⟩
    have hout := decoded_of_identifyProtobufDecode hdecode
    have hlisten : v.listenAddrs = [] :=
      eq_nil_of_itemsOf_none (by rw [← hout.listenAddrs]; exact hsame.listenAddrs)
    have hprotocols : v.protocols = [] :=
      eq_nil_of_itemsOf_none (by rw [← hout.protocols]; exact hsame.protocols)
    have hsizes := sizes_of_decoded hout hkey hsame
    obtain ⟨hwritable, hread, rfl⟩ :=
      (decode_encode_iff hlisten hprotocols hsizes).1 ⟨bytes, hencode, hdecode⟩
    refine ⟨⟨publicKey_decoded_iff.1 hkey, hlisten, hprotocols,
      storedText_eq_iff.1 hsame.observedAddr, ?_, ?_, hsizes⟩, hwritable, hread⟩
    · exact (storedText_orElse_iff (by decide)).1 hsame.protocolVersion
    · exact (storedText_orElse_iff (by decide)).1 hsame.agentVersion
  · rintro ⟨hplain, hwritable, hread⟩
    obtain ⟨bytes, hencode, hdecode⟩ :=
      (decode_encode_iff hplain.listenAddrs hplain.protocols hplain.sizes).2
        ⟨hwritable, hread, rfl⟩
    refine ⟨bytes, v.decoded, hencode, hdecode, publicKey_decoded_iff.2 hplain.key, ?_⟩
    exact {
      listenAddrs := by rw [hplain.listenAddrs]; rfl
      protocols := by rw [hplain.protocols]; rfl
      observedAddr := storedText_eq_iff.2 hplain.observedAddr
      protocolVersion := (storedText_orElse_iff (by decide)).2 hplain.protocolVersion
      agentVersion := (storedText_orElse_iff (by decide)).2 hplain.agentVersion }

end

/-- a key of four bytes, one of them zero, and what a new record has; "/" is listened to -/
def smallIdentify (listenAddrs : List CString) : IdentifyValue where
  publicKey := [8, 0, 18, 1]
  listenAddrs := listenAddrs
  protocols := []
  observedAddr := none
  protocolVersion := some ⟨identifyProtocolVersion, by decide, by decide⟩
  agentVersion := some ⟨identifyAgentVersion, by decide, by decide⟩
  keyFits := by decide

/-- the zero byte of the key is kept -/
example : identifyProtobufEncode (smallIdentify []).identify 6000 >>= identifyProtobufDecode =
    .ok (some { identifyNew with publicKey := some [8, 0, 18, 1, 0] }) := by decide +kernel

/-- **the key comes back without its length**; with one address in the list nothing comes back -/
theorem not_identify :
    ¬ IdentifyRoundTrips (smallIdentify []) ⟨6000, by decide⟩ ∧
    identifyProtobufEncode (smallIdentify [⟨[47], by decide, by decide⟩]).identify 6000 >>=
      identifyProtobufDecode = .error .outOfBounds ∧
    ¬ IdentifyComesBack (smallIdentify [⟨[47], by decide, by decide⟩]) ⟨6000, by decide⟩ := by
  have hfault : identifyProtobufEncode (smallIdentify [⟨[47], by decide, by decide⟩]).identify
      6000 >>= identifyProtobufDecode = .error .outOfBounds := by decide +kernel
  refine ⟨?_, hfault, ?_⟩
  · rintro ⟨bytes, out, hencode, hdecode, hkey, -⟩
    have hbytes : identifyProtobufEncode (smallIdentify []).identify 6000 >>=
        identifyProtobufDecode = .ok (some out) := bind_eq_ok.2 ⟨bytes, hencode, hdecode⟩
    have hout : identifyProtobufEncode (smallIdentify []).identify 6000 >>=
        identifyProtobufDecode =
          .ok (some { identifyNew with publicKey := some [8, 0, 18, 1, 0] }) := by decide +kernel
    cases hout.symm.trans hbytes
    cases hkey
  · rintro ⟨bytes, out, hencode, hdecode, -⟩
    have hbytes : identifyProtobufEncode (smallIdentify [⟨[47], by decide, by decide⟩]).identify
        6000 >>= identifyProtobufDecode = .ok (some out) := bind_eq_ok.2 ⟨bytes, hencode, hdecode⟩
    cases hfault.symm.trans hbytes

end Libp2p
