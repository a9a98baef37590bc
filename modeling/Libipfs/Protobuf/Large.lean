import Libipfs.Protobuf.FieldLoop

/-!
# Fields in buffers of any size

`varint_encode` and `varint_decode` take the length of their buffer as an `int`.  In a buffer of
2^31 bytes and more it is another number, and a varint of more than one byte is checked against
that one.

* `Writable`   every varint that is written fits the room left for it, so taken;
* `encodeItems_eq_ok`        fields are encoded iff they are writable;
* `decodeFields_eq_some`     and decoded iff they are readable;
* `suffices_iff`   **the size that is computed suffices** iff the bytes fit it and the varints do;
* `comesBack_iff_fits`       and what is written is read again iff they fit both ways.
-/

namespace Libp2p
open CSem

/-- the number of bytes of the field is one of an object -/
def Item.Object : Item → Prop
  | .varint _ _ _ => True
  | .bytes _ _ d => d.length < 2 ^ 64

/-- the field fits the room there is, and its varint that room taken as an `int` -/
def Item.WritableIn (i : Item) (room : Nat) : Prop :=
  i.enc.length ≤ room ∧ varintFits i.sizeLength (toInt32 (room - 1 : Nat))

def Writable : List Item → Nat → Prop
  | [], _ => True
  | i :: is, room => i.WritableIn room ∧ Writable is (room - i.enc.length)

/-- the second half of it: every varint fits the room left for it, taken as an `int` -/
def VarintsFit : List Item → Nat → Prop
  | [], _ => True
  | i :: is, room =>
    varintFits i.sizeLength (toInt32 (room - 1 : Nat)) ∧ VarintsFit is (room - i.enc.length)

/-- a buffer can be had, and its size is no trouble for the varints -/
structure RoomFor (items : List Item) (size : Nat) : Prop where
  memory : size ≤ ptrdiffMax
  varints : VarintsFit items size

/-- and what is written into it can be read as well -/
structure FitsBothWays (items : List Item) (size : Nat) : Prop where
  room : RoomFor items size
  readable : Readable items

/-- there is a buffer of the size that is computed, and the encoder succeeds in it -/
def Suffices (size : Exec Nat) (encode : Nat → Exec (List UInt8)) : Prop :=
  ∃ n out, size = .ok n ∧ n ≤ ptrdiffMax ∧ encode n = .ok out ∧ out.length ≤ n

/-- a buffer that is a field of an object is one too -/
theorem items_object {items : List Item} (hw : ∀ i ∈ items, i.WordSized)
    (hlen : (itemsBytes items).length < 2 ^ 64) : ∀ i ∈ items, i.WordSized ∧ i.Object := by
  intro i hi
  refine ⟨hw i hi, ?_⟩
  cases i with
  | varint no ty v => trivial
  | bytes no ty d => exact lt_of_le_of_lt (length_le_itemsBytes hi) hlen

/-- the encoder writes the field whenever it is writable, and else not at all -/
def EncodesItem (f : Nat → Exec (List UInt8)) (i : Item) : Prop :=
  ∀ room out, f room = .ok out ↔ out = i.enc ∧ i.WritableIn room

section
variable {i : Item} {items : List Item} {room : Nat} {out : List UInt8}

theorem Item.enc_length (hw : i.WordSized) : i.enc.length = 1 + i.body.length := by
  rw [Item.enc, List.length_append, tagBytes_length_le_one hw.no_lt]

theorem varintEncode_tag {no : Nat} {ty : WireType} (h : no < 16) :
    varintEncode (no * 8 + ty.num) room = .ok out ↔ out = tagBytes no ty ∧ 1 ≤ room := by
  have ht := ty.num_lt
  have hl : (varintBytes (no * 8 + ty.num)).length = 1 := tagBytes_length_le_one h
  rw [varintEncode_eq_ok (by omega)]
  unfold varintRoom tagBytes
  rw [hl]
  constructor
  · rintro ⟨rfl, hroom, -⟩
    exact ⟨rfl, by omega⟩
  · rintro ⟨rfl, hroom⟩
    exact ⟨rfl, by omega, .inl rfl⟩

/-- **one field** -/
theorem Item.encodesItem (hw : i.WordSized) (ho : i.Object) : EncodesItem i.encode i := by
  intro room out
  have hlen := Item.enc_length hw
  cases i with
  | varint no ty v =>
    show protobufEncodeVarint no ty v room = .ok out ↔ _
    have htag : (tagBytes no ty).length = 1 := tagBytes_length_le_one hw.1
    unfold protobufEncodeVarint encodeVarintField Item.WritableIn
    rw [hlen]
    constructor
    · intro h
      obtain ⟨field, hfield, h⟩ := bind_eq_ok.1 h
      obtain ⟨value, hvalue, h⟩ := bind_eq_ok.1 h
      obtain ⟨rfl, h1⟩ := (varintEncode_tag hw.1).1 hfield
      rw [htag] at hvalue
      obtain ⟨rfl, h2, h3⟩ := (varintEncode_eq_ok hw.2).1 hvalue
      cases h
      refine ⟨rfl, ?_, ?_⟩
      · show 1 + (varintBytes v).length ≤ room
        omega
      · rwa [Nat.zero_add] at h3
    · rintro ⟨rfl, h2, h3⟩
      have h2 : 1 + (varintBytes v).length ≤ room := h2
      refine bind_eq_ok.2 ⟨_, (varintEncode_tag hw.1).2 ⟨rfl, by omega⟩, ?_⟩
      rw [htag]
      refine bind_eq_ok.2 ⟨_, (varintEncode_eq_ok hw.2).2 ⟨rfl, by omega, ?_⟩, rfl⟩
      rw [Nat.zero_add]
      exact h3
  | bytes no ty d =>
    show protobufEncodeLengthDelimited no ty d room = .ok out ↔ _
    have htag : (tagBytes no ty).length = 1 := tagBytes_length_le_one hw
    have hbody : (Item.bytes no ty d).body.length = (varintBytes d.length).length + d.length :=
      List.length_append
    unfold protobufEncodeLengthDelimited encodeBytesField Item.WritableIn
    rw [hlen, hbody]
    constructor
    · intro h
      obtain ⟨field, hfield, h⟩ := bind_eq_ok.1 h
      obtain ⟨size, hsize, h⟩ := bind_eq_ok.1 h
      obtain ⟨rfl, h1⟩ := (varintEncode_tag hw).1 hfield
      rw [htag] at hsize
      obtain ⟨rfl, h2, h3⟩ := (varintEncode_eq_ok ho).1 hsize
      obtain ⟨hle, h⟩ := require_bind_eq_ok.1 h
      cases h
      refine ⟨List.append_assoc _ _ _, by omega, ?_⟩
      rwa [Nat.zero_add] at h3
    · rintro ⟨rfl, h2, h3⟩
      refine bind_eq_ok.2 ⟨_, (varintEncode_tag hw).2 ⟨rfl, by omega⟩, ?_⟩
      rw [htag]
      refine bind_eq_ok.2 ⟨_, (varintEncode_eq_ok ho).2 ⟨rfl, by omega, ?_⟩, ?_⟩
      · rw [Nat.zero_add]
        exact h3
      · refine require_bind_eq_ok.2 ⟨by omega, ?_⟩
        exact congrArg Except.ok (List.append_assoc _ _ _)

/-- **fields in sequence** -/
theorem encodeAll_eq_ok {fs : List (Nat → Exec (List UInt8))}
    (h : List.Forall₂ EncodesItem fs items) :
    encodeAll fs room = .ok out ↔ out = itemsBytes items ∧ Writable items room := by
  induction h generalizing room out with
  | nil =>
    constructor
    · intro h
      cases h
      exact ⟨rfl, trivial⟩
    · rintro ⟨rfl, -⟩
      rfl
  | @cons f i fs is hf hfs ih =>
    rw [encodeAll_cons]
    constructor
    · intro h
      obtain ⟨written, hw, h⟩ := bind_eq_ok.1 h
      obtain ⟨rest, hr, h⟩ := bind_eq_ok.1 h
      obtain ⟨rfl, hroom⟩ := (hf _ _).1 hw
      obtain ⟨rfl, hrest⟩ := ih.1 hr
      cases h
      exact ⟨rfl, hroom, hrest⟩
    · rintro ⟨rfl, hroom, hrest⟩
      exact bind_eq_ok.2 ⟨_, (hf _ _).2 ⟨rfl, hroom⟩, bind_eq_ok.2 ⟨_, ih.2 ⟨rfl, hrest⟩, rfl⟩⟩

theorem encodeItems_eq_ok (hi : ∀ i ∈ items, i.WordSized ∧ i.Object) :
    encodeItems items room = .ok out ↔ out = itemsBytes items ∧ Writable items room := by
  have hall : List.Forall₂ EncodesItem (items.map Item.encode) items := by
    rw [List.forall₂_map_left_iff]
    exact List.forall₂_same.2 fun i h => Item.encodesItem (hi i h).1 (hi i h).2
  exact encodeAll_eq_ok hall

/-- an encoder of a sequence that succeeds, succeeds at each place -/
theorem encodeAll_ok_of_mem {fs : List (Nat → Exec (List UInt8))} {f : Nat → Exec (List UInt8)}
    (h : encodeAll fs room = .ok out) (hf : f ∈ fs) : ∃ room' out', f room' = .ok out' := by
  induction fs generalizing room out with
  | nil => cases hf
  | cons g fs ih =>
    rw [encodeAll_cons] at h
    obtain ⟨written, hw, h⟩ := bind_eq_ok.1 h
    obtain ⟨rest, hr, -⟩ := bind_eq_ok.1 h
    rcases List.mem_cons.1 hf with rfl | hf
    · exact ⟨room, written, hw⟩
    · exact ih hr hf

/-- in a buffer whose size behind the tag is an `int`, what fits is writable -/
theorem writable_of_le (hi : ∀ i ∈ items, i.WordSized) (hle : (itemsBytes items).length ≤ room)
    (hint : room ≤ 2 ^ 31) : Writable items room := by
  induction items generalizing room with
  | nil => trivial
  | cons i is ih =>
    have hw := hi i List.mem_cons_self
    have hlen := Item.enc_length hw
    have hsize := i.sizeLength_le
    rw [itemsBytes_cons, List.length_append] at hle
    refine ⟨⟨by omega, varintFits_of_le ?_⟩, ih (fun j hj => hi j (List.mem_cons_of_mem _ hj))
      (by omega) (by omega)⟩
    rw [toInt32_natCast_of_lt (by omega)]
    omega

/-- what is writable fits -/
theorem Writable.length_le (h : Writable items room) : (itemsBytes items).length ≤ room := by
  induction items generalizing room with
  | nil => exact Nat.zero_le _
  | cons i is ih =>
    obtain ⟨⟨hle, -⟩, hrest⟩ := h
    have hlength := ih hrest
    rw [itemsBytes_cons, List.length_append]
    omega

theorem writable_iff :
    Writable items room ↔ (itemsBytes items).length ≤ room ∧ VarintsFit items room := by
  induction items generalizing room with
  | nil => exact ⟨fun _ => ⟨Nat.zero_le _, trivial⟩, fun _ => trivial⟩
  | cons i is ih =>
    show i.WritableIn room ∧ Writable is (room - i.enc.length) ↔ _
    rw [ih, itemsBytes_cons, List.length_append]
    constructor
    · intro h
      obtain ⟨⟨hle, hvarint⟩, hrest, hvarints⟩ := h
      exact ⟨by omega, hvarint, hvarints⟩
    · intro h
      obtain ⟨hle, hvarint, hvarints⟩ := h
      exact ⟨⟨by omega, hvarint⟩, by omega, hvarints⟩

theorem writable_of_lt (hi : ∀ i ∈ items, i.WordSized) (hle : (itemsBytes items).length ≤ room)
    (hint : room < 2 ^ 31) : Writable items room :=
  writable_of_le hi hle (Nat.le_of_lt hint)

theorem two_le_varintBytes_length {n : Nat} (h : 128 ≤ n) : 2 ≤ (varintBytes n).length := by
  have hrest : 0 < (varintBytesFrom 9 (n / 128)).length := by
    rw [varintBytesFrom_succ]
    split <;> simp
  rw [varintBytes, varintBytesFrom_succ, if_neg (by omega), List.length_cons]
  omega

/-- **fields in a buffer that is an object**: how long they are need not be known -/
theorem encodeItems_eq_ok_of_lt (hw : ∀ i ∈ items, i.WordSized) (hroom : room < 2 ^ 64) :
    encodeItems items room = .ok out ↔ out = itemsBytes items ∧ Writable items room := by
  constructor
  · intro h
    have hlen := ((writes_encodeItems hw).exact room out h).2
    exact (encodeItems_eq_ok (items_object hw (by omega))).1 h
  · intro h
    have hlen := h.2.length_le
    exact (encodeItems_eq_ok (items_object hw (by omega))).2 h

/-- **when the computed size suffices**, for what encodes some fields if there is nothing else
against it -/
theorem suffices_iff {size : Nat} {encode : Nat → Exec (List UInt8)} {P : Prop}
    (h : size ≤ ptrdiffMax → ∀ out, encode size = .ok out ↔
      P ∧ out = itemsBytes items ∧ Writable items size) :
    Suffices (.ok size) encode ↔ P ∧ (itemsBytes items).length ≤ size ∧ RoomFor items size := by
  constructor
  · intro hs
    obtain ⟨n, out, hn, hmem, hout, -⟩ := hs
    cases hn
    obtain ⟨hP, -, hwritable⟩ := (h hmem out).1 hout
    obtain ⟨hle, hvarints⟩ := writable_iff.1 hwritable
    exact ⟨hP, hle, hmem, hvarints⟩
  · intro hs
    obtain ⟨hP, hle, hmem, hvarints⟩ := hs
    exact ⟨size, _, rfl, hmem, (h hmem _).2 ⟨hP, rfl, writable_iff.2 ⟨hle, hvarints⟩⟩, hle⟩

/-- in a buffer that can be had and is large enough -/
theorem writable_iff_roomFor {size : Nat} (hmem : size ≤ ptrdiffMax)
    (hle : (itemsBytes items).length ≤ size) : Writable items size ↔ RoomFor items size := by
  rw [writable_iff]
  constructor
  · intro h
    exact ⟨hmem, h.2⟩
  · intro h
    exact ⟨hle, h.varints⟩

/-- a room of 2 GiB and more is negative as an `int`, and a length of two bytes does not fit it -/
theorem Item.not_writableIn {no : Nat} {ty : WireType} {d : List UInt8} (hd : 128 ≤ d.length)
    (hlo : 2 ^ 31 < room) (hhi : room ≤ 2 ^ 32) : ¬ (Item.bytes no ty d).WritableIn room := by
  intro h
  have htwo := two_le_varintBytes_length hd
  have hneg : toInt32 (room - 1 : Nat) < 0 := toInt32_natCast_neg (by omega) (by omega)
  have hfit : varintFits (varintBytes d.length).length (toInt32 (room - 1 : Nat)) := h.2
  unfold varintFits at hfit
  omega

end

section
variable {σ : Type} {fields : Int → FieldCase σ} {s r : σ} {items : List Item}

/-- **fields are decoded** iff they are readable -/
theorem decodeFields_eq_some (hi : ∀ i ∈ items, i.WordSized ∧ i.Accepted fields)
    (hlen : (itemsBytes items).length ≤ ptrdiffMax) :
    decodeFields fields (itemsBytes items) s = .ok (some r) ↔
      Readable items ∧ applyItems fields items s = .ok (some r) := by
  constructor
  · intro h
    exact ⟨readable_of_decodeFields hi hlen h, decodeFields_items_ok hi hlen h⟩
  · rintro ⟨hread, happly⟩
    rw [decodeFields_readable hi hlen hread, happly]

/-- **fields that are written into an object and read again** -/
theorem encodeItems_decodeFields {room : Nat} (hi : ∀ i ∈ items, i.WordSized ∧ i.Accepted fields)
    (ho : ∀ i ∈ items, i.Object) (hroom : room ≤ ptrdiffMax) :
    (∃ bytes, encodeItems items room = .ok bytes ∧ decodeFields fields bytes s = .ok (some r)) ↔
      Writable items room ∧ Readable items ∧ applyItems fields items s = .ok (some r) := by
  have hencode : ∀ out, encodeItems items room = .ok out ↔
      out = itemsBytes items ∧ Writable items room :=
    fun out => encodeItems_eq_ok fun i h => ⟨(hi i h).1, ho i h⟩
  constructor
  · intro h
    obtain ⟨bytes, hbytes, hdecode⟩ := h
    obtain ⟨rfl, hwritable⟩ := (hencode bytes).1 hbytes
    have hlen := hwritable.length_le
    exact ⟨hwritable, (decodeFields_eq_some hi (by omega)).1 hdecode⟩
  · intro h
    obtain ⟨hwritable, hread⟩ := h
    have hlen := hwritable.length_le
    exact ⟨_, (hencode _).2 ⟨rfl, hwritable⟩, (decodeFields_eq_some hi (by omega)).2 hread⟩

/-- **a size that is enough**: there is a buffer of it, and what is written into that is read, when
the varints fit it -/
theorem comesBack_iff_fits {size : Nat} (hi : ∀ i ∈ items, i.WordSized ∧ i.Accepted fields)
    (hle : (itemsBytes items).length ≤ size) (happly : applyItems fields items s = .ok (some r)) :
    (∃ bytes, size ≤ ptrdiffMax ∧ encodeItems items size = .ok bytes ∧ bytes.length ≤ size ∧
      decodeFields fields bytes s = .ok (some r)) ↔ FitsBothWays items size := by
  have hpd := ptrdiffMax_lt
  have hobject (hmem : size ≤ ptrdiffMax) : ∀ i ∈ items, i.Object :=
    fun i h => (items_object (fun j hj => (hi j hj).1) (by omega) i h).2
  constructor
  · rintro ⟨bytes, hmem, hbytes, -, hdecode⟩
    obtain ⟨hwritable, hread, -⟩ :=
      (encodeItems_decodeFields hi (hobject hmem) hmem).1 ⟨bytes, hbytes, hdecode⟩
    exact ⟨(writable_iff_roomFor hmem hle).1 hwritable, hread⟩
  · rintro ⟨hroom, hread⟩
    have hwritable := (writable_iff_roomFor hroom.memory hle).2 hroom
    obtain ⟨bytes, hbytes, hdecode⟩ := (encodeItems_decodeFields hi (hobject hroom.memory)
      hroom.memory).2 ⟨hwritable, hread, happly⟩
    obtain ⟨rfl, -⟩ := (encodeItems_eq_ok fun i h => ⟨(hi i h).1, hobject hroom.memory i h⟩).1 hbytes
    exact ⟨_, hroom.memory, hbytes, hle, hdecode⟩

end

end Libp2p
