import Libipfs.Protobuf.Large
import Libipfs.Journal.JournalMessage
import Mathlib.Algebra.Order.BigOperators.Group.List

/-!
# The round trip of journal messages

* `journalMessageEstimate`   what the size of a message adds up to;
* `JournalMessage.Estimated`  it is an `int`, and covers the encoding;
* `journalMessageDecode_bytes`  an encoding is decoded, with the pins as they are read;
* `journalReadBack_iff`   what is read back, and exactly when anything is;
* `journalMessage_covers_iff`   the estimate counts 23 bytes for an entry beside its hash;
* `JournalMessage.estimated_of_lt`   enough for bools and hashes of less than 2^28 bytes;
* `journalRoundTrip`   **the round trip** of a message whose estimate is good.
-/

namespace Ipfs
open CSem Libp2p

def journalEntryEstimate (entry : JournalEntry) : Nat := entry.hash.length + 23

def journalMessageEstimate (message : JournalMessage) : Nat :=
  33 + (message.journalEntries.map journalEntryEstimate).sum

structure JournalMessage.Estimated (message : JournalMessage) : Prop where
  isInt : journalMessageEstimate message < 2 ^ 31
  covers : (journalMessageBytes message).length ≤ journalMessageEstimate message

/-- a message as its encoding is read back -/
def JournalMessage.decoded (message : JournalMessage) : JournalMessage :=
  { message with journalEntries := message.journalEntries.map JournalEntry.decoded }

/-- encoded into an array of its size, and decoded as `result` -/
def JournalMessage.ReadBack (message result : JournalMessage) : Prop :=
  ∃ size room bytes, journalMessageEncodeSize message = .ok size ∧
    stackArray size = .ok room ∧ journalMessageEncode message room = .ok bytes ∧
    journalMessageDecode bytes bytes.length = .ok (some result)

section
variable {entry : JournalEntry} {message result : JournalMessage} {room : Nat}
  {out : List UInt8}

/-! ## sizes -/

/-- a size that is no `int` loses 2^32 or more -/
theorem toInt32_natCast_le {n : Nat} (h : 2 ^ 31 ≤ n) : toInt32 n + 2 ^ 32 ≤ n := by
  unfold toInt32 Int.bmod
  norm_num at *
  omega

theorem addInt_eq_ok {a b c : Int} :
    addInt a b = .ok c ↔ (-2 ^ 31 ≤ a + b ∧ a + b < 2 ^ 31) ∧ c = a + b := by
  unfold addInt
  rw [require_bind_eq_ok]
  constructor
  · intro h
    obtain ⟨hint, h⟩ := h
    cases h
    exact ⟨hint, rfl⟩
  · intro h
    obtain ⟨hint, rfl⟩ := h
    exact ⟨hint, rfl⟩

theorem stackArray_eq_ok {size : Int} :
    stackArray size = .ok room ↔ 0 < size ∧ room = size.toNat := by
  unfold stackArray
  rw [require_bind_eq_ok]
  constructor
  · intro h
    obtain ⟨hpos, h⟩ := h
    cases h
    exact ⟨hpos, rfl⟩
  · intro h
    obtain ⟨hpos, rfl⟩ := h
    exact ⟨hpos, rfl⟩

/-- the size of an entry, from the length of its hash as an `int` -/
theorem journalEntryEncodeSize_ok {size : Int} (h : journalEntryEncodeSize entry = .ok size) :
    size = toInt32 entry.hash.length + 23 ∧ size < 2 ^ 31 := by
  obtain ⟨a, ha, h⟩ := bind_eq_ok.1 h
  obtain ⟨b, hb, h⟩ := bind_eq_ok.1 h
  obtain ⟨-, rfl⟩ := addInt_eq_ok.1 ha
  obtain ⟨-, rfl⟩ := addInt_eq_ok.1 hb
  obtain ⟨hint, rfl⟩ := addInt_eq_ok.1 h
  exact ⟨by ring, hint.2⟩

theorem journalEntryEncodeSize_of_lt (h : journalEntryEstimate entry < 2 ^ 31) :
    journalEntryEncodeSize entry = .ok (journalEntryEstimate entry : Int) := by
  unfold journalEntryEstimate at h ⊢
  unfold journalEntryEncodeSize
  rw [toInt32_natCast_of_lt (by omega)]
  refine bind_eq_ok.2 ⟨_, addInt_eq_ok.2 ⟨by omega, rfl⟩, ?_⟩
  refine bind_eq_ok.2 ⟨_, addInt_eq_ok.2 ⟨by omega, rfl⟩, ?_⟩
  refine addInt_eq_ok.2 ⟨by omega, ?_⟩
  push_cast
  ring

theorem journalMessageEncodeSizeFrom_of_lt {entries : List JournalEntry}
    {sz : Nat} (h : sz + (entries.map journalEntryEstimate).sum < 2 ^ 31) :
    journalMessageEncodeSizeFrom entries sz =
      .ok ((sz + (entries.map journalEntryEstimate).sum : Nat) : Int) := by
  induction entries generalizing sz with
  | nil => rfl
  | cons entry entries ih =>
    rw [List.map_cons, List.sum_cons] at h ⊢
    unfold journalMessageEncodeSizeFrom
    refine bind_eq_ok.2 ⟨_, journalEntryEncodeSize_of_lt (by omega), ?_⟩
    refine bind_eq_ok.2 ⟨_, addInt_eq_ok.2 ⟨by omega, rfl⟩, ?_⟩
    have htail := @ih (sz + journalEntryEstimate entry) (by omega)
    rw [Nat.cast_add] at htail
    rw [htail, Nat.add_assoc]

theorem journalMessageEncodeSizeFrom_ok {entries : List JournalEntry} {sz size : Int}
    (hsmall : ∀ entry ∈ entries, journalEntryEstimate entry < 2 ^ 31)
    (h : journalMessageEncodeSizeFrom entries sz = .ok size) :
    size = sz + ((entries.map journalEntryEstimate).sum : Nat) := by
  induction entries generalizing sz with
  | nil =>
    cases h
    exact (Int.add_zero _).symm
  | cons entry entries ih =>
    obtain ⟨n, hn, h⟩ := bind_eq_ok.1 h
    obtain ⟨sz', hadd, h⟩ := bind_eq_ok.1 h
    rw [journalEntryEncodeSize_of_lt (hsmall entry List.mem_cons_self)] at hn
    cases hn
    obtain ⟨-, rfl⟩ := addInt_eq_ok.1 hadd
    have htail := ih (fun e he => hsmall e (List.mem_cons_of_mem _ he)) h
    rw [htail, List.map_cons, List.sum_cons]
    push_cast
    ring

/-! ## encoding -/

/-- the varints of an entry: its time, the length of its hash and its pin -/
def journalEntryVarints (entry : JournalEntry) : Nat :=
  (varintBytes entry.timestamp.toNat).length + (varintBytes entry.hash.length).length +
    (varintBytes entry.pin.toNat).length

theorem journalEntryBytes_length (entry : JournalEntry) :
    (journalEntryBytes entry).length =
      3 + journalEntryVarints entry + entry.hash.length := by
  have h1 := varintField_length 1 .varint entry.timestamp.toNat (by norm_num)
  have h2 := bytesField_length 2 .lengthDelimited entry.hash (by norm_num)
  have h3 := varintField_length 3 .varint entry.pin.toNat (by norm_num)
  unfold journalEntryBytes journalEntryItems journalEntryVarints
  simp only [itemsBytes_cons, itemsBytes_nil, Item.enc_varint, Item.enc_bytes,
    List.length_append, List.length_nil]
  omega

theorem journalEntryVarints_pos (entry : JournalEntry) : 3 ≤ journalEntryVarints entry := by
  have h1 := varintBytes_length_pos entry.timestamp.toNat
  have h2 := varintBytes_length_pos entry.hash.length
  have h3 := varintBytes_length_pos entry.pin.toNat
  unfold journalEntryVarints
  omega

/-- what is left of the 23 bytes when the length of the hash is an `int` -/
theorem journalEntryVarints_le (h : journalEntryEstimate entry < 2 ^ 31) :
    journalEntryVarints entry ≤ 17 := by
  have hpin := entry.pin.toNat_lt
  have h1 := varintBytes_length_le entry.timestamp.toNat
  have h2 : (varintBytes entry.hash.length).length ≤ 4 + 1 :=
    varintBytes_length_le_of_lt (by unfold journalEntryEstimate at h; omega)
  have h3 : (varintBytes entry.pin.toNat).length ≤ 1 + 1 := varintBytes_length_le_of_lt (by omega)
  unfold journalEntryVarints
  omega

theorem writes_journalEntryEncode (entry : JournalEntry) :
    Writes (journalEntryEncode entry) (journalEntryBytes entry) :=
  writes_encodeItems (journalEntryItems_wordSized entry)

/-- **an entry is encoded** into an array of its size iff its estimate is an `int`: else the array
is too small, or has a negative size -/
theorem journalEntry_encoded_iff :
    (∃ size room, journalEntryEncodeSize entry = .ok size ∧ stackArray size = .ok room ∧
      journalEntryEncode entry room = .ok out) ↔
        journalEntryEstimate entry < 2 ^ 31 ∧ out = journalEntryBytes entry := by
  have hlength := journalEntryBytes_length entry
  constructor
  · intro h
    obtain ⟨size, room, hsize, harray, hencode⟩ := h
    obtain ⟨rfl, hint⟩ := journalEntryEncodeSize_ok hsize
    obtain ⟨hpos, rfl⟩ := stackArray_eq_ok.1 harray
    obtain ⟨rfl, hle⟩ := (writes_journalEntryEncode entry).exact _ _ hencode
    have hvarints := journalEntryVarints_pos entry
    have hlen : entry.hash.length < 2 ^ 31 := by
      by_contra hlarge
      have hlost := toInt32_natCast_le (Nat.le_of_not_lt hlarge)
      omega
    rw [toInt32_natCast_of_lt hlen] at hint
    refine ⟨?_, rfl⟩
    unfold journalEntryEstimate
    omega
  · intro h
    obtain ⟨hint, rfl⟩ := h
    have hvarints := journalEntryVarints_le hint
    refine ⟨_, _, journalEntryEncodeSize_of_lt hint, stackArray_eq_ok.2 ⟨?_, rfl⟩,
      (writes_journalEntryEncode entry).fits _ ?_ hint⟩
    · unfold journalEntryEstimate
      omega
    · show _ ≤ journalEntryEstimate entry
      unfold journalEntryEstimate
      omega

theorem encodeJournalEntryField_writes (h : journalEntryEstimate entry < 2 ^ 31) :
    Writes (encodeJournalEntryField entry)
      (bytesField 4 .lengthDelimited (journalEntryBytes entry)) where
  exact := writesOnly_encodeJournalEntryField entry
  fits room hroom hint := by
    have hfield : Writes _ (bytesField 4 .lengthDelimited (journalEntryBytes entry)) :=
      Writes.protobufEncodeLengthDelimited (by norm_num)
    obtain ⟨size, room', hsize, harray, hentry⟩ := journalEntry_encoded_iff.2 ⟨h, rfl⟩
    refine bind_eq_ok.2 ⟨_, hsize, bind_eq_ok.2 ⟨_, harray, bind_eq_ok.2 ⟨_, hentry, ?_⟩⟩⟩
    exact hfield.fits room hroom hint

theorem journalEntryEstimate_lt (h : encodeJournalEntryField entry room = .ok out) :
    journalEntryEstimate entry < 2 ^ 31 := by
  obtain ⟨size, hsize, h⟩ := bind_eq_ok.1 h
  obtain ⟨room', harray, h⟩ := bind_eq_ok.1 h
  obtain ⟨temp, htemp, -⟩ := bind_eq_ok.1 h
  exact (journalEntry_encoded_iff.1 ⟨size, room', hsize, harray, htemp⟩).1

/-- the encoders of a message write the items it stands for -/
theorem journalMessageEncode_writes
    (h : ∀ entry ∈ message.journalEntries, journalEntryEstimate entry < 2 ^ 31) :
    Writes (journalMessageEncode message) (journalMessageBytes message) := by
  rw [journalMessageBytes_eq]
  exact Writes.encodeAll (forall₂_journalMessage writes_varint
    fun entry he => encodeJournalEntryField_writes (h entry he))

/-- **encoding** into a buffer of a size that is an `int` -/
theorem journalMessageEncode_eq_ok (hroom : room < 2 ^ 31) :
    journalMessageEncode message room = .ok out ↔ out = journalMessageBytes message ∧
      (∀ entry ∈ message.journalEntries, journalEntryEstimate entry < 2 ^ 31) ∧
        (journalMessageBytes message).length ≤ room := by
  constructor
  · intro h
    obtain ⟨rfl, hle⟩ := journalMessageEncode_ok h
    refine ⟨rfl, ?_, hle⟩
    intro entry hentry
    have hmem : encodeJournalEntryField entry ∈
        message.journalEntries.map encodeJournalEntryField := List.mem_map_of_mem hentry
    obtain ⟨room', out', h'⟩ := encodeAll_ok_of_mem h (List.mem_append_right _ hmem)
    exact journalEntryEstimate_lt h'
  · intro h
    obtain ⟨rfl, hsmall, hle⟩ := h
    exact (journalMessageEncode_writes hsmall).fits room hle hroom

theorem journalEntryEstimate_le (h : entry ∈ message.journalEntries) :
    journalEntryEstimate entry ≤ journalMessageEstimate message := by
  have hle : journalEntryEstimate entry ≤
      (message.journalEntries.map journalEntryEstimate).sum :=
    List.le_sum_of_mem (List.mem_map_of_mem h)
  unfold journalMessageEstimate
  omega

/-- **a message is encoded** into an array of its size iff its estimate is good -/
theorem journalMessage_encoded_iff :
    (∃ size room, journalMessageEncodeSize message = .ok size ∧ stackArray size = .ok room ∧
      journalMessageEncode message room = .ok out) ↔
        message.Estimated ∧ out = journalMessageBytes message := by
  constructor
  · intro h
    obtain ⟨size, room, hsize, harray, hencode⟩ := h
    obtain ⟨hpos, rfl⟩ := stackArray_eq_ok.1 harray
    have hint := journalMessageEncodeSize_lt hsize
    obtain ⟨rfl, hsmall, hle⟩ := (journalMessageEncode_eq_ok (by omega)).1 hencode
    have hestimate := journalMessageEncodeSizeFrom_ok hsmall hsize
    have hcast : size = (journalMessageEstimate message : Int) := by
      rw [hestimate, journalMessageEstimate]
      push_cast
      rfl
    subst hcast
    exact ⟨⟨by omega, by omega⟩, rfl⟩
  · intro h
    obtain ⟨⟨hint, hcovers⟩, rfl⟩ := h
    refine ⟨_, _, @journalMessageEncodeSizeFrom_of_lt _ 33 hint,
      stackArray_eq_ok.2 ⟨by omega, rfl⟩, ?_⟩
    refine (journalMessageEncode_eq_ok ?_).2 ⟨rfl, ?_, hcovers⟩
    · exact hint
    · intro entry hentry
      exact lt_of_le_of_lt (journalEntryEstimate_le hentry) hint

/-! ## decoding -/

theorem journalMessageLoop_done {incoming : List UInt8} {size fuel pos : Nat}
    {s : Decoding JournalMessage} (h : size ≤ pos) :
    journalMessageLoop incoming size fuel pos s = .ok (some s) := by
  cases fuel with
  | zero => rw [journalMessageLoop, if_neg (by omega)]
  | succ fuel => rw [journalMessageLoop, if_neg (by omega)]

/-- the loop over fields that are all stored -/
theorem journalMessageLoop_items {pre : List UInt8} {items : List Item} {size fuel : Nat}
    {s s' : Decoding JournalMessage}
    (hi : ∀ i ∈ items, i.WordSized ∧ i.Accepted journalMessageFields)
    (happly : applyItems journalMessageFields items s = .ok (some s'))
    (hfuel : items.length ≤ fuel) (hlen : (pre ++ itemsBytes items).length = size)
    (hsize : size < 2 ^ 31) :
    journalMessageLoop (pre ++ itemsBytes items) size fuel pre.length s = .ok (some s') := by
  induction items generalizing pre fuel s with
  | nil =>
    cases happly
    rw [itemsBytes_nil, List.append_nil] at hlen ⊢
    exact journalMessageLoop_done (Nat.le_of_eq hlen.symm)
  | cons i is ih =>
    obtain ⟨fuel, rfl⟩ : ∃ k, fuel = k + 1 := ⟨fuel - 1, by simp at hfuel; omega⟩
    obtain ⟨hw, ha⟩ := hi i List.mem_cons_self
    rw [applyItems_cons] at happly
    obtain ⟨r, hstore, happly⟩ := bind_eq_ok.1 happly
    cases r with
    | none => cases happly
    | some t =>
      rw [itemsBytes_cons] at hlen ⊢
      rw [journalMessageLoop_item hw ha (Nat.le_of_eq hlen) (by omega) hstore,
        ← List.append_assoc]
      rw [← List.append_assoc] at hlen
      rw [List.length_cons] at hfuel
      exact ih (fun j hj => hi j (List.mem_cons_of_mem _ hj)) happly (by omega) hlen

/-- the entries are added in the order of their fields -/
theorem applyItems_journalEntries {entries : List JournalEntry} {out : JournalMessage}
    (hlen : ∀ entry ∈ entries, (journalEntryBytes entry).length < 2 ^ 31) :
    applyItems journalMessageFields
        (entries.map fun entry => .bytes 4 .lengthDelimited (journalEntryBytes entry))
        ⟨out, true⟩ =
      .ok (some ⟨{ out with
        journalEntries := out.journalEntries ++ entries.map JournalEntry.decoded }, true⟩) := by
  induction entries generalizing out with
  | nil =>
    rw [List.map_nil, List.map_nil, List.append_nil]
    rfl
  | cons entry entries ih =>
    have hdecode := journalEntryDecode_bytes (hlen entry List.mem_cons_self)
    have htail := @ih { out with journalEntries := out.journalEntries ++ [entry.decoded] }
      fun e he => hlen e (List.mem_cons_of_mem _ he)
    rw [List.append_assoc] at htail
    show ((journalEntryDecode (journalEntryBytes entry) >>= _) >>= _) = _
    rw [hdecode]
    exact htail

theorem applyItems_journalMessageItems (hlen : (journalMessageBytes message).length < 2 ^ 31) :
    applyItems journalMessageFields (journalMessageItems message) { out := {} } =
      .ok (some ⟨message.decoded, true⟩) := by
  have hentries : ∀ entry ∈ message.journalEntries, (journalEntryBytes entry).length < 2 ^ 31 := by
    intro entry hentry
    have hmem : Item.bytes 4 .lengthDelimited (journalEntryBytes entry) ∈
        journalMessageItems message :=
      List.mem_append_right _ (List.mem_map.2 ⟨entry, hentry, rfl⟩)
    exact lt_of_le_of_lt (length_le_itemsBytes hmem) hlen
  have hepochs : applyItems journalMessageFields
      [.varint 1 .varint message.currentEpoch.toNat, .varint 2 .varint message.startEpoch.toNat,
        .varint 3 .varint message.endEpoch.toNat] { out := {} } =
      .ok (some ⟨{ message with journalEntries := [] }, true⟩) := by
    show Except.ok (some _) = _
    rw [UInt64.ofNat_toNat, UInt64.ofNat_toNat, UInt64.ofNat_toNat]
  unfold journalMessageItems
  rw [applyItems_append_of hepochs, applyItems_journalEntries hentries]
  rfl

/-- **decoding** an encoding -/
theorem journalMessageDecode_bytes (hlen : (journalMessageBytes message).length < 2 ^ 31) :
    journalMessageDecode (journalMessageBytes message) (journalMessageBytes message).length =
      .ok (some message.decoded) := by
  have hfuel : (journalMessageItems message).length ≤ (journalMessageBytes message).length :=
    itemsBytes_length_le _
  have hloop : journalMessageLoop (journalMessageBytes message)
      (journalMessageBytes message).length ((journalMessageBytes message).length + 1) 0
      { out := {} } = .ok (some ⟨message.decoded, true⟩) :=
    @journalMessageLoop_items [] (journalMessageItems message) _ _ _ _
      (fun i hi =>
        ⟨journalMessageItems_wordSized message i hi, journalMessageItems_accepted message i hi⟩)
      (applyItems_journalMessageItems hlen) (by omega) rfl hlen
  unfold journalMessageDecode
  rw [hloop]
  rfl

/-- **what is read back**: the message with its pins as they are read, iff the estimate is good -/
theorem journalReadBack_iff :
    message.ReadBack result ↔ message.Estimated ∧ result = message.decoded := by
  constructor
  · intro h
    obtain ⟨size, room, bytes, hsize, harray, hencode, hdecode⟩ := h
    obtain ⟨hest, rfl⟩ := journalMessage_encoded_iff.1 ⟨size, room, hsize, harray, hencode⟩
    rw [journalMessageDecode_bytes (lt_of_le_of_lt hest.covers hest.isInt)] at hdecode
    cases hdecode
    exact ⟨hest, rfl⟩
  · intro h
    obtain ⟨hest, rfl⟩ := h
    obtain ⟨size, room, hsize, harray, hencode⟩ := journalMessage_encoded_iff.2 ⟨hest, rfl⟩
    exact ⟨size, room, _, hsize, harray, hencode,
      journalMessageDecode_bytes (lt_of_le_of_lt hest.covers hest.isInt)⟩

/-- a bool comes back as it was -/
theorem JournalEntry.decoded_eq_iff : entry.decoded = entry ↔ entry.pin ≤ 1 := by
  have hpin : entry.decoded = entry ↔ (if entry.pin.toNat = 1 then 1 else 0) = entry.pin := by
    constructor
    · intro h
      exact congrArg JournalEntry.pin h
    · intro h
      unfold JournalEntry.decoded
      rw [h]
  rw [hpin, UInt8.le_iff_toNat_le]
  show _ ↔ entry.pin.toNat ≤ 1
  by_cases hone : entry.pin.toNat = 1
  · rw [if_pos hone]
    constructor
    · intro
      omega
    · intro
      apply UInt8.toNat_inj.1
      exact hone.symm
  · rw [if_neg hone]
    constructor
    · intro h
      rw [← h]
      exact Nat.zero_le 1
    · intro hle
      apply UInt8.toNat_inj.1
      show 0 = entry.pin.toNat
      omega

theorem JournalMessage.decoded_eq_iff :
    message.decoded = message ↔ ∀ entry ∈ message.journalEntries, entry.pin ≤ 1 := by
  have hentries : message.decoded = message ↔
      message.journalEntries.map JournalEntry.decoded = message.journalEntries := by
    constructor
    · intro h
      exact congrArg JournalMessage.journalEntries h
    · intro h
      unfold JournalMessage.decoded
      rw [h]
  have hid : message.journalEntries = message.journalEntries.map id := (List.map_id _).symm
  rw [hentries]
  nth_rewrite 2 [hid]
  rw [List.map_inj_left]
  exact forall₂_congr fun entry _ => JournalEntry.decoded_eq_iff

end

/-! ## estimates that are good -/

/-- an entry and a message whose numbers are as large as they get -/
def fullEntry (hash : List UInt8) : JournalEntry :=
  { timestamp := 0x8000000000000000, pin := 1, hash := hash }

def fullJournal (hash : List UInt8) : JournalMessage :=
  ⟨0x8000000000000000, 0x8000000000000000, 0x8000000000000000, [fullEntry hash]⟩

section
variable {entry : JournalEntry} {message result : JournalMessage}

/-- what the message adds to the bytes of an entry, and what the entry adds to its hash -/
def journalEntryOverhead (entry : JournalEntry) : Nat :=
  4 + journalEntryVarints entry + (varintBytes (journalEntryBytes entry).length).length

def journalEpochVarints (message : JournalMessage) : Nat :=
  (varintBytes message.currentEpoch.toNat).length +
    (varintBytes message.startEpoch.toNat).length + (varintBytes message.endEpoch.toNat).length

theorem journalMessageBytes_length (message : JournalMessage) :
    (journalMessageBytes message).length = 3 + journalEpochVarints message +
      (message.journalEntries.map fun entry =>
        entry.hash.length + journalEntryOverhead entry).sum := by
  have h1 := varintField_length 1 .varint message.currentEpoch.toNat (by norm_num)
  have h2 := varintField_length 2 .varint message.startEpoch.toNat (by norm_num)
  have h3 := varintField_length 3 .varint message.endEpoch.toNat (by norm_num)
  have hentries (entries : List JournalEntry) :
      (itemsBytes (entries.map fun entry =>
        .bytes 4 .lengthDelimited (journalEntryBytes entry))).length =
      (entries.map fun entry => entry.hash.length + journalEntryOverhead entry).sum := by
    induction entries with
    | nil => rfl
    | cons entry entries ih =>
      have hentry := journalEntryBytes_length entry
      have hfield := bytesField_length 4 .lengthDelimited (journalEntryBytes entry) (by norm_num)
      rw [List.map_cons, itemsBytes_cons, List.length_append, ih, List.map_cons, List.sum_cons,
        Item.enc_bytes]
      unfold journalEntryOverhead
      omega
  unfold journalMessageBytes journalMessageItems journalEpochVarints
  rw [itemsBytes_append, List.length_append, hentries]
  simp only [itemsBytes_cons, itemsBytes_nil, Item.enc_varint, List.length_append,
    List.length_nil]
  omega

/-- **the estimate covers the encoding** when the entries have 23 bytes each beside their hashes,
and what the epochs leave -/
theorem journalMessage_covers_iff :
    (journalMessageBytes message).length ≤ journalMessageEstimate message ↔
      journalEpochVarints message + (message.journalEntries.map journalEntryOverhead).sum ≤
        30 + 23 * message.journalEntries.length := by
  have hsplit (entries : List JournalEntry) :
      (entries.map fun entry => entry.hash.length + journalEntryOverhead entry).sum =
        (entries.map fun entry => entry.hash.length).sum +
          (entries.map journalEntryOverhead).sum := List.sum_map_add
  have hestimate (entries : List JournalEntry) : (entries.map journalEntryEstimate).sum =
      (entries.map fun entry => entry.hash.length).sum + 23 * entries.length := by
    induction entries with
    | nil => rfl
    | cons entry entries ih =>
      simp only [List.map_cons, List.sum_cons, List.length_cons, ih, journalEntryEstimate]
      ring
  rw [journalMessageBytes_length, journalMessageEstimate, hsplit, hestimate]
  omega

theorem journalEpochVarints_le (message : JournalMessage) : journalEpochVarints message ≤ 30 := by
  have h1 := varintBytes_length_le message.currentEpoch.toNat
  have h2 := varintBytes_length_le message.startEpoch.toNat
  have h3 := varintBytes_length_le message.endEpoch.toNat
  unfold journalEpochVarints
  omega

/-- a bool, and a hash of less than 2^28 bytes -/
theorem journalEntryOverhead_le (hpin : entry.pin ≤ 1) (hhash : entry.hash.length + 18 < 2 ^ 28) :
    journalEntryOverhead entry ≤ 23 := by
  have hpin : entry.pin.toNat ≤ 1 := UInt8.le_iff_toNat_le.1 hpin
  have hlength := journalEntryBytes_length entry
  have h1 := varintBytes_length_le entry.timestamp.toNat
  have h2 : (varintBytes entry.hash.length).length ≤ 3 + 1 :=
    varintBytes_length_le_of_lt (by omega)
  have h3 : (varintBytes entry.pin.toNat).length ≤ 0 + 1 := varintBytes_length_le_of_lt (by omega)
  have hvarints : journalEntryVarints entry ≤ 15 := by
    unfold journalEntryVarints
    omega
  have h4 : (varintBytes (journalEntryBytes entry).length).length ≤ 3 + 1 :=
    varintBytes_length_le_of_lt (by omega)
  unfold journalEntryOverhead
  omega

/-- the estimate of a message with small hashes is good as long as it is an `int` -/
theorem JournalMessage.estimated_of_lt (hint : journalMessageEstimate message < 2 ^ 31)
    (hentries : ∀ entry ∈ message.journalEntries,
      entry.pin ≤ 1 ∧ entry.hash.length + 18 < 2 ^ 28) : message.Estimated := by
  refine ⟨hint, journalMessage_covers_iff.2 ?_⟩
  have hepochs := journalEpochVarints_le message
  have hsum : (message.journalEntries.map journalEntryOverhead).sum ≤
      message.journalEntries.length * 23 := by
    have hle := List.sum_le_card_nsmul (message.journalEntries.map journalEntryOverhead) 23
    rw [List.length_map] at hle
    apply hle
    intro n hn
    obtain ⟨entry, hentry, rfl⟩ := List.mem_map.1 hn
    exact journalEntryOverhead_le (hentries entry hentry).1 (hentries entry hentry).2
  omega

/-- an entry with varints of ten, five and five bytes has no room in a message whose epochs take
all of theirs -/
theorem not_estimated {hash : List UInt8} (hhash : hash.length = 2 ^ 28) :
    ¬ (fullJournal hash).Estimated := by
  intro h
  have hcovers := journalMessage_covers_iff.1 h.covers
  have hlarge : (varintBytes (0x8000000000000000 : UInt64).toNat).length = 10 := by decide
  have hpin : (varintBytes (1 : UInt8).toNat).length = 1 := by decide
  have hsize : (varintBytes hash.length).length = 5 := by
    rw [hhash]
    decide
  have hvarints : journalEntryVarints (fullEntry hash) = 16 := by
    unfold journalEntryVarints fullEntry
    rw [hlarge, hpin, hsize]
  have hentry : (journalEntryBytes (fullEntry hash)).length = 2 ^ 28 + 19 := by
    rw [journalEntryBytes_length, hvarints]
    show 3 + 16 + hash.length = _
    omega
  have hfield : (varintBytes (2 ^ 28 + 19)).length = 5 := by decide
  have hoverhead : journalEntryOverhead (fullEntry hash) = 25 := by
    unfold journalEntryOverhead
    rw [hvarints, hentry, hfield]
  have hepochs : journalEpochVarints (fullJournal hash) = 30 := by
    unfold journalEpochVarints fullJournal
    rw [hlarge]
  have hsum : ((fullJournal hash).journalEntries.map journalEntryOverhead).sum = 25 := by
    show journalEntryOverhead (fullEntry hash) + 0 = 25
    rw [hoverhead]
  have hone : (fullJournal hash).journalEntries.length = 1 := rfl
  omega

/-- **the round trip** of a message whose estimate is good: everything comes back, and a pin as
the bool that it is declared to be -/
theorem journalRoundTrip (h : message.Estimated) :
    (message.ReadBack result ↔ result = message.decoded) ∧
      (message.decoded = message ↔ ∀ entry ∈ message.journalEntries, entry.pin ≤ 1) := by
  refine ⟨?_, JournalMessage.decoded_eq_iff⟩
  rw [journalReadBack_iff, and_iff_right h]

end

/-- a message with an entry of four bytes, and one that is to be deleted -/
def smallJournal : JournalMessage :=
  ⟨3, 1, 2, [⟨1000, 1, [1, 2, 3, 4]⟩, ⟨1001, 0, []⟩]⟩

theorem journalRoundTrip_smallJournal : smallJournal.ReadBack smallJournal := by
  have hest : smallJournal.Estimated := JournalMessage.estimated_of_lt (by decide) (by decide)
  have htrip := @journalRoundTrip _ smallJournal hest
  rw [htrip.1, eq_comm, htrip.2]
  decide

/-- a pin of 2 is read as no pin, and a message may be longer than its estimate -/
theorem not_journalRoundTrips :
    (∃ message : JournalMessage, message.Estimated ∧ ¬ message.ReadBack message) ∧
      ∃ message : JournalMessage, (∀ entry ∈ message.journalEntries, entry.pin ≤ 1) ∧
        journalMessageEstimate message < 2 ^ 31 ∧ ∀ result, ¬ message.ReadBack result := by
  constructor
  · refine ⟨⟨1, 1, 1, [⟨1, 2, [7]⟩]⟩, ?_, ?_⟩
    · refine ⟨by decide, by decide⟩
    · rw [journalReadBack_iff]
      intro h
      have hpins := JournalMessage.decoded_eq_iff.1 h.2.symm
      exact absurd hpins (by decide)
  · have hlarge : ∀ hash : List UInt8, hash.length = 2 ^ 28 → ∃ message : JournalMessage,
        (∀ entry ∈ message.journalEntries, entry.pin ≤ 1) ∧
          journalMessageEstimate message < 2 ^ 31 ∧ ∀ result, ¬ message.ReadBack result := by
      intro hash hhash
      refine ⟨fullJournal hash, ?_, ?_, ?_⟩
      · intro entry hentry
        obtain rfl := List.mem_singleton.1 hentry
        exact UInt8.le_refl 1
      · show 33 + (hash.length + 23 + 0) < 2 ^ 31
        omega
      · intro result h
        exact not_estimated hhash (journalReadBack_iff.1 h).1
    exact hlarge (List.replicate (2 ^ 28) 0) List.length_replicate

end Ipfs
