import Libipfs.Protobuf.FieldLoop

/-!
# Journal messages

The two layers of a journal message: an entry names a file, the message has three epochs and its
entries.  The sizes of both encoders are an `int`.  The decoder of the message is told the size
of its buffer, which need not be the buffer's; it uses what the decoder of a field of bytes was
to hand over, whether it succeeded or not.

* `journalEntryEncode`, `journalMessageEncode`   the encoders;
* `journalEntryDecode`, `journalMessageDecode`   the decoders;
* `journalMessageEncode_ok`        what is encoded, and that it is shorter than 2^31 bytes;
* `journalMessageDecode_beyond`    a decoder told one byte too many reads it.
-/

namespace Ipfs
open CSem Libp2p

structure JournalEntry where
  timestamp : UInt64 := 0
  pin : UInt8 := 0
  hash : List UInt8 := []
  deriving DecidableEq, Repr

structure JournalMessage where
  currentEpoch : UInt64 := 0
  startEpoch : UInt64 := 0
  endEpoch : UInt64 := 0
  journalEntries : List JournalEntry := []
  deriving DecidableEq, Repr

/-! ## encoding -/

/-- the sum of two `int`s -/
def addInt (a b : Int) : Exec Int := do
  require .overflow (-2 ^ 31 ≤ a + b ∧ a + b < 2 ^ 31)
  .ok (a + b)

/-- an array of an `int` of bytes on the stack -/
def stackArray (size : Int) : Exec Nat := do
  require .overflow (0 < size)
  .ok size.toNat

def journalEntryEncodeSize (entry : JournalEntry) : Exec Int := do
  let retVal ← addInt (toInt32 entry.hash.length) 11
  let retVal ← addInt retVal 1
  addInt retVal 11

def journalEntryItems (entry : JournalEntry) : List Item :=
  [.varint 1 .varint entry.timestamp.toNat, .bytes 2 .lengthDelimited entry.hash,
   .varint 3 .varint entry.pin.toNat]

def journalEntryEncode (entry : JournalEntry) : Nat → Exec (List UInt8) :=
  encodeItems (journalEntryItems entry)

def journalMessageEncodeSizeFrom : List JournalEntry → Int → Exec Int
  | [], sz => .ok sz
  | entry :: entries, sz => do
    let size ← journalEntryEncodeSize entry
    let sz ← addInt sz size
    journalMessageEncodeSizeFrom entries sz

def journalMessageEncodeSize (message : JournalMessage) : Exec Int :=
  journalMessageEncodeSizeFrom message.journalEntries 33

/-- an entry, encoded into an array of its own, as a field of the message -/
def encodeJournalEntryField (entry : JournalEntry) (room : Nat) : Exec (List UInt8) := do
  let size ← journalEntryEncodeSize entry
  let size ← stackArray size
  let temp ← journalEntryEncode entry size
  protobufEncodeLengthDelimited 4 .lengthDelimited temp room

def journalMessageEncode (message : JournalMessage) : Nat → Exec (List UInt8) :=
  encodeAll
    ([protobufEncodeVarint 1 .varint message.currentEpoch.toNat,
      protobufEncodeVarint 2 .varint message.startEpoch.toNat,
      protobufEncodeVarint 3 .varint message.endEpoch.toNat] ++
      message.journalEntries.map encodeJournalEntryField)

/-! ## decoding -/

/-- what a decoder has made, and whether it came across anything -/
structure Decoding (α : Type) where
  out : α
  gotSomething : Bool := false

def journalEntryFields (fieldNo : Int) : FieldCase (Decoding JournalEntry) :=
  match fieldNo with
  | 1 => .varint fun v s =>
    .ok (some { out := { s.out with timestamp := UInt64.ofNat v }, gotSomething := true })
  | 2 => .bytes fun d s => .ok (some { out := { s.out with hash := d }, gotSomething := true })
  | 3 => .varint fun v s =>
    .ok (some { out := { s.out with pin := if v = 1 then 1 else 0 }, gotSomething := true })
  | _ => .skip

/-- `none` when the decoder returns 0 -/
def journalEntryDecode (incoming : List UInt8) : Exec (Option JournalEntry) := do
  match ← decodeFields journalEntryFields incoming { out := {} } with
  | none => .ok none
  | some s => .ok (if s.gotSomething then some s.out else none)

def journalMessageFields (fieldNo : Int) : FieldCase (Decoding JournalMessage) :=
  match fieldNo with
  | 1 => .varint fun v s =>
    .ok (some { out := { s.out with currentEpoch := UInt64.ofNat v }, gotSomething := true })
  | 2 => .varint fun v s =>
    .ok (some { out := { s.out with startEpoch := UInt64.ofNat v }, gotSomething := true })
  | 3 => .varint fun v s =>
    .ok (some { out := { s.out with endEpoch := UInt64.ofNat v }, gotSomething := true })
  | 4 => .bytes fun d s => do
    match ← journalEntryDecode d with
    | none => .ok none
    | some entry =>
      let entries := s.out.journalEntries ++ [entry]
      .ok (some { out := { s.out with journalEntries := entries }, gotSomething := true })
  | _ => .skip

/-- the loop over a buffer said to have `size` bytes, of which it may have fewer -/
def journalMessageLoop (incoming : List UInt8) (size : Nat) :
    Nat → Nat → Decoding JournalMessage → Exec (Option (Decoding JournalMessage))
  | 0, pos, s => if pos < size then .error .diverges else .ok (some s)
  | fuel + 1, pos, s =>
    if pos < size then do
      let tag ← protobufDecodeFieldAndType (toInt32 size) (incoming.drop pos)
      let pos := pos + tag.bytesRead
      match ← (journalMessageFields tag.fieldNo).read (size - pos) (incoming.drop pos) with
      -- no memory for a field of bytes, and the pointer to it is used
      | none => .error .uninitialized
      | some (m, store) =>
        match ← store s with
        | none => .ok none
        | some s' => journalMessageLoop incoming size fuel (toUInt64 (pos + m)) s'
    else .ok (some s)

/-- `none` when the decoder returns 0 -/
def journalMessageDecode (incoming : List UInt8) (size : Nat) : Exec (Option JournalMessage) := do
  match ← journalMessageLoop incoming size (size + 1) 0 { out := {} } with
  | none => .ok none
  | some s => .ok (if s.gotSomething then some s.out else none)

/-! ## what is encoded -/

def journalEntryBytes (entry : JournalEntry) : List UInt8 := itemsBytes (journalEntryItems entry)

def journalMessageItems (message : JournalMessage) : List Item :=
  [.varint 1 .varint message.currentEpoch.toNat, .varint 2 .varint message.startEpoch.toNat,
   .varint 3 .varint message.endEpoch.toNat] ++
    message.journalEntries.map fun entry => .bytes 4 .lengthDelimited (journalEntryBytes entry)

def journalMessageBytes (message : JournalMessage) : List UInt8 :=
  itemsBytes (journalMessageItems message)

section
variable {entry : JournalEntry} {message : JournalMessage} {room : Nat} {out : List UInt8}

theorem journalEntryItems_wordSized (entry : JournalEntry) :
    ∀ i ∈ journalEntryItems entry, i.WordSized := by
  intro i hi
  have ht := entry.timestamp.toNat_lt
  have hp := entry.pin.toNat_lt
  simp only [journalEntryItems, List.mem_cons, List.not_mem_nil, or_false] at hi
  rcases hi with rfl | rfl | rfl
  · exact ⟨by norm_num, by omega⟩
  · exact (by norm_num : (2 : Nat) < 16)
  · exact ⟨by norm_num, by omega⟩

theorem journalMessageItems_wordSized (message : JournalMessage) :
    ∀ i ∈ journalMessageItems message, i.WordSized := by
  intro i hi
  have h1 := message.currentEpoch.toNat_lt
  have h2 := message.startEpoch.toNat_lt
  have h3 := message.endEpoch.toNat_lt
  rcases List.mem_append.1 hi with hi | hi
  · simp only [List.mem_cons, List.not_mem_nil, or_false] at hi
    rcases hi with rfl | rfl | rfl
    · exact ⟨by norm_num, by omega⟩
    · exact ⟨by norm_num, by omega⟩
    · exact ⟨by norm_num, by omega⟩
  · obtain ⟨entry, -, rfl⟩ := List.mem_map.1 hi
    exact (by norm_num : (4 : Nat) < 16)

theorem journalMessageItems_accepted (message : JournalMessage) :
    ∀ i ∈ journalMessageItems message, i.Accepted journalMessageFields := by
  intro i hi
  rcases List.mem_append.1 hi with hi | hi
  · simp only [List.mem_cons, List.not_mem_nil, or_false] at hi
    rcases hi with rfl | rfl | rfl <;> exact trivial
  · obtain ⟨entry, -, rfl⟩ := List.mem_map.1 hi
    exact trivial

theorem writesOnly_encodeJournalEntryField (entry : JournalEntry) :
    WritesOnly (encodeJournalEntryField entry)
      (bytesField 4 .lengthDelimited (journalEntryBytes entry)) := by
  intro room out h
  obtain ⟨size, -, h⟩ := bind_eq_ok.1 h
  obtain ⟨size, -, h⟩ := bind_eq_ok.1 h
  obtain ⟨temp, htemp, h⟩ := bind_eq_ok.1 h
  obtain ⟨rfl, -⟩ := (writes_encodeItems (journalEntryItems_wordSized entry)).exact _ _ htemp
  have hfield : Writes _ (bytesField 4 .lengthDelimited (journalEntryBytes entry)) :=
    Writes.protobufEncodeLengthDelimited (by norm_num)
  exact hfield.exact _ _ h

theorem journalMessageBytes_eq (message : JournalMessage) :
    journalMessageBytes message = ((journalMessageItems message).map Item.enc).flatten :=
  itemsBytes_eq_flatten _

/-- the calls that encode a message, beside what they write -/
theorem forall₂_journalMessage {R : (Nat → Exec (List UInt8)) → List UInt8 → Prop}
    (hvarint : ∀ no, no < 16 → ∀ v : UInt64,
      R (protobufEncodeVarint no .varint v.toNat) (varintField no .varint v.toNat))
    (hentry : ∀ entry ∈ message.journalEntries, R (encodeJournalEntryField entry)
      (bytesField 4 .lengthDelimited (journalEntryBytes entry))) :
    List.Forall₂ R
      ([protobufEncodeVarint 1 .varint message.currentEpoch.toNat,
        protobufEncodeVarint 2 .varint message.startEpoch.toNat,
        protobufEncodeVarint 3 .varint message.endEpoch.toNat] ++
        message.journalEntries.map encodeJournalEntryField)
      ((journalMessageItems message).map Item.enc) := by
  rw [journalMessageItems, List.map_append, List.map_map]
  exact .cons (hvarint 1 (by norm_num) _) (.cons (hvarint 2 (by norm_num) _)
    (.cons (hvarint 3 (by norm_num) _) (forall₂_map hentry)))

theorem writes_varint (no : Nat) (hno : no < 16) (v : UInt64) :
    Writes (protobufEncodeVarint no .varint v.toNat) (varintField no .varint v.toNat) :=
  Writes.protobufEncodeVarint (by omega) v.toNat_lt

/-- **encoding** a message -/
theorem journalMessageEncode_ok (h : journalMessageEncode message room = .ok out) :
    out = journalMessageBytes message ∧ out.length ≤ room := by
  have hall := WritesOnly.encodeAll (forall₂_journalMessage
    (fun no hno v => (writes_varint no hno v).exact)
    (fun entry (_ : entry ∈ message.journalEntries) => writesOnly_encodeJournalEntryField entry))
  rw [← journalMessageBytes_eq] at hall
  obtain ⟨rfl, hle⟩ := hall room out h
  exact ⟨rfl, hle⟩

theorem addInt_lt {a b c : Int} (h : addInt a b = .ok c) : c < 2 ^ 31 := by
  obtain ⟨⟨-, hlt⟩, h⟩ := require_bind_eq_ok.1 h
  cases h
  exact hlt

/-- the size computed for a message is an `int` -/
theorem journalMessageEncodeSize_lt {size : Int} (h : journalMessageEncodeSize message = .ok size) :
    size < 2 ^ 31 := by
  have hfrom (entries : List JournalEntry) (sz : Int) (hsz : sz < 2 ^ 31)
      (h : journalMessageEncodeSizeFrom entries sz = .ok size) : size < 2 ^ 31 := by
    induction entries generalizing sz with
    | nil =>
      cases h
      exact hsz
    | cons entry entries ih =>
      obtain ⟨n, -, h⟩ := bind_eq_ok.1 h
      obtain ⟨sz', hadd, h⟩ := bind_eq_ok.1 h
      exact ih sz' (addInt_lt hadd) h
  exact hfrom message.journalEntries 33 (by norm_num) h

theorem journalMessageBytes_pos (message : JournalMessage) :
    0 < (journalMessageBytes message).length := by
  have hle := itemsBytes_length_le (journalMessageItems message)
  have hpos : 0 < (journalMessageItems message).length := Nat.succ_pos _
  unfold journalMessageBytes
  omega

/-! ## reading beyond the buffer -/

/-- an entry as its encoding is read back -/
def JournalEntry.decoded (entry : JournalEntry) : JournalEntry :=
  { entry with pin := if entry.pin.toNat = 1 then 1 else 0 }

theorem journalEntryDecode_bytes (hlen : (journalEntryBytes entry).length < 2 ^ 31) :
    journalEntryDecode (journalEntryBytes entry) = .ok (some entry.decoded) := by
  have haccepted : ∀ i ∈ journalEntryItems entry, i.Accepted journalEntryFields := by
    intro i hi
    simp only [journalEntryItems, List.mem_cons, List.not_mem_nil, or_false] at hi
    rcases hi with rfl | rfl | rfl <;> exact trivial
  have h : decodeFields journalEntryFields (journalEntryBytes entry) { out := {} } = _ :=
    decodeFields_items
      (fun i hi => ⟨journalEntryItems_wordSized entry i hi, haccepted i hi⟩) hlen
  have happly : applyItems journalEntryFields (journalEntryItems entry) { out := {} } =
      .ok (some { out := entry.decoded, gotSomething := true }) := by
    show Except.ok (some _) = _
    rw [UInt64.ofNat_toNat]
    rfl
  unfold journalEntryDecode
  rw [h, happly]
  rfl

/-- each field of a message is stored -/
theorem journalMessageItems_stored (hlen : (journalMessageBytes message).length < 2 ^ 31) :
    ∀ i ∈ journalMessageItems message, ∀ s, ∃ s', i.store journalMessageFields s =
      .ok (some s') := by
  intro i hi s
  rcases List.mem_append.1 hi with hi' | hi'
  · simp only [List.mem_cons, List.not_mem_nil, or_false] at hi'
    rcases hi' with rfl | rfl | rfl <;> exact ⟨_, rfl⟩
  · obtain ⟨entry, -, rfl⟩ := List.mem_map.1 hi'
    have hle : (journalEntryBytes entry).length ≤ (journalMessageBytes message).length :=
      length_le_itemsBytes hi
    have hdecode := @journalEntryDecode_bytes entry (by omega)
    show ∃ s', (journalEntryDecode (journalEntryBytes entry) >>= _) = _
    rw [hdecode]
    exact ⟨_, rfl⟩

/-- one pass over a field, in a buffer said to have at least what it has -/
theorem journalMessageLoop_item {pre rest : List UInt8} {i : Item} {size fuel : Nat}
    {s s' : Decoding JournalMessage} (hw : i.WordSized) (ha : i.Accepted journalMessageFields)
    (hlen : (pre ++ (i.enc ++ rest)).length ≤ size) (hsize : size ≤ 2 ^ 31)
    (hs : i.store journalMessageFields s = .ok (some s')) :
    journalMessageLoop (pre ++ (i.enc ++ rest)) size (fuel + 1) pre.length s =
      journalMessageLoop (pre ++ (i.enc ++ rest)) size fuel (pre ++ i.enc).length s' := by
  have h1 : (tagBytes i.no i.ty).length = 1 := tagBytes_length_le_one hw.no_lt
  have henc : i.enc.length = 1 + i.body.length := by rw [Item.enc, List.length_append, h1]
  have hsplit : pre ++ (i.enc ++ rest) = (pre ++ tagBytes i.no i.ty) ++ (i.body ++ rest) := by
    simp only [Item.enc, List.append_assoc]
  simp only [List.length_append] at hlen
  have htag : protobufDecodeFieldAndType (toInt32 size)
      ((pre ++ (i.enc ++ rest)).drop pre.length) =
      .ok { fieldNo := i.no, fieldType := i.ty.num, bytesRead := 1 } := by
    rw [List.drop_left, Item.enc, List.append_assoc]
    exact protobufDecodeFieldAndType_tagBytes hw.no_lt
  have hdrop : (pre ++ (i.enc ++ rest)).drop (pre.length + 1) = i.body ++ rest := by
    rw [hsplit, List.drop_left' (by rw [List.length_append, h1])]
  have hbody : (i.body ++ rest).length ≤ ptrdiffMax := by
    have hpd : 2 ^ 31 ≤ ptrdiffMax := by norm_num [ptrdiffMax]
    rw [List.length_append]
    omega
  have hread : (journalMessageFields i.no).read (size - (pre.length + 1)) (i.body ++ rest) =
      .ok (some ((i.body.length : Int), i.store journalMessageFields)) := by
    have hfits : varintFits i.sizeLength (toInt32 (size - (pre.length + 1) : Nat)) := by
      have hle := i.sizeLength_le
      refine varintFits_of_le ?_
      rw [toInt32_natCast_of_lt (by omega)]
      omega
    obtain ⟨x, hx⟩ := (Item.safe_read hw ha hbody).2 hfits
    rw [hx, Item.read_body_ok hw ha hbody hx]
  have hpos : toUInt64 ((pre.length + 1 : Nat) + (i.body.length : Int)) =
      (pre ++ i.enc).length := by
    rw [show ((pre.length + 1 : Nat) : Int) + (i.body.length : Int) =
      ((pre ++ i.enc).length : Nat) by rw [List.length_append, henc]; push_cast; ring]
    refine toUInt64_natCast_of_lt ?_
    rw [List.length_append]
    omega
  rw [journalMessageLoop, if_pos (by omega), htag, ok_bind]
  show ((journalMessageFields i.no).read (size - (pre.length + 1))
    ((pre ++ (i.enc ++ rest)).drop (pre.length + 1)) >>= _) = _
  rw [hdrop, hread, ok_bind]
  show (i.store journalMessageFields s >>= _) = _
  rw [hs, ok_bind]
  show journalMessageLoop _ size fuel
    (toUInt64 ((pre.length + 1 : Nat) + (i.body.length : Int))) s' = _
  rw [hpos]

theorem journalMessageLoop_beyond {pre : List UInt8} {items : List Item} {size fuel : Nat}
    {s : Decoding JournalMessage}
    (hi : ∀ i ∈ items, i.WordSized ∧ i.Accepted journalMessageFields)
    (hs : ∀ i ∈ items, ∀ s, ∃ s', i.store journalMessageFields s = .ok (some s'))
    (hfuel : items.length < fuel) (hlen : (pre ++ itemsBytes items).length < size)
    (hsize : size ≤ 2 ^ 31) :
    journalMessageLoop (pre ++ itemsBytes items) size fuel pre.length s = .error .outOfBounds := by
  induction items generalizing pre fuel s with
  | nil =>
    -- nothing is left of the buffer, but the loop goes on
    obtain ⟨fuel, rfl⟩ : ∃ k, fuel = k + 1 := ⟨fuel - 1, by omega⟩
    rw [itemsBytes_nil, List.append_nil] at hlen ⊢
    rw [journalMessageLoop, if_pos hlen, List.drop_length]
    rfl
  | cons i is ih =>
    obtain ⟨fuel, rfl⟩ : ∃ k, fuel = k + 1 := ⟨fuel - 1, by omega⟩
    obtain ⟨hw, ha⟩ := hi i List.mem_cons_self
    obtain ⟨s', hs'⟩ := hs i List.mem_cons_self s
    rw [List.length_cons] at hfuel
    rw [itemsBytes_cons] at hlen ⊢
    rw [journalMessageLoop_item hw ha (Nat.le_of_lt hlen) hsize hs', ← List.append_assoc]
    rw [← List.append_assoc] at hlen
    exact ih (fun j hj => hi j (List.mem_cons_of_mem _ hj))
      (fun j hj => hs j (List.mem_cons_of_mem _ hj)) (by omega) hlen

/-- **one byte too many**: it is read -/
theorem journalMessageDecode_beyond (hlen : (journalMessageBytes message).length + 1 ≤ 2 ^ 31) :
    journalMessageDecode (journalMessageBytes message) ((journalMessageBytes message).length + 1) =
      .error .outOfBounds := by
  have hfuel : (journalMessageItems message).length ≤ (journalMessageBytes message).length :=
    itemsBytes_length_le _
  have hloop : journalMessageLoop (journalMessageBytes message)
      ((journalMessageBytes message).length + 1) ((journalMessageBytes message).length + 1 + 1) 0
      { out := {} } = .error .outOfBounds :=
    @journalMessageLoop_beyond [] (journalMessageItems message) _ _ _
      (fun i hi =>
        ⟨journalMessageItems_wordSized message i hi, journalMessageItems_accepted message i hi⟩)
      (journalMessageItems_stored (by omega)) (by omega) (Nat.lt_succ_self _) hlen
  unfold journalMessageDecode
  rw [hloop]
  rfl

end

end Ipfs
