import Libipfs.Blocks.Block
import Mathlib.Algebra.Order.BigOperators.Group.List

/-!
# Bitswap messages

The three layers of `message.c`: an entry of a want list, a want list, a message.  Every decoder
takes an empty buffer for a null object and reports success.  The decoder of an entry allocates
it without setting its fields: a field the input does not have keeps what the memory held.

* `wantlistEntryProtobufDecode`, `wantlistProtobufDecode`, `bitswapMessageProtobufDecode`
  the decoders;
* `wantlistEntryProtobufEncode`, `wantlistProtobufEncode`, `bitswapMessageProtobufEncode`
  the encoders;
* `outgoing`, `incoming`   a message as it is sent, and as it is read back.
-/

namespace Ipfs
open CSem Libp2p

/-- a field is `none` as long as nothing has been stored in it -/
structure WantlistEntry where
  block : Option (List UInt8) := none
  cancel : Option UInt8 := none
  priority : Option UInt32 := none
  deriving DecidableEq, Repr

/-- `entries` is a vector of pointers, or null -/
structure BitswapWantlist where
  entries : Option (List (Option WantlistEntry)) := none
  full : UInt8 := 1
  deriving DecidableEq, Repr

/-- each member is a pointer; the blocks of the vectors are never null -/
structure BitswapMessage where
  blocks : Option (List Block) := none
  payload : Option (List Block) := none
  wantlist : Option BitswapWantlist := none
  deriving DecidableEq, Repr

/-! ## decoding -/

def wantlistEntryFields (fieldNo : Int) : FieldCase WantlistEntry :=
  match fieldNo with
  | 1 => .bytes fun d entry => .ok (some { entry with block := some d })
  | 2 => .varint fun v entry => .ok (some { entry with cancel := some (UInt8.ofNat v) })
  | 3 => .varint fun v entry => .ok (some { entry with priority := some (UInt32.ofNat v) })
  | _ => .skip

/-- `none` when the decoder returns 0, `some none` for a null entry -/
def wantlistEntryProtobufDecode (buf : List UInt8) : Exec (Option (Option WantlistEntry)) :=
  if buf.length = 0 then .ok (some none)
  else do
    match ← decodeFields wantlistEntryFields buf {} with
    | none => .ok none
    | some entry => .ok (some (some entry))

def wantlistFields (fieldNo : Int) : FieldCase BitswapWantlist :=
  match fieldNo with
  | 1 => .bytes fun d list => do
    match ← wantlistEntryProtobufDecode d with
    | none => .ok none
    | some entry => .ok (some { list with entries := some (list.entries.getD [] ++ [entry]) })
  | 2 => .varint fun v list => .ok (some { list with full := UInt8.ofNat v })
  | _ => .skip

/-- `none` when the decoder returns 0, `some none` for a null want list -/
def wantlistProtobufDecode (buf : List UInt8) : Exec (Option (Option BitswapWantlist)) :=
  if buf.length = 0 then .ok (some none)
  else do
    match ← decodeFields wantlistFields buf {} with
    | none => .ok none
    | some list => .ok (some (some list))

def bitswapMessageFields (fieldNo : Int) : FieldCase BitswapMessage :=
  match fieldNo with
  | 1 => .bytes fun d message =>
    .ok (some { message with blocks := some (message.blocks.getD [] ++ [{ data := d }]) })
  | 2 => .bytes fun d message => do
    match ← blocksBlockProtobufDecode d with
    | none => .ok none
    | some block => .ok (some { message with payload := some (message.payload.getD [] ++ [block]) })
  | 3 => .bytes fun d message => do
    match ← wantlistProtobufDecode d with
    | none => .ok none
    | some list => .ok (some { message with wantlist := list })
  | _ => .skip

/-- `none` when the decoder returns 0, `some none` for a null message -/
def bitswapMessageProtobufDecode (buf : List UInt8) : Exec (Option (Option BitswapMessage)) :=
  if buf.length = 0 then .ok (some none)
  else do
    match ← decodeFields bitswapMessageFields buf {} with
    | none => .ok none
    | some message => .ok (some (some message))

/-! ## encoding -/

/-- read a field that may not have been stored -/
def stored {α : Type} : Option α → Exec α
  | none => .error .uninitialized
  | some a => .ok a

theorem stored_eq_ok {α : Type} {x : Option α} {a : α} : stored x = .ok a ↔ x = some a := by
  cases x with
  | none => simp [stored]
  | some b => simp [stored]

def wantlistEntryProtobufEncodeSize (entry : Option WantlistEntry) : Exec Nat := do
  let entry ← deref entry
  let block ← stored entry.block
  .ok (33 + block.length)

def wantlistEntryItems (block : List UInt8) (cancel : UInt8) (priority : UInt32) : List Item :=
  [.bytes 1 .lengthDelimited block, .varint 2 .varint cancel.toNat,
   .varint 3 .varint priority.toNat]

def wantlistEntryProtobufEncode (entry : Option WantlistEntry) (room : Nat) :
    Exec (List UInt8) :=
  match entry with
  | none => .ok []
  | some entry => do
    let block ← stored entry.block
    let cancel ← stored entry.cancel
    let priority ← stored entry.priority
    encodeItems (wantlistEntryItems block cancel priority) room

/-- an entry, encoded into a buffer of its own, as a field of the list -/
def encodeEntryField (entry : Option WantlistEntry) (room : Nat) : Exec (List UInt8) := do
  let size ← wantlistEntryProtobufEncodeSize entry
  let temp ← wantlistEntryProtobufEncode entry size
  protobufEncodeLengthDelimited 1 .lengthDelimited temp room

def wantlistEntriesSize : List (Option WantlistEntry) → Exec Nat
  | [] => .ok 0
  | entry :: entries => do
    let size ← wantlistEntryProtobufEncodeSize entry
    let rest ← wantlistEntriesSize entries
    .ok (size + rest)

/-- the vector of entries is followed, null or not -/
def wantlistProtobufEncodeSize (list : Option BitswapWantlist) : Exec Nat :=
  match list with
  | none => .ok 0
  | some list => do
    let entries ← deref list.entries
    let total ← wantlistEntriesSize entries
    .ok (total + 11 + 12 + 11)

def wantlistProtobufEncode (list : Option BitswapWantlist) (room : Nat) : Exec (List UInt8) :=
  match list with
  | none => .ok []
  | some list => do
    let entries ← deref list.entries
    encodeAll (entries.map encodeEntryField ++
      [protobufEncodeVarint 2 .varint list.full.toNat]) room

/-- a block, encoded into a buffer of its own, as a field of the message -/
def encodeBlockField (block : Block) (room : Nat) : Exec (List UInt8) := do
  let temp ← blocksBlockProtobufEncode block (blocksBlockProtobufEncodeSize block)
  protobufEncodeLengthDelimited 2 .lengthDelimited temp room

def encodeWantlistField (list : BitswapWantlist) (room : Nat) : Exec (List UInt8) := do
  let size ← wantlistProtobufEncodeSize (some list)
  let temp ← wantlistProtobufEncode (some list) size
  protobufEncodeLengthDelimited 3 .lengthDelimited temp room

def bitswapMessageProtobufEncodeSize (message : BitswapMessage) : Exec Nat := do
  let wantlist ← wantlistProtobufEncodeSize message.wantlist
  .ok (((message.blocks.getD []).map fun block => 11 + block.data.length).sum +
    ((message.payload.getD []).map fun block => 11 + blocksBlockProtobufEncodeSize block).sum +
    wantlist + (11 + 12 + 11))

def bitswapMessageProtobufEncode (message : BitswapMessage) (room : Nat) : Exec (List UInt8) :=
  encodeAll
    ((message.blocks.getD []).map (fun block =>
        protobufEncodeLengthDelimited 1 .lengthDelimited block.data) ++
      (message.payload.getD []).map encodeBlockField ++
      message.wantlist.toList.map encodeWantlistField) room

/-! ## messages as they are sent -/

/-- what an entry of a want list says when all its fields are set -/
structure Want where
  block : List UInt8
  cancel : UInt8
  priority : UInt32
  deriving DecidableEq, Repr

def Want.entry (want : Want) : Option WantlistEntry :=
  some { block := some want.block, cancel := some want.cancel, priority := some want.priority }

/-- a message with blocks and wants; there is always a want list, with a vector of entries -/
def outgoing (payload : List Block) (wants : List Want) : BitswapMessage where
  payload := if payload = [] then none else some payload
  wantlist := some { entries := some (wants.map Want.entry) }

/-- a vector that is made for its first item, with the items that are added to it -/
def appended {α : Type} (old : Option (List α)) : List α → Option (List α)
  | [] => old
  | x :: xs => appended (some (old.getD [] ++ [x])) xs

/-- the message as it is read back -/
def incoming (payload : List Block) (wants : List Want) : BitswapMessage where
  payload := appended none (payload.map Block.decoded)
  wantlist := some { entries := appended none (wants.map Want.entry) }

def Want.items (want : Want) : List Item := wantlistEntryItems want.block want.cancel want.priority

def Want.bytes (want : Want) : List UInt8 := itemsBytes want.items

/-- the want list is always said to be full -/
def wantsItems (wants : List Want) : List Item :=
  wants.map (fun want => .bytes 1 .lengthDelimited want.bytes) ++ [.varint 2 .varint 1]

def messageItems (payload : List Block) (wants : List Want) : List Item :=
  payload.map (fun block => .bytes 2 .lengthDelimited (blockBytes block)) ++
    [.bytes 3 .lengthDelimited (itemsBytes (wantsItems wants))]

def messageBytes (payload : List Block) (wants : List Want) : List UInt8 :=
  itemsBytes (messageItems payload wants)

/-- the size that is computed for the want list -/
def wantsSize (wants : List Want) : Nat :=
  (wants.map fun want => 33 + want.block.length).sum + 11 + 12 + 11

/-- the size that is computed for the message -/
def messageSize (payload : List Block) (wants : List Want) : Nat :=
  (payload.map fun block => 11 + blocksBlockProtobufEncodeSize block).sum + wantsSize wants +
    (11 + 12 + 11)

theorem appended_getD {α : Type} (old : Option (List α)) (items : List α) :
    (appended old items).getD [] = old.getD [] ++ items := by
  induction items generalizing old with
  | nil => exact (List.append_nil _).symm
  | cons x xs ih =>
    rw [appended, ih, Option.getD_some, List.append_assoc]
    rfl

theorem Want.items_wordSized (want : Want) : ∀ i ∈ want.items, i.WordSized := by
  intro i hi
  have hc := want.cancel.toNat_lt
  have hp := want.priority.toNat_lt
  simp only [Want.items, wantlistEntryItems, List.mem_cons, List.not_mem_nil, or_false] at hi
  rcases hi with rfl | rfl | rfl
  · exact (by norm_num : (1 : Nat) < 16)
  · exact ⟨by norm_num, by omega⟩
  · exact ⟨by norm_num, by omega⟩

theorem Want.items_accepted (want : Want) : ∀ i ∈ want.items, i.Accepted wantlistEntryFields := by
  intro i hi
  simp only [Want.items, wantlistEntryItems, List.mem_cons, List.not_mem_nil, or_false] at hi
  rcases hi with rfl | rfl | rfl <;> exact trivial

theorem Want.bytes_length_le (want : Want) : want.bytes.length ≤ 21 + want.block.length := by
  have h1 := bytesField_length 1 .lengthDelimited want.block (by norm_num)
  have h2 := varintField_length 2 .varint want.cancel.toNat (by norm_num)
  have h3 := varintField_length 3 .varint want.priority.toNat (by norm_num)
  have hlen := varintBytes_length_le want.block.length
  have hcancel : (varintBytes want.cancel.toNat).length ≤ 1 + 1 := by
    have := want.cancel.toNat_lt
    exact varintBytes_length_le_of_lt (by omega)
  have hpriority : (varintBytes want.priority.toNat).length ≤ 4 + 1 := by
    have := want.priority.toNat_lt
    exact varintBytes_length_le_of_lt (by omega)
  simp only [Want.bytes, Want.items, wantlistEntryItems, itemsBytes_cons, itemsBytes_nil,
    Item.enc_bytes, Item.enc_varint, List.length_append, List.length_nil]
  omega

/-- as a field of the list it still fits the size that is computed for it -/
theorem Want.bytesField_length_le (want : Want) :
    (bytesField 1 .lengthDelimited want.bytes).length ≤ 33 + want.block.length := by
  have hbytes := want.bytes_length_le
  have hfield := Libp2p.bytesField_length_le 1 .lengthDelimited want.bytes (by norm_num)
  omega

section
variable {wants : List Want}

theorem wantlistEntriesSize_eq :
    wantlistEntriesSize (wants.map Want.entry) =
      .ok (wants.map fun want => 33 + want.block.length).sum := by
  induction wants with
  | nil => rfl
  | cons want wants ih =>
    rw [List.map_cons, wantlistEntriesSize, ih]
    rfl

/-- the entries, stored one after the other -/
theorem applyItems_wants {list : BitswapWantlist}
    (hwants : ∀ want ∈ wants, wantlistEntryProtobufDecode want.bytes = .ok (some want.entry)) :
    applyItems wantlistFields (wants.map fun want => .bytes 1 .lengthDelimited want.bytes) list =
      .ok (some { list with entries := appended list.entries (wants.map Want.entry) }) := by
  induction wants generalizing list with
  | nil => rfl
  | cons want wants ih =>
    have hstore : (Item.bytes 1 .lengthDelimited want.bytes).store wantlistFields list =
        .ok (some { list with entries := some (list.entries.getD [] ++ [want.entry]) }) := by
      show wantlistEntryProtobufDecode want.bytes >>= _ = _
      rw [hwants want List.mem_cons_self]
      rfl
    rw [List.map_cons, applyItems_cons, hstore, ok_bind]
    exact ih fun w hw => hwants w (List.mem_cons_of_mem _ hw)

end

end Ipfs
