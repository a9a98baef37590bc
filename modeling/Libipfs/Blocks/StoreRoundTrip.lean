import Libipfs.Protobuf.Prefix
import Libipfs.Merkledag.Merkledag
import Libipfs.Merkledag.RoundTrip
import Libipfs.Unixfs.RoundTrip

/-!
# What comes back from the block store

The block store writes blocks, nodes and `UnixFS` objects, each in its own encoding, into the file
of their hash.  A reader asks for the size of the file, which is an `int`, and reads as many bytes.

* `blockstorePutUnixfs`, `blockstorePutNode`   the writers beside `blockstorePut`;
* `blockstoreGetUnixfs`   the reader beside `blockstoreGet` and `blockstoreGetNode`;
* `not_nodeComesBack`     **no node comes back**: it is written as it is, and read as a block;
* `unixfsComesBack_iff`, `blockComesBack_iff`   the objects and blocks that do;
* `storeRoundTrip`        what becomes of the three.
-/

namespace Ipfs
open CSem Libp2p

/-! ## writing -/

section
variable (opens : List UInt8 → Bool)

/-- what the writers do with the hash and the encoding, on a disk that takes all it is given;
`none` when they return 0 -/
def blockstoreWrite (hash : List UInt8) (encoding : Exec (List UInt8)) (files : Files) :
    Exec (Option Nat × Files) := do
  match ← hashToBase32 hash with
  | none => .ok (none, files)
  | some key => do
    let protobuf ← encoding
    require .null (opens key)
    .ok (some protobuf.length, Function.update files key (some protobuf))

/-- `hash` is the one of the struct -/
def blockstorePutUnixfs (hash : List UInt8) (unixFs : UnixFS) (files : Files) :
    Exec (Option Nat × Files) :=
  blockstoreWrite opens hash (unixfsProtobufEncode unixFs (unixfsProtobufEncodeSize unixFs)) files

def blockstorePutNode (node : HashtableNode) (files : Files) : Exec (Option Nat × Files) :=
  blockstoreWrite opens (node.hash.getD [])
    (hashtableNodeProtobufEncode node (hashtableNodeProtobufEncodeSize node)) files

end

/-! ## reading -/

def blockstoreGetUnixfs (hash : List UInt8) (files : Files) : Exec (Option UnixFS) := do
  let buffer ← blockstoreRead hash files
  unixfsProtobufDecode buffer

/-! ## what comes back -/

/-- the name of the file can be made, and the file opened -/
def HasFile (opens : List UInt8 → Bool) (hash : List UInt8) : Prop :=
  ∃ key, hashToBase32 hash = .ok (some key) ∧ opens key = true

def NodeComesBack (opens : List UInt8 → Bool) (files : Files) (node : HashtableNode) : Prop :=
  ∃ n files' result, blockstorePutNode opens node files = .ok (some n, files') ∧
    blockstoreGetNode (node.hash.getD []) files' = .ok (some result) ∧
    result.data = node.data ∧ List.Forall₂ SameLink result.links node.links

def UnixfsComesBack (opens : List UInt8 → Bool) (files : Files) (hash : List UInt8)
    (unixFs : UnixFS) : Prop :=
  ∃ n files', blockstorePutUnixfs opens hash unixFs files = .ok (some n, files') ∧
    blockstoreGetUnixfs hash files' = .ok (some unixFs)

def BlockComesBack (opens : List UInt8 → Bool) (files : Files) (block : Block) : Prop :=
  ∃ n files' result, blockstorePut opens block files = .ok (some n, files') ∧
    blockstoreGet block.cid files' = .ok (some result) ∧ result.data = block.data

section
variable {opens : List UInt8 → Bool} {files files' : Files} {hash key content buffer : List UInt8}
variable {n : Nat}

theorem blockstoreWrite_eq_some {encoding : Exec (List UInt8)} :
    blockstoreWrite opens hash encoding files = .ok (some n, files') ↔
      ∃ key protobuf, hashToBase32 hash = .ok (some key) ∧ opens key = true ∧
        encoding = .ok protobuf ∧ n = protobuf.length ∧
        files' = Function.update files key (some protobuf) := by
  unfold blockstoreWrite
  constructor
  · intro h
    obtain ⟨key, hkey, h⟩ := bind_eq_ok.1 h
    cases key with
    | none => cases h
    | some key =>
      obtain ⟨protobuf, hencode, h⟩ := bind_eq_ok.1 h
      obtain ⟨hopen, h⟩ := require_bind_eq_ok.1 h
      cases h
      exact ⟨key, protobuf, hkey, hopen, hencode, rfl, rfl⟩
  · intro ⟨key, protobuf, hkey, hopen, hencode, hn, hfiles⟩
    rw [hkey, ok_bind, hencode, hn, hfiles]
    simp only
    rw [ok_bind, require_pos hopen]
    rfl

/-- the file is read whole, or it has 2^32 bytes and more -/
theorem take_toInt32 (h : 0 ≤ toInt32 content.length) :
    content.length < 2 ^ 31 ∧ content.take (toInt32 content.length).toNat = content ∨
      2 ^ 32 ≤ content.length ∧ (toInt32 content.length).toNat < 2 ^ 31 := by
  have hbounds := toInt32_bounds content.length
  by_cases hlen : content.length < 2 ^ 31
  · refine .inl ⟨hlen, ?_⟩
    rw [toInt32_natCast_of_lt hlen, Int.toNat_natCast, List.take_length]
  · refine .inr ⟨?_, by omega⟩
    by_contra hlt
    have hneg := toInt32_natCast_neg (Nat.le_of_not_lt hlen) (Nat.lt_of_not_le hlt)
    omega

/-! ### nodes -/

variable {node result : HashtableNode} {block : Block}

/-- the data of a node is shorter than what it is decoded from -/
theorem hashtableNodeProtobufDecode_data_lt
    (h : hashtableNodeProtobufDecode buffer = .ok (some result)) :
    result.data.length < buffer.length := by
  unfold hashtableNodeProtobufDecode at h
  split at h
  · cases h
  · next hne =>
    obtain ⟨pos, hreached, -⟩ := reached_of_decodeFields h
    refine hreached.invariant (I := fun node => node.data.length < buffer.length)
      (Nat.pos_of_ne_zero hne) ?_
    intro p p' store s r hread hs hstore
    obtain ⟨tag, v, htag, hv, hr⟩ := readItem_eq_ok.1 hread
    have hpos := (protobufDecodeFieldAndType_bounds htag).1
    cases v with
    | none => cases hr
    | some v =>
      obtain ⟨m, act⟩ := v
      cases hr
      unfold nodeFields at hv
      split at hv
      · -- the data of a field is behind its tag
        obtain ⟨y, hy, hv⟩ := bind_eq_ok.1 hv
        cases y with
        | none => cases hv
        | some y =>
          obtain ⟨d, k⟩ := y
          obtain ⟨size, n, -, -, hle, rfl, -⟩ := protobufDecodeLengthDelimited_eq_some.1 hy
          cases hv
          cases hstore
          simp only [List.length_take, List.length_drop] at hle ⊢
          omega
      · obtain ⟨y, hy, hv⟩ := bind_eq_ok.1 hv
        cases y with
        | none => cases hv
        | some y =>
          cases hv
          obtain ⟨link, -, hstore⟩ := bind_eq_ok.1 hstore
          cases link with
          | none =>
            cases hstore
            exact hs
          | some link =>
            cases hstore
            exact hs
      · cases hv
        cases hstore
        exact hs

/-- a node that is read as a block: its data is that of the node, or there is none -/
theorem blocksBlockProtobufDecode_nodeBytes {n : Nat} (hlen : (nodeBytes node).length ≤ ptrdiffMax)
    (h : blocksBlockProtobufDecode ((nodeBytes node).take n) = .ok (some block)) :
    block.data = [] ∨ block.data = node.data := by
  have hitems : ∀ i ∈ nodeItems node, (i.WordSized ∧ i.Accepted blockFields) ∧
      ((∃ link, i = .bytes 2 .lengthDelimited (linkBytes link)) ∨
        i = .bytes 1 .lengthDelimited node.data) := by
    intro i hi
    have hw := nodeItems_wordSized node i hi
    simp only [nodeItems, List.mem_append, List.mem_map] at hi
    rcases hi with ⟨link, -, rfl⟩ | hi
    · exact ⟨⟨hw, trivial⟩, .inl ⟨link, rfl⟩⟩
    · split at hi
      · rw [List.mem_singleton.1 hi]
        exact ⟨⟨by norm_num [Item.WordSized], trivial⟩, .inr rfl⟩
      · cases hi
  obtain ⟨k, -, happly⟩ := decodeFields_take (fun i hi => (hitems i hi).1) hlen h
  refine applyItems_invariant (I := fun block => block.data = [] ∨ block.data = node.data)
    (.inl rfl) ?_ happly
  intro i hi s r hs hstore
  rcases (hitems i (List.mem_of_mem_take hi)).2 with ⟨link, rfl⟩ | rfl
  · -- a link is read as a CID
    obtain ⟨cid, -, hstore⟩ := bind_eq_ok.1 hstore
    cases cid with
    | none => cases hstore
    | some cid =>
      cases hstore
      exact hs
  · cases hstore
    exact .inr rfl

/-- **no node comes back** -/
theorem not_nodeComesBack (hsize : hashtableNodeProtobufEncodeSize node ≤ ptrdiffMax) :
    ¬ NodeComesBack opens files node := by
  intro ⟨n, files', result, hput, hget, hdata, _⟩
  obtain ⟨key, protobuf, hkey, -, hencode, -, rfl⟩ := blockstoreWrite_eq_some.1 hput
  obtain ⟨rfl, hroom⟩ := hashtableNodeProtobufEncode_ok hencode
  obtain ⟨block, hblock, hget⟩ := bind_eq_ok.1 hget
  obtain ⟨-, hblock⟩ := (blockstoreReadBlock_eq_ok hkey (Function.update_self _ _ _)).1 hblock
  have hlt := hashtableNodeProtobufDecode_data_lt hget
  rw [hdata] at hlt
  rcases blocksBlockProtobufDecode_nodeBytes (by omega) hblock with h | h
  · rw [h] at hlt
    exact Nat.not_lt_zero _ hlt
  · rw [h] at hlt
    exact Nat.lt_irrefl _ hlt

/-! ### objects -/

/-- what is in an object beside its type -/
def UnixFS.parts (obj : UnixFS) : Nat :=
  (if 0 < obj.bytes.length then 1 else 0) + (if 0 < obj.fileSize.toNat then 1 else 0) +
    obj.blockSizes.length

variable {obj s r : UnixFS} {items : List Item}

theorem unixfsItems_length (obj : UnixFS) : (unixfsItems obj).length = obj.parts + 1 := by
  unfold unixfsItems UnixFS.parts
  simp only [List.length_append, List.length_map, List.length_singleton]
  split_ifs <;> simp only [List.length_singleton, List.length_nil] <;> omega

/-- a field adds one part at most -/
theorem parts_store {i : Item} (h : i.store unixfsFields s = .ok (some r)) :
    r.parts ≤ s.parts + 1 := by
  unfold Item.store at h
  generalize hcase : unixfsFields i.no = c at h
  unfold unixfsFields at hcase
  split at hcase
  all_goals
    subst hcase
    cases i
    all_goals cases h
  · exact Nat.le_succ _
  · unfold UnixFS.parts UnixFS.addData
    simp only
    split_ifs <;> omega
  · unfold UnixFS.parts
    simp only
    split_ifs <;> omega
  · unfold UnixFS.parts UnixFS.addBlocksize
    rw [List.length_append, List.length_singleton]
    exact Nat.le_refl _

theorem parts_applyItems (h : applyItems unixfsFields items s = .ok (some r)) :
    r.parts ≤ s.parts + items.length := by
  induction items generalizing s with
  | nil =>
    cases h
    exact Nat.le_refl _
  | cons i is ih =>
    rw [applyItems_cons] at h
    obtain ⟨x, hx, h⟩ := bind_eq_ok.1 h
    cases x with
    | none => cases h
    | some s' =>
      have hstore := parts_store hx
      have hrest : r.parts ≤ s'.parts + is.length := ih h
      rw [List.length_cons]
      omega

/-- all the fields are needed -/
theorem applyItems_take_unixfsItems {k : Nat} (h0 : k ≠ 0)
    (h : applyItems unixfsFields ((unixfsItems obj).take k) {} = .ok (some obj)) :
    (unixfsItems obj).take k = unixfsItems obj := by
  have hlength := unixfsItems_length obj
  obtain ⟨rest, hrest⟩ : ∃ rest,
      unixfsItems obj = .varint 1 .varint obj.dataType.toNat :: rest := ⟨_, rfl⟩
  obtain ⟨k, rfl⟩ := Nat.exists_eq_succ_of_ne_zero h0
  rw [hrest] at hlength h ⊢
  rw [List.take_succ_cons] at h ⊢
  have htype : applyItems unixfsFields (rest.take k)
      { dataType := UInt32.ofNat obj.dataType.toNat } = .ok (some obj) := h
  have hparts : obj.parts ≤ 0 + (rest.take k).length := parts_applyItems htype
  rw [List.length_cons] at hlength
  rw [List.length_take] at hparts
  rw [List.take_of_length_le (by omega)]

/-- **the objects that come back** -/
theorem unixfsComesBack_iff (hsize : unixfsProtobufEncodeSize obj ≤ ptrdiffMax) :
    UnixfsComesBack opens files hash obj ↔ HasFile opens hash ∧
      Writable (unixfsItems obj) (unixfsProtobufEncodeSize obj) ∧
      (unixfsBytes obj).length < 2 ^ 31 := by
  have hbytes : obj.bytes.length < 2 ^ 64 := by
    have hmax : ptrdiffMax < 2 ^ 64 := ptrdiffMax_lt
    unfold unixfsProtobufEncodeSize at hsize
    omega
  constructor
  · intro h
    obtain ⟨n, files', hput, hget⟩ := h
    obtain ⟨key, protobuf, hkey, hopen, hencode, -, rfl⟩ := blockstoreWrite_eq_some.1 hput
    obtain ⟨rfl, hwritable⟩ := (encodeItems_eq_ok (unixfsItems_object hbytes)).1 hencode
    have hlen := hwritable.length_le
    refine ⟨⟨key, hkey, hopen⟩, hwritable, ?_⟩
    obtain ⟨buffer, hread, hget⟩ := bind_eq_ok.1 hget
    obtain ⟨hint, rfl⟩ := (blockstoreRead_eq_ok hkey (Function.update_self _ _ _)).1 hread
    rcases take_toInt32 hint with ⟨hlt, -⟩ | ⟨hle, hlt⟩
    · exact hlt
    · unfold unixfsProtobufDecode at hget
      split at hget
      · cases hget
      · next hne =>
        obtain ⟨k, hk, happly⟩ := decodeFields_take (fun i hi =>
          ⟨unixfsItems_wordSized obj i hi, unixfsItems_accepted obj i hi⟩) (by omega) hget
        have h0 : k ≠ 0 := by
          intro h0
          rw [hk, h0] at hne
          exact hne rfl
        rw [applyItems_take_unixfsItems h0 happly] at hk
        have hlength := congrArg List.length hk
        rw [List.length_take] at hlength
        omega
  · intro h
    obtain ⟨⟨key, hkey, hopen⟩, hwritable, hlt⟩ := h
    have hencode : unixfsProtobufEncode obj (unixfsProtobufEncodeSize obj) = _ :=
      (encodeItems_eq_ok (unixfsItems_object hbytes)).2 ⟨rfl, hwritable⟩
    have hlt : (itemsBytes (unixfsItems obj)).length < 2 ^ 31 := hlt
    refine ⟨_, _, blockstoreWrite_eq_some.2 ⟨key, _, hkey, hopen, hencode, rfl, rfl⟩, ?_⟩
    unfold blockstoreGetUnixfs
    rw [blockstoreRead_of_lt hkey (Function.update_self _ _ _) hlt, ok_bind]
    exact unixfsProtobufDecode_unixfsBytes hlt

/-! ### blocks -/

/-- a file whose name is as short as names are has a short hash -/
theorem length_of_name (hmax : hash.length ≤ ptrdiffMax)
    (hkey : hashToBase32 hash = .ok (some key)) (h : key.length ≤ 255) : hash.length < 256 := by
  have h5 : 5 ≤ hash.length := by
    by_contra hshort
    rw [hashToBase32_short (Nat.lt_of_not_le hshort)] at hkey
    cases hkey
  have hsize := encodeSize_of_le h5 hmax
  by_cases hlt : cryptoEncodingBase32EncodeSize hash.length < ptrdiffMax
  · rw [hashToBase32_eq h5 hmax hlt] at hkey
    obtain rfl := Option.some.inj (Except.ok.inj hkey)
    rw [List.length_take, base32Chars_length] at h
    unfold base32Length at h
    omega
  · unfold hashToBase32 at hkey
    simp only at hkey
    rw [if_pos (by omega)] at hkey
    cases hkey

theorem hash_length_lt {cid : Cid} (hsize : blocksBlockProtobufEncodeSize block ≤ ptrdiffMax)
    (hcid : block.cid = some cid) (hkey : hashToBase32 cid.hash = .ok (some key))
    (h : key.length ≤ 255) : cid.hash.length < 256 := by
  refine length_of_name ?_ hkey h
  unfold blocksBlockProtobufEncodeSize at hsize
  rw [hcid] at hsize
  have hsize : 22 + (11 + 12 + cid.hash.length + 11) + block.data.length ≤ ptrdiffMax := hsize
  omega

theorem blocksBlockProtobufEncodeSize_of_name {cid : Cid} (hcid : block.cid = some cid)
    (h : cid.hash.length < 256) : block.data.length + 22 ≤ blocksBlockProtobufEncodeSize block ∧
      blocksBlockProtobufEncodeSize block ≤ block.data.length + 311 ∧
      cidProtobufEncodeSize block.cid < 2 ^ 31 := by
  unfold blocksBlockProtobufEncodeSize
  rw [hcid]
  show _ ∧ 22 + (11 + 12 + cid.hash.length + 11) + _ ≤ _ ∧ 11 + 12 + cid.hash.length + 11 < _
  omega

/-- the size of a block is more than its bytes take -/
theorem blockBytes_length_lt (h : block.data.length < 2 ^ 31) :
    (blockBytes block).length < blocksBlockProtobufEncodeSize block := by
  have hdata : (bytesField 1 .lengthDelimited block.data).length ≤ 6 + block.data.length := by
    have hvarint : (varintBytes block.data.length).length ≤ 4 + 1 :=
      varintBytes_length_le_of_lt (by omega)
    rw [bytesField_length 1 _ _ (by norm_num)]
    omega
  have hfield := bytesField_length_le 2 .lengthDelimited (cidBytes block.cid) (by norm_num)
  have hcid := cidBytes_length_le block.cid
  rw [blockBytes_length]
  unfold blocksBlockProtobufEncodeSize
  omega

/-- a block is written when its size is an `int`, or as good as one -/
theorem writable_blockItems_iff {cid : Cid} (hcid : block.cid = some cid)
    (h : cid.hash.length < 256) (hlt : (blockBytes block).length < 2 ^ 31) :
    Writable (blockItems block) (blocksBlockProtobufEncodeSize block) ↔
      blocksBlockProtobufEncodeSize block ≤ 2 ^ 31 := by
  obtain ⟨hge, hle, -⟩ := blocksBlockProtobufEncodeSize_of_name hcid h
  have hdata : block.data.length ≤ (blockBytes block).length :=
    length_le_itemsBytes (show .bytes 1 .lengthDelimited block.data ∈ blockItems block from
      List.mem_cons_self)
  constructor
  · intro ⟨⟨_, hfit⟩, _⟩
    by_contra hgt
    -- the room behind the tag is negative, and the length of the data takes more than one byte
    have hneg := toInt32_natCast_neg (n := blocksBlockProtobufEncodeSize block - 1) (by omega)
      (by omega)
    rcases hfit with hone | hfits
    · have hone : (varintBytes block.data.length).length = 1 := hone
      have hvalue := varintValue_lt (varintBytes block.data.length)
      rw [hone, varintBytes, varintValue_varintBytesFrom (by omega)] at hvalue
      omega
    · omega
  · intro hint
    exact writable_of_le (blockItems_wordSized block) (blockBytes_length_le block) hint

/-- of a block whose file is too long an end of the data is missing, and all of it then -/
theorem blocksBlockProtobufDecode_piece {cid : Cid} {piece : Block} (hcid : block.cid = some cid)
    (h : cid.hash.length < 256) (hsize : blocksBlockProtobufEncodeSize block ≤ ptrdiffMax)
    (hlong : 2 ^ 32 ≤ (blockBytes block).length) (hlt : n < 2 ^ 31)
    (hpiece : blocksBlockProtobufDecode ((blockBytes block).take n) = .ok (some piece)) :
    piece.data = [] := by
  have hroom := blockBytes_length_le block
  obtain ⟨-, hle, -⟩ := blocksBlockProtobufEncodeSize_of_name hcid h
  obtain ⟨k, hk, happly⟩ := decodeFields_take (fun i hi =>
    ⟨blockItems_wordSized block i hi, blockItems_accepted block i hi⟩)
    (by show (blockBytes block).length ≤ ptrdiffMax; omega) hpiece
  cases k with
  | zero =>
    cases happly
    rfl
  | succ k =>
    -- the field of the data alone is longer than what is read
    exfalso
    have hlength := congrArg List.length hk
    have hfirst := length_le_bytesField 1 .lengthDelimited block.data
    rw [List.length_take] at hlength
    unfold blockItems at hlength
    rw [List.take_succ_cons, itemsBytes_cons (.bytes 1 .lengthDelimited block.data) (List.take k _),
      List.length_append, Item.enc_bytes] at hlength
    omega

/-- **the blocks that come back** -/
theorem blockComesBack_iff (hname : ∀ name, opens name = true → name.length ≤ 255)
    (hsize : blocksBlockProtobufEncodeSize block ≤ ptrdiffMax) :
    BlockComesBack opens files block ↔
      (∃ cid, block.cid = some cid ∧ HasFile opens cid.hash) ∧
        blocksBlockProtobufEncodeSize block ≤ 2 ^ 31 := by
  have hmax : ptrdiffMax < 2 ^ 64 := ptrdiffMax_lt
  have hroom := blockBytes_length_le block
  have hbytes : (blockBytes block).length < 2 ^ 64 := by omega
  constructor
  · intro h
    obtain ⟨n, files', result, hput, hget, hresult⟩ := h
    obtain ⟨key, hkey, hencode, hopen, -, rfl⟩ := blockstorePut_eq_some.1 hput
    obtain ⟨cid, hcid, hkey⟩ := bind_eq_ok.1 hkey
    rw [deref_eq_ok] at hcid
    have hhash := hash_length_lt hsize hcid hkey (hname key hopen)
    obtain ⟨hge, hle, hcidSize⟩ := blocksBlockProtobufEncodeSize_of_name hcid hhash
    obtain ⟨-, hwritable, -⟩ := (blocksBlockProtobufEncode_eq_ok hbytes).1 hencode
    refine ⟨⟨cid, hcid, key, hkey, hopen⟩, ?_⟩
    rw [hcid] at hget
    unfold blockstoreGet at hget
    rw [deref_some, ok_bind, hkey, ok_bind] at hget
    simp only [Function.update_self] at hget
    obtain ⟨hint, hget⟩ := require_bind_eq_ok.1 hget
    rcases take_toInt32 hint with ⟨hlt, -⟩ | ⟨hlong, hlt⟩
    · exact (writable_blockItems_iff hcid hhash hlt).1 hwritable
    · obtain ⟨piece, hpiece, hget⟩ := bind_eq_ok.1 hget
      cases piece with
      | none => cases hget
      | some piece =>
        cases hget
        have hnil := blocksBlockProtobufDecode_piece hcid hhash hsize hlong hlt hpiece
        have hresult : piece.data = block.data := hresult
        rw [← hresult, hnil, List.length_nil] at hle
        omega
  · intro h
    obtain ⟨⟨cid, hcid, key, hkey, hopen⟩, hint⟩ := h
    have hhash := hash_length_lt hsize hcid hkey (hname key hopen)
    obtain ⟨hge, hle, hcidSize⟩ := blocksBlockProtobufEncodeSize_of_name hcid hhash
    have hlt : (blockBytes block).length < 2 ^ 31 :=
      Nat.lt_of_lt_of_le (blockBytes_length_lt (by omega)) hint
    have hencode := (blocksBlockProtobufEncode_eq_ok hbytes).2
      ⟨rfl, (writable_blockItems_iff hcid hhash hlt).2 hint, fun cid' h' => writable_of_lt (cidItems_wordSized cid')
        (h' ▸ cidBytes_length_le block.cid) hcidSize⟩
    have hname' : cidToBase32 block.cid = .ok (some key) := by
      rw [hcid, cidToBase32_some, hkey]
    refine ⟨_, _, { block with cid := some cid },
      blockstorePut_eq_some.2 ⟨key, hname', hencode, hopen, rfl, rfl⟩, ?_, rfl⟩
    rw [hcid]
    unfold blockstoreGet
    rw [deref_some, ok_bind, hkey, ok_bind]
    simp only [Function.update_self]
    rw [toInt32_natCast_of_lt hlt, require_pos (Int.natCast_nonneg _), ok_bind, Int.toNat_natCast,
      List.take_length, blocksBlockProtobufDecode_blockBytes block hlt, ok_bind]
    rfl

/-- **what becomes of the three**: nodes never come back; objects and blocks do, when they have a
file, can be written and are read whole.  A name that can be opened has 255 bytes at most -/
theorem storeRoundTrip (hname : ∀ name, opens name = true → name.length ≤ 255)
    (hnode : hashtableNodeProtobufEncodeSize node ≤ ptrdiffMax)
    (hobj : unixfsProtobufEncodeSize obj ≤ ptrdiffMax)
    (hblock : blocksBlockProtobufEncodeSize block ≤ ptrdiffMax) :
    ¬ NodeComesBack opens files node ∧
      (UnixfsComesBack opens files hash obj ↔ HasFile opens hash ∧
        Writable (unixfsItems obj) (unixfsProtobufEncodeSize obj) ∧
        (unixfsBytes obj).length < 2 ^ 31) ∧
      (BlockComesBack opens files block ↔
        (∃ cid, block.cid = some cid ∧ HasFile opens cid.hash) ∧
          blocksBlockProtobufEncodeSize block ≤ 2 ^ 31) :=
  ⟨not_nodeComesBack hnode, unixfsComesBack_iff hobj, blockComesBack_iff hname hblock⟩

end

/-- a node of one byte, under a hash -/
def storedNode : HashtableNode := { data := [1], hash := some (List.replicate 32 7) }

/-- every name that the system allows can be opened -/
def opensNames (name : List UInt8) : Bool := name.length ≤ 255

theorem storeRoundTrip_storedNode : ¬ NodeComesBack opensNames (fun _ => none) storedNode ∧
    (UnixfsComesBack opensNames (fun _ => none) (List.replicate 32 7) { bytes := [1] } ↔
      HasFile opensNames (List.replicate 32 7) ∧
        Writable (unixfsItems { bytes := [1] }) (unixfsProtobufEncodeSize { bytes := [1] }) ∧
        (unixfsBytes { bytes := [1] }).length < 2 ^ 31) ∧
    (BlockComesBack opensNames (fun _ => none)
        { cid := some (cidNew 1 (List.replicate 32 7) 0x70), data := [1] } ↔
      (∃ cid, some (cidNew 1 (List.replicate 32 7) 0x70) = some cid ∧
        HasFile opensNames cid.hash) ∧
        blocksBlockProtobufEncodeSize
          { cid := some (cidNew 1 (List.replicate 32 7) 0x70), data := [1] } ≤ 2 ^ 31) :=
  storeRoundTrip (fun name h => of_decide_eq_true h) (by decide) (by decide) (by decide)

/-- the node is put, and a node without data is got -/
theorem storedNode_lost : ¬ NodeComesBack opensNames (fun _ => none) storedNode ∧
    ∃ n files', blockstorePutNode opensNames storedNode (fun _ => none) = .ok (some n, files') ∧
      blockstoreGetNode (List.replicate 32 7) files' = .ok (some {}) := by
  refine ⟨not_nodeComesBack (by decide), 3, _, blockstoreWrite_eq_some.2
    ⟨base32Chars (List.replicate 25 7) ++ [b32str 0], [10, 1, 1], ?_, ?_, ?_, rfl, rfl⟩, ?_⟩
  · decide +kernel
  · decide
  · decide
  · decide +kernel

end Ipfs
