import Libipfs.Datastore.DsHelper

/-!
# The block store

A block is kept in a file whose name is the base32 form of its hash, cut off at the size that
`cryptoEncodingBase32EncodeSize` gives.

* `hashToBase32_eq`        the name of a file;
* `hashToBase32_eq_iff`    when two hashes of 32 bytes have one name;
* `recordsFileName_iff`    when the datastore has the name under which the block is stored;
* `blockNames_iff`         what becomes of the names, in all.
-/

namespace Ipfs
open CSem Libp2p

/-- the files of the block store, by their names -/
abbrev Files : Type := List UInt8 → Option (List UInt8)

/-! ## names -/

/-- `none` for null: the name cannot be made, or its buffer not be allocated -/
def hashToBase32 (hash : List UInt8) : Exec (Option (List UInt8)) :=
  let keyLength := cryptoEncodingBase32EncodeSize hash.length
  if ptrdiffMax < keyLength + 1 then .ok none else dsKeyFromBinary hash keyLength

def cidToBase32 (cid : Option Cid) : Exec (Option (List UInt8)) := do
  let cid ← deref cid
  hashToBase32 cid.hash

/-! ## put and get -/

/-- the bytes of the file of a hash; a name that cannot be made is followed, and a missing file is
read from through a null pointer -/
def blockstoreRead (hash : List UInt8) (files : Files) : Exec (List UInt8) := do
  match ← hashToBase32 hash with
  | none => .error .null
  | some key => do
    let content ← deref (files key)
    -- `os_utils_file_size` is an `int`
    let fileSize := toInt32 content.length
    require .overflow (0 ≤ fileSize)
    .ok (content.take fileSize.toNat)

/-- the block in the file; one that cannot be decoded is freed twice -/
def blockstoreReadBlock (hash : List UInt8) (files : Files) : Exec Block := do
  let buffer ← blockstoreRead hash files
  match ← blocksBlockProtobufDecode buffer with
  | none => .error .freed
  | some block => .ok block

/-- the number of bytes written, `none` when the function returns 0, on a disk that takes all it is
given; `opens` says which files can be opened for writing, which nobody checks -/
def blockstorePut (opens : List UInt8 → Bool) (block : Block) (files : Files) :
    Exec (Option Nat × Files) := do
  match ← cidToBase32 block.cid with
  | none => .ok (none, files)
  | some key => do
    let protobuf ← blocksBlockProtobufEncode block (blocksBlockProtobufEncodeSize block)
    require .null (opens key)
    .ok (some protobuf.length, Function.update files key (some protobuf))

/-- `none` when there is no file; a name that cannot be made is followed, and a block that cannot be
decoded is handed out although it has been freed -/
def blockstoreGet (cid : Option Cid) (files : Files) : Exec (Option Block) := do
  let cid ← deref cid
  match ← hashToBase32 cid.hash with
  | none => .error .null
  | some key =>
    match files key with
    | none => .ok none
    | some content => do
      -- `os_utils_file_size` is an `int`
      let fileSize := toInt32 content.length
      require .overflow (0 ≤ fileSize)
      match ← blocksBlockProtobufDecode (content.take fileSize.toNat) with
      | none => .error .freed
      | some block => .ok (some { block with cid := some cid })

theorem cidToBase32_some (cid : Cid) : cidToBase32 (some cid) = hashToBase32 cid.hash := by
  unfold cidToBase32
  rw [deref_some, ok_bind]

section
variable {hash : List UInt8}

theorem hashToBase32_eq (h5 : 5 ≤ hash.length) (h : hash.length ≤ ptrdiffMax)
    (hsize : cryptoEncodingBase32EncodeSize hash.length < ptrdiffMax) :
    hashToBase32 hash = .ok (some ((base32Chars hash).take ((hash.length - 5) / 5 * 8 + 1))) := by
  unfold hashToBase32
  simp only
  rw [if_neg (by omega), dsKeyFromBinary_eq (Nat.le_refl _), encodeSize_of_le h5 h]

theorem hashToBase32_short (h : hash.length < 5) : hashToBase32 hash = .ok none := by
  have := ptrdiffMax_lt_encodeSize h
  unfold hashToBase32
  simp only
  rw [if_pos (by omega)]

end

/-! ### what is read -/

section
variable {hash key content buffer : List UInt8} {files : Files} {block : Block}

/-- a file is read up to its length, taken as an `int` -/
theorem blockstoreRead_eq_ok (hkey : hashToBase32 hash = .ok (some key))
    (hfile : files key = some content) : blockstoreRead hash files = .ok buffer ↔
      0 ≤ toInt32 content.length ∧ buffer = content.take (toInt32 content.length).toNat := by
  unfold blockstoreRead
  rw [hkey, ok_bind]
  simp only
  rw [hfile, deref_some, ok_bind, require_bind_eq_ok]
  refine and_congr_right fun _ => ?_
  rw [Except.ok.injEq]
  exact eq_comm

theorem blockstoreRead_of_lt (hkey : hashToBase32 hash = .ok (some key))
    (hfile : files key = some content) (h : content.length < 2 ^ 31) :
    blockstoreRead hash files = .ok content := by
  refine (blockstoreRead_eq_ok hkey hfile).2 ?_
  rw [toInt32_natCast_of_lt h, Int.toNat_natCast, List.take_length]
  exact ⟨Int.natCast_nonneg _, rfl⟩

theorem blockstoreReadBlock_eq_ok (hkey : hashToBase32 hash = .ok (some key))
    (hfile : files key = some content) : blockstoreReadBlock hash files = .ok block ↔
      0 ≤ toInt32 content.length ∧
        blocksBlockProtobufDecode (content.take (toInt32 content.length).toNat) =
          .ok (some block) := by
  constructor
  · intro h
    obtain ⟨buffer, hbuffer, h⟩ := bind_eq_ok.1 h
    obtain ⟨hint, rfl⟩ := (blockstoreRead_eq_ok hkey hfile).1 hbuffer
    obtain ⟨r, hr, h⟩ := bind_eq_ok.1 h
    cases r with
    | none => cases h
    | some r =>
      cases h
      exact ⟨hint, hr⟩
  · intro ⟨hint, hdecode⟩
    refine bind_eq_ok.2 ⟨_, (blockstoreRead_eq_ok hkey hfile).2 ⟨hint, rfl⟩, ?_⟩
    exact bind_eq_ok.2 ⟨_, hdecode, rfl⟩

theorem blockstoreReadBlock_of_lt (hkey : hashToBase32 hash = .ok (some key))
    (hfile : files key = some content) (h : content.length < 2 ^ 31)
    (hdecode : blocksBlockProtobufDecode content = .ok (some block)) :
    blockstoreReadBlock hash files = .ok block := by
  refine (blockstoreReadBlock_eq_ok hkey hfile).2 ?_
  rw [toInt32_natCast_of_lt h, Int.toNat_natCast, List.take_length]
  exact ⟨Int.natCast_nonneg _, hdecode⟩

end

/-! ### what a put does -/

section
variable {opens : List UInt8 → Bool} {block : Block} {cid : Cid} {files files' : Files} {n : Nat}

/-- **a put** writes the encoding of the block into the file of its hash -/
theorem blockstorePut_eq_some :
    blockstorePut opens block files = .ok (some n, files') ↔
      ∃ key, cidToBase32 block.cid = .ok (some key) ∧
        blocksBlockProtobufEncode block (blocksBlockProtobufEncodeSize block) =
          .ok (blockBytes block) ∧
        opens key = true ∧ n = (blockBytes block).length ∧
        files' = Function.update files key (some (blockBytes block)) := by
  unfold blockstorePut
  refine ⟨fun h => ?_, fun h => ?_⟩
  · obtain ⟨key, hkey, h⟩ := bind_eq_ok.1 h
    cases key with
    | none => cases h
    | some key =>
      obtain ⟨protobuf, henc, h⟩ := bind_eq_ok.1 h
      obtain ⟨hopen, h⟩ := require_bind_eq_ok.1 h
      obtain ⟨rfl, -⟩ := blocksBlockProtobufEncode_ok henc
      cases h
      exact ⟨key, hkey, henc, hopen, rfl, rfl⟩
  · obtain ⟨key, hkey, henc, hopen, rfl, rfl⟩ := h
    rw [hkey, ok_bind]
    simp only [henc, ok_bind]
    rw [require_pos hopen, ok_bind]

/-- a record holds what fits of the name -/
theorem addBlockToDatastore_eq_true {datastore datastore' : Datastore}
    (h : addBlockToDatastore block datastore = .ok (true, datastore')) :
    ∃ cid, block.cid = some cid ∧ cryptoEncodingBase32EncodeSize cid.hash.length ≤ fsKeyLength ∧
      datastore' = Function.update datastore cid.hash
        (some ((base32Chars cid.hash).take fsKeyLength)) := by
  unfold addBlockToDatastore at h
  obtain ⟨cid, hcid, h⟩ := bind_eq_ok.1 h
  rw [deref_eq_ok] at hcid
  refine ⟨cid, hcid, ?_⟩
  by_cases hsize : cryptoEncodingBase32EncodeSize cid.hash.length ≤ fsKeyLength
  · rw [dsKeyFromBinary_eq hsize] at h
    cases h
    exact ⟨hsize, rfl⟩
  · rw [dsKeyFromBinary_eq_none (by omega)] at h
    cases h

theorem addBlockToDatastore_eq {datastore : Datastore} (hcid : block.cid = some cid)
    (hsize : cryptoEncodingBase32EncodeSize cid.hash.length ≤ fsKeyLength) :
    addBlockToDatastore block datastore = .ok (true, Function.update datastore cid.hash
      (some ((base32Chars cid.hash).take fsKeyLength))) := by
  unfold addBlockToDatastore
  rw [hcid, deref_some, ok_bind, dsKeyFromBinary_eq hsize]
  rfl

end

/-! ## the names of two hashes -/

section
variable {a b : List UInt8}

theorem base32Chars_take_one (x : UInt8) (rest : List UInt8) :
    (base32Chars (x :: rest)).take 1 = [b32str (x.toNat / 8 % 32)] := by
  match rest with
  | [] => rfl
  | [_] => rfl
  | [_, _] => rfl
  | [_, _, _] => rfl
  | _ :: _ :: _ :: _ :: _ => rfl

/-- the bits of a hash that its name shows: 25 bytes and five bits -/
def nameBits (hash : List UInt8) : List UInt8 × Nat := (hash.take 25, (hash.getD 25 0).toNat / 8)

/-- the name of a hash of 32 bytes: 41 characters -/
theorem hashToBase32_of_length (h : a.length = 32) :
    hashToBase32 a =
      .ok (some (base32Chars (a.take 25) ++ [b32str ((a.getD 25 0).toNat / 8)])) := by
  have hsize : cryptoEncodingBase32EncodeSize 32 = 41 := by decide
  have hmax : 41 < ptrdiffMax := by norm_num [ptrdiffMax]
  have h25 : (a.take 25).length = 25 := by
    rw [List.length_take, h]
    rfl
  rw [hashToBase32_eq (by omega) (by omega) (by rw [h, hsize]; exact hmax), h]
  have happ := base32Chars_append (by rw [h25] : (a.take 25).length % 5 = 0) (a.drop 25)
  rw [List.take_append_drop] at happ
  have hlen : (base32Chars (a.take 25)).length = 40 := by rw [base32Chars_length, h25]; rfl
  have hdrop : a.drop 25 = a.getD 25 0 :: a.drop 26 := by
    have hlt : 25 < a.length := by omega
    rw [List.drop_eq_getElem_cons hlt, List.getD_eq_getElem?_getD, List.getElem?_eq_getElem hlt,
      Option.getD_some]
  have hmod : (a.getD 25 0).toNat / 8 % 32 = (a.getD 25 0).toNat / 8 := by
    have := (a.getD 25 0).toNat_lt
    omega
  rw [happ, List.take_append, List.take_of_length_le (by omega), hlen, hdrop]
  show Except.ok (some (_ ++ (base32Chars _).take 1)) = _
  rw [base32Chars_take_one, hmod]

/-- **two hashes of one name** agree in the bits that the name shows -/
theorem hashToBase32_eq_iff (ha : a.length = 32) (hb : b.length = 32) :
    hashToBase32 a = hashToBase32 b ↔ nameBits a = nameBits b := by
  rw [hashToBase32_of_length ha, hashToBase32_of_length hb, Except.ok.injEq, Option.some.injEq,
    nameBits, nameBits, Prod.mk.injEq]
  have hlen : (base32Chars (a.take 25)).length = (base32Chars (b.take 25)).length := by
    rw [base32Chars_length, base32Chars_length, List.length_take, List.length_take, ha, hb]
  have hlt : ∀ x : UInt8, x.toNat / 8 < 32 := fun x => by
    have := x.toNat_lt
    omega
  refine ⟨fun h => ?_, fun h => by rw [h.1, h.2]⟩
  obtain ⟨hchars, hbits⟩ := List.append_inj h hlen
  exact ⟨base32Chars_inj hchars, b32str_inj (hlt _) (hlt _) (List.head_eq_of_cons_eq hbits)⟩

end

/-! ## the name in the datastore -/

/-- when a block is put and recorded, the record holds the name of its file -/
def RecordsFileName (block : Block) : Prop :=
  ∀ opens files files' n datastore datastore',
    blockstorePut opens block files = .ok (some n, files') →
    addBlockToDatastore block datastore = .ok (true, datastore') →
    ∃ cid name, block.cid = some cid ∧ cidToBase32 block.cid = .ok (some name) ∧
      files' name = some (blockBytes block) ∧ datastore' cid.hash = some name

/-- **the record holds the name of the file** only where there is no file or no record -/
theorem recordsFileName_iff {block : Block} {cid : Cid} (hcid : block.cid = some cid)
    (hmax : cid.hash.length ≤ ptrdiffMax) :
    RecordsFileName block ↔
      (5 ≤ cid.hash.length → cid.hash.length ≤ 69 →
        ¬ Safe (blocksBlockProtobufEncode block (blocksBlockProtobufEncodeSize block))) := by
  have hname : cidToBase32 block.cid = hashToBase32 cid.hash := by
    rw [hcid]
    exact cidToBase32_some cid
  refine ⟨fun h h5 h69 hsafe => ?_, fun h opens files files' n datastore datastore' hput hadd => ?_⟩
  · obtain ⟨out, henc⟩ := hsafe
    obtain ⟨rfl, -⟩ := blocksBlockProtobufEncode_ok henc
    have hsize := encodeSize_of_le h5 hmax
    have hbig : 100 < ptrdiffMax := by norm_num [ptrdiffMax]
    have hkey := hashToBase32_eq h5 hmax (by omega)
    have hput : blockstorePut (fun _ => true) block (fun _ => none) = _ :=
      blockstorePut_eq_some.2 ⟨_, hname.trans hkey, henc, rfl, rfl, rfl⟩
    have hadd : addBlockToDatastore block (fun _ => none) = _ :=
      addBlockToDatastore_eq hcid (by unfold fsKeyLength; omega)
    obtain ⟨cid', name, hcid', hname', -, hrec⟩ := h _ _ _ _ _ _ hput hadd
    obtain rfl := Option.some.inj (hcid.symm.trans hcid')
    rw [hname, hkey] at hname'
    obtain rfl := Option.some.inj (Except.ok.inj hname')
    rw [Function.update_self] at hrec
    -- the two buffers cut the encoding off at different lengths
    have hlen := congrArg List.length (Option.some.inj hrec)
    rw [List.length_take, List.length_take, base32Chars_length] at hlen
    unfold fsKeyLength base32Length at hlen
    omega
  · obtain ⟨key, hkey, henc, -⟩ := blockstorePut_eq_some.1 hput
    obtain ⟨cid', hcid', hsize, -⟩ := addBlockToDatastore_eq_true hadd
    obtain rfl := Option.some.inj (hcid.symm.trans hcid')
    exfalso
    by_cases h5 : 5 ≤ cid.hash.length
    · rw [encodeSize_of_le h5 hmax] at hsize
      exact h h5 (by unfold fsKeyLength at hsize; omega) ⟨_, henc⟩
    · rw [hname, hashToBase32_short (by omega)] at hkey
      cases hkey

/-- **what becomes of the names**: two hashes of 32 bytes share one iff they agree in their first
205 bits; a hash comes back from its key iff the key's buffer takes the whole encoding; and the
record of a block never holds the name of its file -/
theorem blockNames_iff (a b binaryArray : List UInt8) (room : Nat) (block : Block) (cid : Cid) :
    (a.length = 32 → b.length = 32 →
      (hashToBase32 a = hashToBase32 b ↔ nameBits a = nameBits b)) ∧
    (RoundTrips binaryArray room ↔
      (cryptoEncodingBase32EncodeSize binaryArray.length ≤ room →
        base32Length binaryArray.length ≤ room)) ∧
    (block.cid = some cid → cid.hash.length ≤ ptrdiffMax →
      (RecordsFileName block ↔
        (5 ≤ cid.hash.length → cid.hash.length ≤ 69 →
          ¬ Safe (blocksBlockProtobufEncode block (blocksBlockProtobufEncodeSize block))))) :=
  ⟨fun ha hb => hashToBase32_eq_iff ha hb, roundTrips_iff,
    fun hcid hmax => recordsFileName_iff hcid hmax⟩

/-- two hashes that differ in the last byte -/
theorem not_names_distinct : ¬ ∀ a b : List UInt8, a.length = 32 → b.length = 32 → a ≠ b →
    hashToBase32 a ≠ hashToBase32 b := by
  intro h
  have h0 : (List.replicate 32 (0 : UInt8)).length = 32 := rfl
  have h1 : (List.replicate 31 (0 : UInt8) ++ [1]).length = 32 := rfl
  exact h _ _ h0 h1 (by decide) ((hashToBase32_eq_iff h0 h1).2 (by decide))

end Ipfs
