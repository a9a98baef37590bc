import Libipfs.Lib.Run
import Libipfs.Bitswap.Network

/-!
# The integrity of the store

A block is stored under the hash in its CID, whatever that hash is: `merkledagAdd` believes the
hash that a node has cached, and an incoming message the CIDs of the blocks it carries.

* `Intact`           what is stored, and what is attached to the want list, has the hash in its CID;
* `Honest`           the additions and messages that are believed rightly;
* `intact_of_step`   each of them keeps the store intact;
* `holdsReached_intact`   and so does a run of them.
-/

set_option linter.unusedVariables false

namespace Ipfs
open CSem Libp2p

inductive StoreOp where
  | add (node : HashtableNode)
  | message (remotePeerId : Option (List UInt8)) (bytes : List UInt8)

section
variable (sha256 : List UInt8 → List UInt8) (opens : List UInt8 → Bool) (junk : UInt8)

def storeStep (op : StoreOp) (node : BitswapNode) : Exec BitswapNode :=
  match op with
  | .add added => do
    let (_, _, repo) ← merkledagAdd sha256 opens added node.repo
    .ok { node with repo := repo }
  | .message remotePeerId bytes => do
    let (_, node) ← bitswapNetworkHandleMessage opens junk remotePeerId bytes node
    .ok node

/-- every file is a block, of the CID that the file is named after, whose data has the hash in the
CID -/
def IntactFiles (files : Files) : Prop :=
  ∀ key content, files key = some content → ∃ block cid, block.cid = some cid ∧
    content = blockBytes block ∧ hashToBase32 cid.hash = .ok (some key) ∧
    sha256 block.data = cid.hash

/-- every block that is attached to an entry has the hash in the CID of the entry -/
def IntactEntries (items : List (Option WantListQueueEntry)) : Prop :=
  ∀ e, some e ∈ items → ∀ block, e.block = some block →
    ∃ cid, e.cid = some cid ∧ sha256 block.data = cid.hash

structure Intact (node : BitswapNode) : Prop where
  files : IntactFiles sha256 node.repo.files
  wantlist : IntactEntries sha256 node.localWantlist.entries

/-- the CID of the entry that `findEntryOf` finds -/
def wantedCid (cid : Option Cid) : List (Option WantListQueueEntry) → Option Cid
  | [] => none
  | none :: _ => none
  | some entry :: items => if cidCompare cid entry.cid = 0 then entry.cid else wantedCid cid items

/-- a block that has the hash in its CID, if that is long enough for a file name, and the one in
the CID of the entry that it is attached to, if there is one -/
def HonestBlock (items : List (Option WantListQueueEntry)) (block : Block) : Prop :=
  (∀ cid, block.cid = some cid → 5 ≤ cid.hash.length → sha256 block.data = cid.hash) ∧
    ∀ cid, wantedCid block.cid items = some cid → sha256 block.data = cid.hash

/-- a node that has no hash cached, or its own, or one too short for a file name; a message whose
blocks are honest -/
def Honest (op : StoreOp) (node : BitswapNode) : Prop :=
  match op with
  | .add added =>
    ∀ hash, added.hash = some hash → 5 ≤ hash.length → hash = sha256 (nodeBytes added)
  | .message _ bytes => ∀ rest message, stripHeader bytes = .ok (some rest) →
    bitswapMessageProtobufDecode rest = .ok (some (some message)) →
      ∀ block ∈ message.payload.getD [], HonestBlock sha256 node.localWantlist.entries block

end

/-! ## files -/

section
variable {sha256 : List UInt8 → List UInt8} {opens : List UInt8 → Bool} {junk : UInt8}
  {block : Block} {files files' : Files}

/-- a put changes the file of the block, if any -/
theorem blockstorePut_files {r : Option Nat} (h : blockstorePut opens block files = .ok (r, files')) :
    files' = files ∨ ∃ key, cidToBase32 block.cid = .ok (some key) ∧
      files' = Function.update files key (some (blockBytes block)) := by
  cases r with
  | some n =>
    obtain ⟨key, hkey, -, -, -, hfiles⟩ := blockstorePut_eq_some.1 h
    exact .inr ⟨key, hkey, hfiles⟩
  | none =>
    obtain ⟨key, hkey, h⟩ := bind_eq_ok.1 h
    cases key with
    | none =>
      cases h
      exact .inl rfl
    | some key =>
      obtain ⟨protobuf, -, h⟩ := bind_eq_ok.1 h
      obtain ⟨-, h⟩ := require_bind_eq_ok.1 h
      cases h

/-- **an honest block** may be put -/
theorem IntactFiles.put (hfiles : IntactFiles sha256 files) {r : Option Nat}
    (hput : blockstorePut opens block files = .ok (r, files'))
    (hblock : ∀ cid, block.cid = some cid → 5 ≤ cid.hash.length → sha256 block.data = cid.hash) :
    IntactFiles sha256 files' := by
  rcases blockstorePut_files hput with rfl | ⟨key, hkey, rfl⟩
  · exact hfiles
  · obtain ⟨cid, hcid, hname⟩ := bind_eq_ok.1 hkey
    rw [deref_eq_ok] at hcid
    have h5 : 5 ≤ cid.hash.length := by
      by_contra hshort
      rw [hashToBase32_short (by omega)] at hname
      cases hname
    intro name content hcontent
    by_cases heq : name = key
    · subst heq
      rw [Function.update_self] at hcontent
      exact ⟨block, cid, hcid, (Option.some.inj hcontent).symm, hname, hblock cid hcid h5⟩
    · rw [Function.update_of_ne heq] at hcontent
      exact hfiles name content hcontent

theorem fsrepoBlockWrite_files {repo repo' : Repo} {r : Option Nat}
    (h : fsrepoBlockWrite opens block repo = .ok (r, repo')) :
    ∃ n, blockstorePut opens block repo.files = .ok (n, repo'.files) := by
  obtain ⟨⟨n, files⟩, hput, h⟩ := bind_eq_ok.1 h
  refine ⟨n, hput.trans ?_⟩
  cases n with
  | none =>
    cases h
    rfl
  | some n =>
    obtain ⟨⟨recorded, datastore⟩, -, h⟩ := bind_eq_ok.1 h
    cases recorded with
    | false =>
      cases h
      rfl
    | true =>
      cases h
      rfl

/-- what an addition puts: the encoding of the node, under its cached hash or its own -/
theorem merkledagAdd_files {node node' : HashtableNode} {repo repo' : Repo} {r : Option Nat}
    (h : merkledagAdd sha256 opens node repo = .ok (r, node', repo')) :
    ∃ n, blockstorePut opens
      { cid := some (cidNew 1 (node.hash.getD (sha256 (nodeBytes node))) 0x70)
        data := nodeBytes node } repo.files = .ok (n, repo'.files) := by
  obtain ⟨hashed, hhash, h⟩ := bind_eq_ok.1 h
  obtain ⟨block, hblock, h⟩ := bind_eq_ok.1 h
  obtain ⟨⟨n, written⟩, hwrite, h⟩ := bind_eq_ok.1 h
  cases h
  have hhashed : node' = { node with hash := some (node.hash.getD (sha256 (nodeBytes node))) } := by
    obtain ⟨data, links, hash⟩ := node
    unfold merkledagHash at hhash
    cases hash with
    | some hash =>
      cases hhash
      rfl
    | none =>
      obtain ⟨protobuf, henc, hhash⟩ := bind_eq_ok.1 hhash
      obtain ⟨rfl, -⟩ := hashtableNodeProtobufEncode_ok henc
      cases hhash
      rfl
  subst hhashed
  obtain ⟨data, hdata, hblock⟩ := bind_eq_ok.1 hblock
  obtain ⟨rfl, -⟩ := hashtableNodeProtobufEncode_ok hdata
  cases hblock
  exact fsrepoBlockWrite_files hwrite

/-! ## the want list -/

variable {items : List (Option WantListQueueEntry)} {cid : Option Cid}

theorem wantedCid_of_findEntryOf {i : Nat} (h : findEntryOf cid items = some i) :
    ∃ e, items[i]? = some (some e) ∧ cidCompare cid e.cid = 0 ∧
      wantedCid cid items = e.cid := by
  induction items generalizing i with
  | nil => cases h
  | cons entry items ih =>
    cases entry with
    | none => cases h
    | some e =>
      rw [findEntryOf] at h
      rw [wantedCid]
      by_cases heq : cidCompare cid e.cid = 0
      · rw [if_pos heq] at h ⊢
        cases h
        exact ⟨e, rfl, heq, rfl⟩
      · rw [if_neg heq] at h ⊢
        obtain ⟨j, hj, rfl⟩ := Option.map_eq_some_iff.1 h
        exact ih hj

/-- writing to an entry leaves the CIDs that are found -/
theorem wantedCid_updateEntry {f : WantListQueueEntry → WantListQueueEntry}
    (hf : ∀ e, (f e).cid = e.cid) (i : Nat) :
    wantedCid cid (updateEntry items i f) = wantedCid cid items := by
  unfold updateEntry
  induction items generalizing i with
  | nil => simp [wantedCid]
  | cons entry items ih =>
    cases i with
    | zero =>
      cases entry with
      | none => rfl
      | some e =>
        show wantedCid cid (some (f e) :: items) = _
        rw [wantedCid, wantedCid, hf]
    | succ i =>
      cases entry with
      | none => rfl
      | some e =>
        rw [List.modify_succ_cons, wantedCid, wantedCid, ih]

theorem wantedCid_attachBlock : wantedCid cid (attachBlock block items) = wantedCid cid items := by
  unfold attachBlock
  split
  · rfl
  · have hf : ∀ e : WantListQueueEntry, ({ e with block := some block }).cid = e.cid :=
      fun _ => rfl
    exact wantedCid_updateEntry hf _

theorem mem_updateEntry {f : WantListQueueEntry → WantListQueueEntry} {i : Nat}
    {e : WantListQueueEntry} (h : some e ∈ updateEntry items i f) :
    some e ∈ items ∨ ∃ found, items[i]? = some (some found) ∧ e = f found := by
  obtain ⟨j, hj⟩ := List.mem_iff_getElem?.1 h
  unfold updateEntry at hj
  by_cases hij : i = j
  · subst hij
    rw [List.getElem?_modify_eq] at hj
    obtain ⟨slot, hslot, hmap⟩ := Option.map_eq_some_iff.1 hj
    obtain ⟨found, rfl, he⟩ := Option.map_eq_some_iff.1 hmap
    exact .inr ⟨found, hslot, he.symm⟩
  · rw [List.getElem?_modify_ne _ _ hij] at hj
    exact .inl (List.mem_of_getElem? hj)

/-- **an honest block** may be attached -/
theorem IntactEntries.attach (h : IntactEntries sha256 items)
    (hblock : HonestBlock sha256 items block) (hcid : block.cid.isSome) :
    IntactEntries sha256 (attachBlock block items) := by
  unfold attachBlock
  cases hfind : findEntryOf block.cid items with
  | none => exact h
  | some i =>
    obtain ⟨found, hfound, hcompare, hwanted⟩ := wantedCid_of_findEntryOf hfind
    intro e he kept hkept
    rcases mem_updateEntry he with he | ⟨found', hfound', rfl⟩
    · exact h e he kept hkept
    · rw [hfound] at hfound'
      cases hfound'
      cases hkept
      obtain ⟨cid, hcid⟩ := Option.isSome_iff_exists.1 hcid
      rw [hcid] at hcompare
      cases hfoundCid : found.cid with
      | none =>
        rw [hfoundCid] at hcompare
        cases hcompare
      | some c =>
        rw [hfoundCid] at hwanted
        exact ⟨c, rfl, hblock.2 c hwanted⟩

/-! ## steps and runs -/

variable {node node' : BitswapNode}

theorem intact_of_bitswapHasBlock (h : Intact sha256 node)
    (hblock : HonestBlock sha256 node.localWantlist.entries block) (hcid : block.cid.isSome)
    (hstep : bitswapHasBlock opens block node = .ok node') :
    Intact sha256 node' ∧ ∀ cid, wantedCid cid node'.localWantlist.entries =
      wantedCid cid node.localWantlist.entries := by
  obtain ⟨r, files, recorded, datastore, items, hput, -, hitems, rfl⟩ :=
    bitswapHasBlock_eq_ok.1 hstep
  have hentries : node.localWantlist.entries = items := by
    rw [WantListQueue.entries, hitems]
    rfl
  rw [hentries] at hblock
  have hwant := h.wantlist
  rw [hentries] at hwant ⊢
  exact ⟨⟨h.files.put hput hblock.1, hwant.attach hblock hcid⟩, fun cid => wantedCid_attachBlock⟩

theorem intact_of_hasBlocks {payload : List Block} (h : Intact sha256 node)
    (hblocks : ∀ block ∈ payload, HonestBlock sha256 node.localWantlist.entries block)
    (hstep : hasBlocks opens payload node = .ok node') : Intact sha256 node' := by
  induction payload generalizing node with
  | nil =>
    cases hstep
    exact h
  | cons blk payload ih =>
    obtain ⟨block, hcopy, hstep⟩ := bind_eq_ok.1 hstep
    obtain ⟨heq, hcid⟩ := blockCopy_eq_ok.1 hcopy
    obtain rfl := Option.some.inj heq
    obtain ⟨next, hnext, hstep⟩ := bind_eq_ok.1 hstep
    obtain ⟨hintact, hsame⟩ :=
      intact_of_bitswapHasBlock h (hblocks blk List.mem_cons_self) hcid hnext
    refine ih hintact (fun block hb => ?_) hstep
    obtain ⟨h1, h2⟩ := hblocks block (List.mem_cons_of_mem _ hb)
    exact ⟨h1, fun cid hc => h2 cid (hsame _ ▸ hc)⟩

/-- the wants of a message leave the store and the want list -/
theorem handleWanted_same {remotePeerId : Option (List UInt8)} {message : BitswapMessage} {r : Bool}
    (h : handleWanted junk remotePeerId message node = .ok (r, node')) :
    node'.repo = node.repo ∧ node'.localWantlist = node.localWantlist := by
  unfold handleWanted at h
  cases remotePeerId with
  | none =>
    obtain ⟨-, -, h⟩ := bind_eq_ok.1 h
    cases h
    exact ⟨rfl, rfl⟩
  | some id =>
    obtain ⟨found, -, h⟩ := bind_eq_ok.1 h
    cases found with
    | none =>
      obtain ⟨-, -, h⟩ := bind_eq_ok.1 h
      cases h
      exact ⟨rfl, rfl⟩
    | some peer =>
      obtain ⟨⟨entry, queue⟩, -, h⟩ := bind_eq_ok.1 h
      obtain ⟨n, -, h⟩ := bind_eq_ok.1 h
      obtain ⟨⟨result, cids⟩, -, h⟩ := bind_eq_ok.1 h
      obtain ⟨-, -, h⟩ := bind_eq_ok.1 h
      cases h
      exact ⟨rfl, rfl⟩

/-- **one operation** -/
theorem intact_of_step {op : StoreOp} (h : Intact sha256 node) (hop : Honest sha256 op node)
    (hstep : storeStep sha256 opens junk op node = .ok node') : Intact sha256 node' := by
  cases op with
  | add added =>
    obtain ⟨⟨r, hashed, repo⟩, hadd, hstep⟩ := bind_eq_ok.1 hstep
    cases hstep
    obtain ⟨n, hput⟩ := merkledagAdd_files hadd
    refine ⟨h.files.put hput ?_, h.wantlist⟩
    intro cid hcid h5
    cases hcid
    cases hhash : added.hash with
    | none => rfl
    | some hash =>
      rw [hhash] at h5
      exact (hop hash hhash h5).symm
  | message remotePeerId bytes =>
    obtain ⟨⟨r, handled⟩, hhandle, hstep⟩ := bind_eq_ok.1 hstep
    cases hstep
    obtain ⟨rest, hrest, hhandle⟩ := bind_eq_ok.1 hhandle
    cases rest with
    | none =>
      cases hhandle
      exact h
    | some rest =>
      obtain ⟨found, hfound, hhandle⟩ := bind_eq_ok.1 hhandle
      cases found with
      | none =>
        cases hhandle
        exact h
      | some found =>
        obtain ⟨message, hmessage, hdecoded⟩ := bind_eq_ok.1 hhandle
        obtain rfl := deref_eq_ok.1 hmessage
        obtain ⟨next, hnext, hrest'⟩ := bind_eq_ok.1 hdecoded
        have hintact := intact_of_hasBlocks h (hop rest message hrest hfound) hnext
        split at hrest'
        · obtain ⟨-, -, hfree⟩ := bind_eq_ok.1 hrest'
          cases hfree
          exact hintact
        · obtain ⟨hrepo, hwantlist⟩ := handleWanted_same hrest'
          exact ⟨hrepo ▸ hintact.files, hwantlist ▸ hintact.wantlist⟩

/-- **a run of honest additions and messages** keeps the store intact in every state it reaches -/
theorem holdsReached_intact {ops : List StoreOp} (h : Intact sha256 node)
    (hops : Guarded (storeStep sha256 opens junk) (Honest sha256) ops node) :
    HoldsReached (storeStep sha256 opens junk) (Intact sha256) ops node :=
  holdsReached_of_step (fun _ _ _ hs hop hstep => intact_of_step hs hop hstep) h hops

end

/-! ### one block -/

/-- the digest of the byte 1 -/
def digestOfByte : List UInt8 :=
  [75, 245, 18, 47, 52, 69, 84, 197, 59, 222, 46, 187, 140, 210, 183, 227, 209, 96, 10, 214, 49,
    195, 133, 165, 215, 204, 226, 60, 119, 133, 69, 154]

/-- the digest of the bytes 10, 1 and 1 of a node with the byte 1 -/
def digestOfNode : List UInt8 :=
  [226, 112, 239, 109, 48, 103, 58, 190, 122, 252, 168, 5, 118, 197, 27, 225, 48, 81, 111, 141, 209,
    50, 77, 127, 195, 111, 108, 16, 108, 94, 30, 186]

/-- what SHA-256 makes of the two -/
def digestOfOneByte (x : List UInt8) : List UInt8 := if x = [1] then digestOfByte else digestOfNode

def cidOf (hash : List UInt8) : Cid := cidNew 1 hash 0x70

/-- the CID of the block of the byte 1 -/
def byteCid : Cid := cidOf digestOfByte

/-- the CID of 32 ones, which is that of something else -/
def otherCid : Cid := cidOf (List.replicate 32 1)

/-- a message with one block: the byte 1 under a CID -/
def payloadMessage (cid : Cid) : List UInt8 :=
  bitswapProtocolHeader ++
    bytesField 2 .lengthDelimited (blockBytes { cid := some cid, data := [1] })

/-- a node that waits for a CID -/
def waitingNode (cid : Cid) : BitswapNode :=
  { bitswapNodeNew [] with localWantlist := { queue := some [some { cid := some cid }] } }

theorem intact_waitingNode (sha256 : List UInt8 → List UInt8) (cid : Cid) :
    Intact sha256 (waitingNode cid) where
  files key content h := by cases h
  wantlist e he block hblock := by
    have he : some e ∈ [some ({ cid := some cid } : WantListQueueEntry)] := he
    rw [List.mem_singleton, Option.some.injEq] at he
    rw [he] at hblock
    cases hblock

theorem stripHeader_payloadMessage :
    stripHeader (payloadMessage byteCid) = .ok (some ((payloadMessage byteCid).drop 20)) := by
  decide +kernel

theorem decode_payloadMessage :
    bitswapMessageProtobufDecode ((payloadMessage byteCid).drop 20) =
      .ok (some (some { payload := some [{ cid := some byteCid, data := [1] }] })) := by
  decide +kernel

theorem holdsReached_intact_one_block :
    HoldsReached (storeStep digestOfOneByte (fun _ => true) 0) (Intact digestOfOneByte)
      [.message none (payloadMessage byteCid), .add { data := [1] }] (waitingNode byteCid) := by
  refine holdsReached_intact (intact_waitingNode digestOfOneByte byteCid)
    ⟨?_, fun next _ => ⟨?_, fun _ _ => trivial⟩⟩
  · intro rest message hrest hmessage block hblock
    rw [stripHeader_payloadMessage, Except.ok.injEq, Option.some.injEq] at hrest
    subst hrest
    rw [decode_payloadMessage] at hmessage
    cases hmessage
    have hblock : block ∈ [({ cid := some byteCid, data := [1] } : Block)] := hblock
    rw [List.mem_singleton] at hblock
    subst hblock
    refine ⟨fun cid hcid _ => ?_, fun cid hcid => ?_⟩
    · cases hcid
      rfl
    · have hcid : some byteCid = some cid := hcid
      cases hcid
      rfl
  · intro hash hhash
    cases hhash

/-- a payload is believed: its block gets attached under a CID that is not its own -/
theorem not_intact_payload : ¬ HoldsReached (storeStep digestOfOneByte (fun _ => true) 0)
    (Intact digestOfOneByte) [.message none (payloadMessage otherCid)] (waitingNode otherCid) := by
  intro hreached
  have hrun : (runOps (storeStep digestOfOneByte (fun _ => true) 0)
      [.message none (payloadMessage otherCid)] (waitingNode otherCid)).map
        (fun node => node.localWantlist.entries) =
      .ok [some { cid := some otherCid, block := some { cid := some otherCid, data := [1] } }] := by
    decide +kernel
  cases hstate : runOps (storeStep digestOfOneByte (fun _ => true) 0)
      [.message none (payloadMessage otherCid)] (waitingNode otherCid) with
  | error e =>
    rw [hstate] at hrun
    cases hrun
  | ok node =>
    rw [hstate] at hrun
    have hentries : node.localWantlist.entries = _ := Except.ok.inj hrun
    have hwant := (hreached _ [] node (List.append_nil _).symm hstate).wantlist
    rw [hentries] at hwant
    obtain ⟨cid, hcid, hhash⟩ := hwant _ List.mem_cons_self _ rfl
    cases hcid
    exact absurd hhash (by decide)

/-- a node that was changed after its hash had been computed -/
def staleNode : HashtableNode := { data := [1], hash := some (List.replicate 32 1) }

/-- the name of the file of a block with 32 bytes of hash -/
def fileKey (cid : Cid) : List UInt8 :=
  base32Chars (cid.hash.take 25) ++ [b32str ((cid.hash.getD 25 0).toNat / 8)]

/-- a cached hash is believed: the changed node is stored under the hash it had before -/
theorem not_intact_stale : ¬ HoldsReached (storeStep digestOfOneByte (fun _ => true) 0)
    (Intact digestOfOneByte) [.add staleNode] (waitingNode otherCid) := by
  intro hreached
  have hrun : (runOps (storeStep digestOfOneByte (fun _ => true) 0) [.add staleNode]
      (waitingNode otherCid)).map (fun node => node.repo.files (fileKey otherCid)) =
        .ok (some (blockBytes { cid := some otherCid, data := nodeBytes staleNode })) := by
    decide +kernel
  cases hstate : runOps (storeStep digestOfOneByte (fun _ => true) 0) [.add staleNode]
      (waitingNode otherCid) with
  | error e =>
    rw [hstate] at hrun
    cases hrun
  | ok node =>
    rw [hstate] at hrun
    have hfiles := (hreached _ [] node (List.append_nil _).symm hstate).files
    obtain ⟨block, cid, hcid, hcontent, -, hhash⟩ := hfiles _ _ (Except.ok.inj hrun)
    -- the file says which block it is
    have hlen : (blockBytes { cid := some otherCid, data := nodeBytes staleNode }).length <
        2 ^ 31 := by decide +kernel
    have hdecode := blocksBlockProtobufDecode_blockBytes _ hlen
    rw [hcontent] at hlen hdecode
    rw [blocksBlockProtobufDecode_blockBytes block hlen, Except.ok.injEq,
      Option.some.injEq] at hdecode
    have hcids := congrArg Block.cid hdecode
    have hcids : block.cid.map Cid.decoded = some otherCid.decoded := hcids
    rw [hcid, Option.map_some, Option.some.injEq] at hcids
    have hhashes : cid.hash = List.replicate 32 1 := congrArg (fun c : Cid => c.hash) hcids
    rw [hhashes] at hhash
    unfold digestOfOneByte at hhash
    split_ifs at hhash <;> exact absurd hhash (by decide)

/-- **neither is checked**: not the blocks that a message brings, nor the hash that a node has -/
theorem not_holdsReached_intact : Intact digestOfOneByte (waitingNode otherCid) ∧
    ¬ HoldsReached (storeStep digestOfOneByte (fun _ => true) 0) (Intact digestOfOneByte)
      [.message none (payloadMessage otherCid)] (waitingNode otherCid) ∧
    ¬ HoldsReached (storeStep digestOfOneByte (fun _ => true) 0) (Intact digestOfOneByte)
      [.add staleNode] (waitingNode otherCid) :=
  ⟨intact_waitingNode digestOfOneByte otherCid, not_intact_payload, not_intact_stale⟩

end Ipfs
