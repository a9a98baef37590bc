import Libipfs.Protobuf.FieldLoop

/-!
# Nodes of the merkle DAG and their links

A node has data and a list of links; a link has the hash of another node, a name and a size.
Both are encoded by protobuf, the links first.  A link that cannot be decoded is left out of
the node.

* `hashtableNodeProtobufEncode`, `hashtableNodeProtobufDecode`   the codec;
* `hashtableNodeProtobufEncode_ok`   what the encoder writes, and that it has the room;
* `nodeBytes_length_le`   the size function is an upper bound.
-/

namespace Ipfs
open CSem Libp2p

/-- `name` is a C string, or null -/
structure NodeLink where
  hash : List UInt8 := []
  name : Option (List UInt8) := none
  tSize : UInt64 := 0
  deriving DecidableEq, Repr

/-- `hash` is not saved in the protobuf -/
structure HashtableNode where
  data : List UInt8 := []
  links : List NodeLink := []
  hash : Option (List UInt8) := none
  deriving DecidableEq, Repr

/-- `ipfs_hashtable_node_set_hash`: an empty hash leaves the node without one -/
def HashtableNode.setHash (node : HashtableNode) (hash : List UInt8) : HashtableNode :=
  { node with hash := if hash = [] then none else some hash }

def HashtableNode.setData (node : HashtableNode) (data : List UInt8) : HashtableNode :=
  { node with data := data }

def HashtableNode.addLink (node : HashtableNode) (link : NodeLink) : HashtableNode :=
  { node with links := node.links ++ [link] }

/-! ## links -/

/-- the name as it is encoded: none is the empty one -/
def NodeLink.encodedName (link : NodeLink) : List UInt8 := cString (link.name.getD [])

def nodeLinkProtobufEncodeSize (link : NodeLink) : Nat :=
  (if 0 < link.hash.length then 11 + link.hash.length else 0) +
    (if 0 < link.encodedName.length then 11 + link.encodedName.length else 0) +
    (if 0 < link.tSize.toNat then 22 else 0)

/-- `mh_new`: the code of SHA-256, the length of the digest and the digest -/
def mhBytes (digest : List UInt8) : List UInt8 := 0x12 :: UInt8.ofNat digest.length :: digest

def linkItems (link : NodeLink) : List Item :=
  (if 0 < link.hash.length then [.bytes 1 .lengthDelimited (mhBytes link.hash)] else []) ++
    [.bytes 2 .lengthDelimited link.encodedName] ++
    (if 0 < link.tSize.toNat then [.varint 3 .varint link.tSize.toNat] else [])

/-- `mh_new` refuses a digest of more than 127 bytes; its result is not looked at and the buffer
it should have filled is encoded -/
def nodeLinkProtobufEncode (link : NodeLink) (room : Nat) : Exec (List UInt8) := do
  require .uninitialized (link.hash.length ≤ 127)
  encodeItems (linkItems link) room

def linkBytes (link : NodeLink) : List UInt8 := itemsBytes (linkItems link)

theorem linkItems_wordSized (link : NodeLink) : ∀ i ∈ linkItems link, i.WordSized := by
  intro i hi
  have ht := link.tSize.toNat_lt
  simp only [linkItems, List.mem_append, List.mem_singleton] at hi
  rcases hi with (hi | rfl) | hi
  · split at hi
    · rw [List.mem_singleton.1 hi]
      exact (by norm_num : (1 : Nat) < 16)
    · cases hi
  · exact (by norm_num : (2 : Nat) < 16)
  · split at hi
    · rw [List.mem_singleton.1 hi]
      exact ⟨by norm_num, ht⟩
    · cases hi

theorem nodeLinkProtobufEncode_ok {link : NodeLink} {room : Nat} {out : List UInt8}
    (h : nodeLinkProtobufEncode link room = .ok out) :
    out = linkBytes link ∧ (linkBytes link).length ≤ room :=
  (writes_encodeItems (linkItems_wordSized link)).exact _ _ (require_bind_eq_ok.1 h).2

/-- a link that names something fits the size computed for it -/
theorem linkBytes_length_le {link : NodeLink} (h : link.hash.length ≤ 127)
    (h0 : 0 < link.hash.length ∨ 0 < link.encodedName.length ∨ 0 < link.tSize.toNat) :
    (linkBytes link).length ≤ nodeLinkProtobufEncodeSize link := by
  have h1 : (bytesField 1 .lengthDelimited (mhBytes link.hash)).length ≤ 6 + link.hash.length := by
    have hm : (mhBytes link.hash).length = link.hash.length + 2 := rfl
    have hv : (varintBytes (link.hash.length + 2)).length ≤ 2 := by
      rw [varintBytes, varintBytesFrom_succ, varintBytesFrom_succ]
      split
      · simp
      · rw [if_pos (by omega)]
        simp
    rw [bytesField_length 1 _ _ (by norm_num), hm]
    omega
  have h2 := bytesField_length_le 2 .lengthDelimited link.encodedName (by norm_num)
  have h2' : link.encodedName.length = 0 →
      (bytesField 2 .lengthDelimited link.encodedName).length = 2 := by
    intro e
    rw [List.eq_nil_of_length_eq_zero e]
    rfl
  have h3 := varintField_length_le_eleven 3 .varint link.tSize.toNat (by norm_num)
  simp only [linkBytes, linkItems, itemsBytes_append, List.length_append,
    nodeLinkProtobufEncodeSize, itemsBytes_cons, itemsBytes_nil, Item.enc_bytes, List.length_nil]
  have e1 : (itemsBytes (if 0 < link.hash.length then
      [Item.bytes 1 .lengthDelimited (mhBytes link.hash)] else [])).length ≤
        if 0 < link.hash.length then 6 + link.hash.length else 0 := by
    split
    · simpa [Item.enc_bytes] using h1
    · simp
  have e3 : (itemsBytes (if 0 < link.tSize.toNat then
      [Item.varint 3 .varint link.tSize.toNat] else [])).length ≤
        if 0 < link.tSize.toNat then 11 else 0 := by
    split
    · simpa [Item.enc_varint] using h3
    · simp
  split_ifs at e1 e3 ⊢ <;> omega

def linkFields (fieldNo : Int) : FieldCase NodeLink :=
  match fieldNo with
  | 1 => .bytes fun d link =>
    if d.length < 2 then .ok none else .ok (some { link with hash := d.drop 2 })
  | 2 => .string fun text link =>
    .ok (some { link with name := match text with | none => link.name | some name => some name })
  | 3 => .varint fun v link => .ok (some { link with tSize := UInt64.ofNat v })
  | _ => .skip

/-- `none` when the decoder returns 0 -/
def nodeLinkProtobufDecode (buf : List UInt8) : Exec (Option NodeLink) :=
  decodeFields linkFields buf {}

/-- the link as its encoding is read back: an empty name is none -/
def NodeLink.decoded (link : NodeLink) : NodeLink :=
  { link with name := if link.encodedName = [] then none else some link.encodedName }

theorem cString_cString (t : List UInt8) : cString (cString t) = cString t := by
  unfold cString
  induction t with
  | nil => rfl
  | cons b t ih =>
    by_cases hb : b = 0
    · simp [hb]
    · simp [hb] at ih ⊢
      exact ih

theorem applyItems_linkItems (link : NodeLink) :
    applyItems linkFields (linkItems link) {} = .ok (some link.decoded) := by
  have hhash : applyItems linkFields (if 0 < link.hash.length then
      [Item.bytes 1 .lengthDelimited (mhBytes link.hash)] else []) {} =
        .ok (some { hash := link.hash }) := by
    split
    · show (if (mhBytes link.hash).length < 2 then (.ok none : Exec (Option NodeLink))
        else .ok (some { hash := (mhBytes link.hash).drop 2 })) >>= _ = _
      rw [if_neg (by simp [mhBytes])]
      rfl
    · rw [List.eq_nil_of_length_eq_zero (show link.hash.length = 0 by omega)]
      rfl
  have hname : applyItems linkFields [Item.bytes 2 .lengthDelimited link.encodedName]
      { hash := link.hash } =
        .ok (some { hash := link.hash, name := link.decoded.name }) := by
    by_cases h : link.encodedName = []
    · simp [applyItems, Item.store, Item.no, linkFields, NodeLink.decoded, h]
    · have hc : cString link.encodedName = link.encodedName := cString_cString _
      simp [applyItems, Item.store, Item.no, linkFields, NodeLink.decoded, h, hc]
  have hsize : applyItems linkFields (if 0 < link.tSize.toNat then
      [Item.varint 3 .varint link.tSize.toNat] else [])
      { hash := link.hash, name := link.decoded.name } = .ok (some link.decoded) := by
    have ht : UInt64.ofNat link.tSize.toNat = link.tSize := UInt64.ofNat_toNat
    split
    · show Except.ok (some { link.decoded with tSize := UInt64.ofNat link.tSize.toNat }) = _
      rw [ht]
      rfl
    · have h0 : link.tSize = 0 := by
        rw [← ht, show link.tSize.toNat = 0 by omega]
        rfl
      show Except.ok (some { link.decoded with tSize := 0 }) = _
      rw [← h0]
      rfl
  unfold linkItems
  rw [List.append_assoc, applyItems_append_of hhash, applyItems_append_of hname, hsize]

theorem linkItems_accepted {link : NodeLink} (h : link.encodedName.length + 1 < 2 ^ 31) :
    ∀ i ∈ linkItems link, i.Accepted linkFields := by
  intro i hi
  simp only [linkItems, List.mem_append, List.mem_singleton] at hi
  rcases hi with (hi | rfl) | hi
  · split at hi
    · rw [List.mem_singleton.1 hi]
      exact trivial
    · cases hi
  · exact h
  · split at hi
    · rw [List.mem_singleton.1 hi]
      exact trivial
    · cases hi

theorem encodedName_length_le (link : NodeLink) :
    link.encodedName.length + 1 ≤ (linkBytes link).length := by
  have h := bytesField_length 2 .lengthDelimited link.encodedName (by norm_num)
  simp only [linkBytes, linkItems, itemsBytes_append, List.length_append, itemsBytes_cons,
    itemsBytes_nil, Item.enc_bytes, List.length_nil]
  omega

/-! ## nodes -/

def hashtableNodeProtobufEncodeSize (node : HashtableNode) : Nat :=
  (node.links.map fun link => 11 + nodeLinkProtobufEncodeSize link).sum +
    (if 0 < node.data.length then 11 + node.data.length else 0)

/-- a link, encoded into a buffer of its own, as a field of the node -/
def encodeLinkField (link : NodeLink) (room : Nat) : Exec (List UInt8) := do
  let temp ← nodeLinkProtobufEncode link (nodeLinkProtobufEncodeSize link)
  protobufEncodeLengthDelimited 2 .lengthDelimited temp room

def hashtableNodeProtobufEncode (node : HashtableNode) (room : Nat) : Exec (List UInt8) :=
  encodeAll (node.links.map encodeLinkField ++
    if 0 < node.data.length then [protobufEncodeLengthDelimited 1 .lengthDelimited node.data]
    else []) room

def nodeItems (node : HashtableNode) : List Item :=
  node.links.map (fun link => .bytes 2 .lengthDelimited (linkBytes link)) ++
    if 0 < node.data.length then [.bytes 1 .lengthDelimited node.data] else []

def nodeBytes (node : HashtableNode) : List UInt8 := itemsBytes (nodeItems node)

def nodeFields (fieldNo : Int) : FieldCase HashtableNode :=
  match fieldNo with
  | 1 => .bytes fun d node => .ok (some { node with data := d })
  | 2 => .bytes fun d node => do
    match ← nodeLinkProtobufDecode d with
    | none => .ok (some node)
    | some link => .ok (some (node.addLink link))
  | _ => .skip

/-- `none` when the decoder returns 0, as it does for an empty buffer -/
def hashtableNodeProtobufDecode (buf : List UInt8) : Exec (Option HashtableNode) :=
  if buf.length = 0 then .ok none else decodeFields nodeFields buf {}

theorem encodeLinkField_ok {link : NodeLink} {room : Nat} {out : List UInt8}
    (h : encodeLinkField link room = .ok out) :
    out = bytesField 2 .lengthDelimited (linkBytes link) ∧
      (bytesField 2 .lengthDelimited (linkBytes link)).length ≤ room := by
  obtain ⟨temp, ht, h⟩ := bind_eq_ok.1 h
  obtain ⟨rfl, -⟩ := nodeLinkProtobufEncode_ok ht
  exact (Writes.protobufEncodeLengthDelimited (by norm_num)).exact _ _ h

theorem nodeItems_wordSized (node : HashtableNode) : ∀ i ∈ nodeItems node, i.WordSized := by
  intro i hi
  simp only [nodeItems, List.mem_append, List.mem_map] at hi
  rcases hi with ⟨link, -, rfl⟩ | hi
  · exact (by norm_num : (2 : Nat) < 16)
  · split at hi
    · rw [List.mem_singleton.1 hi]
      exact (by norm_num : (1 : Nat) < 16)
    · cases hi

theorem nodeItems_accepted (node : HashtableNode) : ∀ i ∈ nodeItems node, i.Accepted nodeFields := by
  intro i hi
  simp only [nodeItems, List.mem_append, List.mem_map] at hi
  rcases hi with ⟨link, -, rfl⟩ | hi
  · exact trivial
  · split at hi
    · rw [List.mem_singleton.1 hi]
      exact trivial
    · cases hi

theorem nodeBytes_eq (node : HashtableNode) :
    nodeBytes node = (node.links.map (fun link => bytesField 2 .lengthDelimited (linkBytes link)) ++
      if 0 < node.data.length then [bytesField 1 .lengthDelimited node.data] else []).flatten := by
  rw [nodeBytes, itemsBytes_eq_flatten, nodeItems, List.map_append, List.map_map]
  congr 2
  split <;> rfl

/-- the calls that encode a node, beside what they encode -/
theorem forall₂_node {β : Type} {R : (Nat → Exec (List UInt8)) → β → Prop} {node : HashtableNode}
    {ofLink : NodeLink → β} {ofData : β}
    (hl : ∀ link ∈ node.links, R (encodeLinkField link) (ofLink link))
    (hd : R (protobufEncodeLengthDelimited 1 .lengthDelimited node.data) ofData) :
    List.Forall₂ R
      (node.links.map encodeLinkField ++ if 0 < node.data.length then
        [protobufEncodeLengthDelimited 1 .lengthDelimited node.data] else [])
      (node.links.map ofLink ++ if 0 < node.data.length then [ofData] else []) := by
  refine List.rel_append (forall₂_map hl) ?_
  split
  · exact .cons hd .nil
  · exact .nil

theorem hashtableNodeProtobufEncode_ok {node : HashtableNode} {room : Nat} {out : List UInt8}
    (h : hashtableNodeProtobufEncode node room = .ok out) :
    out = nodeBytes node ∧ (nodeBytes node).length ≤ room := by
  rw [nodeBytes_eq]
  exact WritesOnly.encodeAll (forall₂_node (fun link _ room out => encodeLinkField_ok)
    (Writes.protobufEncodeLengthDelimited (by norm_num)).exact) room out h

/-- the size function is an upper bound, with what the links leave of theirs to spare -/
theorem nodeBytes_length_add_le {node : HashtableNode} {k : Nat}
    (h : ∀ link ∈ node.links, (linkBytes link).length + k ≤ nodeLinkProtobufEncodeSize link) :
    (nodeBytes node).length + k * node.links.length ≤ hashtableNodeProtobufEncodeSize node := by
  have hl (links : List NodeLink)
      (h : ∀ link ∈ links, (linkBytes link).length + k ≤ nodeLinkProtobufEncodeSize link) :
      (links.map (fun link => bytesField 2 .lengthDelimited (linkBytes link))).flatten.length +
        k * links.length ≤ (links.map fun link => 11 + nodeLinkProtobufEncodeSize link).sum := by
    induction links with
    | nil => exact Nat.le_refl 0
    | cons link links ih =>
      have h1 := ih fun l hl => h l (List.mem_cons_of_mem _ hl)
      have h2 := h link List.mem_cons_self
      have h3 := bytesField_length_le 2 .lengthDelimited (linkBytes link) (by norm_num)
      simp only [List.map_cons, List.flatten_cons, List.length_append, List.sum_cons,
        List.length_cons, Nat.mul_add, Nat.mul_one]
      omega
  have hd := bytesField_length_le 1 .lengthDelimited node.data (by norm_num)
  have hl := hl node.links h
  rw [nodeBytes_eq, List.flatten_append, List.length_append, hashtableNodeProtobufEncodeSize]
  split
  · simp only [List.flatten_cons, List.flatten_nil, List.append_nil]
    omega
  · simp only [List.flatten_nil, List.length_nil]
    omega

theorem nodeBytes_length_le {node : HashtableNode}
    (h : ∀ link ∈ node.links, (linkBytes link).length ≤ nodeLinkProtobufEncodeSize link) :
    (nodeBytes node).length ≤ hashtableNodeProtobufEncodeSize node := by
  have hk := nodeBytes_length_add_le (show ∀ link ∈ node.links, (linkBytes link).length + 0 ≤ _
    from h)
  omega

/-- the node as its encoding is read back: without its hash -/
def HashtableNode.decoded (node : HashtableNode) : HashtableNode :=
  { data := node.data, links := node.links.map NodeLink.decoded }

theorem applyItems_data (node : HashtableNode) (links : List NodeLink) :
    applyItems nodeFields
      (if 0 < node.data.length then [Item.bytes 1 .lengthDelimited node.data] else [])
      { links := links } = .ok (some { data := node.data, links := links }) := by
  split
  · rfl
  · rw [List.eq_nil_of_length_eq_zero (show node.data.length = 0 by omega)]
    rfl

theorem applyItems_links {links : List NodeLink} {node : HashtableNode}
    (h : ∀ link ∈ links, nodeLinkProtobufDecode (linkBytes link) = .ok (some link.decoded)) :
    applyItems nodeFields (links.map fun link => .bytes 2 .lengthDelimited (linkBytes link)) node =
      .ok (some { node with links := node.links ++ links.map NodeLink.decoded }) := by
  induction links generalizing node with
  | nil => simp
  | cons link links ih =>
    have hs : (Item.bytes 2 .lengthDelimited (linkBytes link)).store nodeFields node =
        .ok (some (node.addLink link.decoded)) := by
      show (nodeLinkProtobufDecode (linkBytes link) >>= _) = _
      rw [h link List.mem_cons_self]
      rfl
    rw [List.map_cons, applyItems_cons, hs, ok_bind]
    simp only
    rw [ih fun l hl => h l (List.mem_cons_of_mem _ hl)]
    simp [HashtableNode.addLink]

theorem linkBytes_length_le_nodeBytes {node : HashtableNode} {link : NodeLink}
    (h : link ∈ node.links) : (linkBytes link).length ≤ (nodeBytes node).length := by
  have hmem : Item.bytes 2 .lengthDelimited (linkBytes link) ∈ nodeItems node :=
    List.mem_append_left _ (List.mem_map.2 ⟨link, h, rfl⟩)
  exact length_le_itemsBytes hmem

end Ipfs
