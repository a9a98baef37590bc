import Libipfs.Merkledag.Node
import Libipfs.Protobuf.Large
import Mathlib.Data.List.ReduceOption
import Mathlib.Data.List.TakeWhile
import Mathlib.Algebra.Order.BigOperators.Group.List

/-!
# The round trip of a node

* `HashtableNode.RoundTrips`   a node is encoded into a buffer of the size computed for it, and
                     comes back with its data and its links;
* `HashtableNode.Convertible`  the nodes whose varints fit their buffers, taken as an `int`, and
                     whose names are shorter than 2^31 - 1;
* `nodeRoundTrips_iff`   **a node comes back iff it is one of those**;
* `convertible_of_lt`          as it is whenever the computed size is an `int`.
-/

namespace Ipfs
open CSem Libp2p

/-- equal, where no name is as good as an empty one -/
structure SameLink (link link' : NodeLink) : Prop where
  hash : link.hash = link'.hash
  name : link.name.getD [] = link'.name.getD []
  tSize : link.tSize = link'.tSize

def HashtableNode.RoundTrips (node : HashtableNode) : Prop :=
  ∃ bytes decoded,
    hashtableNodeProtobufEncode node (hashtableNodeProtobufEncodeSize node) = .ok bytes ∧
    hashtableNodeProtobufDecode bytes = .ok (some decoded) ∧
    decoded.data = node.data ∧ List.Forall₂ SameLink decoded.links node.links

/-- a link that the protobuf format has room for: a hash of 1 to 127 bytes, a C string as name -/
structure NodeLink.Storable (link : NodeLink) : Prop where
  hash_pos : 0 < link.hash.length
  hash_le : link.hash.length ≤ 127
  name : ∀ name, link.name = some name → 0 ∉ name

/-- the link is written into the buffer made for it, and read from the one its field is copied to -/
structure NodeLink.Convertible (link : NodeLink) : Prop where
  writable : Writable (linkItems link) (nodeLinkProtobufEncodeSize link)
  readable : Readable (linkItems link)
  name : link.encodedName.length + 1 < 2 ^ 31

structure HashtableNode.Convertible (node : HashtableNode) : Prop where
  links : ∀ link ∈ node.links, link.Convertible
  writable : Writable (nodeItems node) (hashtableNodeProtobufEncodeSize node)
  readable : Readable (nodeItems node)

section
variable {node : HashtableNode} {link l : NodeLink}

/-! ## links -/

/-- what is written of the name is all of it when the name is a C string -/
theorem encodedName_eq_iff : link.encodedName = link.name.getD [] ↔
    ∀ name, link.name = some name → 0 ∉ name := by
  unfold NodeLink.encodedName cString
  cases hn : link.name with
  | none => exact ⟨fun _ name h => (nomatch h), fun _ => rfl⟩
  | some name =>
    rw [Option.getD_some, List.takeWhile_eq_self_iff]
    constructor
    · intro h name' hname h0
      obtain rfl := Option.some.inj hname
      exact of_decide_eq_true (h 0 h0) rfl
    · intro h b hb
      refine decide_eq_true fun h0 => ?_
      exact h name rfl (h0 ▸ hb)

theorem NodeLink.Storable.encodedName (h : link.Storable) :
    link.encodedName = link.name.getD [] := encodedName_eq_iff.2 h.name

theorem sameLink_decoded_iff : SameLink link.decoded link ↔
    ∀ name, link.name = some name → 0 ∉ name := by
  have hname : link.decoded.name.getD [] = link.encodedName := by
    unfold NodeLink.decoded
    simp only
    split
    · next he => rw [he, Option.getD_none]
    · rfl
  rw [← encodedName_eq_iff]
  constructor
  · intro h
    rw [← hname, h.name]
  · intro h
    exact ⟨rfl, hname.trans h, rfl⟩

theorem NodeLink.Storable.sameLink (h : link.Storable) : SameLink link.decoded link :=
  sameLink_decoded_iff.2 h.name

/-- **a link is encoded** iff its hash is short and it is writable -/
theorem nodeLinkProtobufEncode_eq_ok {room : Nat} {out : List UInt8} (hroom : room < 2 ^ 64) :
    nodeLinkProtobufEncode link room = .ok out ↔
      link.hash.length ≤ 127 ∧ out = linkBytes link ∧ Writable (linkItems link) room := by
  unfold nodeLinkProtobufEncode
  rw [require_bind_eq_ok, encodeItems_eq_ok_of_lt (linkItems_wordSized link) hroom]
  rfl

/-- each value that is read leaves the name short enough -/
private theorem linkFields_name {remaining : Nat} {buf : List UInt8} {fieldNo m : Int}
    {store : NodeLink → Exec (Option NodeLink)} {link link' : NodeLink}
    (hread : (linkFields fieldNo).read remaining buf = .ok (some (m, store)))
    (hstore : store link = .ok (some link')) (h : (link.name.getD []).length + 1 < 2 ^ 31) :
    (link'.name.getD []).length + 1 < 2 ^ 31 := by
  unfold linkFields at hread
  split at hread
  · obtain ⟨y, -, hread⟩ := bind_eq_ok.1 hread
    cases y with
    | none => cases hread
    | some y =>
      cases hread
      simp only at hstore
      split at hstore
      · cases hstore
      · cases hstore
        exact h
  · obtain ⟨⟨text, m'⟩, hy, hread⟩ := bind_eq_ok.1 hread
    cases hread
    cases text with
    | none =>
      cases hstore
      exact h
    | some text =>
      cases hstore
      exact (protobufDecodeString_text hy).2
  · obtain ⟨⟨v, m'⟩, -, hread⟩ := bind_eq_ok.1 hread
    cases hread
    cases hstore
    exact h
  · cases hread
    cases hstore
    exact h

/-- a name that has been read is shorter than 2^31 - 1 -/
theorem nodeLinkProtobufDecode_name {buf : List UInt8}
    (h : nodeLinkProtobufDecode buf = .ok (some l)) : (l.name.getD []).length + 1 < 2 ^ 31 := by
  obtain ⟨pos, hreached, -⟩ := reached_of_decodeFields h
  have hstart : (({} : NodeLink).name.getD []).length + 1 < 2 ^ 31 := by decide
  refine Reached.invariant (I := fun link => (link.name.getD []).length + 1 < 2 ^ 31) hstart ?_
    hreached
  intro p p' store s s' hread hs hstore
  obtain ⟨tag, v, -, hv, hr⟩ := readItem_eq_ok.1 hread
  cases v with
  | none => cases hr
  | some x =>
    cases hr
    exact linkFields_name hv hstore hs

theorem nodeLinkProtobufDecode_of_readable (hlen : (linkBytes link).length ≤ ptrdiffMax)
    (hread : Readable (linkItems link)) (hname : link.encodedName.length + 1 < 2 ^ 31) :
    nodeLinkProtobufDecode (linkBytes link) = .ok (some link.decoded) := by
  have hitems : ∀ i ∈ linkItems link, i.WordSized ∧ i.Accepted linkFields :=
    fun i hi => ⟨linkItems_wordSized link i hi, linkItems_accepted hname i hi⟩
  exact (decodeFields_eq_some hitems hlen).2 ⟨hread, applyItems_linkItems link⟩

/-- **a link comes back** only if it is readable and its name short enough -/
theorem readable_of_nodeLinkProtobufDecode (h : link.Storable)
    (hlen : (linkBytes link).length ≤ ptrdiffMax)
    (hl : nodeLinkProtobufDecode (linkBytes link) = .ok (some l)) (hsame : SameLink l link) :
    Readable (linkItems link) ∧ link.encodedName.length + 1 < 2 ^ 31 := by
  have hname := nodeLinkProtobufDecode_name hl
  rw [hsame.name, ← h.encodedName] at hname
  have hitems : ∀ i ∈ linkItems link, i.WordSized ∧ i.Accepted linkFields :=
    fun i hi => ⟨linkItems_wordSized link i hi, linkItems_accepted hname i hi⟩
  exact ⟨((decodeFields_eq_some hitems hlen).1 hl).1, hname⟩

/-! ## nodes -/

theorem encodesItem_encodeLinkField (hlen : (linkBytes link).length < 2 ^ 64)
    (h : nodeLinkProtobufEncode link (nodeLinkProtobufEncodeSize link) = .ok (linkBytes link)) :
    EncodesItem (encodeLinkField link) (.bytes 2 .lengthDelimited (linkBytes link)) := by
  have hitem : EncodesItem _ (.bytes 2 .lengthDelimited (linkBytes link)) :=
    Item.encodesItem (show (2 : Nat) < 16 by norm_num) hlen
  intro room out
  unfold encodeLinkField
  rw [h, ok_bind]
  exact hitem room out

/-- the encoder of a node, when its links can be encoded -/
theorem hashtableNodeProtobufEncode_eq_ok {room : Nat} {out : List UInt8}
    (hdata : node.data.length < 2 ^ 64)
    (hlen : ∀ link ∈ node.links, (linkBytes link).length < 2 ^ 64)
    (h : ∀ link ∈ node.links, nodeLinkProtobufEncode link (nodeLinkProtobufEncodeSize link) =
      .ok (linkBytes link)) :
    hashtableNodeProtobufEncode node room = .ok out ↔
      out = nodeBytes node ∧ Writable (nodeItems node) room := by
  have hitem : EncodesItem _ (.bytes 1 .lengthDelimited node.data) :=
    Item.encodesItem (show (1 : Nat) < 16 by norm_num) hdata
  exact encodeAll_eq_ok (forall₂_node
    (fun link hl => encodesItem_encodeLinkField (hlen link hl) (h link hl)) hitem)

/-- what comes of the links: those whose decoder succeeds are kept, in their order -/
theorem applyItems_links_eq {links : List NodeLink} {decoded : HashtableNode}
    (h : applyItems nodeFields (links.map fun link => .bytes 2 .lengthDelimited (linkBytes link))
      node = .ok (some decoded)) :
    ∃ results, List.Forall₂ (fun link r => nodeLinkProtobufDecode (linkBytes link) = .ok r)
        links results ∧
      decoded = { node with links := node.links ++ results.reduceOption } := by
  induction links generalizing node with
  | nil =>
    cases h
    refine ⟨[], .nil, ?_⟩
    rw [List.reduceOption_nil, List.append_nil]
  | cons link links ih =>
    rw [List.map_cons, applyItems_cons] at h
    obtain ⟨x, hx, h⟩ := bind_eq_ok.1 h
    obtain ⟨r, hr, hx⟩ := bind_eq_ok.1 hx
    cases r with
    | none =>
      cases hx
      obtain ⟨results, hresults, he⟩ := ih h
      refine ⟨none :: results, .cons hr hresults, ?_⟩
      rw [List.reduceOption_cons_of_none]
      exact he
    | some l =>
      cases hx
      obtain ⟨results, hresults, he⟩ := ih h
      refine ⟨some l :: results, .cons hr hresults, ?_⟩
      rw [List.reduceOption_cons_of_some, he]
      simp [HashtableNode.addLink]

theorem nodeLinkProtobufEncodeSize_le (h : link ∈ node.links) :
    nodeLinkProtobufEncodeSize link ≤ hashtableNodeProtobufEncodeSize node := by
  have hmem : 11 + nodeLinkProtobufEncodeSize link ∈
      node.links.map fun link => 11 + nodeLinkProtobufEncodeSize link :=
    List.mem_map.2 ⟨link, h, rfl⟩
  have hle := List.le_sum_of_mem hmem
  unfold hashtableNodeProtobufEncodeSize
  omega

theorem nodeBytes_ne_nil (h : node.data ≠ [] ∨ node.links ≠ []) : (nodeBytes node).length ≠ 0 := by
  have hle := itemsBytes_length_le (nodeItems node)
  have hpos : 0 < (nodeItems node).length := by
    unfold nodeItems
    rw [List.length_append, List.length_map]
    rcases h with h | h
    · have hdata : 0 < node.data.length := List.length_pos_iff.2 h
      rw [if_pos hdata, List.length_singleton]
      omega
    · have hlinks : 0 < node.links.length := List.length_pos_iff.2 h
      omega
  have hbytes : nodeBytes node = itemsBytes (nodeItems node) := rfl
  rw [hbytes]
  omega

/-- the decoder of a node that is encoded as something -/
theorem hashtableNodeProtobufDecode_eq_some {decoded : HashtableNode}
    (h0 : (nodeBytes node).length ≠ 0) (hlen : (nodeBytes node).length ≤ ptrdiffMax) :
    hashtableNodeProtobufDecode (nodeBytes node) = .ok (some decoded) ↔
      Readable (nodeItems node) ∧ applyItems nodeFields (nodeItems node) {} = .ok (some decoded) := by
  have hitems : ∀ i ∈ nodeItems node, i.WordSized ∧ i.Accepted nodeFields :=
    fun i hi => ⟨nodeItems_wordSized node i hi, nodeItems_accepted node i hi⟩
  unfold hashtableNodeProtobufDecode
  rw [if_neg h0]
  exact decodeFields_eq_some hitems hlen

theorem applyItems_nodeItems
    (h : ∀ link ∈ node.links, nodeLinkProtobufDecode (linkBytes link) = .ok (some link.decoded)) :
    applyItems nodeFields (nodeItems node) {} = .ok (some node.decoded) := by
  unfold nodeItems
  rw [applyItems_append_of (applyItems_links h)]
  exact applyItems_data node _

/-- what is encoded as something, in less than 2 GiB, is read back -/
theorem hashtableNodeProtobufDecode_nodeBytes (h0 : (nodeBytes node).length ≠ 0)
    (hlen : (nodeBytes node).length < 2 ^ 31) :
    hashtableNodeProtobufDecode (nodeBytes node) = .ok (some node.decoded) := by
  have hint := le_ptrdiffMax_of_lt hlen
  refine (hashtableNodeProtobufDecode_eq_some h0 hint).2
    ⟨readable_of_lt hlen, applyItems_nodeItems fun link hl => ?_⟩
  have hlink := linkBytes_length_le_nodeBytes hl
  have hname := encodedName_length_le link
  exact nodeLinkProtobufDecode_of_readable (by omega)
    (readable_of_lt (show (linkBytes link).length < 2 ^ 31 by omega)) (by omega)

/-- two lists related both ways, place by place -/
private theorem exists_of_forall₂ {α β : Type} {R : α → β → Prop} {S : β → α → Prop}
    {as : List α} {bs : List β} (hR : List.Forall₂ R as bs) (hS : List.Forall₂ S bs as) :
    ∀ a ∈ as, ∃ b, R a b ∧ S b a := by
  induction hR with
  | nil =>
    intro a ha
    cases ha
  | @cons a b as bs hab hR ih =>
    obtain ⟨hba, hS⟩ := List.forall₂_cons.1 hS
    intro a' ha'
    rcases List.mem_cons.1 ha' with rfl | ha'
    · exact ⟨b, hab, hba⟩
    · exact ih hS a' ha'

private theorem eq_map_some_reduceOption {α : Type} {xs : List (Option α)}
    (h : ∀ x ∈ xs, Option.isSome x) : xs = xs.reduceOption.map some := by
  induction xs with
  | nil => rfl
  | cons x xs ih =>
    obtain ⟨a, rfl⟩ := Option.isSome_iff_exists.1 (h x List.mem_cons_self)
    rw [List.reduceOption_cons_of_some, List.map_cons,
      ← ih fun y hy => h y (List.mem_cons_of_mem _ hy)]

/-- the links that came back with the node -/
theorem links_of_applyItems {decoded : HashtableNode}
    (h : applyItems nodeFields (nodeItems node) {} = .ok (some decoded))
    (hlinks : List.Forall₂ SameLink decoded.links node.links) :
    ∀ link ∈ node.links, ∃ l, nodeLinkProtobufDecode (linkBytes link) = .ok (some l) ∧
      SameLink l link := by
  unfold nodeItems at h
  rw [applyItems_append] at h
  obtain ⟨x, hx, h⟩ := bind_eq_ok.1 h
  cases x with
  | none => cases h
  | some s =>
    obtain ⟨results, hresults, rfl⟩ := applyItems_links_eq hx
    have hdecoded := Option.some.inj (Except.ok.inj (h.symm.trans (applyItems_data node _)))
    have hd : decoded.links = results.reduceOption := by
      rw [hdecoded]
      rfl
    rw [hd] at hlinks
    have hlen : results.reduceOption.length = results.length :=
      hlinks.length_eq.trans hresults.length_eq
    have hsome : results = results.reduceOption.map some :=
      eq_map_some_reduceOption (List.reduceOption_length_eq_iff.1 hlen)
    rw [hsome, List.forall₂_map_right_iff] at hresults
    exact exists_of_forall₂ hresults hlinks

/-- nothing that is encoded is larger than its buffer, and that is an object -/
structure HashtableNode.Sized (node : HashtableNode) : Prop where
  data : node.data.length < 2 ^ 64
  bytes : (nodeBytes node).length ≤ ptrdiffMax
  links : ∀ link ∈ node.links, (linkBytes link).length ≤ ptrdiffMax
  buffers : ∀ link ∈ node.links, nodeLinkProtobufEncodeSize link < 2 ^ 64

theorem sized_of_le (hstorable : ∀ link ∈ node.links, link.Storable)
    (hsize : hashtableNodeProtobufEncodeSize node ≤ ptrdiffMax) : node.Sized := by
  have hpd : ptrdiffMax < 2 ^ 64 := ptrdiffMax_lt
  have hfits : ∀ link ∈ node.links, (linkBytes link).length ≤ nodeLinkProtobufEncodeSize link :=
    fun link hl => linkBytes_length_le (hstorable link hl).hash_le (.inl (hstorable link hl).hash_pos)
  have hlen : (nodeBytes node).length ≤ ptrdiffMax := le_trans (nodeBytes_length_le hfits) hsize
  refine ⟨?_, hlen, fun link hl => le_trans (linkBytes_length_le_nodeBytes hl) hlen,
    fun link hl => lt_of_le_of_lt (le_trans (nodeLinkProtobufEncodeSize_le hl) hsize) hpd⟩
  unfold hashtableNodeProtobufEncodeSize at hsize
  split at hsize <;> omega

/-- the encoder of a node, when the encoders of its links succeed -/
theorem HashtableNode.Sized.encode_eq_ok (hsized : node.Sized) {out : List UInt8}
    (h : ∀ link ∈ node.links, nodeLinkProtobufEncode link (nodeLinkProtobufEncodeSize link) =
      .ok (linkBytes link)) :
    hashtableNodeProtobufEncode node (hashtableNodeProtobufEncodeSize node) = .ok out ↔
      out = nodeBytes node ∧ Writable (nodeItems node) (hashtableNodeProtobufEncodeSize node) :=
  hashtableNodeProtobufEncode_eq_ok hsized.data
    (fun link hl => lt_of_le_of_lt (hsized.links link hl) ptrdiffMax_lt) h

theorem HashtableNode.Convertible.encode (hconv : node.Convertible)
    (hstorable : ∀ link ∈ node.links, link.Storable)
    (hsize : hashtableNodeProtobufEncodeSize node ≤ ptrdiffMax) :
    hashtableNodeProtobufEncode node (hashtableNodeProtobufEncodeSize node) =
      .ok (nodeBytes node) := by
  have hsized := sized_of_le hstorable hsize
  exact (hsized.encode_eq_ok fun link hl => (nodeLinkProtobufEncode_eq_ok (hsized.buffers link hl)).2
    ⟨(hstorable link hl).hash_le, rfl, (hconv.links link hl).writable⟩).2 ⟨rfl, hconv.writable⟩

/-- **the round trip** of a node in a buffer of the size computed for it -/
theorem nodeRoundTrips_iff (hsome : node.data ≠ [] ∨ node.links ≠ [])
    (hstorable : ∀ link ∈ node.links, link.Storable)
    (hsize : hashtableNodeProtobufEncodeSize node ≤ ptrdiffMax) :
    node.RoundTrips ↔ node.Convertible := by
  have hsized := sized_of_le hstorable hsize
  have h0 := nodeBytes_ne_nil hsome
  constructor
  · rintro ⟨bytes, decoded, henc, hdec, -, hsame⟩
    have hencLink : ∀ link ∈ node.links,
        nodeLinkProtobufEncode link (nodeLinkProtobufEncodeSize link) = .ok (linkBytes link) := by
      intro link hl
      obtain ⟨room, out, hfield⟩ :=
        encodeAll_ok_of_mem henc (List.mem_append_left _ (List.mem_map_of_mem hl))
      obtain ⟨temp, htemp, -⟩ := bind_eq_ok.1 hfield
      rw [htemp, (nodeLinkProtobufEncode_ok htemp).1]
    obtain ⟨rfl, hwritable⟩ := (hsized.encode_eq_ok hencLink).1 henc
    obtain ⟨hread, happly⟩ := (hashtableNodeProtobufDecode_eq_some h0 hsized.bytes).1 hdec
    refine ⟨fun link hl => ?_, hwritable, hread⟩
    obtain ⟨l, hdecl, hsamel⟩ := links_of_applyItems happly hsame link hl
    obtain ⟨hreadl, hnamel⟩ :=
      readable_of_nodeLinkProtobufDecode (hstorable link hl) (hsized.links link hl) hdecl hsamel
    have hwrite := (nodeLinkProtobufEncode_eq_ok (hsized.buffers link hl)).1 (hencLink link hl)
    exact ⟨hwrite.2.2, hreadl, hnamel⟩
  · intro hconv
    have happly := applyItems_nodeItems fun link hl => nodeLinkProtobufDecode_of_readable
      (hsized.links link hl) (hconv.links link hl).readable (hconv.links link hl).name
    refine ⟨nodeBytes node, node.decoded, hconv.encode hstorable hsize,
      (hashtableNodeProtobufDecode_eq_some h0 hsized.bytes).2 ⟨hconv.readable, happly⟩, rfl, ?_⟩
    show List.Forall₂ SameLink (node.links.map NodeLink.decoded) node.links
    rw [List.forall₂_map_left_iff]
    exact List.forall₂_same.2 fun link hl => (hstorable link hl).sameLink

/-- a node that is encoded, and as no more than an `int` can count, comes back iff it is not empty
and the names in it are C strings -/
theorem nodeRoundTrips_iff_of_lt
    (hencode : Safe (hashtableNodeProtobufEncode node (hashtableNodeProtobufEncodeSize node)))
    (hlt : (nodeBytes node).length < 2 ^ 31) :
    node.RoundTrips ↔ (node.data ≠ [] ∨ node.links ≠ []) ∧
      ∀ link ∈ node.links, ∀ name, link.name = some name → 0 ∉ name := by
  obtain ⟨out, hencode⟩ := hencode
  obtain ⟨rfl, -⟩ := hashtableNodeProtobufEncode_ok hencode
  have hlinks : List.Forall₂ SameLink node.decoded.links node.links ↔
      ∀ link ∈ node.links, ∀ name, link.name = some name → 0 ∉ name := by
    show List.Forall₂ SameLink (node.links.map NodeLink.decoded) node.links ↔ _
    rw [List.forall₂_map_left_iff, List.forall₂_same]
    exact forall₂_congr fun link _ => sameLink_decoded_iff
  rw [← hlinks]
  constructor
  · rintro ⟨bytes, decoded, hbytes, hdecoded, -, hsame⟩
    rw [hencode] at hbytes
    cases hbytes
    by_cases hsome : node.data ≠ [] ∨ node.links ≠ []
    · rw [hashtableNodeProtobufDecode_nodeBytes (nodeBytes_ne_nil hsome) hlt] at hdecoded
      cases hdecoded
      exact ⟨hsome, hsame⟩
    · -- nothing is encoded as nothing, and the decoder refuses it
      obtain ⟨hdata, hnone⟩ := not_or.1 hsome
      have hnil : nodeBytes node = [] := by
        unfold nodeBytes nodeItems
        rw [not_not.1 hdata, not_not.1 hnone]
        rfl
      rw [hnil] at hdecoded
      cases hdecoded
  · intro ⟨hsome, hsame⟩
    exact ⟨_, _, hencode, hashtableNodeProtobufDecode_nodeBytes (nodeBytes_ne_nil hsome) hlt, rfl,
      hsame⟩

/-- in particular when the computed size is an `int` -/
theorem convertible_of_lt (hstorable : ∀ link ∈ node.links, link.Storable)
    (hsize : hashtableNodeProtobufEncodeSize node < 2 ^ 31) : node.Convertible := by
  have hfits : ∀ link ∈ node.links, (linkBytes link).length ≤ nodeLinkProtobufEncodeSize link :=
    fun link hl => linkBytes_length_le (hstorable link hl).hash_le (.inl (hstorable link hl).hash_pos)
  have hlen : (nodeBytes node).length ≤ hashtableNodeProtobufEncodeSize node :=
    nodeBytes_length_le hfits
  refine ⟨fun link hl => ?_, ?_, ?_⟩
  · have hlink := nodeLinkProtobufEncodeSize_le hl
    have hle := hfits link hl
    have hname := encodedName_length_le link
    refine ⟨?_, ?_, by omega⟩
    · exact writable_of_lt (linkItems_wordSized link) hle (by omega)
    · exact readable_of_lt (show (linkBytes link).length < 2 ^ 31 by omega)
  · exact writable_of_lt (nodeItems_wordSized node) hlen hsize
  · exact readable_of_lt (show (nodeBytes node).length < 2 ^ 31 by omega)

end

/-- a node with a byte of data and one link -/
def oneLinkNode : HashtableNode where
  data := [1]
  links := [{ hash := [7], name := some [97], tSize := 3 }]

theorem oneLinkNode_storable : ∀ link ∈ oneLinkNode.links, link.Storable := by
  intro link hl
  obtain rfl := List.mem_singleton.1 hl
  refine ⟨by decide, by decide, ?_⟩
  intro name hname
  obtain rfl := Option.some.inj hname
  decide

theorem nodeRoundTrips_oneLinkNode : oneLinkNode.RoundTrips := by
  have hsize : hashtableNodeProtobufEncodeSize oneLinkNode = 69 := by decide
  have hint : hashtableNodeProtobufEncodeSize oneLinkNode < 2 ^ 31 := by
    rw [hsize]
    norm_num
  have hobject : hashtableNodeProtobufEncodeSize oneLinkNode ≤ ptrdiffMax := by
    rw [hsize]
    norm_num [ptrdiffMax]
  exact (nodeRoundTrips_iff (by decide) oneLinkNode_storable hobject).2
    (convertible_of_lt oneLinkNode_storable hint)

/-- 2 GiB of data: the length takes five bytes, and the room for them is negative as an `int` -/
theorem not_nodeRoundTrips_of_length {node : HashtableNode} (hlinks : node.links = [])
    (hdata : node.data.length = 2 ^ 31) : ¬ node.RoundTrips := by
  rintro ⟨bytes, decoded, henc, -⟩
  have hpos : 0 < node.data.length := by
    rw [hdata]
    norm_num
  have hnone : ∀ link, link ∉ node.links := by
    intro link hl
    rw [hlinks] at hl
    cases hl
  have hsize : hashtableNodeProtobufEncodeSize node = 2 ^ 31 + 11 := by
    unfold hashtableNodeProtobufEncodeSize
    rw [hlinks, if_pos hpos, hdata, List.map_nil, List.sum_nil]
    norm_num
  have hitems : nodeItems node = [.bytes 1 .lengthDelimited node.data] := by
    unfold nodeItems
    rw [hlinks, if_pos hpos]
    rfl
  obtain ⟨-, hwritable⟩ := (hashtableNodeProtobufEncode_eq_ok (by rw [hdata]; norm_num)
    (fun link hl => absurd hl (hnone link)) (fun link hl => absurd hl (hnone link))).1 henc
  rw [hitems, hsize] at hwritable
  exact Item.not_writableIn (by omega) (by norm_num) (by norm_num) hwritable.1

theorem not_nodeRoundTrips : ¬ ∀ node : HashtableNode, node.data ≠ [] ∨ node.links ≠ [] →
    (∀ link ∈ node.links, link.Storable) → hashtableNodeProtobufEncodeSize node ≤ ptrdiffMax →
    node.RoundTrips := by
  intro hall
  have hlength : ∀ n : Nat, (List.replicate n (0 : UInt8)).length = n := fun _ =>
    List.length_replicate
  have hlarge : ∀ data : List UInt8, data.length = 2 ^ 31 → False := by
    intro data hdata
    have hne : data ≠ [] := by
      intro h
      rw [h, List.length_nil] at hdata
      norm_num at hdata
    have hpos : 0 < data.length := by
      rw [hdata]
      norm_num
    have hsize : hashtableNodeProtobufEncodeSize { data := data } ≤ ptrdiffMax := by
      unfold hashtableNodeProtobufEncodeSize
      simp only [List.map_nil, List.sum_nil, if_pos hpos]
      rw [hdata]
      norm_num [ptrdiffMax]
    exact not_nodeRoundTrips_of_length rfl hdata
      (hall { data := data } (.inl hne) (fun link hl => absurd hl List.not_mem_nil) hsize)
  exact hlarge (List.replicate (2 ^ 31) 0) (hlength (2 ^ 31))

end Ipfs
