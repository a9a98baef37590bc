import Libipfs.Lib.Linked
import Libipfs.Merkledag.Node

/-!
# The list of links of a node

The links of a `struct HashtableNode` are a singly linked list that starts at `head_link`; they are
taken out by their address or by their name, and looked up by their name.

* `nodeRemoveLink`, `hashtableNodeRemoveLinkByName`, `hashtableNodeGetLinkByName`   the functions;
* `RemovesFirst`      a call leaves the links without the first that matches, and none that has
                      been freed can be reached;
* `linkLists_iff`     **when they do so**: a link that is not the first is freed and stays linked;
                      the only link stays when its name is removed; a lookup compares with the names
                      of links that have none.
-/

namespace Ipfs
open CSem Libp2p

/-- the links, and `head_link` -/
structure LinkList where
  heap : Heap (Cell NodeLink)
  headLink : Option Nat

/-- whether `strcmp` returns 0 -/
def strcmpZero (a b : List UInt8) : Bool := cString a = cString b

/-- both are null, or neither and they are the same string -/
def sameName : Option (List UInt8) → Option (List UInt8) → Bool
  | none, none => true
  | some a, some b => strcmpZero a b
  | _, _ => false

/-! ## the functions -/

/-- in the middle and at the end the link behind the removed one is looked up, and not linked -/
def nodeRemoveLink (node : LinkList) (toRemove : Option Nat) : Exec (Nat × LinkList) := do
  match ← findWithPrevious node.heap (fun i _ => .ok (decide (some i = toRemove)))
      node.heap.fresh none node.headLink with
  | (_, none) => .ok (0, node)
  | (none, some current) => do
    let c ← node.heap.get current
    .ok (1, { heap := node.heap.free current, headLink := c.next })
  | (some _, some current) => do
    let _ ← node.heap.get current
    .ok (1, { node with heap := node.heap.free current })

/-- both are read, null or not -/
def strcmpNames (a b : Option (List UInt8)) : Exec Bool := do
  let a ← deref a
  let b ← deref b
  .ok (strcmpZero a b)

def hashtableNodeGetLinkByName (node : LinkList) (name : Option (List UInt8)) :
    Exec (Option Nat) := do
  let found ← findWithPrevious node.heap (fun _ link => strcmpNames name link.name)
    node.heap.fresh none node.headLink
  .ok found.2

/-- the first link is taken out when there is another one, and not freed -/
def hashtableNodeRemoveLinkByName (name : Option (List UInt8)) (mynode : LinkList) :
    Exec (Nat × LinkList) := do
  match ← findWithPrevious mynode.heap (fun _ link => .ok (sameName name link.name))
      mynode.heap.fresh none mynode.headLink with
  | (_, none) => .ok (0, mynode)
  | (none, some current) => do
    let c ← mynode.heap.get current
    if c.next = none then .ok (1, mynode) else .ok (1, { mynode with headLink := c.next })
  | (some previous, some current) => do
    let p ← mynode.heap.get previous
    let c ← mynode.heap.get current
    .ok (1, { mynode with
      heap := (mynode.heap.set previous { p with next := c.next }).free current })

/-! ## what they are for -/

/-- the other links are left in their order, the result says whether one was taken out, and no link
that has been freed can be reached -/
def RemovesFirst (matching : Nat × NodeLink → Bool) (cells : List (Nat × NodeLink))
    (call : Exec (Nat × LinkList)) : Prop :=
  ∃ ret node, call = .ok (ret, node) ∧ Linked node.heap node.headLink (cells.eraseP matching) ∧
    (ret = 1 ↔ ∃ c ∈ cells, matching c = true) ∧ Intact node.heap node.headLink

section
variable {node node' : LinkList} {cells pre post : List (Nat × NodeLink)} {i ret : Nat}
variable {link : NodeLink} {matching : Nat × NodeLink → Bool} {call : Exec (Nat × LinkList)}
variable {toRemove : Option Nat} {name : Option (List UInt8)}

/-- nothing matches -/
theorem removesFirst_of_none (h : Linked node.heap node.headLink cells)
    (hnone : ∀ c ∈ cells, matching c = false) (hcall : call = .ok (0, node)) :
    RemovesFirst matching cells call := by
  refine ⟨0, node, hcall, ?_, ?_, h.intact⟩
  · rwa [List.eraseP_of_forall_not fun c hc => Bool.eq_false_iff.1 (hnone c hc)]
  · refine ⟨fun e => absurd e (by decide), ?_⟩
    rintro ⟨c, hc, hm⟩
    rw [hnone c hc] at hm
    cases hm

theorem eraseP_split (hpre : ∀ c ∈ pre, matching c = false) (hm : matching (i, link) = true) :
    (pre ++ (i, link) :: post).eraseP matching = pre ++ post := by
  rw [List.eraseP_append_right _ fun c hc => Bool.eq_false_iff.1 (hpre c hc),
    List.eraseP_cons_of_pos hm]

/-- the first that matches is taken out -/
theorem removesFirst_of_split (hpre : ∀ c ∈ pre, matching c = false)
    (hm : matching (i, link) = true) (hcall : call = .ok (1, node)) :
    RemovesFirst matching (pre ++ (i, link) :: post) call ↔
      Linked node.heap node.headLink (pre ++ post) := by
  constructor
  · rintro ⟨ret, node', hcall', hl, -⟩
    cases hcall.symm.trans hcall'
    rwa [eraseP_split hpre hm] at hl
  · intro hl
    refine ⟨1, node, hcall, ?_, ⟨fun _ => ⟨(i, link), by simp, hm⟩, fun _ => rfl⟩, hl.intact⟩
    rwa [eraseP_split hpre hm]

/-- **taking out a link**: no other than the first -/
theorem nodeRemoveLink_iff (h : Linked node.heap node.headLink cells) (toRemove : Option Nat) :
    RemovesFirst (fun c => decide (some c.1 = toRemove)) cells (nodeRemoveLink node toRemove) ↔
      ∀ c ∈ cells.tail, some c.1 ≠ toRemove := by
  have hfinds := h.findWithPrevious_cases (g := fun c => decide (some c.1 = toRemove))
    (f := fun i _ => .ok (decide (some i = toRemove))) (fun _ _ => rfl) none
  rcases hfinds with ⟨hnone, hwalk⟩ | ⟨pre, i, link, post, rfl, hpre, hm, hwalk⟩
  · refine iff_of_true (removesFirst_of_none h hnone ?_) fun c hc => ?_
    · unfold nodeRemoveLink
      rw [hwalk]
      rfl
    · exact of_decide_eq_false (hnone c (List.mem_of_mem_tail hc))
  · obtain rfl : some i = toRemove := of_decide_eq_true hm
    obtain ⟨hseg, next, hc, hpost⟩ := h.split
    have hget := Heap.get_eq_ok.2 hc
    have hd := h.nodup
    rw [List.map_append, List.map_cons] at hd
    obtain ⟨-, hdpost, hdis⟩ := List.nodup_append.1 hd
    rcases List.eq_nil_or_concat pre with rfl | ⟨pre, ⟨k, rk⟩, rfl⟩
    · -- the head
      have hcall : nodeRemoveLink node (some i) =
          .ok (1, { heap := node.heap.free i, headLink := next }) := by
        unfold nodeRemoveLink
        rw [hwalk]
        show (node.heap.get i >>= _) = _
        rw [hget]
        rfl
      rw [removesFirst_of_split hpre hm hcall]
      refine iff_of_true ?_ fun c hcm e => ?_
      · exact Linked.free hpost (List.nodup_cons.1 hdpost).1
      · have hmem : c.1 ∈ post.map Prod.fst := fst_mem hcm
        rw [Option.some.inj e] at hmem
        exact (List.nodup_cons.1 hdpost).1 hmem
    · -- the link before it still leads to it
      rw [List.concat_eq_append] at hpre hwalk hseg hdis ⊢
      have hcall : nodeRemoveLink node (some i) =
          .ok (1, { node with heap := node.heap.free i }) := by
        unfold nodeRemoveLink
        rw [hwalk, lastOf_concat]
        show (node.heap.get i >>= _) = _
        rw [hget]
        rfl
      rw [removesFirst_of_split hpre hm hcall]
      refine iff_of_false (fun hl => ?_) fun hall => ?_
      · have hseg' : Segment (node.heap.free i) node.headLink (pre ++ [(k, rk)]) (some i) :=
          Segment.congr (fun c hcm => Heap.free_cells_ne
            (hdis c.1 (fst_mem hcm) i List.mem_cons_self)) hseg
        have halive := hl.intact i hseg'.reaches
        rw [Heap.free_cells_self] at halive
        cases halive
      · refine hall (i, link) ?_ rfl
        cases pre <;> simp

/-- **taking out a name**: not when it is that of the only link -/
theorem hashtableNodeRemoveLinkByName_iff (h : Linked node.heap node.headLink cells)
    (name : Option (List UInt8)) :
    RemovesFirst (fun c => sameName name c.2.name) cells
        (hashtableNodeRemoveLinkByName name node) ↔
      ∀ c, cells = [c] → sameName name c.2.name = false := by
  have hfinds := h.findWithPrevious_cases (g := fun c => sameName name c.2.name)
    (f := fun _ link => .ok (sameName name link.name)) (fun _ _ => rfl) none
  rcases hfinds with ⟨hnone, hwalk⟩ | ⟨pre, i, link, post, rfl, hpre, hm, hwalk⟩
  · refine iff_of_true (removesFirst_of_none h hnone ?_) ?_
    · unfold hashtableNodeRemoveLinkByName
      rw [hwalk]
      rfl
    · rintro c rfl
      exact hnone c List.mem_cons_self
  · obtain ⟨hseg, next, hc, hpost⟩ := h.split
    have hget := Heap.get_eq_ok.2 hc
    rcases List.eq_nil_or_concat pre with rfl | ⟨pre, ⟨k, rk⟩, rfl⟩
    · have hfirst : hashtableNodeRemoveLinkByName name node =
          if next = none then .ok (1, node) else .ok (1, { node with headLink := next }) := by
        unfold hashtableNodeRemoveLinkByName
        rw [hwalk]
        show (node.heap.get i >>= _) = _
        rw [hget]
        rfl
      cases post with
      | nil =>
        -- the only link
        obtain rfl : next = none := hpost
        rw [if_pos rfl] at hfirst
        rw [removesFirst_of_split hpre hm hfirst]
        refine iff_of_false (fun hl => ?_) fun hall => ?_
        · have hhead : node.headLink = some i := hseg
          cases hhead.symm.trans hl
        · rw [hall (i, link) rfl] at hm
          cases hm
      | cons c post =>
        have hnext : next ≠ none := by
          rintro rfl
          cases hpost.1
        rw [if_neg hnext] at hfirst
        rw [removesFirst_of_split hpre hm hfirst]
        exact iff_of_true hpost fun d e => by cases e
    · rw [List.concat_eq_append] at h hpre hwalk ⊢
      rw [List.append_assoc] at h
      obtain ⟨-, m, hck, -⟩ := h.split
      have hcall : hashtableNodeRemoveLinkByName name node = .ok (1, { node with
          heap := (node.heap.set k { current := rk, next := next }).free i }) := by
        unfold hashtableNodeRemoveLinkByName
        rw [hwalk, lastOf_concat]
        show (node.heap.get k >>= _) = _
        rw [Heap.get_eq_ok.2 hck, ok_bind, hget]
        rfl
      rw [removesFirst_of_split hpre hm hcall, List.append_assoc]
      refine iff_of_true (h.unlink hc) fun d e => ?_
      have hlen := congrArg List.length e
      simp only [List.length_append, List.length_cons, List.length_nil] at hlen
      omega

/-- looking up a name that is not null -/
theorem getLinkByName_text {text : List UInt8} (h : Linked node.heap node.headLink cells) :
    hashtableNodeGetLinkByName node (some text) =
        .ok ((cells.find? fun c => sameName (some text) c.2.name).map Prod.fst) ↔
      ∀ c ∈ cells.takeWhile (fun c => !sameName (some text) c.2.name), c.2.name ≠ none := by
  -- a link that is compared and is another one
  have hother : ∀ c : Nat × NodeLink, c.2.name ≠ none → sameName (some text) c.2.name = false →
      strcmpNames (some text) c.2.name = .ok false := by
    rintro ⟨i, hash, name, tSize⟩ hne hm
    cases name with
    | none => exact absurd rfl hne
    | some b => exact congrArg Except.ok hm
  unfold hashtableNodeGetLinkByName
  cases hfind : cells.find? fun c => c.2.name = none ∨ sameName (some text) c.2.name with
  | none =>
    have hall : ∀ c ∈ cells, c.2.name ≠ none ∧ sameName (some text) c.2.name = false := by
      intro c hc
      have hc := List.find?_eq_none.1 hfind c hc
      rw [decide_eq_true_iff, not_or, Bool.not_eq_true] at hc
      exact hc
    have hnone : cells.find? (fun c => sameName (some text) c.2.name) = none :=
      List.find?_eq_none.2 fun c hc => Bool.eq_false_iff.1 (hall c hc).2
    rw [h.findWithPrevious_none fun c hc => hother c (hall c hc).1 (hall c hc).2, hnone]
    exact iff_of_true rfl fun c hc => (hall c (List.takeWhile_subset _ hc)).1
  | some c =>
    obtain ⟨hg, pre, post, rfl, hpre⟩ := List.find?_eq_some_iff_append.1 hfind
    have hall : ∀ c ∈ pre, c.2.name ≠ none ∧ sameName (some text) c.2.name = false := by
      intro c hc
      have hc := hpre c hc
      rw [Bool.not_eq_true', decide_eq_false_iff_not, not_or, Bool.not_eq_true] at hc
      exact hc
    have htake : ∀ rest, (pre ++ rest).takeWhile (fun c => !sameName (some text) c.2.name) =
        pre ++ rest.takeWhile fun c => !sameName (some text) c.2.name := fun rest =>
      List.takeWhile_append_of_pos fun c hc => by rw [(hall c hc).2]; rfl
    have hfirst : (pre ++ c :: post).find? (fun c => sameName (some text) c.2.name) =
        (c :: post).find? fun c => sameName (some text) c.2.name := by
      rw [List.find?_append, List.find?_eq_none.2 fun d hd => Bool.eq_false_iff.1 (hall d hd).2]
      rfl
    have hbefore : ∀ d ∈ pre, strcmpNames (some text) d.2.name = .ok false :=
      fun d hd => hother d (hall d hd).1 (hall d hd).2
    obtain ⟨i, hash, name, tSize⟩ := c
    rw [htake, hfirst]
    cases name with
    | none =>
      rw [h.findWithPrevious_error hbefore rfl]
      refine iff_of_false (fun hok => by cases hok) fun hnames => ?_
      refine hnames (i, { hash := hash, name := none, tSize := tSize }) ?_ rfl
      exact List.mem_append_right _ (by rw [List.takeWhile_cons_of_pos rfl]; simp)
    | some b =>
      have hm : sameName (some text) (some b) = true := by simpa using hg
      have hit : ((i, { hash := hash, name := some b, tSize := tSize }) :: post).find?
          (fun c => sameName (some text) c.2.name) =
            some (i, { hash := hash, name := some b, tSize := tSize }) :=
        List.find?_cons_of_pos hm
      have hstop : ((i, { hash := hash, name := some b, tSize := tSize }) :: post).takeWhile
          (fun c => !sameName (some text) c.2.name) = [] :=
        List.takeWhile_cons_of_neg (by show ¬ (!sameName (some text) (some b)) = true; rw [hm]; decide)
      rw [h.findWithPrevious_some hbefore (congrArg Except.ok hm), hit, hstop, List.append_nil]
      exact iff_of_true rfl fun d hd => (hall d hd).1

/-- **looking up a name**: neither it nor that of a link in front of the first of that name is
null -/
theorem hashtableNodeGetLinkByName_iff (h : Linked node.heap node.headLink cells)
    (name : Option (List UInt8)) :
    hashtableNodeGetLinkByName node name =
        .ok ((cells.find? fun c => sameName name c.2.name).map Prod.fst) ↔
      (cells ≠ [] → name ≠ none) ∧
        ∀ c ∈ cells.takeWhile (fun c => !sameName name c.2.name), c.2.name ≠ none := by
  obtain hnull | ⟨text, rfl⟩ : name = none ∨ ∃ text, name = some text := by
    cases name with
    | none => exact .inl rfl
    | some text => exact .inr ⟨text, rfl⟩
  · subst hnull
    cases cells with
    | nil =>
      refine iff_of_true ?_ ⟨fun hne => absurd rfl hne, fun c hc => by cases hc⟩
      unfold hashtableNodeGetLinkByName
      rw [h.findWithPrevious_none fun c hc => by cases hc]
      rfl
    | cons c cells =>
      refine iff_of_false (fun hok => ?_) fun hcond => hcond.1 (List.cons_ne_nil _ _) rfl
      unfold hashtableNodeGetLinkByName at hok
      have hnil : Linked node.heap node.headLink ([] ++ c :: cells) := h
      rw [hnil.findWithPrevious_error (fun c hc => by cases hc) rfl] at hok
      cases hok
  · rw [getLinkByName_text h, and_iff_right fun _ => Option.some_ne_none text]

/-- the lists whose links can be removed and looked up -/
theorem linkLists_iff (node : LinkList) (cells : List (Nat × NodeLink))
    (h : Linked node.heap node.headLink cells) :
    (∀ toRemove, RemovesFirst (fun c => decide (some c.1 = toRemove)) cells
        (nodeRemoveLink node toRemove) ↔ ∀ c ∈ cells.tail, some c.1 ≠ toRemove) ∧
      (∀ name, RemovesFirst (fun c => sameName name c.2.name) cells
        (hashtableNodeRemoveLinkByName name node) ↔
          ∀ c, cells = [c] → sameName name c.2.name = false) ∧
      ∀ name, hashtableNodeGetLinkByName node name =
          .ok ((cells.find? fun c => sameName name c.2.name).map Prod.fst) ↔
        (cells ≠ [] → name ≠ none) ∧
          ∀ c ∈ cells.takeWhile (fun c => !sameName name c.2.name), c.2.name ≠ none :=
  ⟨nodeRemoveLink_iff h, hashtableNodeRemoveLinkByName_iff h, hashtableNodeGetLinkByName_iff h⟩

/-! ## two links -/

def twoLinks : LinkList where
  heap := (Heap.empty.alloc { current := { hash := [2], name := some [98] }, next := none }).alloc
    { current := { hash := [1], name := some [97] }, next := some 0 }
  headLink := some 1

theorem twoLinks_linked : Linked twoLinks.heap twoLinks.headLink
    [(1, { hash := [1], name := some [97] }), (0, { hash := [2], name := some [98] })] :=
  ⟨rfl, some 0, rfl, rfl, none, rfl, rfl⟩

/-- the first of two links can be taken out -/
theorem linkLists_twoLinks : RemovesFirst (fun c => decide (some c.1 = some 1))
    [(1, { hash := [1], name := some [97] }), (0, { hash := [2], name := some [98] })]
    (nodeRemoveLink twoLinks (some 1)) :=
  ((linkLists_iff twoLinks _ twoLinks_linked).1 (some 1)).2 (by decide)

/-- the second one is freed, and the first still leads to it -/
theorem not_linkLists : ¬ ∀ (node : LinkList) (cells : List (Nat × NodeLink)),
    Linked node.heap node.headLink cells →
      ∀ toRemove, RemovesFirst (fun c => decide (some c.1 = toRemove)) cells
        (nodeRemoveLink node toRemove) := by
  intro h
  have hremoved := (nodeRemoveLink_iff twoLinks_linked (some 0)).1
    (h twoLinks _ twoLinks_linked (some 0))
  exact hremoved _ List.mem_cons_self rfl

end

end Ipfs
