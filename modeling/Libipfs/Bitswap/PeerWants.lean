import Libipfs.Bitswap.Network

/-!
# What a peer wants

The list of the CIDs a peer wants against the want lists it sends: a want adds its CID once, a
cancel removes it, and everything else stays as and where it is.

* `adjusted`, `afterWants`   the list as it is to be after one entry, and after several;
* `wants_afterWants`         then a CID is in it iff the last word about it was not a cancel;
* `Recorded`, `Merged`       the code leaves the list like that;
* `recorded_iff`             **when it does**: the list is empty, or its first entry is the one to
                             look for.
-/

set_option linter.unusedVariables false

namespace Ipfs
open CSem Libp2p

/-- the entry has the CID -/
def named (cid : Cid) (entry : Option CidEntry) : Bool := entry.any fun e => e.cid = some cid

/-- the list as it is to be after a want or a cancel -/
def adjusted (cid : Cid) (cancel : Bool) (cids : List (Option CidEntry)) :
    List (Option CidEntry) :=
  if cancel then cids.filter fun entry => !named cid entry
  else if cids.any (named cid) then cids
  else cids ++ [some { peerRequestCidEntryNew with cid := some cid }]

/-- one want or cancel after the other; a pair is a CID and whether it is cancelled -/
def afterWants (wants : List (Cid × Bool)) (cids : List (Option CidEntry)) :
    List (Option CidEntry) :=
  wants.foldl (fun cids want => adjusted want.1 want.2 cids) cids

/-- the last word about the CID, if there is one, is not a cancel -/
def lastWord (cid : Cid) : List (Cid × Bool) → Bool → Bool
  | [], before => before
  | want :: wants, before => lastWord cid wants (if want.1 = cid then !want.2 else before)

/-- the entry of a message is read as a CID that has a hash, and as a want or a cancel -/
def Decodes (junk : UInt8) (entry : Option WantlistEntry) (want : Cid × Bool) : Prop :=
  ∃ e block, entry = some e ∧ e.block = some block ∧
    cidProtobufDecode block = .ok (some (some want.1)) ∧ want.1.hash ≠ [] ∧
    want.2 = decide (e.cancel.getD junk ≠ 0)

/-- one entry leaves the list as it is to be -/
def Recorded (cids : List (Option CidEntry)) (cid : Cid) (cancel : Bool) : Prop :=
  bitswapNetworkAdjustCidQueue cids cid cancel = .ok (adjusted cid cancel cids)

/-- so do the entries of a message, one after the other -/
def Merged (junk : UInt8) (entries : List (Option WantlistEntry)) (wants : List (Cid × Bool))
    (cids : List (Option CidEntry)) : Prop :=
  ∀ k, handleEntries junk (entries.take k) cids = .ok (true, afterWants (wants.take k) cids)

/-- the list is empty; or its first entry compares equal to the CID, and for a want the CID is in
the list, for a cancel it is that of the first entry and of no other -/
def RecordFits (cid : Cid) (cancel : Bool) : List (Option CidEntry) → Prop
  | [] => True
  | entry :: rest => (∃ current, entry = some current ∧ cidCompare current.cid (some cid) = 0) ∧
      if cancel then named cid entry ∧ ¬ rest.any (named cid) else (entry :: rest).any (named cid)

/-- each of the wants meets a list that fits it -/
def MergeFits : List (Cid × Bool) → List (Option CidEntry) → Prop
  | [], _ => True
  | want :: wants, cids =>
    RecordFits want.1 want.2 cids ∧ MergeFits wants (adjusted want.1 want.2 cids)

section
variable {cid other : Cid} {cancel : Bool} {cids rest : List (Option CidEntry)}
variable {entry : Option CidEntry} {wants : List (Cid × Bool)} {junk : UInt8}
variable {entries : List (Option WantlistEntry)}

/-! ## the list as it is to be -/

theorem named_new : named cid (some { peerRequestCidEntryNew with cid := some other }) =
    decide (other = cid) := by
  unfold named
  simp

/-- one word about a CID -/
theorem any_adjusted : (adjusted other cancel cids).any (named cid) =
    if other = cid then !cancel else cids.any (named cid) := by
  unfold adjusted
  by_cases hcid : other = cid
  · subst hcid
    rw [if_pos rfl]
    cases cancel with
    | true =>
      show (cids.filter fun entry => !named other entry).any (named other) = false
      rw [List.any_filter]
      simp
    | false =>
      rw [if_neg Bool.false_ne_true]
      split
      · assumption
      · rw [List.any_append]
        show (cids.any (named other) || (named other _ || false)) = true
        rw [named_new]
        simp
  · rw [if_neg hcid]
    cases cancel with
    | true =>
      show (cids.filter fun entry => !named other entry).any (named cid) = _
      rw [List.any_filter]
      congr 1
      funext entry
      cases entry with
      | none => rfl
      | some e =>
        show (!decide (e.cid = some other) && decide (e.cid = some cid)) = decide (e.cid = some cid)
        by_cases he : e.cid = some cid
        · rw [he, decide_eq_false (fun h => hcid (Option.some.inj h).symm)]
          rfl
        · simp [he]
    | false =>
      rw [if_neg Bool.false_ne_true]
      split
      · rfl
      · rw [List.any_append]
        show (cids.any (named cid) || (named cid _ || false)) = _
        rw [named_new]
        simp [hcid]

/-- **what a message comes to**: the CIDs that were wanted or are, without those cancelled -/
theorem wants_afterWants : (afterWants wants cids).any (named cid) =
    lastWord cid wants (cids.any (named cid)) := by
  induction wants generalizing cids with
  | nil => rfl
  | cons want wants ih =>
    show (afterWants wants (adjusted want.1 want.2 cids)).any (named cid) = _
    rw [ih, any_adjusted]
    rfl

/-! ## one entry -/

theorem filter_eq_self_of_not_any (h : ¬ rest.any (named cid)) :
    (rest.filter fun entry => !named cid entry) = rest := by
  apply List.filter_eq_self.2
  intro entry hentry
  cases hnamed : named cid entry with
  | false => rfl
  | true => exact absurd (List.any_eq_true.2 ⟨entry, hentry, hnamed⟩) h

/-- to drop the first entry is to remove the CID iff it is the only entry of it -/
theorem filter_eq_tail_iff : ((entry :: rest).filter fun entry => !named cid entry) = rest ↔
    named cid entry ∧ ¬ rest.any (named cid) := by
  constructor
  · intro heq
    have hrest : ¬ rest.any (named cid) := by
      intro hany
      obtain ⟨e, he, hnamed⟩ := List.any_eq_true.1 hany
      rw [← heq] at he
      have hnot := (List.mem_filter.1 he).2
      rw [hnamed] at hnot
      cases hnot
    refine ⟨?_, hrest⟩
    by_contra hnamed
    rw [List.filter_cons_of_pos (by simp [hnamed]), filter_eq_self_of_not_any hrest] at heq
    exact absurd (congrArg List.length heq) (by simp)
  · intro ⟨hnamed, hrest⟩
    rw [List.filter_cons_of_neg (by simp [hnamed]), filter_eq_self_of_not_any hrest]

theorem recordedOne_iff : Recorded cids cid cancel ↔ RecordFits cid cancel cids := by
  unfold Recorded
  cases cids with
  | nil =>
    refine ⟨fun _ => trivial, fun _ => ?_⟩
    cases cancel <;> rfl
  | cons entry rest =>
    rw [bitswapNetworkAdjustCidQueue_eq_ok]
    show (∃ current, _) ∧ _ ↔ (∃ current, _) ∧ _
    refine and_congr_right fun hhead => ?_
    cases cancel with
    | true =>
      show ((entry :: rest).filter fun entry => !named cid entry) = rest ↔ _
      exact filter_eq_tail_iff
    | false =>
      show (if (entry :: rest).any (named cid) then entry :: rest else _) = entry :: rest ↔
        (entry :: rest).any (named cid)
      split
      · next h => exact ⟨fun _ => h, fun _ => rfl⟩
      · next h =>
        refine ⟨fun heq => ?_, fun hany => absurd hany h⟩
        exact absurd (congrArg List.length heq) (by simp)

/-! ## a message -/

theorem handleEntries_cons {e : Option WantlistEntry} {want : Cid × Bool}
    (h : Decodes junk e want) : handleEntries junk (e :: entries) cids =
      (bitswapNetworkAdjustCidQueue cids want.1 want.2 >>= handleEntries junk entries) := by
  obtain ⟨e, block, rfl, hblock, hdecode, hhash, hcancel⟩ := h
  have hlen : want.1.hash.length ≠ 0 := fun h0 => hhash (List.eq_nil_of_length_eq_zero h0)
  rw [handleEntries, deref_some, ok_bind, hblock]
  show (cidProtobufDecode block >>= _) = _
  rw [hdecode, ok_bind]
  show (if want.1.hash.length = 0 then _ else _) = _
  rw [if_neg hlen, hcancel]

theorem merged_nil : Merged junk [] [] cids := by
  intro k
  rw [List.take_nil, List.take_nil]
  rfl

theorem merged_cons {e : Option WantlistEntry} {want : Cid × Bool} (h : Decodes junk e want) :
    Merged junk (e :: entries) (want :: wants) cids ↔
      Recorded cids want.1 want.2 ∧ Merged junk entries wants (adjusted want.1 want.2 cids) := by
  unfold Merged Recorded
  constructor
  · intro hall
    have hone := hall 1
    rw [List.take_succ_cons, List.take_zero, handleEntries_cons h] at hone
    obtain ⟨after, hafter, hone⟩ := bind_eq_ok.1 hone
    obtain rfl : after = adjusted want.1 want.2 cids := (Prod.mk.inj (Except.ok.inj hone)).2
    refine ⟨hafter, fun k => ?_⟩
    have hk := hall (k + 1)
    rw [List.take_succ_cons, handleEntries_cons h, hafter] at hk
    exact hk
  · intro ⟨hone, hall⟩ k
    cases k with
    | zero => rfl
    | succ k =>
      rw [List.take_succ_cons, handleEntries_cons h, hone]
      exact hall k

theorem merged_iff (h : List.Forall₂ (Decodes junk) entries wants) :
    Merged junk entries wants cids ↔ MergeFits wants cids := by
  induction h generalizing cids with
  | nil => exact ⟨fun _ => trivial, fun _ => merged_nil⟩
  | cons hdecodes hrest ih =>
    rw [merged_cons hdecodes, recordedOne_iff, ih]
    rfl

/-- **when what a peer wants is recorded faithfully**: one entry, a whole message, and the CIDs
that are wanted behind it -/
theorem recorded_iff (h : List.Forall₂ (Decodes junk) entries wants) :
    (Recorded cids cid cancel ↔ RecordFits cid cancel cids) ∧
      (Merged junk entries wants cids ↔ MergeFits wants cids) ∧
      ∀ c, (afterWants wants cids).any (named c) = lastWord c wants (cids.any (named c)) :=
  ⟨recordedOne_iff, merged_iff h, fun c => wants_afterWants⟩

end

/-! ## a second CID -/

def cidOfOne : Cid := ⟨0, 0x70, [1]⟩
def cidOfTwo : Cid := ⟨0, 0x70, [2]⟩

/-- a peer that wants the first one -/
def wantsOne : List (Option CidEntry) := [some { peerRequestCidEntryNew with cid := some cidOfOne }]

/-- a message that cancels the first one -/
def cancelOfOne : WantlistEntry where
  block := some [8, 0, 16, 112, 26, 1, 1]
  cancel := some 1

theorem decodes_cancelOfOne : Decodes 0 (some cancelOfOne) (cidOfOne, true) :=
  ⟨cancelOfOne, _, rfl, rfl, by decide +kernel, by decide, rfl⟩

theorem recorded_iff_wantsOne :
    (Recorded wantsOne cidOfTwo false ↔ RecordFits cidOfTwo false wantsOne) ∧
      (Merged 0 [some cancelOfOne] [(cidOfOne, true)] wantsOne ↔
        MergeFits [(cidOfOne, true)] wantsOne) ∧
      ∀ c, (afterWants [(cidOfOne, true)] wantsOne).any (named c) =
        lastWord c [(cidOfOne, true)] (wantsOne.any (named c)) :=
  recorded_iff (.cons decodes_cancelOfOne .nil)

/-- the second one is looked for behind the vector -/
theorem not_recorded_wantsOne : ¬ ∀ cids cid cancel, Recorded cids cid cancel := by
  intro hall
  have hadjust := hall wantsOne cidOfTwo false
  have hfault : bitswapNetworkAdjustCidQueue wantsOne cidOfTwo false = .error .outOfBounds := by
    decide
  unfold Recorded at hadjust
  rw [hfault] at hadjust
  cases hadjust

end Ipfs
