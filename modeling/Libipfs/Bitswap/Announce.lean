import Libipfs.Lib.Run
import Libipfs.Bitswap.Process

/-!
# What is announced to a peer

The wants and cancels of one peer, over a run in which CIDs are wanted, marked as cancelled, and
the request is processed.  Beside the request the state of the run has the messages that were sent,
and of each of them the places in the queue that its want list was made from.

* `duePositions`     the places in the queue that are announced next;
* `AnnouncedOnce`    what the messages that were sent say of each CID;
* `announced_of_step`   what one operation keeps;
* `holdsReached_announcedOnce`   each want and each cancel is announced once.
-/

namespace Ipfs
open CSem Libp2p

/-! ## places in the queue -/

/-- the place of an entry that is due, and whether it is cancelled -/
def dueMark (slot : Option CidEntry × Nat) : Option (Nat × Bool) :=
  match slot.1 with
  | none => none
  | some e => if e.due then some (slot.2, e.cancel) else none

def duePositions (cids : List (Option CidEntry)) : List (Nat × Bool) :=
  cids.zipIdx.filterMap dueMark

/-- what a message says of a place in the queue -/
def announcement (cids : List (Option CidEntry)) (mark : Nat × Bool) : Option WantlistEntry :=
  some { block := some (cidBytes ((utilsVectorGet cids mark.1).bind CidEntry.cid))
         cancel := some (if mark.2 then 1 else 0)
         priority := some 1 }

section
variable {cids : List (Option CidEntry)} {es : List CidEntry} {i : Nat} {cancel : Bool}

theorem dueMark_eq_some {entry : Option CidEntry} {j : Nat} :
    dueMark (entry, j) = some (i, cancel) ↔
      ∃ e, entry = some e ∧ e.due = true ∧ e.cancel = cancel ∧ j = i := by
  unfold dueMark
  cases entry with
  | none => simp
  | some e =>
    cases hdue : e.due with
    | false => simp [hdue]
    | true => simp [hdue, and_comm]

theorem mem_duePositions : (i, cancel) ∈ duePositions (es.map some) ↔
    ∃ e, es[i]? = some e ∧ e.due = true ∧ e.cancel = cancel := by
  unfold duePositions
  rw [List.mem_filterMap]
  refine ⟨fun h => ?_, fun h => ?_⟩
  · obtain ⟨⟨entry, j⟩, hslot, h⟩ := h
    obtain ⟨e, rfl, hdue, hcancel, rfl⟩ := dueMark_eq_some.1 h
    rw [List.mem_zipIdx_iff_getElem?, List.getElem?_map] at hslot
    obtain ⟨a, ha, heq⟩ := Option.map_eq_some_iff.1 hslot
    obtain rfl := Option.some.inj heq
    exact ⟨a, ha, hdue, hcancel⟩
  · obtain ⟨e, he, hdue, hcancel⟩ := h
    refine ⟨(some e, i), ?_, dueMark_eq_some.2 ⟨e, rfl, hdue, hcancel, rfl⟩⟩
    rw [List.mem_zipIdx_iff_getElem?, List.getElem?_map, he]
    rfl

/-- the places are in the order of the queue -/
theorem duePositions_pairwise : ((duePositions cids).map Prod.fst).Pairwise (· < ·) := by
  have hidx : (cids.zipIdx.map Prod.snd).Pairwise (· < ·) := by
    rw [List.zipIdx_map_snd]
    exact List.pairwise_lt_range'
  rw [List.pairwise_map] at hidx ⊢
  unfold duePositions
  rw [List.pairwise_filterMap]
  refine hidx.imp fun {a b} hab m hm n hn => ?_
  obtain ⟨e, -, -, -, hm⟩ := dueMark_eq_some.1 hm
  obtain ⟨e', -, -, -, hn⟩ := dueMark_eq_some.1 hn
  rw [← hm, ← hn]
  exact hab

theorem count_duePositions : (duePositions (es.map some)).count (i, cancel) =
    if ∃ e, es[i]? = some e ∧ e.due = true ∧ e.cancel = cancel then 1 else 0 := by
  have hnodup : (duePositions (es.map some)).Nodup :=
    List.Nodup.of_map Prod.fst (duePositions_pairwise.imp fun h => ne_of_lt h)
  rw [hnodup.count]
  exact if_congr mem_duePositions rfl rfl

private theorem map_dueMark_from {g : Nat × Bool → Option WantlistEntry} {k : Nat}
    (hg : ∀ j e, es[j]? = some e → g (k + j, e.cancel) = e.want.entry) :
    (((es.map some).zipIdx k).filterMap dueMark).map g =
      (es.filter CidEntry.due).map fun e => e.want.entry := by
  induction es generalizing k with
  | nil => rfl
  | cons e es ih =>
    have hfirst : g (k + 0, e.cancel) = e.want.entry := hg 0 e rfl
    have hrest : (((es.map some).zipIdx (k + 1)).filterMap dueMark).map g = _ := ih fun j a ha => by
      rw [Nat.add_assoc, Nat.add_comm 1]
      exact hg (j + 1) a ha
    rw [List.map_cons, List.zipIdx_cons]
    cases hdue : e.due with
    | false =>
      have hnone : dueMark (some e, k) = none := by
        unfold dueMark
        simp [hdue]
      rw [List.filterMap_cons_none hnone, List.filter_cons_of_neg (by simp [hdue])]
      exact hrest
    | true =>
      have hsome : dueMark (some e, k) = some (k, e.cancel) :=
        dueMark_eq_some.2 ⟨e, rfl, hdue, rfl, rfl⟩
      rw [List.filterMap_cons_some hsome, List.filter_cons_of_pos hdue, List.map_cons, hrest]
      rw [Nat.add_zero] at hfirst
      rw [hfirst]
      rfl

/-- what is announced is said of the places that are due -/
theorem map_announcement : (duePositions (es.map some)).map (announcement (es.map some)) =
    (es.filter CidEntry.due).map fun e => e.want.entry := by
  refine map_dueMark_from fun j e he => ?_
  have hget : utilsVectorGet (es.map some) (0 + j) = some e := by
    unfold utilsVectorGet
    rw [Nat.zero_add, List.getElem?_map, he]
    rfl
  unfold announcement
  rw [hget]
  rfl

end

/-! ## runs -/

/-- what has become of an entry since it was added -/
structure Seen where
  processed : Bool := false
  /-- it was not cancelled when it was first processed -/
  wanted : Bool := false
  /-- it has been processed while it was cancelled -/
  withdrawn : Bool := false
  deriving DecidableEq, Repr

def Seen.next (cancel : Bool) (seen : Seen) : Seen where
  processed := true
  wanted := if seen.processed then seen.wanted else !cancel
  withdrawn := seen.withdrawn || cancel

/-- the request; the messages that were sent, and the places that their want lists were made from;
what has become of each entry of the queue; `quiet` when nothing has been wanted or cancelled since a
message was sent -/
structure Announcer where
  request : PeerRequest
  sent : List Sent := []
  marks : List (List (Nat × Bool)) := []
  seen : List Seen := []
  quiet : Bool := true

inductive AnnounceOp where
  | want (cid : Cid)
  | cancel (place : Nat)
  /-- the rest of the request changes: what the peer wants, what is to be sent, its connection -/
  | other (peer : Option Peer) (cidsTheyWant : List (Option CidEntry)) (blocks : List (Option Block))
  | process (net : PeerNet) (files : Files)

/-- each entry of the queue has been processed once more -/
def nextSeen (cids : List (Option CidEntry)) (seen : List Seen) : List Seen :=
  List.zipWith (fun entry seen => seen.next (entry.any CidEntry.cancel)) cids seen

/-- the queue with the CID at its end -/
def PeerRequest.addWant (cid : Cid) (request : PeerRequest) : PeerRequest :=
  { request with
    cidsWeWant := utilsVectorAdd request.cidsWeWant
      (some { peerRequestCidEntryNew with cid := some cid }) }

/-- the queue with the entry at a place marked as cancelled -/
def PeerRequest.cancelWant (place : Nat) (request : PeerRequest) : PeerRequest :=
  { request with
    cidsWeWant := request.cidsWeWant.modify place
      (Option.map fun e => { e with cancel := true }) }

/-- the request with everything but the queue changed -/
def PeerRequest.changed (peer : Option Peer) (cidsTheyWant : List (Option CidEntry))
    (blocks : List (Option Block)) (request : PeerRequest) : PeerRequest where
  peer := peer
  cidsTheyWant := cidsTheyWant
  cidsWeWant := request.cidsWeWant
  blocksWeWantToSend := blocks

/-- the peer that a message would go to, if it is, or becomes, connected -/
def connectsTo (net : PeerNet) (request : PeerRequest) : Option Peer :=
  match request.peer with
  | none => none
  | some p =>
    if hasEnoughInformation p then
      match ensureConnected net p with
      | .ok (true, peer) => some peer
      | _ => none
    else none

/-- a call counts as processing when there is a connection, whether or not a message is sent -/
def announceStep (op : AnnounceOp) (s : Announcer) : Exec Announcer :=
  match op with
  | .want cid =>
    .ok { s with request := s.request.addWant cid, seen := s.seen ++ [{}], quiet := false }
  | .cancel place => .ok { s with request := s.request.cancelWant place, quiet := false }
  | .other peer cidsTheyWant blocks =>
    .ok { s with request := s.request.changed peer cidsTheyWant blocks }
  | .process net files => do
    let (sent, request) ← peerRequestProcessEntry net files s.request
    let s' :=
      if (connectsTo net s.request).isSome then
        { s with seen := nextSeen s.request.cidsWeWant s.seen, quiet := true }
      else s
    match sent with
    | none => .ok { s' with request := request }
    | some message =>
      .ok { s' with
        request := request
        sent := s.sent ++ [message]
        marks := s.marks ++ [duePositions s.request.cidsWeWant] }

/-- no message that is built fails to be sent -/
def SendsSucceed (op : AnnounceOp) (s : Announcer) : Prop :=
  match op with
  | .process net files => ∀ peer message built peer', Reaches net s.request peer →
      buildMessage files s.request = .ok (message, built) →
        bitswapNetworkSendMessage net peer message ≠ .ok (none, peer')
  | _ => True

/-- **each want and each cancel is announced once**: the want list of a message is made from its
places, in the order of the queue; an entry that was not cancelled when it was first processed is
announced as a want by exactly one message, one that has been processed while it was cancelled is
announced as a cancel by exactly one, and as a want by none behind it; and where something is due,
there is a connection and the message can be written, it is sent -/
structure AnnouncedOnce (s : Announcer) : Prop where
  messages : List.Forall₂ (fun sent marks =>
    sent.message.wanted = marks.map (announcement s.request.cidsWeWant)) s.sent s.marks
  order : ∀ marks ∈ s.marks, (marks.map Prod.fst).Pairwise (· < ·)
  places : ∀ marks ∈ s.marks, ∀ mark ∈ marks, mark.1 < s.request.cidsWeWant.length
  length : s.seen.length = s.request.cidsWeWant.length
  want : ∀ (i : Nat) seen, s.seen[i]? = some seen →
    s.marks.flatten.count (i, false) = if seen.wanted then 1 else 0
  cancel : ∀ (i : Nat) seen, s.seen[i]? = some seen →
    s.marks.flatten.count (i, true) = if seen.withdrawn then 1 else 0
  after : ∀ i before marks behind, s.marks = before ++ marks :: behind → (i, true) ∈ marks →
    (i, false) ∉ behind.flatten
  quiet : s.quiet = true → peerRequestWeWantCids s.request.cidsWeWant = .ok false
  sends : ∀ net files peer message built bytes peer', connectsTo net s.request = some peer →
    peerRequestWeWantCids s.request.cidsWeWant = .ok true →
    buildMessage files s.request = .ok (message, built) →
    bitswapNetworkSendMessage net peer message = .ok (some bytes, peer') →
      ∃ s', announceStep (.process net files) s = .ok s' ∧ s'.sent = s.sent ++ [⟨message, bytes⟩]

/-! ### the invariant -/

theorem connectsTo_eq_some {net : PeerNet} {request : PeerRequest} {peer : Peer} :
    connectsTo net request = some peer ↔ ∃ p, request.peer = some p ∧
      hasEnoughInformation p = true ∧ ensureConnected net p = .ok (true, peer) := by
  unfold connectsTo
  cases hp : request.peer with
  | none => simp
  | some p =>
    cases henough : hasEnoughInformation p with
    | false => simp [henough]
    | true =>
      rcases hconnect : ensureConnected net p with e | ⟨connected, q⟩
      · simp [henough, hconnect]
      · cases connected <;> simp [henough, hconnect]

/-- a message is built where there is a connection and something to send -/
theorem reaches_iff {net : PeerNet} {request : PeerRequest} {peer : Peer} :
    Reaches net request peer ↔
      connectsTo net request = some peer ∧ needToConnect request = .ok true := by
  rw [connectsTo_eq_some]
  constructor
  · rintro ⟨p, hp, henough, hneed, hconnect⟩
    exact ⟨⟨p, hp, henough, hconnect⟩, hneed⟩
  · rintro ⟨⟨p, hp, henough, hconnect⟩, hneed⟩
    exact ⟨p, hp, henough, hneed, hconnect⟩

theorem needToConnect_of_due {request : PeerRequest}
    (h : peerRequestWeWantCids request.cidsWeWant = .ok true) :
    needToConnect request = .ok true := by
  unfold needToConnect
  rw [h, ok_bind, Bool.true_or, Bool.true_or]

/-- the flags of an entry are what has become of it -/
structure Tracks (e : CidEntry) (seen : Seen) : Prop where
  want : e.requestHasBeenSent = seen.wanted
  cancel : e.cancelHasBeenSent = seen.withdrawn
  fresh : seen.processed = false → seen.wanted = false ∧ seen.withdrawn = false
  withdrawn : seen.withdrawn = true → e.cancel = true
  unwanted : seen.processed = true → seen.wanted = false → e.cancel = true

theorem Tracks.cancelled {e : CidEntry} {seen : Seen} (h : Tracks e seen) :
    Tracks { e with cancel := true } seen :=
  ⟨h.want, h.cancel, h.fresh, fun _ => rfl, fun _ _ => rfl⟩

theorem Tracks.next {e : CidEntry} {seen : Seen} (h : Tracks e seen) :
    Tracks e.announced (seen.next e.cancel) := by
  obtain ⟨cid, cancel, cancelSent, requestSent⟩ := e
  obtain ⟨processed, wanted, withdrawn⟩ := seen
  obtain ⟨hwant, hcancel, hfresh, hwithdrawn, hunwanted⟩ := h
  simp only at hwant hcancel hfresh hwithdrawn hunwanted
  subst hwant hcancel
  cases cancel with
  | true =>
    refine ⟨?_, ?_, fun h => ?_, fun _ => rfl, fun _ _ => rfl⟩
    · cases processed with
      | true => rfl
      | false => exact (hfresh rfl).1
    · exact (Bool.or_true _).symm
    · cases h
  | false =>
    have hnot : cancelSent = false := by
      cases cancelSent with
      | false => rfl
      | true => exact absurd (hwithdrawn rfl) (by simp)
    refine ⟨?_, ?_, fun h => ?_, fun h => ?_, fun _ h => ?_⟩
    · cases processed with
      | false => rfl
      | true =>
        cases requestSent with
        | true => rfl
        | false => exact absurd (hunwanted rfl rfl) (by simp)
    · exact (Bool.or_false _).symm
    · cases h
    · rw [hnot] at h
      cases h
    · cases processed with
      | false => cases h
      | true =>
        have h : requestSent = false := h
        exact absurd (hunwanted rfl h) (by simp)

/-- the invariant: the flags of each entry count the messages that announce it -/
structure Announced (es : List CidEntry) (s : Announcer) : Prop where
  queue : s.request.cidsWeWant = es.map some
  length : s.seen.length = es.length
  tracks : ∀ (i : Nat) e seen, es[i]? = some e → s.seen[i]? = some seen → Tracks e seen
  messages : List.Forall₂ (fun sent marks =>
    sent.message.wanted = marks.map (announcement (es.map some))) s.sent s.marks
  order : ∀ marks ∈ s.marks, (marks.map Prod.fst).Pairwise (· < ·)
  places : ∀ marks ∈ s.marks, ∀ mark ∈ marks, mark.1 < es.length
  want : ∀ (i : Nat) e, es[i]? = some e →
    s.marks.flatten.count (i, false) = if e.requestHasBeenSent then 1 else 0
  cancel : ∀ (i : Nat) e, es[i]? = some e →
    s.marks.flatten.count (i, true) = if e.cancelHasBeenSent then 1 else 0
  after : ∀ i before marks behind, s.marks = before ++ marks :: behind → (i, true) ∈ marks →
    (i, false) ∉ behind.flatten
  quiet : s.quiet = true → es.any CidEntry.due = false

theorem Announced.announcedOnce {es : List CidEntry} {s : Announcer} (h : Announced es s) :
    AnnouncedOnce s := by
  have hlen : s.request.cidsWeWant.length = es.length := by rw [h.queue, List.length_map]
  have hat : ∀ (i : Nat) seen, s.seen[i]? = some seen → ∃ e, es[i]? = some e ∧ Tracks e seen := by
    intro i seen hseen
    have hlt := (List.getElem?_eq_some_iff.1 hseen).1
    rw [h.length] at hlt
    exact ⟨es[i], List.getElem?_eq_getElem hlt, h.tracks i _ _ (List.getElem?_eq_getElem hlt) hseen⟩
  refine ⟨?_, h.order, ?_, ?_, fun i seen hseen => ?_, fun i seen hseen => ?_, h.after, fun hq => ?_,
    fun net files peer message built bytes peer' hconnect hdue hbuild hsend => ?_⟩
  · rw [h.queue]
    exact h.messages
  · rw [hlen]
    exact h.places
  · rw [hlen]
    exact h.length
  · obtain ⟨e, he, ht⟩ := hat i seen hseen
    rw [h.want i e he, ht.want]
  · obtain ⟨e, he, ht⟩ := hat i seen hseen
    rw [h.cancel i e he, ht.cancel]
  · rw [h.queue, peerRequestWeWantCids_eq, h.quiet hq]
  · have hcall := peerRequestProcessEntry_of_reaches
      (reaches_iff.2 ⟨hconnect, needToConnect_of_due hdue⟩) hbuild hsend
    exact ⟨_, by rw [announceStep, hcall]; rfl, rfl⟩

/-- what is known of the right list may be used pair by pair -/
theorem forall₂_of_right {α β : Type} {R S : α → β → Prop} {P : β → Prop} {as : List α}
    {bs : List β} (h : List.Forall₂ R as bs) (hP : ∀ b ∈ bs, P b)
    (himp : ∀ a b, P b → R a b → S a b) : List.Forall₂ S as bs := by
  induction h with
  | nil => exact .nil
  | @cons a b as bs hab _ ih =>
    exact .cons (himp a b (hP b List.mem_cons_self) hab)
      (ih fun c hc => hP c (List.mem_cons_of_mem _ hc))

section
variable {es es' : List CidEntry} {s : Announcer}

/-- the entries of the one queue are in the other, with their CIDs -/
def SameCids (es es' : List CidEntry) : Prop :=
  ∀ (i : Nat) e, es[i]? = some e → ∃ e', es'[i]? = some e' ∧ e'.cid = e.cid

theorem Announced.messages_congr (h : Announced es s) (hcids : SameCids es es') :
    List.Forall₂ (fun sent marks =>
      sent.message.wanted = marks.map (announcement (es'.map some))) s.sent s.marks := by
  refine forall₂_of_right h.messages h.places fun sent marks hplaces hm => ?_
  rw [hm]
  refine List.map_congr_left fun mark hmark => ?_
  have hlt := hplaces mark hmark
  obtain ⟨e', he', hcid⟩ := hcids mark.1 _ (List.getElem?_eq_getElem hlt)
  unfold announcement utilsVectorGet
  rw [List.getElem?_map, List.getElem?_map, he', List.getElem?_eq_getElem hlt]
  show some _ = some _
  simp only [Option.map_some, Option.join_some, Option.bind_some, hcid]

/-- nothing is said of a place behind the queue -/
theorem Announced.count_behind (h : Announced es s) {i : Nat} (hi : es.length ≤ i) (cancel : Bool) :
    s.marks.flatten.count (i, cancel) = 0 := by
  rw [List.count_eq_zero]
  intro hmem
  obtain ⟨marks, hmarks, hmem⟩ := List.mem_flatten.1 hmem
  have hlt := h.places marks hmarks _ hmem
  exact absurd hlt (by simpa using hi)

/-- **a want** -/
theorem Announced.addWant (h : Announced es s) (cid : Cid) :
    Announced (es ++ [{ peerRequestCidEntryNew with cid := some cid }])
      { s with request := s.request.addWant cid, seen := s.seen ++ [{}], quiet := false } := by
  have hcases : ∀ (i : Nat) e,
      (es ++ [{ peerRequestCidEntryNew with cid := some cid }])[i]? = some e →
        es[i]? = some e ∨ i = es.length ∧ e = { peerRequestCidEntryNew with cid := some cid } := by
    intro i e he
    rcases Nat.lt_or_ge i es.length with hlt | hge
    · rw [List.getElem?_append_left hlt] at he
      exact .inl he
    · rw [List.getElem?_append_right hge] at he
      obtain ⟨hlt, heq⟩ := List.getElem?_eq_some_iff.1 he
      have hlt : i - es.length < 1 := hlt
      rw [List.getElem_singleton] at heq
      exact .inr ⟨by omega, heq.symm⟩
  refine ⟨?_, ?_, fun i e seen he hseen => ?_, h.messages_congr fun i e he => ?_, h.order,
    fun marks hm mark hmark => ?_, fun i e he => ?_, fun i e he => ?_, h.after, fun hq => ?_⟩
  · show utilsVectorAdd s.request.cidsWeWant _ = _
    rw [h.queue, utilsVectorAdd, List.map_append]
    rfl
  · rw [List.length_append, List.length_append, h.length]
    rfl
  · rcases hcases i e he with he | ⟨rfl, rfl⟩
    · have hlt : i < s.seen.length := by
        rw [h.length]
        exact (List.getElem?_eq_some_iff.1 he).1
      rw [List.getElem?_append_left hlt] at hseen
      exact h.tracks i e seen he hseen
    · rw [← h.length, List.getElem?_append_right (Nat.le_refl _), Nat.sub_self] at hseen
      obtain rfl := Option.some.inj hseen
      refine ⟨rfl, rfl, fun _ => ⟨rfl, rfl⟩, fun hno => ?_, fun hno => ?_⟩
      · cases hno
      · cases hno
  · have hlt := (List.getElem?_eq_some_iff.1 he).1
    exact ⟨e, by rw [List.getElem?_append_left hlt, he], rfl⟩
  · rw [List.length_append]
    exact Nat.lt_of_lt_of_le (h.places marks hm mark hmark) (Nat.le_add_right _ _)
  · rcases hcases i e he with he | ⟨rfl, rfl⟩
    · exact h.want i e he
    · exact h.count_behind (Nat.le_refl _) false
  · rcases hcases i e he with he | ⟨rfl, rfl⟩
    · exact h.cancel i e he
    · exact h.count_behind (Nat.le_refl _) true
  · cases hq

/-- **a cancel** -/
theorem Announced.cancelWant (h : Announced es s) (place : Nat) :
    Announced (es.modify place fun e => { e with cancel := true })
      { s with request := s.request.cancelWant place, quiet := false } := by
  have hcases : ∀ (i : Nat) e,
      (es.modify place fun e => { e with cancel := true })[i]? = some e →
        ∃ a, es[i]? = some a ∧ (e = a ∨ e = { a with cancel := true }) := by
    intro i e he
    by_cases hi : place = i
    · subst hi
      rw [List.getElem?_modify_eq] at he
      obtain ⟨a, ha, rfl⟩ := Option.map_eq_some_iff.1 he
      exact ⟨a, ha, .inr rfl⟩
    · rw [List.getElem?_modify_ne _ _ hi] at he
      exact ⟨e, he, .inl rfl⟩
  have hlen : (es.modify place fun e => { e with cancel := true }).length = es.length :=
    List.length_modify _ _ _
  refine ⟨?_, ?_, fun i e seen he hseen => ?_, h.messages_congr fun i e he => ?_, h.order, ?_,
    fun i e he => ?_, fun i e he => ?_, h.after, fun hq => ?_⟩
  · show s.request.cidsWeWant.modify place _ = _
    rw [h.queue]
    refine List.ext_getElem? fun i => ?_
    by_cases hi : place = i
    · subst hi
      rw [List.getElem?_modify_eq, List.getElem?_map, List.getElem?_map, List.getElem?_modify_eq]
      cases es[place]? <;> rfl
    · rw [List.getElem?_modify_ne _ _ hi, List.getElem?_map, List.getElem?_map,
        List.getElem?_modify_ne _ _ hi]
  · rw [hlen]
    exact h.length
  · obtain ⟨a, ha, rfl | rfl⟩ := hcases i e he
    · exact h.tracks i e seen ha hseen
    · exact (h.tracks i a seen ha hseen).cancelled
  · by_cases hi : place = i
    · subst hi
      exact ⟨{ e with cancel := true }, by rw [List.getElem?_modify_eq, he]; rfl, rfl⟩
    · exact ⟨e, by rw [List.getElem?_modify_ne _ _ hi, he], rfl⟩
  · rw [hlen]
    exact h.places
  · obtain ⟨a, ha, rfl | rfl⟩ := hcases i e he
    · exact h.want i e ha
    · exact h.want i a ha
  · obtain ⟨a, ha, rfl | rfl⟩ := hcases i e he
    · exact h.cancel i e ha
    · exact h.cancel i a ha
  · cases hq

/-- an entry whose cancel has been announced is cancelled -/
theorem Announced.cancelled_of_mem (h : Announced es s) {i : Nat} {e : CidEntry}
    (he : es[i]? = some e) (hmem : (i, true) ∈ s.marks.flatten) : e.cancel = true := by
  have hsent : e.cancelHasBeenSent = true := by
    have hpos := List.count_pos_iff.2 hmem
    rw [h.cancel i e he] at hpos
    by_contra hno
    rw [if_neg hno] at hpos
    exact Nat.lt_irrefl 0 hpos
  have hlt : i < s.seen.length := by
    rw [h.length]
    exact (List.getElem?_eq_some_iff.1 he).1
  have ht := h.tracks i e _ he (List.getElem?_eq_getElem hlt)
  rw [ht.cancel] at hsent
  exact ht.withdrawn hsent

/-- what a message adds to what has been said of a place is what its entry is due for -/
theorem Announced.count_next (h : Announced es s) {i : Nat} {a : CidEntry} (ha : es[i]? = some a)
    (cancel : Bool) :
    (s.marks ++ [duePositions s.request.cidsWeWant]).flatten.count (i, cancel) =
      s.marks.flatten.count (i, cancel) + if a.due = true ∧ a.cancel = cancel then 1 else 0 := by
  have hflag : (∃ e, es[i]? = some e ∧ e.due = true ∧ e.cancel = cancel) ↔
      a.due = true ∧ a.cancel = cancel := by
    refine ⟨fun hdue => ?_, fun hdue => ⟨a, ha, hdue⟩⟩
    obtain ⟨e, he, hdue⟩ := hdue
    rw [ha] at he
    obtain rfl := Option.some.inj he
    exact hdue
  rw [List.flatten_append, List.count_append, List.flatten_singleton, h.queue, count_duePositions,
    if_congr hflag rfl rfl]

/-- a message does not want what has been cancelled before it -/
theorem Announced.after_next (h : Announced es s) {i : Nat}
    {before behind : List (List (Nat × Bool))} {marks : List (Nat × Bool)}
    (heq : s.marks ++ [duePositions s.request.cidsWeWant] = before ++ marks :: behind)
    (hmem : (i, true) ∈ marks) : (i, false) ∉ behind.flatten := by
  rcases List.eq_nil_or_concat behind with rfl | ⟨behind', last, rfl⟩
  · exact List.not_mem_nil
  · rw [List.concat_eq_append] at heq ⊢
    have hcons : before ++ marks :: (behind' ++ [last]) = (before ++ marks :: behind') ++ [last] := by
      rw [List.append_assoc]
      rfl
    rw [hcons] at heq
    obtain ⟨hmarks, hlast⟩ := List.append_inj' heq rfl
    obtain rfl := List.head_eq_of_cons_eq hlast
    intro hfalse
    rw [List.flatten_append, List.mem_append, List.flatten_singleton] at hfalse
    rcases hfalse with hfalse | hfalse
    · exact h.after i before marks behind' hmarks hmem hfalse
    · rw [h.queue] at hfalse
      obtain ⟨e, he, -, hcancel⟩ := mem_duePositions.1 hfalse
      have hin : (i, true) ∈ s.marks.flatten := by
        rw [hmarks]
        exact List.mem_flatten_of_mem (List.mem_append_right _ List.mem_cons_self) hmem
      rw [h.cancelled_of_mem he hin] at hcancel
      cases hcancel

/-- each entry is processed once more -/
theorem Announced.length_next (h : Announced es s) :
    (nextSeen s.request.cidsWeWant s.seen).length = es.length := by
  rw [nextSeen, List.length_zipWith, h.queue, List.length_map, h.length, Nat.min_self]

theorem Announced.tracks_next (h : Announced es s) {i : Nat} {e : CidEntry} {seen : Seen}
    (he : es[i]? = some e) (hseen : (nextSeen s.request.cidsWeWant s.seen)[i]? = some seen) :
    Tracks e.announced seen := by
  rw [nextSeen, h.queue, List.getElem?_zipWith, List.getElem?_map, he] at hseen
  cases hold : s.seen[i]? with
  | none =>
    rw [hold] at hseen
    cases hseen
  | some old =>
    rw [hold] at hseen
    obtain rfl := Option.some.inj hseen
    exact (h.tracks i e old he hold).next

/-- **nothing is due**, and the flags stay as they are -/
theorem Announced.idle (h : Announced es s) {request : PeerRequest}
    (hqueue : request.cidsWeWant = s.request.cidsWeWant) (hno : es.any CidEntry.due = false) :
    Announced es { s with
      request := request, seen := nextSeen s.request.cidsWeWant s.seen, quiet := true } := by
  refine ⟨hqueue.trans h.queue, h.length_next, fun i e seen he hseen => ?_, h.messages, h.order,
    h.places, h.want, h.cancel, h.after, fun _ => hno⟩
  have hdue := List.any_eq_false.1 hno e (List.mem_of_getElem? he)
  rw [← CidEntry.announced_of_not_due (Bool.eq_false_iff.2 hdue)]
  exact h.tracks_next he hseen

/-- **a message**: the entries that were due are announced by it, the others are not -/
theorem Announced.process (h : Announced es s) {request : PeerRequest} {sent : Sent}
    (hqueue : request.cidsWeWant = es.map fun e => some e.announced)
    (hsent : sent.message.wanted = (es.filter CidEntry.due).map fun e => e.want.entry) :
    Announced (es.map CidEntry.announced)
      { request := request
        sent := s.sent ++ [sent]
        marks := s.marks ++ [duePositions s.request.cidsWeWant]
        seen := nextSeen s.request.cidsWeWant s.seen
        quiet := true } := by
  have hat : ∀ (i : Nat) e, (es.map CidEntry.announced)[i]? = some e →
      ∃ a, es[i]? = some a ∧ e = a.announced := by
    intro i e he
    rw [List.getElem?_map] at he
    obtain ⟨a, ha, rfl⟩ := Option.map_eq_some_iff.1 he
    exact ⟨a, ha, rfl⟩
  have hcids : SameCids es (es.map CidEntry.announced) := fun i e he =>
    ⟨e.announced, by rw [List.getElem?_map, he]; rfl, CidEntry.announced_cid⟩
  refine ⟨?_, ?_, fun i e seen he hseen => ?_, ?_, fun marks hm => ?_, fun marks hm mark hmark => ?_,
    fun i e he => ?_, fun i e he => ?_, fun i before marks behind heq => h.after_next heq,
    fun _ => ?_⟩
  · rw [List.map_map]
    exact hqueue
  · rw [List.length_map]
    exact h.length_next
  · obtain ⟨a, ha, rfl⟩ := hat i e he
    exact h.tracks_next ha hseen
  · refine List.rel_append (h.messages_congr hcids) (.cons ?_ .nil)
    rw [hsent, h.queue, ← map_announcement]
    refine List.map_congr_left fun mark hmark => ?_
    obtain ⟨e, he, -⟩ := mem_duePositions.1 hmark
    obtain ⟨e', he', hcid⟩ := hcids mark.1 e he
    unfold announcement utilsVectorGet
    rw [List.getElem?_map, List.getElem?_map, he, he']
    show some _ = some _
    simp only [Option.map_some, Option.join_some, Option.bind_some, hcid]
  · rcases List.mem_append.1 hm with hm | hm
    · exact h.order marks hm
    · rw [List.mem_singleton.1 hm]
      exact duePositions_pairwise
  · rw [List.length_map]
    rcases List.mem_append.1 hm with hm | hm
    · exact h.places marks hm mark hmark
    · rw [List.mem_singleton.1 hm, h.queue] at hmark
      obtain ⟨e, he, -⟩ := mem_duePositions.1 hmark
      exact (List.getElem?_eq_some_iff.1 he).1
  · obtain ⟨a, ha, rfl⟩ := hat i e he
    rw [h.count_next ha, h.want i a ha]
    obtain ⟨cid, cancel, cancelSent, requestSent⟩ := a
    cases cancel <;> cases requestSent <;> cases cancelSent <;> rfl
  · obtain ⟨a, ha, rfl⟩ := hat i e he
    rw [h.count_next ha, h.cancel i a ha]
    obtain ⟨cid, cancel, cancelSent, requestSent⟩ := a
    cases cancel <;> cases requestSent <;> cases cancelSent <;> rfl
  · rw [List.any_eq_false]
    intro e he
    obtain ⟨a, -, rfl⟩ := List.mem_map.1 he
    simp

/-- **one operation** -/
theorem announced_of_step {op : AnnounceOp} {s' : Announcer} (h : Announced es s)
    (hop : SendsSucceed op s) (hstep : announceStep op s = .ok s') : ∃ es', Announced es' s' := by
  cases op with
  | want cid =>
    cases hstep
    exact ⟨_, h.addWant cid⟩
  | cancel place =>
    cases hstep
    exact ⟨_, h.cancelWant place⟩
  | other peer cidsTheyWant blocks =>
    cases hstep
    exact ⟨es, h.queue, h.length, h.tracks, h.messages, h.order, h.places, h.want, h.cancel, h.after,
      h.quiet⟩
  | process net files =>
    obtain ⟨⟨sent, request⟩, hcall, hstep⟩ := bind_eq_ok.1 hstep
    rcases peerRequestProcessEntry_eq_ok hcall with ⟨rfl, hnot, p, rfl, -⟩ | hbuilt
    · cases hconnect : connectsTo net s.request with
      | none =>
        rw [hconnect] at hstep
        cases hstep
        exact ⟨es, h.queue, h.length, h.tracks, h.messages, h.order, h.places, h.want, h.cancel,
          h.after, h.quiet⟩
      | some peer =>
        -- there is a connection, so it can only be that nothing is due
        have hno : es.any CidEntry.due = false := by
          by_contra hdue
          refine hnot peer (reaches_iff.2 ⟨hconnect, needToConnect_of_due ?_⟩)
          rw [h.queue, peerRequestWeWantCids_eq, (Bool.not_eq_false _).mp hdue]
        rw [hconnect] at hstep
        cases hstep
        exact ⟨es, h.idle rfl hno⟩
    · obtain ⟨peer, message, built, bytes, peer', hreach, hbuild, hsend, rfl, rfl⟩ := hbuilt
      cases bytes with
      | none => exact absurd hsend (hop peer message built peer' hreach hbuild)
      | some bytes =>
        rw [(reaches_iff.1 hreach).1] at hstep
        cases hstep
        obtain ⟨marked, found, payload, es', -, -, hes, hmessage, hwe, -, -⟩ :=
          buildMessage_eq_ok hbuild
        have heq : es.map some = es'.map some := h.queue.symm.trans hes
        obtain rfl := List.map_injective_iff.2 (Option.some_injective CidEntry) heq
        exact ⟨_, h.process hwe (by rw [hmessage]; rfl)⟩

end

/-- nothing is wanted yet -/
def announcerNew (request : PeerRequest) : Announcer :=
  { request := { request with cidsWeWant := [] } }

theorem announced_new (request : PeerRequest) : Announced [] (announcerNew request) := by
  refine ⟨rfl, rfl, fun i e seen he => ?_, .nil, fun marks hm => ?_, fun marks hm => ?_,
    fun i e he => ?_, fun i e he => ?_, fun i before marks behind heq => ?_, fun _ => rfl⟩
  · cases he
  · cases hm
  · cases hm
  · cases he
  · cases he
  · exact absurd heq (by simp [announcerNew])

/-- **exactly once**: in every run whose messages do not fail to be sent, in every state reached -/
theorem holdsReached_announcedOnce {ops : List AnnounceOp} {request : PeerRequest}
    (h : Guarded announceStep SendsSucceed ops (announcerNew request)) :
    HoldsReached announceStep AnnouncedOnce ops (announcerNew request) := by
  have hrun : HoldsReached announceStep (fun s => ∃ es, Announced es s) ops
      (announcerNew request) := by
    refine holdsReached_of_step (fun op s s' hinv hop hstep => ?_) ⟨[], announced_new request⟩ h
    obtain ⟨es, hes⟩ := hinv
    exact announced_of_step hes hop hstep
  intro before behind s heq hreach
  obtain ⟨es, hes⟩ := hrun before behind s heq hreach
  exact hes.announcedOnce

/-! ### a run -/

/-- a network that takes what it is given -/
def liveNet : PeerNet := ⟨fun _ peer => (true, peer), fun bytes => bytes.length⟩

/-- what is written to a connected peer is sent, and the peer stays as it is -/
theorem bitswapNetworkSendMessage_connected {net : PeerNet} {peer peer' : Peer}
    {message : BitswapMessage} {bytes : Option (List UInt8)}
    (hwrite : ∀ rest, 0 < net.write (bitswapProtocolHeader ++ rest))
    (htype : peer.connectionType = connectionTypeConnected) (hsession : peer.hasSession = true)
    (h : bitswapNetworkSendMessage net peer message = .ok (bytes, peer')) :
    peer' = peer ∧ ∃ buf, bytes = some (bitswapProtocolHeader ++ buf) := by
  have hsame : connectionToPeer net peer = .ok peer := by
    unfold connectionToPeer
    rw [if_neg (by simp [htype, hsession])]
  obtain ⟨id, -, h⟩ := bind_eq_ok.1 h
  rw [hsame, ok_bind, if_neg (by simp [htype])] at h
  obtain ⟨size, -, h⟩ := bind_eq_ok.1 h
  obtain ⟨buf, -, h⟩ := bind_eq_ok.1 h
  obtain ⟨-, h⟩ := require_bind_eq_ok.1 h
  simp only [hwrite, if_true] at h
  cases h
  exact ⟨rfl, buf, rfl⟩

/-- every message to a connected peer is sent, and the peer stays connected -/
theorem sendsSucceed_connected {net : PeerNet} {files : Files} {s : Announcer} {peer : Peer}
    (hwrite : ∀ rest, 0 < net.write (bitswapProtocolHeader ++ rest))
    (hpeer : s.request.peer = some peer) (htype : peer.connectionType = connectionTypeConnected)
    (hsession : peer.hasSession = true) :
    SendsSucceed (.process net files) s ∧
      ∀ s', announceStep (.process net files) s = .ok s' → s'.request.peer = some peer := by
  have hconnect : ensureConnected net peer = .ok (true, peer) := by
    unfold ensureConnected
    rw [if_pos (by simp [htype])]
  have hreached : ∀ p, Reaches net s.request p → p = peer := by
    intro p hreach
    obtain ⟨q, hq, -, -, hq'⟩ := hreach
    rw [hpeer] at hq
    obtain rfl := Option.some.inj hq
    rw [hconnect] at hq'
    cases hq'
    rfl
  refine ⟨fun p message built peer' hreach hbuild hsend => ?_, fun s' hstep => ?_⟩
  · obtain rfl := hreached p hreach
    obtain ⟨-, buf, hbuf⟩ := bitswapNetworkSendMessage_connected hwrite htype hsession hsend
    cases hbuf
  · obtain ⟨⟨sent, request⟩, hcall, hstep⟩ := bind_eq_ok.1 hstep
    have hsame : request.peer = some peer := by
      rcases peerRequestProcessEntry_eq_ok hcall with ⟨-, -, p, rfl, hp⟩ | hbuilt
      · rcases hp with rfl | ⟨q, r, hq, hfail, -⟩
        · exact hpeer
        · rw [hpeer] at hq
          obtain rfl := Option.some.inj hq
          rw [hconnect] at hfail
          cases hfail
      · obtain ⟨p, message, built, bytes, peer', hreach, -, hsend, -, rfl⟩ := hbuilt
        obtain rfl := hreached p hreach
        rw [(bitswapNetworkSendMessage_connected hwrite htype hsession hsend).1]
    cases sent with
    | none =>
      cases hstep
      exact hsame
    | some message =>
      cases hstep
      exact hsame

/-- a CID is wanted, announced, cancelled, and announced as cancelled -/
def wantAndCancel : List AnnounceOp :=
  [.want (cidNew 1 (List.replicate 32 1) 0x70), .process liveNet (fun _ => none), .cancel 0,
    .process liveNet (fun _ => none)]

theorem holdsReached_announcedOnce_cancel :
    HoldsReached announceStep AnnouncedOnce wantAndCancel
        (announcerNew { peer := some peerInReach }) ∧
      (runOps announceStep wantAndCancel (announcerNew { peer := some peerInReach })).toOption.map
        Announcer.marks = some [[(0, false)], [(0, true)]] := by
  have hwrite : ∀ rest, 0 < liveNet.write (bitswapProtocolHeader ++ rest) := by
    intro rest
    show (0 : Int) < ((bitswapProtocolHeader ++ rest).length : Nat)
    rw [List.length_append]
    exact Int.natCast_pos.2 (Nat.add_pos_left (by decide) _)
  have hsends : ∀ s : Announcer, s.request.peer = some peerInReach →
      SendsSucceed (.process liveNet fun _ => none) s ∧
        ∀ s', announceStep (.process liveNet fun _ => none) s = .ok s' →
          s'.request.peer = some peerInReach :=
    fun s hs => sendsSucceed_connected hwrite hs rfl rfl
  refine ⟨holdsReached_announcedOnce ⟨trivial, fun s1 h1 => ?_⟩, by decide +kernel⟩
  have hpeer : s1.request.peer = some peerInReach := by
    cases h1
    rfl
  obtain ⟨hfirst, hkept⟩ := hsends s1 hpeer
  refine ⟨hfirst, fun s2 h2 => ⟨trivial, fun s3 h3 => ⟨(hsends s3 ?_).1, fun _ _ => trivial⟩⟩⟩
  cases h3
  exact hkept s2 h2

end Ipfs
