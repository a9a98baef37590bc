import Libipfs.Bitswap.Process

/-!
# Messages that say something

A request is handled when something is due, and a message with nothing in it is of no use.  But the
test for something to do counts every CID the peer wants that is not cancelled, and the message has
those blocks only that are in the store.

* `Useful`             the message has a want, a cancel or a block;
* `SendsUseful`        what is sent is useful, and the call after it sends nothing;
* `Waits`              a CID the peer wants stays in the list: its block is not in the store, and
                       none that is sent marks it;
* `sendsUseful_iff`    **as long as one of those is in the list, messages go out**, whatever is in
                       them.
-/

namespace Ipfs
open CSem Libp2p

/-- a want, a cancel or a block -/
def Useful (message : BitswapMessage) : Prop :=
  message.wanted ≠ [] ∨ message.payload.getD [] ≠ []

/-- a message that is sent is useful, and the next call, on whatever network, sends none -/
def SendsUseful (net : PeerNet) (files : Files) (request : PeerRequest) : Prop :=
  ∀ sent request', peerRequestProcessEntry net files request = .ok (some sent, request') →
    Useful sent.message ∧ ∀ net' sent' request'',
      peerRequestProcessEntry net' files request' = .ok (sent', request'') → sent' = none

/-- dialing a peer does not change its id -/
def KeepsId (net : PeerNet) : Prop := ∀ timeout peer, (net.joinSwarm timeout peer).2.id = peer.id

/-- the place of the entry that is marked for a block of this CID -/
def firstOf (cid : Option Cid) (cids : List (Option CidEntry)) : Option Nat :=
  cids.findIdx? fun entry => entry.any fun e => cidCompare e.cid cid = 0

/-- the blocks in the store of the CIDs that are not cancelled -/
def storeBlocks (files : Files) : List (Option CidEntry) → List (Option Block)
  | [] => []
  | none :: entries => storeBlocks files entries
  | some e :: entries =>
    if e.cancel then storeBlocks files entries
    else
      match blockstoreGet e.cid files with
      | .ok (some block) => some block :: storeBlocks files entries
      | _ => storeBlocks files entries

/-- the CID at the place is not cancelled, its block is not in the store, and it is not the first
one that compares equal to that of a block that is queued or found -/
def Waits (files : Files) (request : PeerRequest) (i : Nat) : Prop :=
  (∃ e, request.cidsTheyWant[i]? = some (some e) ∧ e.cancel = false ∧
    blockstoreGet e.cid files = .ok none) ∧
  ∀ block, some block ∈ request.blocksWeWantToSend ++ storeBlocks files request.cidsTheyWant →
    firstOf block.cid request.cidsTheyWant ≠ some i

/-- a message goes out: the peer is reached, the message can be built, and the network takes it -/
def SendsMessage (net : PeerNet) (files : Files) (request : PeerRequest) : Prop :=
  ∃ peer message built bytes peer', Reaches net request peer ∧
    buildMessage files request = .ok (message, built) ∧
    bitswapNetworkSendMessage net peer message = .ok (some bytes, peer')

/-- an entry that is not cancelled is at the place -/
def OpenAt (cids : List (Option CidEntry)) (i : Nat) : Prop :=
  ∃ e, cids[i]? = some (some e) ∧ e.cancel = false

section
variable {files : Files} {cids cids' : List (Option CidEntry)} {found : List (Option Block)}
variable {entry : Option CidEntry} {cid : Option Cid} {i : Nat}

/-! ## places -/

theorem openAt_zero : OpenAt (entry :: cids) 0 ↔ ∃ e, entry = some e ∧ e.cancel = false := by
  show (∃ e, some entry = some (some e) ∧ _) ↔ _
  simp only [Option.some.injEq]

theorem openAt_succ : OpenAt (entry :: cids) (i + 1) ↔ OpenAt cids i := Iff.rfl

theorem cidsWaiting_iff : peerRequestCidsWaiting cids = true ↔ ∃ i, OpenAt cids i := by
  unfold peerRequestCidsWaiting OpenAt
  rw [List.any_eq_true]
  constructor
  · intro ⟨entry, hmem, hopen⟩
    obtain ⟨i, hi⟩ := List.mem_iff_getElem?.1 hmem
    cases entry with
    | none => cases hopen
    | some e => exact ⟨i, e, hi, by simpa using hopen⟩
  · intro ⟨i, e, hi, hopen⟩
    exact ⟨some e, List.mem_of_getElem? hi, by simp [hopen]⟩

/-- the place depends on the CIDs only -/
theorem firstOf_congr (h : cids.map (·.map CidEntry.cid) = cids'.map (·.map CidEntry.cid)) :
    firstOf cid cids = firstOf cid cids' := by
  have hmap (cids : List (Option CidEntry)) : firstOf cid cids =
      (cids.map (·.map CidEntry.cid)).findIdx? fun c => c.any fun c => cidCompare c cid = 0 := by
    unfold firstOf
    rw [List.findIdx?_map]
    congr 1
    funext entry
    cases entry <;> rfl
  rw [hmap, hmap, h]

/-! ## what is marked -/

/-- the first entry of the CID is marked, the others stay -/
theorem messageCancelCid_openAt (h : messageCancelCid cid cids = .ok cids') :
    cids'.map (·.map CidEntry.cid) = cids.map (·.map CidEntry.cid) ∧
      ∀ i, OpenAt cids' i ↔ OpenAt cids i ∧ firstOf cid cids ≠ some i := by
  induction cids generalizing cids' with
  | nil =>
    cases h
    refine ⟨rfl, fun i => ⟨fun ho => ?_, fun ho => ho.1⟩⟩
    obtain ⟨e, he, -⟩ := ho
    cases he
  | cons entry cids ih =>
    rw [messageCancelCid] at h
    obtain ⟨a, ha, hnext⟩ := bind_eq_ok.1 h
    obtain rfl := deref_eq_ok.1 ha
    have hfirst : firstOf cid (some a :: cids) =
        if cidCompare a.cid cid = 0 then some 0 else (firstOf cid cids).map (· + 1) := by
      unfold firstOf
      rw [List.findIdx?_cons]
      show (if decide (cidCompare a.cid cid = 0) then _ else _) = _
      simp only [decide_eq_true_eq]
    rw [hfirst]
    by_cases heq : cidCompare a.cid cid = 0
    · rw [if_pos heq] at hnext
      cases hnext
      rw [if_pos heq]
      refine ⟨rfl, fun i => ?_⟩
      cases i with
      | zero =>
        rw [openAt_zero]
        constructor
        · intro h
          obtain ⟨e, he, hopen⟩ := h
          cases he
          cases hopen
        · intro h
          obtain ⟨_, hne⟩ := h
          exact absurd rfl hne
      | succ i =>
        rw [openAt_succ, openAt_succ]
        exact ⟨fun ho => ⟨ho, fun h => by cases h⟩, fun ho => ho.1⟩
    · rw [if_neg heq] at hnext
      obtain ⟨rest, hrest, hnext⟩ := bind_eq_ok.1 hnext
      cases hnext
      rw [if_neg heq]
      obtain ⟨hcids, hopen⟩ := ih hrest
      refine ⟨by rw [List.map_cons, List.map_cons, hcids], fun i => ?_⟩
      cases i with
      | zero =>
        rw [openAt_zero, openAt_zero]
        refine ⟨fun ho => ⟨ho, fun h => ?_⟩, fun ho => ho.1⟩
        obtain ⟨j, -, hj⟩ := Option.map_eq_some_iff.1 h
        cases hj
      | succ i =>
        rw [openAt_succ, openAt_succ, hopen i]
        refine and_congr_right fun _ => not_congr ?_
        constructor
        · intro h
          rw [h]
          rfl
        · intro h
          obtain ⟨j, hj, hji⟩ := Option.map_eq_some_iff.1 h
          rw [hj, Nat.succ.inj hji]

theorem messageAddBlocks_openAt {blocks : List (Option Block)} {payload : List Block}
    (h : messageAddBlocks blocks cids = .ok (payload, cids')) (i : Nat) :
    OpenAt cids' i ↔
      OpenAt cids i ∧ ∀ block, some block ∈ blocks → firstOf block.cid cids ≠ some i := by
  induction blocks generalizing cids payload cids' with
  | nil =>
    cases h
    exact ⟨fun ho => ⟨ho, fun _ hb => absurd hb List.not_mem_nil⟩, fun ho => ho.1⟩
  | cons current blocks ih =>
    obtain ⟨block, hblock, hnext⟩ := bind_eq_ok.1 h
    obtain rfl := deref_eq_ok.1 hblock
    obtain ⟨marked, hmarked, hnext⟩ := bind_eq_ok.1 hnext
    obtain ⟨⟨rest, after⟩, hrest, hnext⟩ := bind_eq_ok.1 hnext
    cases hnext
    obtain ⟨hcids, hopen⟩ := messageCancelCid_openAt hmarked
    rw [ih hrest, hopen i]
    constructor
    · intro ⟨⟨ho, hfirst⟩, hall⟩
      refine ⟨ho, fun b hb => ?_⟩
      rcases List.mem_cons.1 hb with heq | hb
      · obtain rfl := Option.some.inj heq
        exact hfirst
      · rw [← firstOf_congr hcids]
        exact hall b hb
    · intro ⟨ho, hall⟩
      refine ⟨⟨ho, hall block List.mem_cons_self⟩, fun b hb => ?_⟩
      rw [firstOf_congr hcids]
      exact hall b (List.mem_cons_of_mem _ hb)

/-- places that stay open under a condition, with one more in front -/
theorem openAt_cons_iff {entry' : Option CidEntry} {P : CidEntry → Prop}
    (hhead : (∃ e, entry' = some e ∧ e.cancel = false) ↔
      ∃ e, entry = some e ∧ e.cancel = false ∧ P e)
    (htail : ∀ i, OpenAt cids' i ↔ ∃ e, cids[i]? = some (some e) ∧ e.cancel = false ∧ P e)
    (i : Nat) : OpenAt (entry' :: cids') i ↔
      ∃ e, (entry :: cids)[i]? = some (some e) ∧ e.cancel = false ∧ P e := by
  cases i with
  | zero =>
    rw [openAt_zero, hhead]
    show _ ↔ ∃ e, some entry = some (some e) ∧ _
    simp only [Option.some.injEq]
  | succ i => exact htail i

/-- the store marks the CIDs whose blocks it has -/
theorem getBlocksTheyWant_openAt (h : getBlocksTheyWant files cids = .ok (cids', found)) :
    found = storeBlocks files cids ∧
      cids'.map (·.map CidEntry.cid) = cids.map (·.map CidEntry.cid) ∧
      ∀ i, OpenAt cids' i ↔ ∃ e, cids[i]? = some (some e) ∧ e.cancel = false ∧
        blockstoreGet e.cid files = .ok none := by
  induction cids generalizing cids' found with
  | nil =>
    cases h
    refine ⟨rfl, rfl, fun i => ⟨fun ho => ?_, fun ho => ?_⟩⟩
    · obtain ⟨e, he, -⟩ := ho
      cases he
    · obtain ⟨e, he, -⟩ := ho
      cases he
  | cons entry cids ih =>
    obtain ⟨rest, blocks, hrest, ⟨hsettled, rfl, rfl⟩ | ⟨a, block, rfl, hcancel, hgot, rfl, rfl⟩⟩ :=
      getBlocksTheyWant_cons h
    · obtain ⟨rfl, hcids, hopen⟩ := ih hrest
      refine ⟨?_, by rw [List.map_cons, List.map_cons, hcids], openAt_cons_iff ?_ hopen⟩
      · cases entry with
        | none => rfl
        | some a =>
          rw [storeBlocks]
          rcases hsettled a rfl with hcancel | hget
          · rw [if_pos hcancel]
          · rw [hget, ite_self]
      · refine exists_congr fun e => and_congr_right fun he =>
          (and_iff_left_of_imp fun hopen => ?_).symm
        exact (hsettled e he).resolve_left (by rw [hopen]; exact Bool.false_ne_true)
    · obtain ⟨rfl, hcids, hopen⟩ := ih hrest
      refine ⟨by rw [storeBlocks, if_neg (by rw [hcancel]; exact Bool.false_ne_true), hgot],
        by rw [List.map_cons, List.map_cons, hcids]; rfl, openAt_cons_iff ?_ hopen⟩
      constructor
      · rintro ⟨e, he, ho⟩
        cases he
        cases ho
      · rintro ⟨e, he, -, hmissing⟩
        cases he
        rw [hgot] at hmissing
        cases hmissing

end

section
variable {net : PeerNet} {files : Files} {request built : PeerRequest}
variable {message : BitswapMessage} {i : Nat}

/-! ## one call -/

/-- **what is left** of the CIDs the peer wants when the message has been built -/
theorem openAt_built (h : buildMessage files request = .ok (message, built)) :
    OpenAt built.cidsTheyWant i ↔ Waits files request i := by
  obtain ⟨marked, found, payload, es, hfound, hblocks, -, -, -, -, -⟩ := buildMessage_eq_ok h
  obtain ⟨rfl, hcids, hopen⟩ := getBlocksTheyWant_openAt hfound
  rw [messageAddBlocks_openAt hblocks, hopen i]
  unfold Waits
  refine and_congr_right fun _ => forall₂_congr fun block _ => ?_
  rw [firstOf_congr hcids]

/-- with nothing in the message, something waits -/
theorem waits_of_not_useful (hneed : needToConnect request = .ok true)
    (h : buildMessage files request = .ok (message, built)) (huseful : ¬ Useful message) :
    ∃ i, Waits files request i := by
  obtain ⟨hwanted, hpayload⟩ := not_or.1 huseful
  obtain ⟨marked, found, payload, es, hfound, hblocks, hes, hmessage, -⟩ := buildMessage_eq_ok h
  have hnil : payload = [] := by
    by_contra hne
    rw [hmessage, if_neg hne] at hpayload
    exact hpayload hne
  have hfilter : (es.filter CidEntry.due).map (fun e => e.want.entry) = [] := by
    rw [hmessage] at hwanted
    exact not_not.1 hwanted
  have hempty : message = emptyMessage := by
    rw [hmessage, hnil, hfilter]
    rfl
  have hdue := (nothingDue_iff h).2 hempty
  have hwaiting : peerRequestCidsWaiting request.cidsTheyWant = true := by
    unfold needToConnect at hneed
    have hnone : es.any CidEntry.due = false := by
      rw [List.any_eq_false]
      intro e he
      rw [hdue.weWant e (by rw [hes]; exact List.mem_map_of_mem he)]
      exact Bool.false_ne_true
    rw [hes, peerRequestWeWantCids_eq, hnone, hdue.blocks, ok_bind] at hneed
    simpa using hneed
  obtain ⟨i, e, he, hopen⟩ := cidsWaiting_iff.1 hwaiting
  have hmissing := (hdue.theyWant e (List.mem_of_getElem? he)).resolve_left (by simp [hopen])
  refine ⟨i, ⟨e, he, hopen, hmissing⟩, ?_⟩
  -- no block is sent that could mark it
  have hsent := messageAddBlocks_payload hblocks
  rw [hnil, (getBlocksTheyWant_openAt hfound).1] at hsent
  rw [hsent]
  intro block hblock
  cases hblock

/-! ## the call after it -/

/-- behind a message there is nothing to do but for the CIDs that wait -/
theorem needToConnect_built (p : Option Peer)
    (h : buildMessage files request = .ok (message, built)) :
    ∃ need, needToConnect { built with peer := p } = .ok need ∧
      (need = true ↔ ∃ i, Waits files request i) := by
  obtain ⟨marked, found, payload, es, -, -, -, -, hwe, hqueue, -⟩ := buildMessage_eq_ok h
  have hnone : (es.map CidEntry.announced).any CidEntry.due = false := by
    rw [List.any_eq_false]
    intro e he
    obtain ⟨a, -, rfl⟩ := List.mem_map.1 he
    simp
  have hweWant : peerRequestWeWantCids built.cidsWeWant = .ok false := by
    have heq : peerRequestWeWantCids ((es.map CidEntry.announced).map some) = _ :=
      peerRequestWeWantCids_eq
    rw [hnone, List.map_map] at heq
    rw [hwe]
    exact heq
  refine ⟨peerRequestCidsWaiting built.cidsTheyWant, ?_, ?_⟩
  · unfold needToConnect
    simp only
    rw [hweWant, hqueue]
    show Except.ok (false || _ || false) = _
    rw [Bool.false_or, Bool.or_false]
  · rw [cidsWaiting_iff]
    exact exists_congr fun i => openAt_built h

theorem id_of_connectionToPeer (hid : KeepsId net) {peer peer' : Peer}
    (h : connectionToPeer net peer = .ok peer') : peer'.id = peer.id := by
  unfold connectionToPeer at h
  split at h
  · unfold peerConnect at h
    cases hstring : peerIdToString peer with
    | error e =>
      rw [hstring] at h
      cases h
    | ok id =>
      rw [hstring] at h
      cases h
      rw [hid]
      split <;> rfl
  · cases h
    rfl

/-- a peer that has been sent a message is connected, and its id fits the log -/
theorem connected_of_sent (hid : KeepsId net) {peer peer' : Peer} {bytes : List UInt8}
    (h : bitswapNetworkSendMessage net peer message = .ok (some bytes, peer')) :
    peer'.connectionType = connectionTypeConnected ∧ peer'.hasSession = true ∧
      peer'.id.length < 100 := by
  obtain ⟨id, hstring, h⟩ := bind_eq_ok.1 h
  obtain ⟨q, hq, h⟩ := bind_eq_ok.1 h
  obtain ⟨hlength, -⟩ := require_bind_eq_ok.1 hstring
  split at h
  · cases h
  · next hconnected =>
    obtain ⟨size, -, h⟩ := bind_eq_ok.1 h
    obtain ⟨buf, -, h⟩ := bind_eq_ok.1 h
    obtain ⟨hsession, h⟩ := require_bind_eq_ok.1 h
    obtain ⟨-, rfl⟩ := Prod.mk.inj (Except.ok.inj h)
    refine ⟨not_not.1 hconnected, hsession, ?_⟩
    rw [id_of_connectionToPeer hid hq]
    exact hlength

/-- a network on which every write succeeds -/
def PeerNet.writing (net : PeerNet) : PeerNet := { net with write := fun _ => 1 }

theorem send_emptyMessage (net : PeerNet) {peer : Peer} (htype : peer.connectionType = connectionTypeConnected)
    (hsession : peer.hasSession = true) (hlength : peer.id.length < 100) :
    ∃ bytes, bitswapNetworkSendMessage net.writing peer emptyMessage =
      .ok (some bytes, peer) := by
  have hstring : peerIdToString peer = .ok peer.id := by
    unfold peerIdToString
    rw [require_pos hlength]
    rfl
  have hsame : connectionToPeer net.writing peer = .ok peer := by
    unfold connectionToPeer
    rw [if_neg (by simp [htype, hsession])]
  have hsize : bitswapMessageProtobufEncodeSize emptyMessage = .ok 68 := by decide
  have hbuf : bitswapMessageProtobufEncode emptyMessage 68 = .ok [26, 2, 16, 1] := by
    decide
  refine ⟨bitswapProtocolHeader ++ [26, 2, 16, 1], ?_⟩
  unfold bitswapNetworkSendMessage
  rw [hstring, ok_bind, hsame, ok_bind, if_neg (not_not_intro htype), hsize, ok_bind, hbuf, ok_bind,
    require_pos hsession]
  rfl

/-- what goes out is what the steps of the call make of the request -/
theorem sendsMessage_iff : SendsMessage net files request ↔
    ∃ sent request', peerRequestProcessEntry net files request = .ok (some sent, request') := by
  constructor
  · intro ⟨peer, message, built, bytes, peer', hreach, hbuild, hsend⟩
    exact ⟨_, _, peerRequestProcessEntry_of_reaches hreach hbuild hsend⟩
  · intro ⟨sent, request', hcall⟩
    rcases peerRequestProcessEntry_eq_ok hcall with ⟨hnone, -⟩ | hbuilt
    · cases hnone
    · obtain ⟨peer, message, built, bytes, peer', hreach, hbuild, hsend, hsent, -⟩ := hbuilt
      cases bytes with
      | none => cases hsent
      | some bytes => exact ⟨peer, message, built, bytes, peer', hreach, hbuild, hsend⟩

/-- after a message the peer is in reach, and while a CID waits the next call sends again -/
theorem sendsMessage_again (hid : KeepsId net) {peer peer' : Peer} {bytes : List UInt8} {i : Nat}
    (hbuild : buildMessage files request = .ok (message, built))
    (hsend : bitswapNetworkSendMessage net peer message = .ok (some bytes, peer'))
    (hwaits : Waits files request i) :
    SendsMessage net.writing files { built with peer := some peer' } := by
  obtain ⟨htype, hsession, hlength⟩ := connected_of_sent hid hsend
  obtain ⟨need, hneed, htrue⟩ := needToConnect_built (some peer') hbuild
  obtain rfl : need = true := htrue.2 ⟨i, hwaits⟩
  have hreach : Reaches net.writing { built with peer := some peer' } peer' := by
    refine ⟨peer', rfl, ?_, hneed, ?_⟩
    · unfold hasEnoughInformation
      simp [htype]
    · unfold ensureConnected
      rw [htype]
      simp
  obtain ⟨bytes', hsend'⟩ := send_emptyMessage net htype hsession hlength
  exact ⟨_, _, _, _, _, hreach, buildMessage_peer (some peer') (buildMessage_again hbuild),
    hsend'⟩

/-- with no CID waiting there is nothing to do after the message -/
theorem not_sendsMessage_again (hbuild : buildMessage files request = .ok (message, built))
    (hwaits : ∀ i, ¬ Waits files request i) (p : Option Peer) (net' : PeerNet) :
    ¬ SendsMessage net' files { built with peer := p } := by
  intro ⟨_, _, _, _, _, ⟨_, _, _, hneed', _⟩, _⟩
  obtain ⟨need, hneed, htrue⟩ := needToConnect_built p hbuild
  rw [hneed] at hneed'
  obtain rfl : need = true := Except.ok.inj hneed'
  obtain ⟨i, hi⟩ := htrue.1 rfl
  exact hwaits i hi

/-- **when messages say something**: no CID waits, or nothing goes out -/
theorem sendsUseful_iff (hid : KeepsId net) : SendsUseful net files request ↔
    (∀ i, ¬ Waits files request i) ∨ ¬ SendsMessage net files request := by
  constructor
  · intro h
    rw [or_iff_not_imp_right, not_not]
    intro ⟨peer, message, built, bytes, peer', hreach, hbuild, hsend⟩ i hwaits
    obtain ⟨-, hnext⟩ := h _ _ (peerRequestProcessEntry_of_reaches hreach hbuild hsend)
    obtain ⟨sent, request', hcall⟩ :=
      sendsMessage_iff.1 (sendsMessage_again hid hbuild hsend hwaits)
    cases hnext _ _ _ hcall
  · intro h sent request' hcall
    have hwaits := h.resolve_right (not_not_intro (sendsMessage_iff.2 ⟨sent, request', hcall⟩))
    rcases peerRequestProcessEntry_eq_ok hcall with ⟨hnone, -⟩ | hbuilt
    · cases hnone
    · obtain ⟨peer, message, built, bytes, peer', hreach, hbuild, -, hsent, rfl⟩ := hbuilt
      have hmessage : sent.message = message := by
        cases bytes with
        | none => cases hsent
        | some bytes =>
          cases hsent
          rfl
      rw [hmessage]
      constructor
      · obtain ⟨p, -, -, hneed, -⟩ := hreach
        by_contra huseful
        obtain ⟨i, hi⟩ := waits_of_not_useful hneed hbuild huseful
        exact hwaits i hi
      · intro net' sent' request'' hcall'
        cases sent' with
        | none => rfl
        | some sent' =>
          exact absurd (sendsMessage_iff.2 ⟨sent', request'', hcall'⟩)
            (not_sendsMessage_again hbuild hwaits _ net')

theorem sendsUseful_iff_writing : SendsUseful deadNet.writing (fun _ => none) owingRequest ↔
    (∀ i, ¬ Waits (fun _ => none) owingRequest i) ∨
      ¬ SendsMessage deadNet.writing (fun _ => none) owingRequest :=
  sendsUseful_iff fun _ _ => rfl

end

/-- a peer wants one CID, and nothing else is due -/
def wantedRequest : PeerRequest where
  peer := some peerInReach
  cidsTheyWant := [some { cid := some (cidNew 1 (List.replicate 32 1) 0x70) }]

/-- the block is not in the store: a message with nothing in it goes out -/
theorem not_forall_sendsUseful : ¬ ∀ net files request, SendsUseful net files request := by
  intro h
  have hcall : peerRequestProcessEntry deadNet.writing (fun _ => none) wantedRequest =
      .ok (some ⟨emptyMessage, bitswapProtocolHeader ++ [26, 2, 16, 1]⟩, wantedRequest) := by
    decide
  obtain ⟨huseful, -⟩ := h _ _ _ _ _ hcall
  rcases huseful with hwanted | hpayload
  · exact hwanted rfl
  · exact hpayload rfl

end Ipfs
