import Libipfs.Bitswap.Network

/-!
# Handling a peer request

`ipfs_bitswap_peer_request_process_entry` puts what is owed to a peer, and what is wanted from it,
into one message.  Building the message empties the queue of blocks and sets the flags of the CIDs;
whether it is sent then changes nothing any more.

* `peerRequestProcessEntry`    the handling of one request;
* `peerRequestProcessEntry_eq_ok`   what a call does, taken apart once;
* `addWantlistItems_eq_ok`     which CIDs are announced, and in which order;
* `buildMessage_again`         a message built twice has nothing in it the second time;
* `losesNothing_iff`           when a message that cannot be sent is not lost.
-/

namespace Ipfs
open CSem Libp2p

/-! ## building the message -/

/-- the list with the CIDs whose blocks are in the store marked, and these blocks -/
def getBlocksTheyWant (files : Files) :
    List (Option CidEntry) → Exec (List (Option CidEntry) × List (Option Block))
  | [] => .ok ([], [])
  | none :: entries => do
    let (rest, blocks) ← getBlocksTheyWant files entries
    .ok (none :: rest, blocks)
  | some e :: entries =>
    if e.cancel then do
      let (rest, blocks) ← getBlocksTheyWant files entries
      .ok (some e :: rest, blocks)
    else do
      let found ← blockstoreGet e.cid files
      let (rest, blocks) ← getBlocksTheyWant files entries
      match found with
      | none => .ok (some e :: rest, blocks)
      | some block => .ok (some { e with cancel := true } :: rest, some block :: blocks)

/-- mark the first entry of the CID; every entry before it is followed -/
def messageCancelCid (incomingCid : Option Cid) :
    List (Option CidEntry) → Exec (List (Option CidEntry))
  | [] => .ok []
  | entry :: entries => do
    let e ← deref entry
    if cidCompare e.cid incomingCid = 0 then .ok (some { e with cancel := true } :: entries)
    else do
      let rest ← messageCancelCid incomingCid entries
      .ok (some e :: rest)

/-- the blocks of the payload, and the list with their CIDs marked -/
def messageAddBlocks :
    List (Option Block) → List (Option CidEntry) → Exec (List Block × List (Option CidEntry))
  | [], cidsTheyWant => .ok ([], cidsTheyWant)
  | current :: blocks, cidsTheyWant => do
    let block ← deref current
    let cidsTheyWant ← messageCancelCid block.cid cidsTheyWant
    let (payload, cidsTheyWant) ← messageAddBlocks blocks cidsTheyWant
    .ok (block :: payload, cidsTheyWant)

/-- the entry as it is announced, encoded into a buffer of its own -/
def wantlistEntryOf (entry : CidEntry) : Exec (Option WantlistEntry) := do
  let block ← cidProtobufEncode entry.cid (cidProtobufEncodeSize entry.cid)
  .ok (some { block := some block, cancel := some (if entry.cancel then 1 else 0),
              priority := some 1 })

/-- the entries of the want list, and the list with their flags set -/
def addWantlistItems :
    List (Option CidEntry) → Exec (List (Option WantlistEntry) × List (Option CidEntry))
  | [] => .ok ([], [])
  | entry :: cids => do
    let e ← deref entry
    if e.cancel && e.cancelHasBeenSent || !e.cancel && e.requestHasBeenSent then do
      let (entries, rest) ← addWantlistItems cids
      .ok (entries, some e :: rest)
    else do
      let item ← wantlistEntryOf e
      let (entries, rest) ← addWantlistItems cids
      .ok (item :: entries,
        some (if e.cancel then { e with cancelHasBeenSent := true }
          else { e with requestHasBeenSent := true }) :: rest)

/-- the message for the peer, and what is left of the request -/
def buildMessage (files : Files) (request : PeerRequest) : Exec (BitswapMessage × PeerRequest) := do
  let (cidsTheyWant, found) ← getBlocksTheyWant files request.cidsTheyWant
  let (payload, cidsTheyWant) ←
    messageAddBlocks (request.blocksWeWantToSend ++ found) cidsTheyWant
  let (entries, cidsWeWant) ← addWantlistItems request.cidsWeWant
  .ok ({ payload := if payload = [] then none else some payload
         wantlist := some { entries := some entries } },
    { request with
      cidsTheyWant := cidsTheyWant
      cidsWeWant := cidsWeWant
      -- each block has been deleted from the front of the queue
      blocksWeWantToSend := [] })

/-! ## sending it -/

/-- what the network does: `joinSwarm` dials a peer, with a timeout, `write` takes bytes and answers
how many -/
structure PeerNet where
  joinSwarm : Nat → Peer → Bool × Peer
  write : List UInt8 → Int

section
variable (net : PeerNet) (files : Files)

/-- for the log the id is copied into an array of 100 bytes -/
def peerIdToString (peer : Peer) : Exec (List UInt8) := do
  require .outOfBounds (peer.id.length < 100)
  .ok peer.id

/-- a connection without a session is none -/
def peerConnect (timeout : Nat) (peer : Peer) : Exec (Bool × Peer) := do
  let _ ← peerIdToString peer
  .ok (net.joinSwarm timeout
    (if peer.connectionType = connectionTypeConnected ∧ peer.hasSession = false then
      { peer with connectionType := connectionTypeNotConnected } else peer))

/-- the peer that the message is written to -/
def connectionToPeer (peer : Peer) : Exec Peer :=
  if peer.connectionType ≠ connectionTypeConnected ∨ peer.hasSession = false then
    Prod.snd <$> peerConnect net 10 peer
  else .ok peer

/-- the bytes that were written, `none` when the function returns 0 -/
def bitswapNetworkSendMessage (peer : Peer) (message : BitswapMessage) :
    Exec (Option (List UInt8) × Peer) := do
  let _ ← peerIdToString peer
  let peer ← connectionToPeer net peer
  if peer.connectionType ≠ connectionTypeConnected then .ok (none, peer)
  else do
    let bufSize ← bitswapMessageProtobufEncodeSize message
    let buf ← bitswapMessageProtobufEncode message bufSize
    require .null peer.hasSession
    let bytes := bitswapProtocolHeader ++ buf
    .ok (if 0 < net.write bytes then some bytes else none, peer)

/-! ## the handling of a request -/

/-- a message that has been sent -/
structure Sent where
  message : BitswapMessage
  bytes : List UInt8
  deriving DecidableEq, Repr

/-- there is an address, unless none is needed -/
def hasEnoughInformation (peer : Peer) : Bool :=
  peer.isLocal || peer.connectionType = connectionTypeConnected || peer.addrs.length ≠ 0

def needToConnect (request : PeerRequest) : Exec Bool := do
  let weWant ← peerRequestWeWantCids request.cidsWeWant
  .ok (weWant || peerRequestCidsWaiting request.cidsTheyWant ||
    request.blocksWeWantToSend.length ≠ 0)

def ensureConnected (peer : Peer) : Exec (Bool × Peer) :=
  if peer.isLocal || peer.connectionType = connectionTypeConnected then .ok (true, peer)
  else peerConnect net 0 peer

/-- the message, if one was sent -/
def peerRequestProcessEntry (request : PeerRequest) : Exec (Option Sent × PeerRequest) :=
  match request.peer with
  | none => .ok (none, request)
  | some peer =>
    if !hasEnoughInformation peer then .ok (none, request)
    else do
      let need ← needToConnect request
      if need then do
        let (connected, peer) ← ensureConnected net peer
        if connected then do
          let (message, built) ← buildMessage files request
          let (bytes, peer) ← bitswapNetworkSendMessage net peer message
          .ok (bytes.map (Sent.mk message), { built with peer := some peer })
        else .ok (none, { request with peer := some peer })
      else .ok (none, request)

end

/-! ## which CIDs are announced -/

/-- the want, or the cancel, has not been sent -/
def CidEntry.due (e : CidEntry) : Bool :=
  !(e.cancel && e.cancelHasBeenSent || !e.cancel && e.requestHasBeenSent)

/-- the flag of what has been sent is set -/
def CidEntry.announced (e : CidEntry) : CidEntry :=
  if e.cancel then { e with cancelHasBeenSent := true } else { e with requestHasBeenSent := true }

/-- what is said of the CID -/
def CidEntry.want (e : CidEntry) : Want where
  block := cidBytes e.cid
  cancel := if e.cancel then 1 else 0
  priority := 1

section
variable {e : CidEntry} {es : List CidEntry} {cids cids' : List (Option CidEntry)}
  {entries : List (Option WantlistEntry)}

theorem CidEntry.announced_of_not_due (h : e.due = false) : e.announced = e := by
  obtain ⟨cid, cancel, cancelSent, requestSent⟩ := e
  cases cancel with
  | true =>
    obtain rfl : cancelSent = true := by simpa [CidEntry.due] using h
    rfl
  | false =>
    obtain rfl : requestSent = true := by simpa [CidEntry.due] using h
    rfl

@[simp] theorem CidEntry.announced_due : e.announced.due = false := by
  obtain ⟨cid, cancel, cancelSent, requestSent⟩ := e
  cases cancel <;> rfl

@[simp] theorem CidEntry.announced_announced : e.announced.announced = e.announced :=
  CidEntry.announced_of_not_due CidEntry.announced_due

@[simp] theorem CidEntry.announced_cid : e.announced.cid = e.cid := by
  unfold CidEntry.announced
  split <;> rfl

@[simp] theorem CidEntry.announced_cancel : e.announced.cancel = e.cancel := by
  unfold CidEntry.announced
  split <;> rfl

theorem peerRequestWeWantCids_eq : peerRequestWeWantCids (es.map some) = .ok (es.any CidEntry.due) := by
  induction es with
  | nil => rfl
  | cons e es ih =>
    obtain ⟨cid, cancel, cancelSent, requestSent⟩ := e
    rw [List.map_cons, peerRequestWeWantCids, ih, List.any_cons]
    cases cancel <;> cases cancelSent <;> cases requestSent <;> rfl

theorem wantlistEntryOf_ok {item : Option WantlistEntry} (h : wantlistEntryOf e = .ok item) :
    item = e.want.entry := by
  obtain ⟨block, hblock, h⟩ := bind_eq_ok.1 h
  obtain ⟨rfl, -⟩ := (writes_cidProtobufEncode e.cid).exact _ _ hblock
  exact (Except.ok.inj h).symm

/-- an entry that is due is announced, another is passed over -/
theorem addWantlistItems_cons : addWantlistItems (some e :: cids) =
    if e.due then wantlistEntryOf e >>= fun item => addWantlistItems cids >>= fun r =>
      .ok (item :: r.1, some e.announced :: r.2)
    else addWantlistItems cids >>= fun r => .ok (r.1, some e.announced :: r.2) := by
  cases hdue : e.due with
  | true =>
    have hsent : (e.cancel && e.cancelHasBeenSent || !e.cancel && e.requestHasBeenSent) = false := by
      rwa [CidEntry.due, Bool.not_eq_true'] at hdue
    rw [addWantlistItems, deref_some, ok_bind, hsent]
    rfl
  | false =>
    have hsent : (e.cancel && e.cancelHasBeenSent || !e.cancel && e.requestHasBeenSent) = true := by
      rwa [CidEntry.due, Bool.not_eq_false'] at hdue
    rw [addWantlistItems, deref_some, ok_bind, hsent, CidEntry.announced_of_not_due hdue]
    rfl

/-- **the announced CIDs** are those that are due, in the order of the queue -/
theorem addWantlistItems_eq_ok (h : addWantlistItems cids = .ok (entries, cids')) :
    ∃ es : List CidEntry, cids = es.map some ∧
      entries = (es.filter CidEntry.due).map (fun e => e.want.entry) ∧
      cids' = es.map fun e => some e.announced := by
  induction cids generalizing entries cids' with
  | nil =>
    cases h
    exact ⟨[], rfl, rfl, rfl⟩
  | cons entry cids ih =>
    cases entry with
    | none => cases h
    | some e =>
      rw [addWantlistItems_cons] at h
      cases hdue : e.due with
      | true =>
        rw [hdue, if_pos rfl] at h
        obtain ⟨item, hitem, h⟩ := bind_eq_ok.1 h
        obtain ⟨⟨rest, after⟩, hrest, h⟩ := bind_eq_ok.1 h
        obtain ⟨es, rfl, rfl, rfl⟩ := ih hrest
        obtain rfl := wantlistEntryOf_ok hitem
        cases h
        refine ⟨e :: es, rfl, ?_, rfl⟩
        rw [List.filter_cons_of_pos hdue]
        rfl
      | false =>
        rw [hdue, if_neg (by simp)] at h
        obtain ⟨⟨rest, after⟩, hrest, h⟩ := bind_eq_ok.1 h
        obtain ⟨es, rfl, rfl, rfl⟩ := ih hrest
        cases h
        refine ⟨e :: es, rfl, ?_, rfl⟩
        rw [List.filter_cons_of_neg (by simp [hdue])]

theorem addWantlistItems_eq (h : ∀ e ∈ es, e.due → cidProtobufEncodeSize e.cid < 2 ^ 31) :
    addWantlistItems (es.map some) = .ok ((es.filter CidEntry.due).map (fun e => e.want.entry),
      es.map fun e => some e.announced) := by
  induction es with
  | nil => rfl
  | cons e es ih =>
    have hrest := ih fun a ha => h a (List.mem_cons_of_mem _ ha)
    rw [List.map_cons, addWantlistItems_cons, hrest]
    cases hdue : e.due with
    | true =>
      have hitem : wantlistEntryOf e = .ok e.want.entry := by
        unfold wantlistEntryOf
        rw [(writes_cidProtobufEncode e.cid).fits _ (cidBytes_length_le _)
          (h e List.mem_cons_self hdue)]
        rfl
      rw [if_pos rfl, hitem, List.filter_cons_of_pos hdue]
      rfl
    | false =>
      rw [if_neg (by simp), List.filter_cons_of_neg (by simp [hdue])]
      rfl

end

/-! ## which blocks are sent -/

/-- no block is sent for the entry: it is marked, or its block is not in the store -/
def CidEntry.settled (files : Files) (e : CidEntry) : Prop :=
  e.cancel = true ∨ blockstoreGet e.cid files = .ok none

section
variable {files : Files} {cids cids' : List (Option CidEntry)} {found : List (Option Block)}

/-- **one entry**: it is settled and stays as it is, or its block is found and it is marked -/
theorem getBlocksTheyWant_cons {entry : Option CidEntry}
    (h : getBlocksTheyWant files (entry :: cids) = .ok (cids', found)) :
    ∃ rest blocks, getBlocksTheyWant files cids = .ok (rest, blocks) ∧
      (((∀ e, entry = some e → e.settled files) ∧ cids' = entry :: rest ∧ found = blocks) ∨
        ∃ e block, entry = some e ∧ e.cancel = false ∧
          blockstoreGet e.cid files = .ok (some block) ∧
          cids' = some { e with cancel := true } :: rest ∧ found = some block :: blocks) := by
  cases entry with
  | none =>
    obtain ⟨⟨rest, blocks⟩, hrest, h⟩ := bind_eq_ok.1 h
    cases h
    exact ⟨_, _, hrest, .inl ⟨fun e he => (nomatch he), rfl, rfl⟩⟩
  | some a =>
    have hmine : a.settled files → ∀ e, some a = some e → e.settled files := fun ha e he =>
      Option.some.inj he ▸ ha
    rw [getBlocksTheyWant] at h
    cases hcancel : a.cancel with
    | true =>
      rw [hcancel, if_pos rfl] at h
      obtain ⟨⟨rest, blocks⟩, hrest, h⟩ := bind_eq_ok.1 h
      cases h
      exact ⟨_, _, hrest, .inl ⟨hmine (.inl hcancel), rfl, rfl⟩⟩
    | false =>
      rw [hcancel, if_neg (by simp)] at h
      obtain ⟨got, hgot, h⟩ := bind_eq_ok.1 h
      obtain ⟨⟨rest, blocks⟩, hrest, h⟩ := bind_eq_ok.1 h
      cases got with
      | none =>
        cases h
        exact ⟨_, _, hrest, .inl ⟨hmine (.inr hgot), rfl, rfl⟩⟩
      | some block =>
        cases h
        exact ⟨_, _, hrest, .inr ⟨a, block, rfl, hcancel, hgot, rfl, rfl⟩⟩

theorem getBlocksTheyWant_settled (h : getBlocksTheyWant files cids = .ok (cids', found)) :
    ∀ e, some e ∈ cids' → e.settled files := by
  induction cids generalizing cids' found with
  | nil =>
    cases h
    intro e he
    cases he
  | cons entry cids ih =>
    intro e he
    obtain ⟨rest, blocks, hrest, ⟨hsettled, rfl, rfl⟩ | ⟨a, block, rfl, -, -, rfl, rfl⟩⟩ :=
      getBlocksTheyWant_cons h
    · rcases List.mem_cons.1 he with heq | he
      · exact hsettled e heq.symm
      · exact ih hrest e he
    · rcases List.mem_cons.1 he with heq | he
      · cases heq
        exact .inl rfl
      · exact ih hrest e he

/-- nothing is found for settled entries -/
theorem getBlocksTheyWant_of_settled (h : ∀ e, some e ∈ cids → e.settled files) :
    getBlocksTheyWant files cids = .ok (cids, []) := by
  induction cids with
  | nil => rfl
  | cons entry cids ih =>
    have hrest := ih fun e he => h e (List.mem_cons_of_mem _ he)
    cases entry with
    | none =>
      rw [getBlocksTheyWant, hrest]
      rfl
    | some a =>
      rw [getBlocksTheyWant, hrest]
      cases hcancel : a.cancel with
      | true => rfl
      | false =>
        have hget : blockstoreGet a.cid files = .ok none := by
          rcases h a List.mem_cons_self with hc | hget
          · rw [hcancel] at hc
            cases hc
          · exact hget
        rw [if_neg (by simp), hget]
        rfl

/-- when nothing is found the list stays as it is -/
theorem getBlocksTheyWant_nil (h : getBlocksTheyWant files cids = .ok (cids', [])) :
    cids' = cids := by
  induction cids generalizing cids' with
  | nil =>
    cases h
    rfl
  | cons entry cids ih =>
    obtain ⟨rest, blocks, hrest, ⟨-, rfl, rfl⟩ | ⟨_, _, _, _, _, _, hfound⟩⟩ :=
      getBlocksTheyWant_cons h
    · rw [ih hrest]
    · cases hfound

theorem messageCancelCid_settled {cid : Option Cid} (h : messageCancelCid cid cids = .ok cids')
    (hall : ∀ e, some e ∈ cids → e.settled files) : ∀ e, some e ∈ cids' → e.settled files := by
  induction cids generalizing cids' with
  | nil =>
    cases h
    exact hall
  | cons entry cids ih =>
    rw [messageCancelCid] at h
    obtain ⟨a, ha, hnext⟩ := bind_eq_ok.1 h
    obtain rfl := deref_eq_ok.1 ha
    intro e he
    by_cases heq : cidCompare a.cid cid = 0
    · rw [if_pos heq] at hnext
      cases hnext
      rcases List.mem_cons.1 he with h1 | he
      · cases h1
        exact .inl rfl
      · exact hall e (List.mem_cons_of_mem _ he)
    · rw [if_neg heq] at hnext
      obtain ⟨rest, hrest, hnext⟩ := bind_eq_ok.1 hnext
      cases hnext
      rcases List.mem_cons.1 he with h1 | he
      · cases h1
        exact hall a List.mem_cons_self
      · exact ih hrest (fun b hb => hall b (List.mem_cons_of_mem _ hb)) e he

theorem messageAddBlocks_settled {blocks : List (Option Block)} {payload : List Block}
    (h : messageAddBlocks blocks cids = .ok (payload, cids'))
    (hall : ∀ e, some e ∈ cids → e.settled files) : ∀ e, some e ∈ cids' → e.settled files := by
  induction blocks generalizing cids payload cids' with
  | nil =>
    cases h
    exact hall
  | cons current blocks ih =>
    obtain ⟨block, -, h⟩ := bind_eq_ok.1 h
    obtain ⟨marked, hmarked, h⟩ := bind_eq_ok.1 h
    obtain ⟨⟨rest, after⟩, hrest, h⟩ := bind_eq_ok.1 h
    cases h
    exact ih hrest (messageCancelCid_settled hmarked hall)

theorem messageAddBlocks_payload {blocks : List (Option Block)} {payload : List Block}
    (h : messageAddBlocks blocks cids = .ok (payload, cids')) : blocks = payload.map some := by
  induction blocks generalizing cids payload cids' with
  | nil =>
    cases h
    rfl
  | cons current blocks ih =>
    obtain ⟨block, hblock, h⟩ := bind_eq_ok.1 h
    obtain ⟨marked, -, h⟩ := bind_eq_ok.1 h
    obtain ⟨⟨rest, after⟩, hrest, h⟩ := bind_eq_ok.1 h
    cases h
    rw [deref_eq_ok.1 hblock, ih hrest]
    rfl

end

/-! ## what a call does -/

/-- the message is built, for a peer that is, or has become, connected -/
def Reaches (net : PeerNet) (request : PeerRequest) (peer : Peer) : Prop :=
  ∃ p, request.peer = some p ∧ hasEnoughInformation p = true ∧ needToConnect request = .ok true ∧
    ensureConnected net p = .ok (true, peer)

section
variable {net : PeerNet} {files : Files} {request request' built : PeerRequest}
  {message : BitswapMessage} {sent : Option Sent}

/-- **a call** that gets to the building of the message -/
theorem peerRequestProcessEntry_of_reaches {peer peer' : Peer} {bytes : Option (List UInt8)}
    (h : Reaches net request peer) (hbuild : buildMessage files request = .ok (message, built))
    (hsend : bitswapNetworkSendMessage net peer message = .ok (bytes, peer')) :
    peerRequestProcessEntry net files request =
      .ok (bytes.map (Sent.mk message), { built with peer := some peer' }) := by
  obtain ⟨p, hp, henough, hneed, hconnect⟩ := h
  unfold peerRequestProcessEntry
  rw [hp]
  simp only [henough, Bool.not_true, Bool.false_eq_true, if_false]
  rw [hneed, ok_bind, if_pos rfl, hconnect, ok_bind]
  simp only [if_true]
  rw [hbuild, ok_bind]
  simp only
  rw [hsend, ok_bind]

/-- a call changes at most the peer, or it builds the message -/
theorem peerRequestProcessEntry_eq_ok
    (h : peerRequestProcessEntry net files request = .ok (sent, request')) :
    (sent = none ∧ (∀ peer, ¬ Reaches net request peer) ∧
      ∃ p, request' = { request with peer := p } ∧ (p = request.peer ∨
        ∃ q r, request.peer = some q ∧ ensureConnected net q = .ok (false, r) ∧ p = some r)) ∨
    ∃ peer message built bytes peer', Reaches net request peer ∧
      buildMessage files request = .ok (message, built) ∧
      bitswapNetworkSendMessage net peer message = .ok (bytes, peer') ∧
      sent = bytes.map (Sent.mk message) ∧ request' = { built with peer := some peer' } := by
  by_cases hreach : ∃ peer, Reaches net request peer
  · obtain ⟨peer, p, hp, henough, hneed, hconnect⟩ := hreach
    unfold peerRequestProcessEntry at h
    rw [hp] at h
    simp only [henough, Bool.not_true, Bool.false_eq_true, if_false] at h
    rw [hneed, ok_bind, if_pos rfl, hconnect, ok_bind] at h
    simp only [if_true] at h
    obtain ⟨⟨message, built⟩, hbuild, h⟩ := bind_eq_ok.1 h
    obtain ⟨⟨bytes, peer'⟩, hsend, h⟩ := bind_eq_ok.1 h
    cases h
    exact .inr ⟨peer, message, built, bytes, peer', ⟨p, hp, henough, hneed, hconnect⟩, hbuild,
      hsend, rfl, rfl⟩
  · left
    have hnot : ∀ peer, ¬ Reaches net request peer := fun peer hr => hreach ⟨peer, hr⟩
    unfold peerRequestProcessEntry at h
    cases hp : request.peer with
    | none =>
      rw [hp] at h
      cases h
      exact ⟨rfl, hnot, none, by rw [← hp], .inl rfl⟩
    | some p =>
      rw [hp] at h
      have hsame : request = { request with peer := some p } := by rw [← hp]
      cases henough : hasEnoughInformation p with
      | false =>
        simp only [henough, Bool.not_false, if_true] at h
        cases h
        exact ⟨rfl, hnot, some p, hsame, .inl rfl⟩
      | true =>
        simp only [henough, Bool.not_true, Bool.false_eq_true, if_false] at h
        obtain ⟨need, hneed, h⟩ := bind_eq_ok.1 h
        cases need with
        | false =>
          cases h
          exact ⟨rfl, hnot, some p, hsame, .inl rfl⟩
        | true =>
          obtain ⟨⟨connected, peer⟩, hconnect, h⟩ := bind_eq_ok.1 h
          cases connected with
          | true => exact absurd ⟨p, hp, henough, hneed, hconnect⟩ (hnot peer)
          | false =>
            cases h
            exact ⟨rfl, hnot, some peer, rfl, .inr ⟨p, peer, rfl, hconnect, rfl⟩⟩

/-- the parts of a message that is built -/
theorem buildMessage_eq_ok (h : buildMessage files request = .ok (message, built)) :
    ∃ marked found payload, ∃ es : List CidEntry,
      getBlocksTheyWant files request.cidsTheyWant = .ok (marked, found) ∧
      messageAddBlocks (request.blocksWeWantToSend ++ found) marked =
        .ok (payload, built.cidsTheyWant) ∧
      request.cidsWeWant = es.map some ∧
      message = { payload := if payload = [] then none else some payload
                  wantlist := some { entries := some ((es.filter CidEntry.due).map fun e =>
                    e.want.entry) } } ∧
      built.cidsWeWant = (es.map fun e => some e.announced) ∧
      built.blocksWeWantToSend = [] ∧ built.peer = request.peer := by
  obtain ⟨⟨marked, found⟩, hfound, h⟩ := bind_eq_ok.1 h
  obtain ⟨⟨payload, they⟩, hblocks, h⟩ := bind_eq_ok.1 h
  obtain ⟨⟨entries, we⟩, hitems, h⟩ := bind_eq_ok.1 h
  obtain ⟨es, hes, rfl, rfl⟩ := addWantlistItems_eq_ok hitems
  cases h
  exact ⟨marked, found, payload, es, hfound, hblocks, hes, rfl, rfl, rfl, rfl⟩

/-- building does not look at the peer -/
theorem buildMessage_peer (p : Option Peer) (h : buildMessage files request = .ok (message, built)) :
    buildMessage files { request with peer := p } = .ok (message, { built with peer := p }) := by
  obtain ⟨⟨marked, found⟩, hfound, h⟩ := bind_eq_ok.1 h
  obtain ⟨⟨payload, they⟩, hblocks, h⟩ := bind_eq_ok.1 h
  obtain ⟨⟨entries, we⟩, hitems, h⟩ := bind_eq_ok.1 h
  cases h
  unfold buildMessage
  simp only
  rw [hfound, ok_bind]
  simp only
  rw [hblocks, ok_bind]
  simp only
  rw [hitems, ok_bind]

/-- a message without blocks and wants -/
def emptyMessage : BitswapMessage := { wantlist := some { entries := some [] } }

/-- **a message built twice** is empty the second time -/
theorem buildMessage_again (h : buildMessage files request = .ok (message, built)) :
    buildMessage files built = .ok (emptyMessage, built) := by
  obtain ⟨marked, found, payload, es, hfound, hblocks, -, -, hwe, hqueue, -⟩ :=
    buildMessage_eq_ok h
  have hthey := getBlocksTheyWant_of_settled
    (messageAddBlocks_settled hblocks (getBlocksTheyWant_settled hfound))
  have hnone : (es.map CidEntry.announced).filter CidEntry.due = [] := by
    rw [List.filter_eq_nil_iff]
    intro e he
    obtain ⟨a, -, rfl⟩ := List.mem_map.1 he
    simp
  have hitems : addWantlistItems built.cidsWeWant = .ok ([], built.cidsWeWant) := by
    have hsizes : ∀ e ∈ es.map CidEntry.announced, e.due →
        cidProtobufEncodeSize e.cid < 2 ^ 31 := by
      intro e he hdue
      obtain ⟨a, -, rfl⟩ := List.mem_map.1 he
      rw [CidEntry.announced_due] at hdue
      cases hdue
    have heq := addWantlistItems_eq hsizes
    rw [hnone, List.map_map, List.map_map] at heq
    rw [hwe]
    refine heq.trans ?_
    congr 2
    refine List.map_congr_left fun e _ => ?_
    simp
  unfold buildMessage
  rw [hthey, ok_bind, hqueue]
  show (messageAddBlocks [] built.cidsTheyWant >>= _) = _
  rw [messageAddBlocks, ok_bind]
  simp only
  rw [hitems, ok_bind]
  obtain ⟨peer, they, we, blocks⟩ := built
  obtain rfl : blocks = [] := hqueue
  rfl

/-! ## a message that cannot be sent -/

/-- no block is queued or found, and no want or cancel is due -/
structure NothingDue (files : Files) (request : PeerRequest) : Prop where
  blocks : request.blocksWeWantToSend = []
  theyWant : ∀ e, some e ∈ request.cidsTheyWant → e.settled files
  weWant : ∀ e, some e ∈ request.cidsWeWant → e.due = false

theorem nothingDue_iff (h : buildMessage files request = .ok (message, built)) :
    NothingDue files request ↔ message = emptyMessage := by
  obtain ⟨marked, found, payload, es, hfound, hblocks, hes, hmessage, -⟩ := buildMessage_eq_ok h
  have hpayload := messageAddBlocks_payload hblocks
  refine ⟨fun hdue => ?_, fun hempty => ?_⟩
  · have hnone := getBlocksTheyWant_of_settled hdue.theyWant
    rw [hfound] at hnone
    obtain ⟨-, rfl⟩ := Prod.mk.inj (Except.ok.inj hnone)
    rw [hdue.blocks] at hpayload
    obtain rfl : payload = [] := List.map_eq_nil_iff.1 hpayload.symm
    have hfilter : es.filter CidEntry.due = [] := by
      rw [List.filter_eq_nil_iff]
      intro e he
      have hfalse := hdue.weWant e (by rw [hes]; exact List.mem_map_of_mem he)
      simp [hfalse]
    rw [hmessage, hfilter]
    rfl
  · rw [hmessage] at hempty
    unfold emptyMessage at hempty
    simp only [BitswapMessage.mk.injEq, Option.some.injEq, BitswapWantlist.mk.injEq, and_true,
      true_and, List.map_eq_nil_iff] at hempty
    obtain ⟨hnil, hfilter⟩ := hempty
    have hnil : payload = [] := by
      by_contra hne
      rw [if_neg hne] at hnil
      cases hnil
    rw [hnil] at hpayload
    obtain ⟨hqueue, rfl⟩ := List.append_eq_nil_iff.1 hpayload
    refine ⟨hqueue, fun e he => ?_, fun e he => ?_⟩
    · obtain rfl := getBlocksTheyWant_nil hfound
      exact getBlocksTheyWant_settled hfound e he
    · rw [hes] at he
      obtain ⟨a, ha, heq⟩ := List.mem_map.1 he
      obtain rfl := Option.some.inj heq
      rw [List.filter_eq_nil_iff] at hfilter
      exact Bool.eq_false_iff.2 (hfilter a ha)

/-- when the call does not send the message, what is in it is in the message that the next call
builds -/
def LosesNothing (net : PeerNet) (files : Files) (request : PeerRequest) : Prop :=
  ∀ request', peerRequestProcessEntry net files request = .ok (none, request') →
    ∀ message built, buildMessage files request = .ok (message, built) →
      ∃ message' built', buildMessage files request' = .ok (message', built') ∧
        (message.payload.getD []).Sublist (message'.payload.getD []) ∧
        message.wanted.Sublist message'.wanted

/-- **nothing is lost** iff every message that is built and not sent has nothing in it -/
theorem losesNothing_iff : LosesNothing net files request ↔
    ∀ peer message built peer', Reaches net request peer →
      buildMessage files request = .ok (message, built) →
        bitswapNetworkSendMessage net peer message = .ok (none, peer') →
          NothingDue files request := by
  refine ⟨fun h peer message built peer' hreach hbuild hsend => ?_, fun h request' hcall => ?_⟩
  · have hcall := peerRequestProcessEntry_of_reaches hreach hbuild hsend
    obtain ⟨message', built', hagain, hpayload, hwanted⟩ := h _ hcall _ _ hbuild
    rw [buildMessage_peer _ (buildMessage_again hbuild)] at hagain
    cases hagain
    have hpayload : message.payload.getD [] = [] := List.sublist_nil.1 hpayload
    have hwanted : message.wanted = [] := List.sublist_nil.1 hwanted
    rw [nothingDue_iff hbuild]
    obtain ⟨marked, found, payload, es, -, -, -, rfl, -⟩ := buildMessage_eq_ok hbuild
    have hwanted : (es.filter CidEntry.due).map (fun e => e.want.entry) = [] := hwanted
    rw [hwanted]
    by_cases hnil : payload = []
    · rw [if_pos hnil]
      rfl
    · rw [if_neg hnil] at hpayload
      exact absurd hpayload hnil
  · intro message built hbuild
    rcases peerRequestProcessEntry_eq_ok hcall with ⟨-, -, p, rfl, -⟩ | hbuilt
    · -- nothing has been moved
      exact ⟨message, _, buildMessage_peer p hbuild, List.Sublist.refl _, List.Sublist.refl _⟩
    · obtain ⟨peer, message1, built1, bytes, peer', hreach, hbuild1, hsend, hsent, rfl⟩ := hbuilt
      rw [hbuild] at hbuild1
      cases hbuild1
      cases bytes with
      | some bytes => cases hsent
      | none =>
        have hempty := (nothingDue_iff hbuild).1 (h peer message built peer' hreach hbuild hsend)
        refine ⟨_, _, buildMessage_peer _ (buildMessage_again hbuild), ?_⟩
        rw [hempty]
        exact ⟨List.Sublist.refl _, List.Sublist.refl _⟩

end

/-- a peer that is connected -/
def peerInReach : Peer :=
  { id := [81, 109], connectionType := connectionTypeConnected, hasSession := true }

/-- a network on which nothing can be written -/
def deadNet : PeerNet := ⟨fun _ peer => (false, peer), fun _ => 0⟩

/-- one want, and a block to send -/
def owingRequest : PeerRequest where
  peer := some peerInReach
  cidsWeWant := [some { cid := some (cidNew 1 (List.replicate 32 1) 0x70) }]
  blocksWeWantToSend := [some { cid := some (cidNew 1 (List.replicate 32 2) 0x70), data := [2] }]

/-- the write fails: the want is marked as sent, and the block is gone -/
theorem not_losesNothing_write : ¬ ∀ net files request, LosesNothing net files request := by
  intro h
  have hreach : Reaches deadNet owingRequest peerInReach := ⟨_, rfl, rfl, rfl, rfl⟩
  have hmessage : ∃ message built, buildMessage (fun _ => none) owingRequest =
      .ok (message, built) ∧ message.payload.getD [] ≠ [] ∧
        bitswapNetworkSendMessage deadNet peerInReach message = .ok (none, peerInReach) := by
    refine ⟨outgoing [{ cid := some (cidNew 1 (List.replicate 32 2) 0x70), data := [2] }]
      [CidEntry.want { cid := some (cidNew 1 (List.replicate 32 1) 0x70) }],
      { owingRequest with
        cidsWeWant := [some { cid := some (cidNew 1 (List.replicate 32 1) 0x70)
                              requestHasBeenSent := true }]
        blocksWeWantToSend := [] }, ?_, ?_, ?_⟩
    · decide +kernel
    · decide
    · decide +kernel
  obtain ⟨message, built, hbuild, hpayload, hsend⟩ := hmessage
  have hcall := peerRequestProcessEntry_of_reaches hreach hbuild hsend
  obtain ⟨message', built', hagain, hsub, -⟩ := h _ _ _ _ hcall _ _ hbuild
  rw [buildMessage_peer _ (buildMessage_again hbuild)] at hagain
  cases hagain
  exact hpayload (List.sublist_nil.1 hsub)

end Ipfs
