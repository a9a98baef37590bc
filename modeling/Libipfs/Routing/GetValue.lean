import Libipfs.Lib.Region
import Libipfs.Lib.Scan
import Libipfs.Routing.Online

/-!
# Looking up a value

The providers of a key are asked twice: first who is the local peer or is connected, then who can be
connected.  At the end a pointer is compared with zero where the size was meant.

* `onlineGetPeerValue`, `onlineGetValue`   a value from one peer, and from any of the providers;
* `getPeerValue_ne_nil`   the value of a peer is not empty;
* `onlineGetValue_known`, `onlineGetValue_found`   the two loops;
* `LookupSound`           success means a value of a provider, and a provider's value success;
* `lookupSound_iff`       **the lookup is sound** when nobody provides the key, or somebody has a
                          value and is reached.
-/

namespace Libp2p
open CSem

/-! ## the lookup -/

/-- a provider at the moment when it is looked at: the peer, the session it has if it can be
connected, and what is read when it is asked -/
structure AskedPeer where
  peer : KnownPeer
  joined : Option (Option Nat) := none
  reply : Option (List UInt8) := none

/-- a provider as the peerstore hands it out, to which it may have to be added, and as it was found;
either may be null -/
structure Provider where
  known : Exec (Option AskedPeer)
  found : Option AskedPeer

section
variable (sessions : Heap PeerSession) (key : List UInt8) (localGet : Exec (Option (List UInt8)))

/-- the mark, a session and its default stream -/
def peerIsConnected (peer : KnownPeer) : Exec Bool :=
  if peer.connectionType = connectionTypeConnected then
    match peer.sessionContext with
    | none => .ok false
    | some session => do
      let context ← sessions.get session
      .ok context.hasDefaultStream
  else .ok false

/-- `none` when the function returns 0 -/
def onlineGetPeerValue (session : Option Nat) (reply : Option (List UInt8)) :
    Exec (Option (List UInt8)) := do
  let msg : DhtMessage := { messageType := 1, key := some key }
  match ← onlineSendReceiveMessage (useSession sessions) msg session reply with
  | none => .ok none
  | some retMsg =>
    match retMsg.record with
    | none => .ok none
    | some record =>
      if record.value.length ≤ 0 then .ok none
      else
        match Region.malloc record.value.length with
        | none => .ok none
        | some buffer => do
          let buffer ← buffer.store 0 record.value
          .ok (some buffer)

/-- a local fetch, or one from a peer who is connected already; the id is written into a string of
100 characters for the log, here and below -/
def getFromKnown (provider : Provider) : Exec (Option (List UInt8)) := do
  let known ← provider.known
  let asked ← deref known
  if asked.peer.isLocal then localGet
  else do
    let connected ← peerIsConnected sessions asked.peer
    if connected then do
      require .outOfBounds (asked.peer.id.length < 100)
      onlineGetPeerValue sessions key asked.peer.sessionContext asked.reply
    else .ok none

/-- a fetch from a peer who can be connected -/
def getFromFound (provider : Provider) : Exec (Option (List UInt8)) := do
  let asked ← deref provider.found
  if asked.peer.isLocal then .ok none
  else do
    let connected ← peerIsConnected sessions asked.peer
    if connected then .ok none
    else do
      require .outOfBounds (asked.peer.id.length < 100)
      match asked.joined with
      | none => .ok none
      | some session => onlineGetPeerValue sessions key session asked.reply

/-- what is returned, and what is in the buffer; `providers` are null when nobody provides the
key -/
def onlineGetValue (providers : Option (List Provider)) : Exec (Bool × Option (List UInt8)) :=
  match providers with
  | none => .ok (false, none)
  | some peers => do
    match ← peers.findSomeM? (getFromKnown sessions key localGet) with
    | some value => .ok (true, some value)
    | none => do
      match ← peers.findSomeM? (getFromFound sessions key) with
      | some value => .ok (true, some value)
      -- the pointer to the size is not null, whatever the size
      | none => .ok (true, none)

/-! ## the law -/

/-- a provider's answer -/
def Answered (peers : List Provider) (value : List UInt8) : Prop :=
  ∃ provider ∈ peers, getFromKnown sessions key localGet provider = .ok (some value) ∨
    getFromFound sessions key provider = .ok (some value)

/-- success means that a value is in the buffer that a provider answered with, and there is success
when one has answered with a value -/
def LookupSound (providers : Option (List Provider)) : Prop :=
  ∃ ret buffer, onlineGetValue sessions key localGet providers = .ok (ret, buffer) ∧
    (ret = true → ∃ value, buffer = some value ∧ value ≠ [] ∧
      ∃ peers, providers = some peers ∧ Answered sessions key localGet peers value) ∧
    ((∃ peers value, providers = some peers ∧ value ≠ [] ∧
      Answered sessions key localGet peers value) → ret = true)

/-- somebody has a value and is reached: nobody in front is null or faults, and no local fetch
yields an empty value -/
def ValueReached (peers : List Provider) : Prop :=
  (∃ value, value ≠ [] ∧ FirstYields (getFromKnown sessions key localGet) peers value) ∨
    ((∀ provider ∈ peers, getFromKnown sessions key localGet provider = .ok none) ∧
      ∃ value, FirstYields (getFromFound sessions key) peers value)

end

section
variable {sessions : Heap PeerSession} {key : List UInt8} {localGet : Exec (Option (List UInt8))}
  {session : Option Nat} {reply : Option (List UInt8)} {value : List UInt8} {peers : List Provider}
  {buffer : Option (List UInt8)} {ret : Bool}

/-- **the value of a peer** is that of the record it replies with, and is not empty -/
theorem getPeerValue_ne_nil (h : onlineGetPeerValue sessions key session reply = .ok (some value)) :
    value ≠ [] := by
  unfold onlineGetPeerValue at h
  obtain ⟨retMsg, -, h⟩ := bind_eq_ok.1 h
  cases retMsg with
  | none => cases h
  | some retMsg =>
    dsimp only at h
    cases hrecord : retMsg.record with
    | none =>
      rw [hrecord] at h
      cases h
    | some record =>
      rw [hrecord] at h
      dsimp only at h
      by_cases hempty : record.value.length ≤ 0
      · rw [if_pos hempty] at h
        cases h
      rw [if_neg hempty] at h
      by_cases hfits : record.value.length ≤ ptrdiffMax
      · rw [Region.malloc_pos hfits] at h
        dsimp only at h
        rw [Region.store_malloc rfl, ok_bind] at h
        cases h
        exact fun hnil => hempty (by rw [hnil]; exact Nat.le_refl 0)
      · rw [Region.malloc, if_neg hfits] at h
        cases h

/-- who was found and is asked has a value that is not empty; only a local fetch may yield one that
is -/
theorem getFromFound_ne_nil {provider : Provider}
    (h : getFromFound sessions key provider = .ok (some value)) : value ≠ [] := by
  unfold getFromFound at h
  obtain ⟨asked, -, h⟩ := bind_eq_ok.1 h
  by_cases hlocal : asked.peer.isLocal
  · rw [if_pos hlocal] at h
    cases h
  rw [if_neg hlocal] at h
  obtain ⟨connected, -, h⟩ := bind_eq_ok.1 h
  by_cases hconnected : connected
  · rw [if_pos hconnected] at h
    cases h
  rw [if_neg hconnected] at h
  obtain ⟨-, h⟩ := require_bind_eq_ok.1 h
  cases hjoined : asked.joined with
  | none =>
    rw [hjoined] at h
    cases h
  | some session =>
    rw [hjoined] at h
    exact getPeerValue_ne_nil h

/-- **the first loop** ends the lookup with what it yields -/
theorem onlineGetValue_known (h : FirstYields (getFromKnown sessions key localGet) peers value) :
    onlineGetValue sessions key localGet (some peers) = .ok (true, some value) := by
  unfold onlineGetValue
  dsimp only
  rw [findSomeM?_eq_some.2 h, ok_bind]

/-- **the second loop**, when the first yields nothing; success is reported in any case -/
theorem onlineGetValue_found
    (hknown : ∀ provider ∈ peers, getFromKnown sessions key localGet provider = .ok none) :
    onlineGetValue sessions key localGet (some peers) =
      peers.findSomeM? (getFromFound sessions key) >>= fun value => .ok (true, value) := by
  unfold onlineGetValue
  dsimp only
  rw [findSomeM?_eq_none.2 hknown, ok_bind]
  apply bind_congr
  intro value
  cases value with
  | none => rfl
  | some value => rfl

/-- what ends a lookup with a value -/
theorem valueReached_of_eq_ok (hne : value ≠ [])
    (h : onlineGetValue sessions key localGet (some peers) = .ok (ret, some value)) :
    ValueReached sessions key localGet peers := by
  have hfirst : ∃ found, peers.findSomeM? (getFromKnown sessions key localGet) = .ok found := by
    obtain ⟨found, hfound, -⟩ := bind_eq_ok.1 h
    exact ⟨found, hfound⟩
  obtain ⟨found, hfound⟩ := hfirst
  cases found with
  | some first =>
    rw [onlineGetValue_known (findSomeM?_eq_some.1 hfound)] at h
    cases h
    exact .inl ⟨value, hne, findSomeM?_eq_some.1 hfound⟩
  | none =>
    have hknown := findSomeM?_eq_none.1 hfound
    rw [onlineGetValue_found hknown] at h
    obtain ⟨second, hsecond, h⟩ := bind_eq_ok.1 h
    cases h
    exact .inr ⟨hknown, value, findSomeM?_eq_some.1 hsecond⟩

/-- a value that is reached is in the buffer, and was a provider's answer -/
theorem exists_of_valueReached (h : ValueReached sessions key localGet peers) :
    ∃ value, value ≠ [] ∧ Answered sessions key localGet peers value ∧
      onlineGetValue sessions key localGet (some peers) = .ok (true, some value) := by
  rcases h with ⟨value, hne, hfirst⟩ | ⟨hnone, value, hfirst⟩
  · have hget := onlineGetValue_known hfirst
    obtain ⟨front, provider, back, rfl, hyields, -⟩ := hfirst
    exact ⟨value, hne, ⟨provider, List.mem_append_right _ List.mem_cons_self, .inl hyields⟩, hget⟩
  · have hget := onlineGetValue_found hnone
    rw [findSomeM?_eq_some.2 hfirst, ok_bind] at hget
    obtain ⟨front, provider, back, rfl, hyields, -⟩ := hfirst
    exact ⟨value, getFromFound_ne_nil hyields,
      ⟨provider, List.mem_append_right _ List.mem_cons_self, .inr hyields⟩, hget⟩

/-- success is all that a lookup among providers reports -/
theorem onlineGetValue_ret
    (h : onlineGetValue sessions key localGet (some peers) = .ok (ret, buffer)) : ret = true := by
  obtain ⟨found, -, h⟩ := bind_eq_ok.1 h
  cases found with
  | some first =>
    cases h
    rfl
  | none =>
    obtain ⟨second, -, h⟩ := bind_eq_ok.1 h
    cases second with
    | some value =>
      cases h
      rfl
    | none =>
      cases h
      rfl

end

/-- **looking up a value** is sound when there are no providers, or one of them has a value and is
reached; whenever the providers have none, success is reported -/
theorem lookupSound_iff (sessions : Heap PeerSession) (key : List UInt8)
    (localGet : Exec (Option (List UInt8))) (providers : Option (List Provider)) :
    LookupSound sessions key localGet providers ↔
      ∀ peers, providers = some peers → ValueReached sessions key localGet peers := by
  cases providers with
  | none =>
    refine iff_of_true ⟨false, none, rfl, (nomatch ·), ?_⟩ fun peers h => nomatch h
    rintro ⟨peers, value, h, -⟩
    cases h
  | some peers =>
    constructor
    · rintro ⟨ret, buffer, h, hsound, -⟩ peers' hpeers
      cases hpeers
      obtain ⟨value, rfl, hne, -⟩ := hsound (onlineGetValue_ret h)
      exact valueReached_of_eq_ok hne h
    · intro h
      obtain ⟨value, hne, hanswered, hget⟩ := exists_of_valueReached (h peers rfl)
      exact ⟨true, some value, hget, fun _ => ⟨value, rfl, hne, peers, rfl, hanswered⟩,
        fun _ => rfl⟩

/-- a provider who is not connected and can not be -/
def unreachableProvider : Provider where
  known := .ok (some { peer := { id := asciiBytes "Qa" } })
  found := some { peer := { id := asciiBytes "Qa" } }

/-- **nobody is reached**, and success is reported without a value -/
theorem not_lookupSound :
    ¬ LookupSound Heap.empty (asciiBytes "k") (.ok none) (some [unreachableProvider]) := by
  rintro ⟨ret, buffer, h, hsound, -⟩
  have hget : onlineGetValue Heap.empty (asciiBytes "k") (.ok none) (some [unreachableProvider]) =
      .ok (true, none) := by decide
  rw [hget] at h
  cases h
  obtain ⟨value, hvalue, -⟩ := hsound rfl
  cases hvalue

end Libp2p
