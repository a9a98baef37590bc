import Libipfs.Lib.Collect
import Libipfs.Lib.Run
import Libipfs.Libp2p.KnownPeers
import Libipfs.Secio.Handshake

/-!
# Searches of the distributed hash table

One thread runs the table and calls `callback` for every event; the results of all searches are
kept in one list, with an entry for each hash.  Another thread waits for the entry of its hash, and
for results in it.  It sleeps in between, and the events come while it does.

* `callback`            an event: addresses for a hash, or the end of a search;
* `SearchPc`, `proceed` where a searching thread is, and what it does next;
* `KademliaOp`, `kademliaStep`   an event, or a turn of the searching thread;
* `Heard`, `hear`       what was received for each hash since its entry was created;
* `KademliaLaw`         entries are what was received, and a search returns the entry of its hash;
* `KademliaOp.Proper`   the events and turns that keep it;
* `kademliaLaw_along`   **results belong to the hash** along a run of those.
-/

set_option linter.unusedVariables false

namespace Libp2p
open CSem

/-! ## entries -/

abbrev InfoHash : Type := Vector UInt8 20

def dhtMaxIpv4 : Nat := 50
def dhtMaxIpv6 : Nat := 10

/-- `pad` is what stands in the two bytes behind the port, which `memcmp` compares too -/
structure Ipv4Struct where
  ip : List UInt8
  port : Nat
  pad : UInt16
  deriving DecidableEq, Repr

structure Ipv6Struct where
  ip : List UInt8
  port : Nat
  deriving DecidableEq, Repr

structure SearchStruct where
  hash : InfoHash
  ipv4 : List Ipv4Struct := []
  ipv6 : List Ipv6Struct := []

/-- from the network, high byte first -/
def networkPort (bytes : List UInt8) : Nat := (bytes.getD 0 0).toNat * 256 + (bytes.getD 1 0).toNat

/-- as the two bytes lie in memory, low byte first -/
def memoryPort (bytes : List UInt8) : Nat := (bytes.getD 1 0).toNat * 256 + (bytes.getD 0 0).toNat

/-- `pad` is what the struct on the stack holds there -/
inductive DhtEvent where
  | values (hash : InfoHash) (data : List UInt8) (pad : UInt16)
  | values6 (hash : InfoHash) (data : List UInt8)
  | searchDone (hash : InfoHash)
  | other

/-- the first address of the data -/
def addIpv4 (data : List UInt8) (pad : UInt16) (rp : SearchStruct) : Exec SearchStruct :=
  if rp.ipv4.length = dhtMaxIpv4 then .ok rp
  else do
    require .outOfBounds (6 ≤ data.length)
    let ipv4 : Ipv4Struct :=
      { ip := data.take 4, port := networkPort ((data.drop 4).take 2), pad := pad }
    if ipv4 ∈ rp.ipv4 then .ok rp else .ok { rp with ipv4 := rp.ipv4 ++ [ipv4] }

/-- the first address of the data; the port is left as it is -/
def addIpv6 (data : List UInt8) (rp : SearchStruct) : Exec SearchStruct :=
  if rp.ipv6.length = dhtMaxIpv6 then .ok rp
  else do
    require .outOfBounds (18 ≤ data.length)
    let ipv6 : Ipv6Struct := { ip := data.take 16, port := memoryPort ((data.drop 16).take 2) }
    if ipv6 ∈ rp.ipv6 then .ok rp else .ok { rp with ipv6 := rp.ipv6 ++ [ipv6] }

/-- the first entry of the hash -/
def atHash (hash : InfoHash) (add : SearchStruct → Exec SearchStruct) :
    List SearchStruct → Exec (List SearchStruct)
  | [] => .ok []
  | rp :: list =>
    if rp.hash = hash then do
      let rp ← add rp
      .ok (rp :: list)
    else do
      let list ← atHash hash add list
      .ok (rp :: list)

/-- the last entry of the list is not looked at -/
def searchDone (hash : InfoHash) (list : List SearchStruct) : List SearchStruct :=
  if list.dropLast.any fun sp => sp.hash = hash then list else list ++ [{ hash := hash }]

def callback : DhtEvent → List SearchStruct → Exec (List SearchStruct)
  | .values hash data pad, list => atHash hash (addIpv4 data pad) list
  | .values6 hash data, list => atHash hash (addIpv6 data) list
  | .searchDone hash, list => .ok (searchDone hash list)
  | .other, list => .ok list

/-! ## reading the results -/

/-- `inet_ntop` of an IPv4 address -/
def ipv4Text (ip : List UInt8) : List UInt8 :=
  dotted (ip.getD 0 0).toNat (ip.getD 1 0).toNat (ip.getD 2 0).toNat (ip.getD 3 0).toNat

def addressText (family text : List UInt8) (port : Nat) : List UInt8 :=
  asciiBytes "/" ++ family ++ asciiBytes "/" ++ text ++ asciiBytes "/tcp/" ++ numeral 10 port

/-- the addresses that can be made of the texts; the others are left out -/
def newAddresses : List (List UInt8) → Exec (List Multiaddress)
  | [] => .ok []
  | text :: texts => do
    let address ← multiaddressNewFromString text
    let addresses ← newAddresses texts
    .ok (address.toList ++ addresses)

/-- the results of the first entry of the list; `ntop6` is `inet_ntop` of an IPv6 address -/
def readResults (ntop6 : List UInt8 → List UInt8) (list : List SearchStruct) :
    Exec (Option (List Multiaddress)) := do
  let head ← deref list.head?
  if head.ipv4 = [] ∨ head.ipv6 = [] then .ok none
  else do
    let addresses ← newAddresses
      ((head.ipv4.map fun a => addressText (asciiBytes "ip4") (ipv4Text a.ip) a.port) ++
        head.ipv6.map fun a => addressText (asciiBytes "ip6") (ntop6 a.ip) a.port)
    .ok (some addresses)

/-! ## a searching thread -/

/-- where the thread is, with the microseconds that are left to it -/
inductive SearchPc where
  /-- in `search_kademlia_internal`, called to repeat the search or not -/
  | locking (left : Int) (repeated : Bool)
  /-- before it sleeps -/
  | waiting (left : Int)
  /-- when it has slept for so long -/
  | slept (left i : Int)
  /-- its entry has been found -/
  | results (left : Int)
  /-- it sleeps for two seconds -/
  | pausing (left : Int)
  deriving DecidableEq, Repr

structure SearchThread where
  id : InfoHash
  pc : SearchPc

/-- what a thread does in one turn: it goes on, or returns -/
inductive Turn where
  | next (pc : SearchPc)
  | done (result : Option (List Multiaddress))

/-- back from `search_kademlia_internal` -/
def searchInternalReturn (repeated : Bool) (left : Int) : Turn :=
  if repeated then .next (.pausing left)
  else if left = 0 then .done none
  else .next (.waiting left)

/-- `busy` says whether another search has the lock, `random` is what `random()` gives -/
def proceed (ntop6 : List UInt8 → List UInt8) (busy : Bool) (random : Nat)
    (list : List SearchStruct) (thread : SearchThread) : Exec Turn :=
  let i : Int := (random % 100000 : Nat)
  match thread.pc with
  | .locking left repeated =>
    if busy then
      .ok (if left < i then searchInternalReturn repeated 0
        else .next (.locking (left - i) repeated))
    else .ok (searchInternalReturn repeated left)
  | .waiting left => .ok (if left < i then .done none else .next (.slept left i))
  | .slept left i =>
    let found := list.any fun rp => rp.hash = thread.id
    .ok (.next (if found then .results left else .waiting (left - i)))
  | .results left => do
    let head ← deref list.head?
    if 0 < left ∧ head.ipv4 = [] ∧ head.ipv6 = [] then .ok (.next (.locking left true))
    else do
      let result ← readResults ntop6 list
      .ok (.done result)
  | .pausing left => .ok (.next (.results (left - 2000000)))

/-! ## what was received -/

/-- the bytes of an address, and its port -/
abbrev SearchAddress : Type := List UInt8 × Nat

/-- everything that came for a hash since its entry was created -/
structure Heard where
  hash : InfoHash
  ipv4 : List SearchAddress := []
  ipv6 : List SearchAddress := []

/-- addresses of `size` bytes each, with the port in the last two -/
def dataAddresses (size : Nat) (data : List UInt8) : List SearchAddress :=
  (List.range (data.length / size)).map fun n =>
    ((data.drop (size * n)).take (size - 2),
      networkPort ((data.drop (size * n + (size - 2))).take 2))

def hearAt (hash : InfoHash) (add : Heard → Heard) : List Heard → List Heard
  | [] => []
  | h :: heard => if h.hash = hash then add h :: heard else h :: hearAt hash add heard

def hear : DhtEvent → List Heard → List Heard
  | .values hash data _, heard =>
    hearAt hash (fun h => { h with ipv4 := h.ipv4 ++ dataAddresses 6 data }) heard
  | .values6 hash data, heard =>
    hearAt hash (fun h => { h with ipv6 := h.ipv6 ++ dataAddresses 18 data }) heard
  | .searchDone hash, heard =>
    if heard.any fun h => h.hash = hash then heard else heard ++ [{ hash := hash }]
  | .other, heard => heard

/-! ## the table and its searches -/

/-- what a search returned, and the list when it did -/
structure SearchReturn where
  id : InfoHash
  list : List SearchStruct
  result : Option (List Multiaddress)

structure KademliaState where
  list : List SearchStruct
  threads : List SearchThread
  heard : List Heard
  returns : List SearchReturn

def KademliaState.empty : KademliaState where
  list := []
  threads := []
  heard := []
  returns := []

/-- an event, the call of `search_kademlia`, or a turn of the k-th of the searching threads -/
inductive KademliaOp where
  | event (e : DhtEvent)
  | search (peerId : List UInt8) (timeout : Int)
  | turn (k : Nat) (busy : Bool) (random : Nat)

section
variable (dhtHash : List UInt8 → InfoHash) (ntop6 : List UInt8 → List UInt8) (started : Bool)

/-- the time is an `int`; `dht_search` takes 20 bytes of the peer id for a hash -/
def searchKademlia (peerId : List UInt8) (timeout : Int) (s : KademliaState) :
    Exec KademliaState := do
  require .overflow (-2 ^ 31 ≤ timeout * 1000000 ∧ timeout * 1000000 < 2 ^ 31)
  if started then do
    require .outOfBounds (20 ≤ peerId.length + 1)
    .ok { s with threads := s.threads ++
            [{ id := dhtHash peerId, pc := .locking (timeout * 1000000) false }] }
  else .ok { s with returns := s.returns ++
               [{ id := dhtHash peerId, list := s.list, result := none }] }

def kademliaTurn (k : Nat) (busy : Bool) (random : Nat) (s : KademliaState) :
    Exec KademliaState :=
  match s.threads[k]? with
  | none => .ok s
  | some thread => do
    match ← proceed ntop6 busy random s.list thread with
    | .next pc => .ok { s with threads := s.threads.set k { thread with pc := pc } }
    | .done result =>
      .ok { s with
            threads := s.threads.eraseIdx k
            returns := s.returns ++ [{ id := thread.id, list := s.list, result := result }] }

def kademliaStep : KademliaOp → KademliaState → Exec KademliaState
  | .event e, s => do
    let list ← callback e s.list
    .ok { s with list := list, heard := hear e s.heard }
  | .search peerId timeout, s => searchKademlia dhtHash started peerId timeout s
  | .turn k busy random, s => kademliaTurn ntop6 k busy random s

end

/-! ## the law -/

def Ipv4Struct.address (a : Ipv4Struct) : SearchAddress := (a.ip, a.port)

def Ipv6Struct.address (a : Ipv6Struct) : SearchAddress := (a.ip, a.port)

/-- the entry of a hash holds what was received for it, up to the capacity and nothing twice -/
structure EntryRight (rp : SearchStruct) (h : Heard) : Prop where
  hash : rp.hash = h.hash
  ipv4 : Collected dhtMaxIpv4 h.ipv4 (rp.ipv4.map Ipv4Struct.address)
  ipv6 : Collected dhtMaxIpv6 h.ipv6 (rp.ipv6.map Ipv6Struct.address)

/-- the bytes of an address of TCP over IPv4 or IPv6 -/
def multiaddressOf (family : UInt8) (a : SearchAddress) : List UInt8 :=
  family :: a.1 ++ [6, UInt8.ofNat (a.2 / 256), UInt8.ofNat (a.2 % 256)]

/-- the addresses in the entry of a hash, if there is one -/
def storedAddresses (list : List SearchStruct) (id : InfoHash) : List (List UInt8) :=
  match list.find? fun rp => rp.hash = id with
  | none => []
  | some rp =>
    rp.ipv4.map (fun a => multiaddressOf 4 a.address) ++
      rp.ipv6.map fun a => multiaddressOf 41 a.address

/-- nothing when there are none -/
def RightResult (r : SearchReturn) : Prop :=
  r.result.map (List.map Subtype.val) =
    if storedAddresses r.list r.id = [] then none else some (storedAddresses r.list r.id)

structure KademliaLaw (s : KademliaState) : Prop where
  hashes : (s.list.map SearchStruct.hash).Nodup
  entries : List.Forall₂ EntryRight s.list s.heard
  results : ∀ r ∈ s.returns, RightResult r

/-! ## what keeps the law -/

/-- the entry is full, or the address in front is not there with something else behind its port,
and those behind it are nothing new or there is no room for them -/
def Taken4 (rp : SearchStruct) (data : List UInt8) (pad : UInt16) : Prop :=
  let first : Ipv4Struct :=
    { ip := data.take 4, port := networkPort ((data.drop 4).take 2), pad := pad }
  let after := collect dhtMaxIpv4 (rp.ipv4.map Ipv4Struct.address) first.address
  rp.ipv4.length = dhtMaxIpv4 ∨
    (first.address ∈ rp.ipv4.map Ipv4Struct.address → first ∈ rp.ipv4) ∧
    (after.length = dhtMaxIpv4 ∨ ∀ a ∈ (dataAddresses 6 data).tail, a ∈ after)

/-- the entry is full, or the port in front is the same in either order of its bytes, and the
addresses behind the first are nothing new or there is no room for them -/
def Taken6 (rp : SearchStruct) (data : List UInt8) : Prop :=
  let port := (data.drop 16).take 2
  let after := collect dhtMaxIpv6 (rp.ipv6.map Ipv6Struct.address) (data.take 16, networkPort port)
  rp.ipv6.length = dhtMaxIpv6 ∨
    networkPort port = memoryPort port ∧
    (after.length = dhtMaxIpv6 ∨ ∀ a ∈ (dataAddresses 18 data).tail, a ∈ after)

/-- the data are whole addresses, one at least; the entry whose search is done is not the last -/
def DhtEvent.Proper (list : List SearchStruct) : DhtEvent → Prop
  | .values hash data pad => (6 ∣ data.length ∧ 0 < data.length) ∧
    ∀ rp ∈ list, rp.hash = hash → Taken4 rp data pad
  | .values6 hash data => (18 ∣ data.length ∧ 0 < data.length) ∧
    ∀ rp ∈ list, rp.hash = hash → Taken6 rp data
  | .searchDone hash => ∀ rp, list.getLast? = some rp → rp.hash ≠ hash
  | .other => True

/-- the thread gives up for want of time -/
def GivesUp (busy : Bool) (random : Nat) : SearchPc → Prop
  | .locking left repeated =>
    repeated = false ∧ if busy = true then left < (random % 100000 : Nat) else left = 0
  | .waiting left => left < (random % 100000 : Nat)
  | _ => False

/-- the thread reads the results -/
def ReadsResults (list : List SearchStruct) : SearchPc → Prop
  | .results left => ∀ head, list.head? = some head →
    ¬ (0 < left ∧ head.ipv4 = [] ∧ head.ipv6 = [])
  | _ => False

/-- who gives up has no addresses in the entry of its hash; nor has who reads the results, and the
first entry of the list lacks those of one kind -/
def TurnProper (list : List SearchStruct) (busy : Bool) (random : Nat) (thread : SearchThread) :
    Prop :=
  (GivesUp busy random thread.pc → storedAddresses list thread.id = []) ∧
  (ReadsResults list thread.pc → storedAddresses list thread.id = [] ∧
    ∀ head, list.head? = some head → head.ipv4 = [] ∨ head.ipv6 = [])

def KademliaOp.Proper (dhtHash : List UInt8 → InfoHash) (started : Bool) :
    KademliaOp → KademliaState → Prop
  | .event e, s => e.Proper s.list
  | .search peerId timeout, s =>
    (-2 ^ 31 ≤ timeout * 1000000 ∧ timeout * 1000000 < 2 ^ 31) ∧
    (started = true → 20 ≤ peerId.length + 1) ∧
    (started = false → storedAddresses s.list (dhtHash peerId) = [])
  | .turn k busy random, s => ∀ thread, s.threads[k]? = some thread →
    TurnProper s.list busy random thread

/-! ## an event keeps it -/

section
variable {list list' : List SearchStruct} {heard : List Heard} {hash : InfoHash}
  {rp : SearchStruct} {h : Heard} {data : List UInt8} {pad : UInt16}

theorem dataAddresses_eq_cons {size : Nat} (hsize : 0 < size) (hlen : size ≤ data.length) :
    dataAddresses size data =
      (data.take (size - 2), networkPort ((data.drop (size - 2)).take 2)) ::
        (dataAddresses size data).tail := by
  obtain ⟨n, hn⟩ : ∃ n, data.length / size = n + 1 :=
    Nat.exists_eq_succ_of_ne_zero (Nat.div_pos hlen hsize).ne'
  unfold dataAddresses
  rw [hn, List.range_succ_eq_map, List.map_cons, List.tail_cons, Nat.mul_zero, List.drop_zero,
    Nat.zero_add]

/-- what came is the first address and those behind it -/
theorem Collected.first_rest {α : Type} [DecidableEq α] {cap : Nat} {arrived kept rest : List α}
    {a : α} (h : Collected cap arrived kept)
    (hrest : (collect cap kept a).length = cap ∨ ∀ b ∈ rest, b ∈ collect cap kept a) :
    Collected cap (arrived ++ a :: rest) (collect cap kept a) := by
  rw [List.append_cons, (h.arrive a).append_iff]
  exact hrest

theorem addIpv4_right (h6 : 6 ≤ data.length) (hright : EntryRight rp h)
    (htaken : Taken4 rp data pad) :
    ∃ rp', addIpv4 data pad rp = .ok rp' ∧
      EntryRight rp' { h with ipv4 := h.ipv4 ++ dataAddresses 6 data } := by
  unfold addIpv4
  by_cases hfull : rp.ipv4.length = dhtMaxIpv4
  · rw [if_pos hfull]
    have hkept : (rp.ipv4.map Ipv4Struct.address).length = dhtMaxIpv4 := by
      rw [List.length_map, hfull]
    exact ⟨rp, rfl,
      { hash := hright.hash, ipv4 := hright.ipv4.append_iff.2 (.inl hkept), ipv6 := hright.ipv6 }⟩
  · obtain ⟨hpad, hrest⟩ := htaken.resolve_left hfull
    have hcollected := Collected.first_rest hright.ipv4 hrest
    have hroom : (rp.ipv4.map Ipv4Struct.address).length ≠ dhtMaxIpv4 := by
      rwa [List.length_map]
    have hcons := dataAddresses_eq_cons (by decide) h6
    rw [if_neg hfull, require_pos h6, ok_bind]
    dsimp only
    generalize hfirst : (Ipv4Struct.mk (data.take 4) (networkPort ((data.drop 4).take 2)) pad) =
      first at hpad hcollected ⊢
    have haddress : first.address = (data.take 4, networkPort ((data.drop 4).take 2)) := by
      rw [← hfirst]
      rfl
    rw [haddress] at hcollected hpad
    rw [hcons]
    by_cases hmem : first ∈ rp.ipv4
    · have hin : (data.take 4, networkPort ((data.drop 4).take 2)) ∈
          rp.ipv4.map Ipv4Struct.address :=
        haddress ▸ List.mem_map_of_mem hmem
      rw [if_pos hmem]
      rw [collect_of_mem hin] at hcollected
      exact ⟨rp, rfl, { hash := hright.hash, ipv4 := hcollected, ipv6 := hright.ipv6 }⟩
    · rw [if_neg hmem]
      rw [collect_of_not_mem hroom fun hin => hmem (hpad hin)] at hcollected
      refine ⟨_, rfl, { hash := hright.hash, ipv4 := ?_, ipv6 := hright.ipv6 }⟩
      show Collected dhtMaxIpv4 _ ((rp.ipv4 ++ [first]).map Ipv4Struct.address)
      rw [List.map_append, List.map_singleton, haddress]
      exact hcollected

theorem Ipv6Struct.address_injective : Function.Injective Ipv6Struct.address := by
  rintro ⟨ip, port⟩ ⟨ip', port'⟩ h
  obtain ⟨rfl, rfl⟩ := Prod.mk.inj h
  rfl

theorem addIpv6_right (h18 : 18 ≤ data.length) (hright : EntryRight rp h)
    (htaken : Taken6 rp data) :
    ∃ rp', addIpv6 data rp = .ok rp' ∧
      EntryRight rp' { h with ipv6 := h.ipv6 ++ dataAddresses 18 data } := by
  unfold addIpv6
  by_cases hfull : rp.ipv6.length = dhtMaxIpv6
  · rw [if_pos hfull]
    have hkept : (rp.ipv6.map Ipv6Struct.address).length = dhtMaxIpv6 := by
      rw [List.length_map, hfull]
    exact ⟨rp, rfl,
      { hash := hright.hash, ipv4 := hright.ipv4, ipv6 := hright.ipv6.append_iff.2 (.inl hkept) }⟩
  · obtain ⟨hport, hrest⟩ := htaken.resolve_left hfull
    have hcollected := Collected.first_rest hright.ipv6 hrest
    have hroom : (rp.ipv6.map Ipv6Struct.address).length ≠ dhtMaxIpv6 := by
      rwa [List.length_map]
    have hcons := dataAddresses_eq_cons (by decide) h18
    rw [if_neg hfull, require_pos h18, ok_bind]
    dsimp only
    rw [← hport, hcons]
    have hin : ({ ip := data.take 16, port := networkPort ((data.drop 16).take 2) } : Ipv6Struct) ∈
        rp.ipv6 ↔ (data.take 16, networkPort ((data.drop 16).take 2)) ∈
          rp.ipv6.map Ipv6Struct.address :=
      (List.mem_map_of_injective Ipv6Struct.address_injective).symm
    by_cases hmem : ({ ip := data.take 16, port := networkPort ((data.drop 16).take 2) } :
        Ipv6Struct) ∈ rp.ipv6
    · rw [if_pos hmem]
      rw [collect_of_mem (hin.1 hmem)] at hcollected
      exact ⟨rp, rfl, { hash := hright.hash, ipv4 := hright.ipv4, ipv6 := hcollected }⟩
    · rw [if_neg hmem]
      rw [collect_of_not_mem hroom fun hthere => hmem (hin.2 hthere)] at hcollected
      refine ⟨_, rfl, { hash := hright.hash, ipv4 := hright.ipv4, ipv6 := ?_ }⟩
      show Collected dhtMaxIpv6 _ ((rp.ipv6 ++ [_]).map Ipv6Struct.address)
      rw [List.map_append, List.map_singleton]
      exact hcollected

/-- **addresses for a hash** go to its entry -/
theorem atHash_right {add : SearchStruct → Exec SearchStruct} {more : Heard → Heard}
    (hsame : ∀ rp rp', add rp = .ok rp' → rp'.hash = rp.hash)
    (hadd : ∀ rp ∈ list, rp.hash = hash → ∀ h, EntryRight rp h →
      ∃ rp', add rp = .ok rp' ∧ EntryRight rp' (more h))
    (hentries : List.Forall₂ EntryRight list heard) :
    ∃ list', atHash hash add list = .ok list' ∧
      list'.map SearchStruct.hash = list.map SearchStruct.hash ∧
      List.Forall₂ EntryRight list' (hearAt hash more heard) := by
  induction hentries with
  | nil => exact ⟨[], rfl, rfl, .nil⟩
  | @cons rp h list heard hright hentries ih =>
    unfold atHash hearAt
    by_cases hhash : rp.hash = hash
    · obtain ⟨rp', hrp', hright'⟩ := hadd rp List.mem_cons_self hhash h hright
      rw [if_pos hhash, if_pos (hright.hash.symm.trans hhash), hrp', ok_bind]
      refine ⟨rp' :: list, rfl, ?_, .cons hright' hentries⟩
      rw [List.map_cons, List.map_cons, hsame rp rp' hrp']
    · obtain ⟨list', hlist', hhashes, hentries'⟩ :=
        ih fun rp hrp => hadd rp (List.mem_cons_of_mem _ hrp)
      rw [if_neg hhash, if_neg fun hthere => hhash (hright.hash.trans hthere), hlist', ok_bind]
      refine ⟨rp :: list', rfl, ?_, .cons hright hentries'⟩
      rw [List.map_cons, List.map_cons, hhashes]

theorem addIpv4_hash {rp' : SearchStruct} (h : addIpv4 data pad rp = .ok rp') :
    rp'.hash = rp.hash := by
  unfold addIpv4 at h
  split at h
  · cases h
    rfl
  · obtain ⟨-, h⟩ := require_bind_eq_ok.1 h
    dsimp only at h
    split at h
    · cases h
      rfl
    · cases h
      rfl

theorem addIpv6_hash {rp' : SearchStruct} (h : addIpv6 data rp = .ok rp') :
    rp'.hash = rp.hash := by
  unfold addIpv6 at h
  split at h
  · cases h
    rfl
  · obtain ⟨-, h⟩ := require_bind_eq_ok.1 h
    dsimp only at h
    split at h
    · cases h
      rfl
    · cases h
      rfl

/-- the hashes of the entries are those that something is known of -/
theorem any_hash_iff (hentries : List.Forall₂ EntryRight list heard) :
    (heard.any fun h => h.hash = hash) = list.any fun rp => rp.hash = hash := by
  induction hentries with
  | nil => rfl
  | cons hright hentries ih => rw [List.any_cons, List.any_cons, ih, hright.hash]

/-- **the end of a search** makes an entry for its hash, if there is none -/
theorem searchDone_right (hnodup : (list.map SearchStruct.hash).Nodup)
    (hlast : ∀ rp, list.getLast? = some rp → rp.hash ≠ hash)
    (hentries : List.Forall₂ EntryRight list heard) :
    ((searchDone hash list).map SearchStruct.hash).Nodup ∧
      List.Forall₂ EntryRight (searchDone hash list) (hear (.searchDone hash) heard) := by
  have hany : (list.dropLast.any fun sp => sp.hash = hash) =
      list.any fun sp => sp.hash = hash := by
    cases hl : list.getLast? with
    | none =>
      rw [List.getLast?_eq_none_iff.1 hl]
      rfl
    | some rp =>
      obtain ⟨front, rfl⟩ := List.getLast?_eq_some_iff.1 hl
      have hnot : decide (rp.hash = hash) = false := decide_eq_false (hlast rp hl)
      rw [List.dropLast_concat, List.any_append, List.any_cons, hnot, List.any_nil, Bool.or_false,
        Bool.or_false]
  unfold searchDone hear
  dsimp only
  rw [hany, any_hash_iff hentries]
  by_cases hthere : (list.any fun sp => sp.hash = hash) = true
  · rw [if_pos hthere, if_pos hthere]
    exact ⟨hnodup, hentries⟩
  · rw [if_neg hthere, if_neg hthere]
    have hnew : hash ∉ list.map SearchStruct.hash := by
      intro hmem
      obtain ⟨rp, hrp, hhash⟩ := List.mem_map.1 hmem
      exact hthere (List.any_eq_true.2 ⟨rp, hrp, decide_eq_true hhash⟩)
    constructor
    · rw [List.map_append, List.map_singleton, ← List.concat_eq_append]
      exact hnodup.concat hnew
    · exact List.rel_append hentries
        (.cons { hash := rfl, ipv4 := .nil, ipv6 := .nil } .nil)

/-- **an event** -/
theorem callback_right {e : DhtEvent} (he : e.Proper list)
    (hnodup : (list.map SearchStruct.hash).Nodup)
    (hentries : List.Forall₂ EntryRight list heard) :
    ∃ list', callback e list = .ok list' ∧ list.length ≤ list'.length ∧
      (list'.map SearchStruct.hash).Nodup ∧ List.Forall₂ EntryRight list' (hear e heard) := by
  cases e with
  | values hash data pad =>
    obtain ⟨⟨hdvd, hpos⟩, htaken⟩ := he
    obtain ⟨list', hlist', hhashes, hentries'⟩ := atHash_right
      (fun rp rp' => addIpv4_hash)
      (fun rp hrp hhash h hright =>
        addIpv4_right (Nat.le_of_dvd hpos hdvd) hright (htaken rp hrp hhash)) hentries
    refine ⟨list', hlist', ?_, hhashes ▸ hnodup, hentries'⟩
    have hlen := congrArg List.length hhashes
    rw [List.length_map, List.length_map] at hlen
    exact hlen.ge
  | values6 hash data =>
    obtain ⟨⟨hdvd, hpos⟩, htaken⟩ := he
    obtain ⟨list', hlist', hhashes, hentries'⟩ := atHash_right
      (fun rp rp' => addIpv6_hash)
      (fun rp hrp hhash h hright =>
        addIpv6_right (Nat.le_of_dvd hpos hdvd) hright (htaken rp hrp hhash)) hentries
    refine ⟨list', hlist', ?_, hhashes ▸ hnodup, hentries'⟩
    have hlen := congrArg List.length hhashes
    rw [List.length_map, List.length_map] at hlen
    exact hlen.ge
  | searchDone hash =>
    obtain ⟨hnodup', hentries'⟩ := searchDone_right hnodup he hentries
    refine ⟨_, rfl, ?_, hnodup', hentries'⟩
    unfold searchDone
    split
    · exact Nat.le_refl _
    · rw [List.length_append]
      exact Nat.le_add_right _ _
  | other => exact ⟨list, rfl, Nat.le_refl _, hnodup, hentries⟩

end

/-! ## a turn keeps it -/

/-- the thread has found its entry -/
def SearchPc.Found : SearchPc → Prop
  | .locking _ repeated => repeated = true
  | .results _ | .pausing _ => True
  | .waiting _ | .slept _ _ => False

/-- who has found an entry goes on with a list that has one; who returns without addresses has
none in its entry -/
def TurnRight (list : List SearchStruct) (id : InfoHash) : Turn → Prop
  | .next pc => pc.Found → list ≠ []
  | .done result => result = none ∧ storedAddresses list id = []

section
variable {dhtHash : List UInt8 → InfoHash} {ntop6 : List UInt8 → List UInt8} {started busy : Bool}
  {random : Nat} {list : List SearchStruct} {thread : SearchThread}

theorem searchInternalReturn_right {repeated : Bool} {left : Int}
    (hfound : repeated = true → list ≠ [])
    (hgives : repeated = false → left = 0 → storedAddresses list thread.id = []) :
    TurnRight list thread.id (searchInternalReturn repeated left) := by
  unfold searchInternalReturn
  cases repeated with
  | true => exact fun _ => hfound rfl
  | false =>
    rw [if_neg Bool.false_ne_true]
    by_cases hleft : left = 0
    · rw [if_pos hleft]
      exact ⟨rfl, hgives rfl hleft⟩
    · rw [if_neg hleft]
      exact fun hwaiting => hwaiting.elim

/-- the results are not read where one kind of them is missing -/
theorem readResults_none {head : SearchStruct} (hhead : list.head? = some head)
    (hmissing : head.ipv4 = [] ∨ head.ipv6 = []) : readResults ntop6 list = .ok none := by
  unfold readResults
  rw [hhead, deref_some, ok_bind, if_pos hmissing]

/-- **a turn of a thread** -/
theorem proceed_right (hproper : TurnProper list busy random thread)
    (hfound : thread.pc.Found → list ≠ []) :
    ∃ turn, proceed ntop6 busy random list thread = .ok turn ∧ TurnRight list thread.id turn := by
  obtain ⟨hgives, hreads⟩ := hproper
  unfold proceed
  generalize thread.pc = pc at hgives hreads hfound
  cases pc with
  | locking left repeated =>
    dsimp only
    cases busy with
    | true =>
      rw [if_pos rfl]
      by_cases hleft : left < (random % 100000 : Nat)
      · rw [if_pos hleft]
        exact ⟨_, rfl, searchInternalReturn_right hfound
          fun hrepeated _ => hgives ⟨hrepeated, hleft⟩⟩
      · rw [if_neg hleft]
        exact ⟨_, rfl, hfound⟩
    | false =>
      rw [if_neg Bool.false_ne_true]
      exact ⟨_, rfl, searchInternalReturn_right hfound
        fun hrepeated hleft => hgives ⟨hrepeated, hleft⟩⟩
  | waiting left =>
    dsimp only
    by_cases hleft : left < (random % 100000 : Nat)
    · rw [if_pos hleft]
      exact ⟨_, rfl, rfl, hgives hleft⟩
    · rw [if_neg hleft]
      exact ⟨_, rfl, fun hslept => hslept.elim⟩
  | slept left i =>
    dsimp only
    by_cases hany : (list.any fun rp => rp.hash = thread.id) = true
    · refine ⟨_, rfl, fun _ hnil => ?_⟩
      rw [hnil] at hany
      exact Bool.false_ne_true hany
    · rw [if_neg hany]
      exact ⟨_, rfl, fun hwaiting => hwaiting.elim⟩
  | results left =>
    dsimp only
    obtain ⟨head, rest, hlist⟩ := List.exists_cons_of_ne_nil (hfound trivial)
    have hhead : list.head? = some head := by
      rw [hlist]
      rfl
    rw [hhead, deref_some, ok_bind]
    by_cases hempty : 0 < left ∧ head.ipv4 = [] ∧ head.ipv6 = []
    · rw [if_pos hempty]
      exact ⟨_, rfl, fun _ => hfound trivial⟩
    · have hreading : ReadsResults list (.results left) := by
        intro head' hhead'
        obtain rfl : head = head' := Option.some.inj (hhead.symm.trans hhead')
        exact hempty
      obtain ⟨hnone, hmissing⟩ := hreads hreading
      rw [if_neg hempty, readResults_none hhead (hmissing head hhead), ok_bind]
      exact ⟨_, rfl, rfl, hnone⟩
  | pausing left => exact ⟨_, rfl, fun _ => hfound trivial⟩

/-! ## runs -/

/-- a thread that has found its entry finds the list with one -/
structure KademliaRight (s : KademliaState) : Prop where
  law : KademliaLaw s
  found : ∀ thread ∈ s.threads, thread.pc.Found → s.list ≠ []

theorem kademliaRight_empty : KademliaRight .empty where
  law :=
    { hashes := List.nodup_nil
      entries := .nil
      results := fun r hr => (nomatch hr) }
  found := fun thread hthread => (nomatch hthread)

/-- a search that returns nothing, as its entry has nothing -/
theorem KademliaRight.returned {s : KademliaState} (h : KademliaRight s)
    {threads : List SearchThread} (hthreads : ∀ thread ∈ threads, thread ∈ s.threads)
    {id : InfoHash} (hnone : storedAddresses s.list id = []) :
    KademliaRight
      { s with
        threads := threads
        returns := s.returns ++ [{ id := id, list := s.list, result := none }] } where
  law :=
    { hashes := h.law.hashes
      entries := h.law.entries
      results := by
        intro r hr
        obtain hr | hr := List.mem_append.1 hr
        · exact h.law.results r hr
        · rw [List.mem_singleton.1 hr]
          unfold RightResult
          rw [if_pos hnone]
          rfl }
  found := fun thread hthread => h.found thread (hthreads thread hthread)

/-- **one step** -/
theorem kademliaStep_right {op : KademliaOp} {s : KademliaState} (h : KademliaRight s)
    (hop : op.Proper dhtHash started s) :
    ∃ s', kademliaStep dhtHash ntop6 started op s = .ok s' ∧ KademliaRight s' := by
  cases op with
  | event e =>
    obtain ⟨list', hlist', hlen, hhashes, hentries⟩ :=
      callback_right hop h.law.hashes h.law.entries
    unfold kademliaStep
    dsimp only
    rw [hlist', ok_bind]
    refine ⟨_, rfl, { law := ⟨hhashes, hentries, h.law.results⟩, found := ?_ }⟩
    intro thread hthread hfound hnil
    have hpos := List.length_pos_of_ne_nil (h.found thread hthread hfound)
    have hzero : list'.length = 0 := congrArg List.length hnil
    omega
  | search peerId timeout =>
    obtain ⟨hrange, hlen, hnone⟩ := hop
    unfold kademliaStep searchKademlia
    dsimp only
    rw [require_pos hrange, ok_bind]
    cases started with
    | true =>
      rw [if_pos rfl, require_pos (hlen rfl), ok_bind]
      refine ⟨_, rfl, { law := ⟨h.law.hashes, h.law.entries, h.law.results⟩, found := ?_ }⟩
      intro thread hthread hfound
      obtain hthread | hthread := List.mem_append.1 hthread
      · exact h.found thread hthread hfound
      · rw [List.mem_singleton.1 hthread] at hfound
        exact absurd hfound Bool.false_ne_true
    | false =>
      rw [if_neg Bool.false_ne_true]
      exact ⟨_, rfl, h.returned (fun _ hthread => hthread) (hnone rfl)⟩
  | turn k busy random =>
    unfold kademliaStep kademliaTurn
    dsimp only
    cases hk : s.threads[k]? with
    | none => exact ⟨s, rfl, h⟩
    | some thread =>
      obtain ⟨turn, hturn, hright⟩ := proceed_right (hop thread hk)
        (h.found thread (List.mem_of_getElem? hk))
      dsimp only
      rw [hturn, ok_bind]
      cases turn with
      | next pc =>
        refine ⟨_, rfl, { law := ⟨h.law.hashes, h.law.entries, h.law.results⟩, found := ?_ }⟩
        intro other hother hfound
        obtain hother | rfl := List.mem_or_eq_of_mem_set hother
        · exact h.found other hother hfound
        · exact hright hfound
      | done result =>
        obtain ⟨rfl, hnone⟩ := hright
        exact ⟨_, rfl, h.returned (fun _ hthread => List.mem_of_mem_eraseIdx hthread) hnone⟩

/-- **results belong to the hash**: when every operation of a run is proper, the list has one entry
for a hash, with what was received for it, and a search returns the addresses of its own entry -/
theorem kademliaLaw_along {ops : List KademliaOp}
    (hproper : Guarded (kademliaStep dhtHash ntop6 started)
      (fun op s => op.Proper dhtHash started s) ops .empty) :
    HoldsAlong (kademliaStep dhtHash ntop6 started) KademliaLaw ops .empty :=
  HoldsAlong.mono (fun s h => h.law)
    (holdsAlong_of_step (fun op s => kademliaStep_right) kademliaRight_empty hproper)

end

def kademliaHash (b : UInt8) : InfoHash := Vector.replicate 20 b

/-- an address comes for one hash, and another is searched for in vain -/
def foundOps : List KademliaOp :=
  [.event (.searchDone (kademliaHash 1)),
   .event (.values (kademliaHash 1) [127, 0, 0, 1, 15, 161] 0),
   .search (List.replicate 20 65) 0, .turn 0 false 0]

theorem kademliaLaw_along_found :
    HoldsAlong (kademliaStep (fun _ => kademliaHash 2) id true) KademliaLaw foundOps .empty := by
  refine kademliaLaw_along ⟨fun rp hrp => (nomatch hrp), fun s hs => ?_⟩
  cases hs
  refine ⟨⟨by decide, fun rp hrp hhash => ?_⟩, fun s hs => ?_⟩
  · rw [List.mem_singleton.1 hrp]
    exact .inr ⟨fun hmem => (nomatch hmem), .inr fun a ha => (nomatch ha)⟩
  · cases hs
    refine ⟨⟨by decide, fun _ => by decide, fun hnot => (nomatch hnot)⟩, fun s hs => ?_⟩
    cases hs
    refine ⟨fun thread hthread => ?_, fun s hs => trivial⟩
    cases hthread
    exact ⟨fun _ => by decide, fun hreads => hreads.elim⟩

/-- **a search ends twice**: the entry is the last of the list, and not found -/
theorem not_kademliaLaw_along_twice :
    ¬ HoldsAlong (kademliaStep (fun _ => kademliaHash 2) id true) KademliaLaw
      [.event (.searchDone (kademliaHash 1)), .event (.searchDone (kademliaHash 1))] .empty := by
  intro h
  obtain ⟨s, hs, hlaw⟩ := h.last
  cases hs
  exact absurd hlaw.hashes (by decide)

end Libp2p
