import Libipfs.Lib.Run
import Libipfs.Lib.Tally

/-!
# The server of the API

One thread accepts the clients of the API and starts another thread for each of them, which has a
place in the table of connections until it is done.  The limit is checked before the mutex is taken.
A turn of a thread is a section under the mutex, or what it does between two of them.

* `ApiServer`              the table, the threads, and the sockets of clients that are open;
* `apiStep`                one turn, or the call of `api_stop`;
* `Table`                  what holds of the table while clients are served;
* `Overruns`               a client is let in, and all places are taken;
* `apiStep_table`          **any other turn** of a server that serves keeps it.
-/

namespace Ipfs.Api
open CSem

/-! ## the server -/

/-- a place that is taken -/
structure ApiConn where
  socket : Int
  ipv4 : UInt32
  port : UInt16
  /-- what `pthread_create` writes there -/
  pthread : Option Nat
  deriving DecidableEq, Repr

/-- where `api_listen_thread` is -/
inductive Listener where
  | accepting
  /-- it has seen that the limit is not reached -/
  | admitting (s : Int) (ipv4 : UInt32) (port : UInt16)
  /-- it has left its loop -/
  | ending
  | ended
  deriving DecidableEq, Repr

/-- where an `api_connection_thread` is -/
inductive Handler where
  | starting (index : Nat)
  | serving (index : Nat) (s : Int)
  /-- before its last section -/
  | closing (index : Nat) (s : Int)
  | gone
  deriving DecidableEq, Repr

structure ApiServer where
  maxConns : Nat
  connsCount : Int
  conns : Option (List (Option ApiConn))
  listener : Listener
  handlers : List Handler
  /-- the threads that are to end at their next cancellation point -/
  cancelled : List Nat
  /-- the sockets of clients that are open -/
  opened : List Int
  stopped : Bool
  /-- a thread has ended in its last section, and nobody gets the mutex any more -/
  locked : Bool
  -- for the record: how often a thread could not be started, or was without its parameters
  failed : Nat
  deriving DecidableEq, Repr

inductive ApiTurn where
  /-- what `socket_accept4` returns, and where the client is -/
  | accept (s : Int) (ipv4 : UInt32) (port : UInt16)
  /-- whether there is memory for the place and for the parameters, and whether a thread is made -/
  | listener (memory params created : Bool)
  | handler (t : Nat)
  /-- a thread comes to a cancellation point while it serves its client -/
  | cancelled (t : Nat)
  | stop
  deriving DecidableEq, Repr

/-- `api_start` with a table of `maxConns` places -/
def apiStart (maxConns : Nat) : ApiServer where
  maxConns := maxConns
  connsCount := 0
  conns := some (List.replicate maxConns none)
  listener := .accepting
  handlers := []
  cancelled := []
  opened := []
  stopped := false
  locked := false
  failed := 0

/-- the first place that is free, or the one behind the last -/
def freeSlot (slots : List (Option ApiConn)) : Nat := slots.findIdx Option.isNone

/-- the client is sent away -/
def ApiServer.reject (s : Int) (a : ApiServer) : ApiServer :=
  { a with opened := a.opened.erase s, listener := .accepting }

/-- the section of `api_listen_thread`; a place stays taken when there are no parameters -/
def admitClient (memory params created : Bool) (s : Int) (ipv4 : UInt32) (port : UInt16) (a : ApiServer) :
    Exec ApiServer := do
  let slots ← deref a.conns
  let i := freeSlot slots
  require .outOfBounds (i < slots.length)
  if ¬ memory then .ok (a.reject s)
  else if ¬ params then
    .ok ({ a with
      conns := some (slots.set i (some ⟨s, ipv4, port, none⟩)), failed := a.failed + 1 }.reject s)
  else if ¬ created then
    .ok ({ a with connsCount := a.connsCount - 1, failed := a.failed + 1 }.reject s)
  else
    .ok { a with
      conns := some (slots.set i (some ⟨s, ipv4, port, some a.handlers.length⟩))
      connsCount := a.connsCount + 1
      listener := .accepting
      handlers := a.handlers ++ [.starting i] }

/-- a thread is to be cancelled, and its client is sent away -/
def cancel (a : ApiServer) (slot : Option ApiConn) : Exec ApiServer := do
  let conn ← deref slot
  match conn.pthread with
  | none => .error .uninitialized
  | some t =>
    .ok { a with cancelled := t :: a.cancelled, opened := a.opened.erase conn.socket }

/-- `api_connections_cleanup` -/
def connectionsCleanup (a : ApiServer) : Exec ApiServer :=
  match a.conns with
  | none => .ok a
  | some slots =>
    if 0 < a.connsCount then do
      let a ← slots.foldlM cancel a
      .ok { a with connsCount := 0, conns := none }
    else .ok { a with conns := none }

/-- `conns[index]` -/
def slotAt (index : Nat) (a : ApiServer) : Exec (Option ApiConn) := do
  let slots ← deref a.conns
  match slots[index]? with
  | none => .error .outOfBounds
  | some slot => .ok slot

def ApiServer.moveHandler (t : Nat) (h : Handler) (a : ApiServer) : ApiServer :=
  { a with handlers := a.handlers.set t h }

/-- the last section of `api_connection_thread` -/
def leave (t index : Nat) (s : Int) (a : ApiServer) : Exec ApiServer := do
  let slots ← deref a.conns
  require .outOfBounds (index < slots.length)
  .ok ({ a with
    opened := a.opened.erase s
    conns := some (slots.set index none)
    connsCount := a.connsCount - 1 }.moveHandler t .gone)

/-- a thread reads its place at the start for the socket, and at the end for its message; its last
section begins with `close`, where it ends when it was cancelled -/
def handlerGoes (t : Nat) (a : ApiServer) : Handler → Exec ApiServer
  | .starting index => do
    let slot ← slotAt index a
    let conn ← deref slot
    .ok (a.moveHandler t (.serving index conn.socket))
  | .serving index s => do
    let slot ← slotAt index a
    let _ ← deref slot
    .ok (a.moveHandler t (.closing index s))
  | .closing index s =>
    if a.locked then .ok a
    else if t ∈ a.cancelled then .ok ({ a with locked := true }.moveHandler t .gone)
    else leave t index s a
  | .gone => .ok a

/-- a listener that is cancelled ends when it is to accept the next client -/
def listenerAccepts (s : Int) (ipv4 : UInt32) (port : UInt16) (a : ApiServer) : ApiServer :=
  match a.listener with
  | .accepting =>
    if a.stopped then { a with listener := .ended }
    else if s ≤ 0 then { a with listener := .ending }
    else if a.maxConns ≤ a.connsCount then a
    else { a with listener := .admitting s ipv4 port, opened := s :: a.opened }
  | _ => a

def listenerGoes (memory params created : Bool) (a : ApiServer) : Exec ApiServer :=
  match a.listener with
  | .admitting s ipv4 port =>
    if a.locked then .ok a else admitClient memory params created s ipv4 port a
  | .ending =>
    if a.locked then .ok a
    else do
      let a ← connectionsCleanup a
      .ok { a with listener := .ended }
  | _ => .ok a

def apiStep : ApiTurn → ApiServer → Exec ApiServer
  | .accept s ipv4 port, a => .ok (listenerAccepts s ipv4 port a)
  | .listener memory params created, a => listenerGoes memory params created a
  | .handler t, a =>
    match a.handlers[t]? with
    | none => .ok a
    | some h => handlerGoes t a h
  | .cancelled t, a =>
    match a.handlers[t]? with
    | some (.serving _ _) => .ok (if t ∈ a.cancelled then a.moveHandler t .gone else a)
    | _ => .ok a
  | .stop, a =>
    if a.stopped ∨ a.locked then .ok a else connectionsCleanup { a with stopped := true }

/-! ## what holds of the table -/

def Handler.index : Handler → Option Nat
  | .starting index => some index
  | .serving index _ => some index
  | .closing index _ => some index
  | .gone => none

def Handler.socket : Handler → Option Int
  | .serving _ s => some s
  | .closing _ s => some s
  | _ => none

/-- the thread has place `i`, with socket `s` in it -/
structure Handler.At (i : Nat) (s : Int) (h : Handler) : Prop where
  index : h.index = some i
  socket : ∀ s', h.socket = some s' → s' = s

def Handler.alive (h : Handler) : Nat := if h = .gone then 0 else 1

def taken (slot : Option ApiConn) : Nat := if slot.isSome then 1 else 0

/-- there is a thread for the client -/
def attended (slot : Option ApiConn) : Nat := if slot.any fun c => c.pthread.isSome then 1 else 0

/-- a thread serves the client with the socket -/
def serves (s : Int) (slot : Option ApiConn) : Nat :=
  if slot.any fun c => c.pthread.isSome ∧ c.socket = s then 1 else 0

def Listener.holds (s : Int) : Listener → Nat
  | .admitting s' _ _ => if s' = s then 1 else 0
  | _ => 0

structure Table (a : ApiServer) (slots : List (Option ApiConn)) : Prop where
  conns : a.conns = some slots
  length : slots.length = a.maxConns
  count : a.connsCount + a.failed = tally taken slots
  slot : ∀ (i : Nat) (c : ApiConn) (t : Nat), slots[i]? = some (some c) → c.pthread = some t →
    ∃ h : Handler, a.handlers[t]? = some h ∧ h.At i c.socket
  handler : ∀ (t : Nat) (h : Handler) (i : Nat), a.handlers[t]? = some h → h.index = some i →
    ∃ c : ApiConn, slots[i]? = some (some c) ∧ c.pthread = some t
  alive : tally Handler.alive a.handlers = tally attended slots
  opened : ∀ s, a.opened.count s = tally (serves s) slots + a.listener.holds s
  nodup : a.opened.Nodup
  room : ∀ s ipv4 port, a.listener = .admitting s ipv4 port → a.connsCount < a.maxConns
  whole : a.failed = 0 → ∀ (i : Nat) (c : ApiConn), slots[i]? = some (some c) → c.pthread.isSome
  serving : a.listener ≠ .ending ∧ a.stopped = false ∧ a.cancelled = [] ∧ a.locked = false

section
variable {a : ApiServer} {slots : List (Option ApiConn)} {s : Int} {ipv4 : UInt32} {port : UInt16}
variable {i t : Nat} {c : ApiConn} {h h' : Handler} {memory params created : Bool}
variable {op : ApiTurn} {ops : List ApiTurn}

theorem table_start (maxConns : Nat) : Table (apiStart maxConns) (List.replicate maxConns none) := by
  have hnone : ∀ {f : Option ApiConn → Nat}, f none = 0 →
      tally f (List.replicate maxConns none) = 0 := fun hf => tally_zero fun slot hslot => by
    rw [List.eq_of_mem_replicate hslot, hf]
  have hempty : ∀ (i : Nat) (c : ApiConn),
      (List.replicate maxConns (none : Option ApiConn))[i]? ≠ some (some c) := by
    intro i c hi
    cases List.eq_of_mem_replicate (List.mem_of_getElem? hi)
  refine ⟨rfl, List.length_replicate, ?_, fun i c t hi => absurd hi (hempty i c),
    fun t h i ht => ?_, ?_, fun s => ?_, List.nodup_nil, fun s ipv4 port hl => ?_,
    fun _ i c hi => absurd hi (hempty i c), ⟨fun h => (by cases h), rfl, rfl, rfl⟩⟩
  · rw [hnone rfl]
    rfl
  · cases ht
  · rw [hnone rfl]
    rfl
  · rw [hnone rfl]
    rfl
  · cases hl

/-! ## a client is let in, or sent away -/

theorem Table.unlocked (hd : Table a slots) : ¬ a.locked = true := by
  rw [hd.serving.2.2.2]
  exact Bool.false_ne_true

theorem freeSlot_spec (hi : freeSlot slots < slots.length) : slots[freeSlot slots]? = some none := by
  have hnone := List.findIdx_getElem (w := hi)
  rw [List.getElem?_eq_getElem hi]
  exact congrArg some (Option.isNone_iff_eq_none.1 hnone)

/-- the client of the listener is sent away -/
theorem Table.reject (hd : Table a slots) (hl : a.listener = .admitting s ipv4 port) :
    Table (a.reject s) slots := by
  refine ⟨hd.conns, hd.length, hd.count, hd.slot, hd.handler, hd.alive, fun s' => ?_,
    hd.nodup.erase s, fun _ _ _ h => (by cases h), hd.whole, ⟨fun h => (by cases h), hd.serving.2⟩⟩
  have hopened := hd.opened s'
  rw [hl] at hopened
  show (a.opened.erase s).count s' = _ + 0
  rw [List.count_erase, hopened, Listener.holds]
  by_cases hs : s = s'
  · rw [if_pos hs, if_pos (beq_iff_eq.2 hs)]
    rfl
  · rw [if_neg hs, if_neg fun h => hs (beq_iff_eq.1 h)]
    rfl

/-- no thread is made -/
theorem Table.fails (hd : Table a slots) :
    Table { a with connsCount := a.connsCount - 1, failed := a.failed + 1 } slots := by
  refine ⟨hd.conns, hd.length, ?_, hd.slot, hd.handler, hd.alive, hd.opened, hd.nodup,
    fun s ipv4 port hl => ?_, fun h => absurd h (Nat.succ_ne_zero _), hd.serving⟩
  · have := hd.count
    push_cast
    omega
  · have := hd.room s ipv4 port hl
    show a.connsCount - 1 < (a.maxConns : Int)
    omega

/-- a place is taken for good -/
theorem Table.loses (hd : Table a slots) (hi : slots[i]? = some none) (hc : c.pthread = none) :
    Table { a with conns := some (slots.set i (some c)), failed := a.failed + 1 }
      (slots.set i (some c)) := by
  have hlt := (List.getElem?_eq_some_iff.1 hi).1
  have hother : ∀ {j : Nat} {c' : ApiConn}, slots[j]? = some (some c') → i ≠ j := by
    rintro j c' hj rfl
    cases hi.symm.trans hj
  have hserves : ∀ s, serves s (some c) = 0 := fun s => by
    unfold serves
    rw [Option.any_some, hc]
    rfl
  refine ⟨rfl, (List.length_set).trans hd.length, ?_, fun j c' t hj hc' => ?_, fun t h j ht hj => ?_,
    ?_, fun s => ?_, hd.nodup, hd.room, fun h => absurd h (Nat.succ_ne_zero _), hd.serving⟩
  · have hset : _ + 0 = _ + 1 := tally_set taken hi (some c)
    have := hd.count
    push_cast
    omega
  · by_cases hij : i = j
    · subst hij
      rw [List.getElem?_set_self hlt] at hj
      obtain rfl := Option.some.inj (Option.some.inj hj)
      cases hc.symm.trans hc'
    · rw [List.getElem?_set_ne hij] at hj
      exact hd.slot j c' t hj hc'
  · obtain ⟨c', hc', hthread⟩ := hd.handler t h j ht hj
    exact ⟨c', (List.getElem?_set_ne (hother hc')).trans hc', hthread⟩
  · have hset : _ + 0 = _ + attended (some c) := tally_set attended hi (some c)
    have hzero : attended (some c) = 0 := by
      unfold attended
      rw [Option.any_some, hc]
      rfl
    rw [hzero] at hset
    exact hd.alive.trans (Nat.add_right_cancel hset).symm
  · have hset : _ + 0 = _ + serves s (some c) := tally_set (serves s) hi (some c)
    rw [hserves] at hset
    rw [Nat.add_right_cancel hset]
    exact hd.opened s

/-- **the client is let in** -/
theorem Table.admits (hd : Table a slots) (hl : a.listener = .admitting s ipv4 port)
    (hi : slots[i]? = some none) :
    Table { a with
      conns := some (slots.set i (some ⟨s, ipv4, port, some a.handlers.length⟩))
      connsCount := a.connsCount + 1
      listener := .accepting
      handlers := a.handlers ++ [.starting i] }
      (slots.set i (some ⟨s, ipv4, port, some a.handlers.length⟩)) := by
  have hlt := (List.getElem?_eq_some_iff.1 hi).1
  have hother : ∀ {j : Nat} {c' : ApiConn}, slots[j]? = some (some c') → i ≠ j := by
    rintro j c' hj rfl
    cases hi.symm.trans hj
  have hlast : (a.handlers ++ [Handler.starting i])[a.handlers.length]? = some (.starting i) :=
    List.getElem?_concat_length
  have hbefore : ∀ {t : Nat} {h : Handler}, a.handlers[t]? = some h →
      (a.handlers ++ [Handler.starting i])[t]? = some h := fun ht => by
    rw [List.getElem?_append_left (List.getElem?_eq_some_iff.1 ht).1, ht]
  refine ⟨rfl, (List.length_set).trans hd.length, ?_, fun j c' t hj hc' => ?_, fun t h j ht hj => ?_,
    ?_, fun s' => ?_, hd.nodup, fun _ _ _ h => (by cases h), fun hf j c' hj => ?_,
    ⟨fun h => (by cases h), hd.serving.2⟩⟩
  · have hset : _ + 0 = _ + 1 := tally_set taken hi (some ⟨s, ipv4, port, some a.handlers.length⟩)
    have := hd.count
    push_cast
    omega
  · by_cases hij : i = j
    · subst hij
      rw [List.getElem?_set_self hlt] at hj
      obtain rfl := Option.some.inj (Option.some.inj hj)
      obtain rfl := Option.some.inj hc'
      exact ⟨_, hlast, rfl, fun s' hs' => by cases hs'⟩
    · rw [List.getElem?_set_ne hij] at hj
      obtain ⟨h, ht, hat⟩ := hd.slot j c' t hj hc'
      exact ⟨h, hbefore ht, hat⟩
  · by_cases hnew : t = a.handlers.length
    · subst hnew
      obtain rfl := Option.some.inj (hlast.symm.trans ht)
      obtain rfl := Option.some.inj hj
      exact ⟨_, List.getElem?_set_self hlt, rfl⟩
    · have hold : a.handlers[t]? = some h := by
        have hbound := (List.getElem?_eq_some_iff.1 ht).1
        rw [List.length_append, List.length_singleton] at hbound
        rwa [List.getElem?_append_left (by omega)] at ht
      obtain ⟨c', hc', hthread⟩ := hd.handler t h j hold hj
      exact ⟨c', (List.getElem?_set_ne (hother hc')).trans hc', hthread⟩
  · have hset : _ + 0 = _ + 1 :=
      tally_set attended hi (some ⟨s, ipv4, port, some a.handlers.length⟩)
    show tally Handler.alive (a.handlers ++ [_]) = _
    rw [tally_perm List.perm_append_comm, List.singleton_append, tally_cons, hd.alive]
    exact (Nat.add_comm _ _).trans hset.symm
  · have hset : _ + 0 = _ + serves s' (some ⟨s, ipv4, port, some a.handlers.length⟩) :=
      tally_set (serves s') hi _
    have hopened := hd.opened s'
    rw [hl] at hopened
    rw [hopened, ← Nat.add_zero (tally _ (slots.set _ _)), hset, Nat.add_assoc]
    congr 1
    show (if s = s' then 1 else 0) = _
    unfold serves
    by_cases hs : s = s' <;> simp [hs, Listener.holds]
  · by_cases hij : i = j
    · subst hij
      rw [List.getElem?_set_self hlt] at hj
      obtain rfl := Option.some.inj (Option.some.inj hj)
      rfl
    · rw [List.getElem?_set_ne hij] at hj
      exact hd.whole hf j c' hj

/-- **the section of the listener** goes through when there is a free place -/
theorem admitClient_table (hd : Table a slots) (hl : a.listener = .admitting s ipv4 port)
    (hfree : freeSlot slots < slots.length) :
    ∃ a' slots', admitClient memory params created s ipv4 port a = .ok a' ∧ Table a' slots' ∧
      ((memory = true → params = true ∧ created = true) → a'.failed = a.failed) := by
  have hi := freeSlot_spec hfree
  unfold admitClient
  rw [hd.conns, deref_some, ok_bind]
  simp only
  rw [require_pos hfree, ok_bind]
  split
  · exact ⟨_, _, rfl, hd.reject hl, fun _ => rfl⟩
  rename_i hmemory
  split
  · rename_i hparams
    exact ⟨_, _, rfl, (hd.loses (c := ⟨s, ipv4, port, none⟩) hi rfl).reject hl,
      fun h => absurd (h (not_not.1 hmemory)).1 hparams⟩
  split
  · rename_i hcreated
    have hfails := hd.fails.reject hl
    rw [hd.conns] at hfails
    exact ⟨_, _, rfl, hfails, fun h => absurd (h (not_not.1 hmemory)).2 hcreated⟩
  · exact ⟨_, _, rfl, hd.admits hl hi, fun _ => rfl⟩

/-- a client comes -/
theorem Table.accepts (hd : Table a slots) (hpos : 0 < s) (hnew : s ∉ a.opened) :
    Table (listenerAccepts s ipv4 port a) slots := by
  unfold listenerAccepts
  cases hl : a.listener with
  | accepting =>
    simp only
    rw [if_neg (by rw [hd.serving.2.1]; exact Bool.false_ne_true), if_neg (not_le.2 hpos)]
    split
    · exact hd
    · rename_i hroom
      refine ⟨hd.conns, hd.length, hd.count, hd.slot, hd.handler, hd.alive, fun s' => ?_,
        List.nodup_cons.2 ⟨hnew, hd.nodup⟩, fun _ _ _ _ => not_le.1 hroom, hd.whole,
        ⟨fun h => (by cases h), hd.serving.2⟩⟩
      have hopened := hd.opened s'
      rw [hl] at hopened
      show (s :: a.opened).count s' = _ + if s = s' then 1 else 0
      rw [List.count_cons, hopened]
      show _ + 0 + (if s == s' then 1 else 0) = _
      by_cases hs : s = s' <;> simp [hs]
  | _ => exact hd

/-! ## a thread goes on -/

/-- **a thread goes on** in its place -/
theorem Table.move (hd : Table a slots) (ht : a.handlers[t]? = some h) (hi : h.index = some i)
    (hc : slots[i]? = some (some c)) (hat : h'.At i c.socket) : Table (a.moveHandler t h') slots := by
  have hlt := (List.getElem?_eq_some_iff.1 ht).1
  have halive : ∀ {h : Handler}, h.index = some i → h.alive = 1 := fun hi => by
    unfold Handler.alive
    rw [if_neg]
    rintro rfl
    cases hi
  refine ⟨hd.conns, hd.length, hd.count, fun j c' t' hj hc' => ?_, fun t' h'' j ht' hj => ?_, ?_,
    hd.opened, hd.nodup, hd.room, hd.whole, hd.serving⟩
  · obtain ⟨h₁, ht₁, hat₁⟩ := hd.slot j c' t' hj hc'
    by_cases htt : t = t'
    · subst htt
      obtain rfl := Option.some.inj (ht₁.symm.trans ht)
      obtain rfl := Option.some.inj (hat₁.index.symm.trans hi)
      obtain rfl := Option.some.inj (Option.some.inj (hj.symm.trans hc))
      exact ⟨h', List.getElem?_set_self hlt, hat⟩
    · exact ⟨h₁, (List.getElem?_set_ne htt).trans ht₁, hat₁⟩
  · by_cases htt : t = t'
    · subst htt
      obtain rfl := Option.some.inj ((List.getElem?_set_self hlt).symm.trans ht')
      obtain rfl := Option.some.inj (hat.index.symm.trans hj)
      exact hd.handler t h i ht hi
    · exact hd.handler t' h'' j ((List.getElem?_set_ne htt).symm.trans ht') hj
  · have hset := tally_set Handler.alive ht h'
    rw [halive hi, halive hat.index] at hset
    exact (Nat.add_right_cancel hset).trans hd.alive

/-- the place of a thread -/
theorem Table.place (hd : Table a slots) (ht : a.handlers[t]? = some h) (hi : h.index = some i) :
    ∃ c, slots[i]? = some (some c) ∧ c.pthread = some t ∧ h.At i c.socket := by
  obtain ⟨c, hc, hthread⟩ := hd.handler t h i ht hi
  obtain ⟨h₁, ht₁, hat⟩ := hd.slot i c t hc hthread
  obtain rfl := Option.some.inj (ht₁.symm.trans ht)
  exact ⟨c, hc, hthread, hat⟩

/-- **a thread leaves**, and its place is free again -/
theorem Table.leaves (hd : Table a slots) (ht : a.handlers[t]? = some (.closing i s)) :
    ∃ a', leave t i s a = .ok a' ∧ Table a' (slots.set i none) ∧ a'.failed = a.failed := by
  obtain ⟨c, hc, hthread, hat⟩ := hd.place ht rfl
  obtain rfl : s = c.socket := hat.socket s rfl
  have hlt := (List.getElem?_eq_some_iff.1 hc).1
  have htlt := (List.getElem?_eq_some_iff.1 ht).1
  have hother : ∀ {j : Nat} {c' : ApiConn}, (slots.set i none)[j]? = some (some c') →
      i ≠ j ∧ slots[j]? = some (some c') := by
    intro j c' hj
    by_cases hij : i = j
    · subst hij
      rw [List.getElem?_set_self hlt] at hj
      cases Option.some.inj hj
    · exact ⟨hij, (List.getElem?_set_ne hij).symm.trans hj⟩
  unfold leave
  rw [hd.conns, deref_some, ok_bind, require_pos hlt, ok_bind]
  refine ⟨_, rfl, ⟨rfl, (List.length_set).trans hd.length, ?_, fun j c' t' hj hc' => ?_,
    fun t' h' j ht' hj => ?_, ?_, fun s' => ?_, hd.nodup.erase _, fun s' ipv4 port hl => ?_,
    fun hf j c' hj => hd.whole hf j c' (hother hj).2, hd.serving⟩, rfl⟩
  · have hset : _ + 1 = _ + 0 := tally_set taken hc none
    have := hd.count
    show a.connsCount - 1 + a.failed = _
    omega
  · obtain ⟨hij, hj⟩ := hother hj
    obtain ⟨h', ht', hat'⟩ := hd.slot j c' t' hj hc'
    refine ⟨h', (List.getElem?_set_ne ?_).trans ht', hat'⟩
    rintro rfl
    obtain rfl := Option.some.inj (ht'.symm.trans ht)
    exact hij (Option.some.inj hat'.index)
  · by_cases htt : t = t'
    · subst htt
      obtain rfl := Option.some.inj ((List.getElem?_set_self htlt).symm.trans ht')
      cases hj
    · obtain ⟨c', hc', hthread'⟩ := hd.handler t' h' j ((List.getElem?_set_ne htt).symm.trans ht') hj
      refine ⟨c', (List.getElem?_set_ne ?_).trans hc', hthread'⟩
      rintro rfl
      obtain rfl := Option.some.inj (Option.some.inj (hc'.symm.trans hc))
      exact htt (Option.some.inj (hthread.symm.trans hthread'))
  · have hset : _ + 1 = _ + 0 := tally_set Handler.alive ht .gone
    have hslots : _ + attended (some c) = _ + 0 := tally_set attended hc none
    have hone : attended (some c) = 1 := by
      unfold attended
      rw [Option.any_some, hthread]
      rfl
    have := hd.alive
    show tally Handler.alive (a.handlers.set t .gone) = _
    omega
  · have hslots : _ + serves s' (some c) = _ + 0 := tally_set (serves s') hc none
    have hopened := hd.opened s'
    have hserves : serves s' (some c) = if c.socket == s' then 1 else 0 := by
      unfold serves
      rw [Option.any_some, hthread]
      by_cases hs : c.socket = s' <;> simp [hs]
    show (a.opened.erase c.socket).count s' = _ + a.listener.holds s'
    rw [List.count_erase, ← hserves]
    omega
  · have := hd.room s' ipv4 port hl
    show a.connsCount - 1 < (a.maxConns : Int)
    omega

/-- **the turn of a thread** -/
theorem handlerGoes_table (hd : Table a slots) (ht : a.handlers[t]? = some h) :
    ∃ a' slots', handlerGoes t a h = .ok a' ∧ Table a' slots' ∧ a'.failed = a.failed := by
  have hslot : ∀ {i : Nat} {c : ApiConn}, slots[i]? = some (some c) →
      slotAt i a = .ok (some c) := fun hc => by
    unfold slotAt
    rw [hd.conns, deref_some, ok_bind, hc]
  cases h with
  | starting i =>
    obtain ⟨c, hc, -, hat⟩ := hd.place ht rfl
    simp only [handlerGoes]
    rw [hslot hc, ok_bind, deref_some, ok_bind]
    exact ⟨_, slots, rfl, hd.move ht rfl hc ⟨rfl, fun s' hs' => (Option.some.inj hs').symm⟩, rfl⟩
  | serving i s =>
    obtain ⟨c, hc, -, hat⟩ := hd.place ht rfl
    simp only [handlerGoes]
    rw [hslot hc, ok_bind, deref_some, ok_bind]
    exact ⟨_, slots, rfl, hd.move ht rfl hc ⟨rfl, hat.socket⟩, rfl⟩
  | closing i s =>
    obtain ⟨a', hleave, hd', hfailed⟩ := hd.leaves ht
    refine ⟨a', _, ?_, hd', hfailed⟩
    rw [handlerGoes, if_neg hd.unlocked, hd.serving.2.2.1, if_neg List.not_mem_nil, hleave]
  | gone => exact ⟨a, slots, rfl, hd, rfl⟩

/-! ## one turn -/

/-- the socket of a client is a new one, and nothing ends the server -/
def Proper : ApiTurn → ApiServer → Prop
  | .accept s _ _, a => 0 < s ∧ s ∉ a.opened
  | .stop, _ => False
  | _, _ => True

/-- where there is memory for a place, there is some for the parameters, and a thread is made -/
def ApiTurn.Succeeds : ApiTurn → Prop
  | .listener memory params created => memory = true → params = true ∧ created = true
  | _ => True

/-- a client is let in, and all places are taken -/
def Overruns : ApiTurn → ApiServer → Prop
  | .listener _ _ _, a => (∃ s ipv4 port, a.listener = .admitting s ipv4 port) ∧
      a.connsCount + a.failed = a.maxConns
  | _, _ => False

theorem taken_le (slots : List (Option ApiConn)) : tally taken slots ≤ slots.length := by
  have hone : tally (fun _ => 1) slots = slots.length := tally_one
  rw [← hone]
  refine tally_le fun slot _ => ?_
  unfold taken
  split
  · exact Nat.le_refl 1
  · exact Nat.zero_le 1

/-- **there is a free place** unless all are taken -/
theorem freeSlot_lt_iff : freeSlot slots < slots.length ↔ tally taken slots ≠ slots.length := by
  induction slots with
  | nil => simp [freeSlot]
  | cons slot slots ih =>
    have hle := taken_le slots
    unfold freeSlot at ih ⊢
    rw [List.findIdx_cons, tally_cons, List.length_cons]
    cases slot with
    | none =>
      show 0 < _ ↔ 0 + _ ≠ _
      omega
    | some c =>
      show _ + 1 < _ ↔ 1 + _ ≠ _
      omega

theorem Table.free_iff (hd : Table a slots) :
    freeSlot slots < slots.length ↔ a.connsCount + a.failed ≠ a.maxConns := by
  rw [freeSlot_lt_iff, hd.count, hd.length]
  exact not_congr Nat.cast_inj.symm

/-- **a turn** of a server that serves -/
theorem apiStep_table (hd : Table a slots) (hop : Proper op a) (hno : ¬ Overruns op a) :
    ∃ a' slots', apiStep op a = .ok a' ∧ Table a' slots' ∧ (op.Succeeds → a'.failed = a.failed) := by
  cases op with
  | accept s ipv4 port =>
    refine ⟨_, slots, rfl, hd.accepts hop.1 hop.2, fun _ => ?_⟩
    unfold listenerAccepts
    split
    · split
      · rfl
      · split
        · rfl
        · split <;> rfl
    · rfl
  | listener memory params created =>
    show ∃ a' slots', listenerGoes memory params created a = .ok a' ∧ _
    unfold listenerGoes
    cases hl : a.listener with
    | accepting => exact ⟨a, slots, rfl, hd, fun _ => rfl⟩
    | admitting s ipv4 port =>
      simp only [if_neg hd.unlocked]
      refine admitClient_table hd hl (hd.free_iff.2 fun hfull => ?_)
      exact hno ⟨⟨s, ipv4, port, hl⟩, hfull⟩
    | ending => exact absurd hl hd.serving.1
    | ended => exact ⟨a, slots, rfl, hd, fun _ => rfl⟩
  | handler t =>
    cases ht : a.handlers[t]? with
    | none =>
      refine ⟨a, slots, ?_, hd, fun _ => rfl⟩
      simp only [apiStep, ht]
    | some h =>
      obtain ⟨a', slots', hgoes, hd', hfailed⟩ := handlerGoes_table hd ht
      refine ⟨a', slots', ?_, hd', fun _ => hfailed⟩
      simp only [apiStep, ht]
      exact hgoes
  | cancelled t =>
    refine ⟨a, slots, ?_, hd, fun _ => rfl⟩
    simp only [apiStep, hd.serving.2.2.1, List.not_mem_nil, if_false]
    split <;> rfl
  | stop => exact hop.elim

theorem apiStep_overruns (hd : Table a slots) (hover : Overruns op a) :
    apiStep op a = .error .outOfBounds := by
  cases op with
  | listener memory params created =>
    obtain ⟨⟨s, ipv4, port, hl⟩, hfull⟩ := hover
    have hno : ¬ freeSlot slots < slots.length := fun hfree => hd.free_iff.1 hfree hfull
    show listenerGoes memory params created a = _
    unfold listenerGoes
    rw [hl]
    simp only [if_neg hd.unlocked, admitClient]
    rw [hd.conns, deref_some, ok_bind, require_neg hno, error_bind]
  | _ => exact hover.elim

end

end Ipfs.Api
