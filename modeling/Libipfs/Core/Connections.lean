import Libipfs.Core.ApiServer

/-!
# Connections of the API

Clients come in any order, and their threads are done in any order.

* `connections_along`      **each client has a place and a thread of its own**, and `conns_count` is
                           how many there are, while no thread fails to be started;
* `overrun_iff`            **a turn faults** only when a client is let in and the table is full;
* `overruns`               one thread that is not started is enough for that;
* `stop_iff`               **`api_stop`** follows a null pointer unless the table is empty or full.
-/

set_option linter.unusedVariables false

namespace Ipfs.Api
open CSem

section
variable {a : ApiServer} {slots : List (Option ApiConn)} {s : Int} {ipv4 : UInt32} {port : UInt16}
variable {i t : Nat} {c : ApiConn} {h h' : Handler} {memory params created : Bool}
variable {op : ApiTurn} {ops : List ApiTurn}

/-! ## every run -/

theorem table_of_run {maxConns : Nat} (hops : Guarded apiStep Proper ops (apiStart maxConns))
    (hrun : runOps apiStep ops (apiStart maxConns) = .ok a) : ∃ slots, Table a slots := by
  refine holdsReached_of_step (I := fun a => ∃ slots, Table a slots) (fun op a a' hd hop hstep => ?_)
    ⟨_, table_start maxConns⟩ hops ops [] a (List.append_nil ops).symm hrun
  obtain ⟨slots, hd⟩ := hd
  by_cases hover : Overruns op a
  · cases (apiStep_overruns hd hover).symm.trans hstep
  · obtain ⟨a₁, slots₁, hstep₁, hd₁, -⟩ := apiStep_table hd hop hover
    obtain rfl := Except.ok.inj (hstep₁.symm.trans hstep)
    exact ⟨slots₁, hd₁⟩

/-- a thread has a place with the socket in it -/
def ApiServer.Serves (t : Nat) (s : Int) (a : ApiServer) : Prop :=
  ∃ (slots : List (Option ApiConn)) (i : Nat) (c : ApiConn), a.conns = some slots ∧
    slots[i]? = some (some c) ∧ c.pthread = some t ∧ c.socket = s

structure Attended (a : ApiServer) : Prop where
  count : a.connsCount = tally Handler.alive a.handlers
  limit : tally Handler.alive a.handlers ≤ a.maxConns
  /-- each thread that is not gone has the socket of its place -/
  served : ∀ (t : Nat) (h : Handler), a.handlers[t]? = some h → h ≠ .gone →
    ∃ s, a.Serves t s ∧ ∀ s', h.socket = some s' → s' = s
  apart : ∀ t t' s s', a.Serves t s → a.Serves t' s' → (t = t' ↔ s = s')
  /-- no socket is left open -/
  opened : ∀ s, s ∈ a.opened ↔
    (∃ t, a.Serves t s) ∨ ∃ ipv4 port, a.listener = .admitting s ipv4 port

theorem Handler.index_of_ne_gone (hgone : h ≠ .gone) : ∃ i, h.index = some i := by
  cases h with
  | gone => exact absurd rfl hgone
  | starting i => exact ⟨i, rfl⟩
  | serving i s => exact ⟨i, rfl⟩
  | closing i s => exact ⟨i, rfl⟩

theorem serves_pos {slot : Option ApiConn} :
    0 < serves s slot ↔ ∃ c t, slot = some c ∧ c.pthread = some t ∧ c.socket = s := by
  unfold serves
  cases slot with
  | none => simp
  | some c =>
    cases hthread : c.pthread with
    | none => simp [hthread]
    | some t => by_cases hs : c.socket = s <;> simp [hthread, hs]

theorem holds_pos {l : Listener} : 0 < l.holds s ↔ ∃ ipv4 port, l = .admitting s ipv4 port := by
  cases l with
  | admitting s' ipv4 port =>
    show 0 < (if s' = s then 1 else 0) ↔ _
    by_cases hs : s' = s
    · rw [if_pos hs, hs]
      exact ⟨fun _ => ⟨ipv4, port, rfl⟩, fun _ => Nat.one_pos⟩
    · rw [if_neg hs]
      refine ⟨fun h => absurd h (Nat.lt_irrefl 0), fun ⟨_, _, h⟩ => ?_⟩
      exact absurd (Listener.admitting.inj h).1 hs
  | _ =>
    refine ⟨fun h => absurd h (Nat.lt_irrefl 0), fun ⟨_, _, h⟩ => ?_⟩
    cases h

theorem Table.serves_iff (hd : Table a slots) : a.Serves t s ↔
    ∃ (i : Nat) (c : ApiConn), slots[i]? = some (some c) ∧ c.pthread = some t ∧ c.socket = s := by
  constructor
  · rintro ⟨slots', i, c, hconns, hc⟩
    obtain rfl := Option.some.inj (hd.conns.symm.trans hconns)
    exact ⟨i, c, hc⟩
  · rintro ⟨i, c, hc⟩
    exact ⟨slots, i, c, hd.conns, hc⟩

/-- a place that is taken has a thread when none has failed -/
theorem Table.attended_eq (hd : Table a slots) (hf : a.failed = 0) :
    tally attended slots = tally taken slots := by
  refine tally_congr fun slot hslot => ?_
  cases slot with
  | none => rfl
  | some c =>
    obtain ⟨i, hi⟩ := List.mem_iff_getElem?.1 hslot
    unfold attended
    rw [Option.any_some, hd.whole hf i c hi]
    rfl

theorem Table.count_eq (hd : Table a slots) (hf : a.failed = 0) :
    a.connsCount = tally Handler.alive a.handlers := by
  have hcount := hd.count
  rw [hf, ← hd.attended_eq hf, ← hd.alive] at hcount
  exact (Int.add_zero _).symm.trans hcount

theorem Table.attended (hd : Table a slots) (hf : a.failed = 0) : Attended a := by
  refine ⟨hd.count_eq hf, ?_, fun t h ht hgone => ?_, fun t t' s s' hs hs' => ?_, fun s => ?_⟩
  · rw [hd.alive, hd.attended_eq hf, ← hd.length]
    exact taken_le slots
  · obtain ⟨i, hi⟩ := Handler.index_of_ne_gone hgone
    obtain ⟨c, hc, hthread, hat⟩ := hd.place ht hi
    exact ⟨c.socket, hd.serves_iff.2 ⟨i, c, hc, hthread, rfl⟩, hat.socket⟩
  · obtain ⟨i, c, hc, hthread, rfl⟩ := hd.serves_iff.1 hs
    obtain ⟨i', c', hc', hthread', rfl⟩ := hd.serves_iff.1 hs'
    constructor
    · rintro rfl
      obtain ⟨h, ht, hat⟩ := hd.slot i c t hc hthread
      obtain ⟨h', ht', hat'⟩ := hd.slot i' c' t hc' hthread'
      obtain rfl := Option.some.inj (ht.symm.trans ht')
      obtain rfl := Option.some.inj (hat.index.symm.trans hat'.index)
      obtain rfl := Option.some.inj (Option.some.inj (hc.symm.trans hc'))
      rfl
    · intro hsame
      have hone : a.opened.count c.socket ≤ 1 := List.nodup_iff_count.1 hd.nodup c.socket
      rw [hd.opened] at hone
      have hij : i = i' := by
        by_contra hij
        have htwo := add_le_tally (f := serves c.socket) hc hc' hij
        have hpos := serves_pos.2 ⟨c, t, rfl, hthread, rfl⟩
        have hpos' := serves_pos.2 ⟨c', t', rfl, hthread', hsame.symm⟩
        omega
      subst hij
      obtain rfl := Option.some.inj (Option.some.inj (hc.symm.trans hc'))
      exact Option.some.inj (hthread.symm.trans hthread')
  · rw [← List.count_pos_iff, hd.opened, Nat.add_pos_iff_pos_or_pos, holds_pos, tally_pos]
    refine or_congr_left ?_
    constructor
    · rintro ⟨slot, hslot, hpos⟩
      obtain ⟨c, t, rfl, hc⟩ := serves_pos.1 hpos
      obtain ⟨i, hi⟩ := List.mem_iff_getElem?.1 hslot
      exact ⟨t, hd.serves_iff.2 ⟨i, c, hi, hc⟩⟩
    · rintro ⟨t, hs⟩
      obtain ⟨i, c, hi, hc⟩ := hd.serves_iff.1 hs
      exact ⟨some c, List.mem_of_getElem? hi, serves_pos.2 ⟨c, t, rfl, hc⟩⟩

/-- nothing ends the server, and no thread fails to be started -/
def Undisturbed (op : ApiTurn) (a : ApiServer) : Prop := Proper op a ∧ op.Succeeds

theorem apiStep_undisturbed (hd : Table a slots) (hf : a.failed = 0) (hop : Undisturbed op a) :
    ∃ a' slots', apiStep op a = .ok a' ∧ Table a' slots' ∧ a'.failed = 0 := by
  have hno : ¬ Overruns op a := by
    intro hover
    cases op with
    | listener memory params created =>
      obtain ⟨⟨s, ipv4, port, hl⟩, hfull⟩ := hover
      have := hd.room s ipv4 port hl
      omega
    | _ => exact hover.elim
  obtain ⟨a', slots', hstep, hd', hfailed⟩ := apiStep_table hd hop.1 hno
  exact ⟨a', slots', hstep, hd', (hfailed hop.2).trans hf⟩

theorem table_along {maxConns : Nat} (hops : Guarded apiStep Undisturbed ops (apiStart maxConns)) :
    HoldsAlong apiStep (fun a => (∃ slots, Table a slots) ∧ a.failed = 0) ops (apiStart maxConns) := by
  refine holdsAlong_of_step (fun op a hd hop => ?_) ⟨⟨_, table_start maxConns⟩, rfl⟩ hops
  obtain ⟨⟨slots, hd⟩, hf⟩ := hd
  obtain ⟨a', slots', hstep, hd', hf'⟩ := apiStep_undisturbed hd hf hop
  exact ⟨a', hstep, ⟨slots', hd'⟩, hf'⟩

theorem table_undisturbed {maxConns : Nat}
    (hops : Guarded apiStep Undisturbed ops (apiStart maxConns))
    (hrun : runOps apiStep ops (apiStart maxConns) = .ok a) :
    (∃ slots, Table a slots) ∧ a.failed = 0 := by
  obtain ⟨a₁, hrun₁, hd⟩ := (table_along hops).last
  obtain rfl := Except.ok.inj (hrun₁.symm.trans hrun)
  exact hd

/-- **each client has a place and a thread of its own** along every run in which no thread fails to
be started -/
theorem connections_along {maxConns : Nat}
    (hops : Guarded apiStep Undisturbed ops (apiStart maxConns)) :
    HoldsAlong apiStep Attended ops (apiStart maxConns) :=
  HoldsAlong.mono (fun a ⟨⟨slots, hd⟩, hf⟩ => hd.attended hf) (table_along hops)

/-! ## the end of the server -/

/-- what is left when the threads of some places are cancelled -/
structure Cancelled (a : ApiServer) (slots : List (Option ApiConn)) (a' : ApiServer) : Prop where
  opened : ∀ s, a'.opened.count s = a.opened.count s - tally (serves s) slots
  pending : ∀ (t : Nat) (c : ApiConn), some c ∈ slots → c.pthread = some t → t ∈ a'.cancelled
  kept : ∀ t ∈ a.cancelled, t ∈ a'.cancelled
  handlers : a'.handlers = a.handlers

theorem Cancelled.cons {a₁ a' : ApiServer} (hthread : c.pthread = some t)
    (h₁ : a₁ = { a with cancelled := t :: a.cancelled, opened := a.opened.erase c.socket })
    (h' : Cancelled a₁ slots a') : Cancelled a (some c :: slots) a' := by
  subst h₁
  refine ⟨fun s => ?_, fun t' c' hc' ht' => ?_, fun t' ht' =>
    h'.kept t' (List.mem_cons_of_mem _ ht'), h'.handlers⟩
  · rw [h'.opened, tally_cons, List.count_erase]
    have hserves : serves s (some c) = if c.socket == s then 1 else 0 := by
      unfold serves
      rw [Option.any_some, hthread]
      by_cases hs : c.socket = s <;> simp [hs]
    rw [hserves, Nat.sub_sub]
  · rcases List.mem_cons.1 hc' with heq | hc'
    · obtain rfl := Option.some.inj heq
      obtain rfl := Option.some.inj (hthread.symm.trans ht')
      exact h'.kept t List.mem_cons_self
    · exact h'.pending t' c' hc' ht'

/-- **all threads are cancelled** when all places are taken -/
theorem foldlM_cancel (h : ∀ slot ∈ slots, ∃ c t, slot = some c ∧ c.pthread = some t) :
    ∃ a', slots.foldlM cancel a = .ok a' ∧ Cancelled a slots a' := by
  induction slots generalizing a with
  | nil =>
    refine ⟨a, rfl, fun s => rfl, fun t c hc => ?_, fun t ht => ht, rfl⟩
    exact absurd hc List.not_mem_nil
  | cons slot slots ih =>
    obtain ⟨c, t, rfl, hthread⟩ := h slot List.mem_cons_self
    obtain ⟨a', hfold, hd⟩ := ih (a := { a with
      cancelled := t :: a.cancelled, opened := a.opened.erase c.socket })
      fun slot hslot => h slot (List.mem_cons_of_mem _ hslot)
    refine ⟨a', ?_, hd.cons hthread rfl⟩
    rw [List.foldlM_cons, cancel, deref_some, ok_bind, hthread]
    exact hfold

/-- a free place is a null pointer -/
theorem foldlM_cancel_null (h : ∀ c : ApiConn, some c ∈ slots → c.pthread.isSome)
    (hfree : none ∈ slots) : slots.foldlM cancel a = .error .null := by
  induction slots generalizing a with
  | nil => exact absurd hfree List.not_mem_nil
  | cons slot slots ih =>
    rw [List.foldlM_cons, cancel]
    cases slot with
    | none => rfl
    | some c =>
      obtain ⟨t, hthread⟩ := Option.isSome_iff_exists.1 (h c List.mem_cons_self)
      rw [deref_some, ok_bind, hthread]
      refine ih (fun c hc => h c (List.mem_cons_of_mem _ hc)) ?_
      exact (List.mem_cons.1 hfree).resolve_left fun h => by cases h

/-- all clients are sent away, but for the one that the listener is about to let in; each thread is
to end at its next cancellation point, and follows a null pointer when it comes to its place before -/
structure Ended (a a' : ApiServer) : Prop where
  conns : a'.conns = none
  pending : ∀ (t : Nat) (h : Handler), a'.handlers[t]? = some h → h ≠ .gone → t ∈ a'.cancelled
  null : ∀ (t i : Nat) (s : Int),
    a'.handlers[t]? = some (.starting i) ∨ a'.handlers[t]? = some (.serving i s) →
      apiStep (.handler t) a' = .error .null
  opened : ∀ s, s ∈ a'.opened ↔ ∃ ipv4 port, a.listener = .admitting s ipv4 port

theorem forall_gone {handlers : List Handler} (h : tally Handler.alive handlers = 0) :
    ∀ h ∈ handlers, h = .gone := by
  intro handler hmem
  have hzero := tally_eq_zero.1 h handler hmem
  unfold Handler.alive at hzero
  by_contra hgone
  rw [if_neg hgone] at hzero
  cases hzero

theorem connectionsCleanup_eq (hconns : a.conns = some slots) :
    connectionsCleanup a = if 0 < a.connsCount then
      slots.foldlM cancel a >>= fun a' => .ok { a' with connsCount := 0, conns := none }
    else .ok { a with conns := none } := by
  unfold connectionsCleanup
  cases a
  cases hconns
  rfl

/-- a thread comes to its place when there is no table any more -/
theorem handler_null (hconns : a.conns = none)
    (ht : a.handlers[t]? = some (.starting i) ∨ a.handlers[t]? = some (.serving i s)) :
    apiStep (.handler t) a = .error .null := by
  rcases ht with ht | ht
  all_goals
    simp only [apiStep, ht, handlerGoes, slotAt]
    rw [hconns]
    rfl

/-- **nobody is served** -/
theorem Table.end_empty (hd : Table a slots) (hzero : tally Handler.alive a.handlers = 0) :
    Ended a { a with stopped := true, conns := none } := by
  refine ⟨rfl, fun t h ht hgone => absurd (forall_gone hzero h (List.mem_of_getElem? ht)) hgone,
    fun t i s => handler_null rfl, fun s => ?_⟩
  have hnobody : tally (serves s) slots = 0 := by
    rw [hd.alive] at hzero
    refine tally_zero fun slot hslot => ?_
    have hslot := tally_eq_zero.1 hzero slot hslot
    refine Nat.eq_zero_of_not_pos fun hpos => ?_
    obtain ⟨c, t, rfl, hthread, -⟩ := serves_pos.1 hpos
    unfold Api.attended at hslot
    rw [Option.any_some, hthread] at hslot
    cases hslot
  have hopened := hd.opened s
  rw [hnobody, Nat.zero_add] at hopened
  show s ∈ a.opened ↔ _
  rw [← List.count_pos_iff, hopened, holds_pos]

/-- **every place is taken** -/
theorem Table.end_full (hd : Table a slots) (hf : a.failed = 0)
    (hfull : tally Handler.alive a.handlers = a.maxConns) (hpos : 0 < a.connsCount) :
    ∃ a', connectionsCleanup { a with stopped := true } = .ok a' ∧ Ended a a' := by
  have hall : ∀ slot ∈ slots, ∃ c t, slot = some c ∧ c.pthread = some t := by
    intro slot hslot
    obtain ⟨i, hi⟩ := List.mem_iff_getElem?.1 hslot
    cases slot with
    | none =>
      rw [hd.alive, hd.attended_eq hf, ← hd.length] at hfull
      have hset : _ + 0 = _ + 1 := tally_set taken hi (some ⟨0, 0, 0, none⟩)
      have hle := taken_le (slots.set i (some ⟨0, 0, 0, none⟩))
      rw [List.length_set] at hle
      omega
    | some c =>
      obtain ⟨t, hthread⟩ := Option.isSome_iff_exists.1 (hd.whole hf i c hi)
      exact ⟨c, t, rfl, hthread⟩
  obtain ⟨a', hfold, hcancelled⟩ := foldlM_cancel (a := { a with stopped := true }) hall
  refine ⟨{ a' with connsCount := 0, conns := none }, ?_, rfl, fun t h ht hgone => ?_,
    fun t i s => handler_null rfl, fun s => ?_⟩
  · rw [connectionsCleanup_eq (a := { a with stopped := true }) hd.conns, if_pos hpos, hfold, ok_bind]
  · have hold : a.handlers[t]? = some h := hcancelled.handlers ▸ ht
    obtain ⟨i, hi⟩ := Handler.index_of_ne_gone hgone
    obtain ⟨c, hc, hthread, -⟩ := hd.place hold hi
    exact hcancelled.pending t c (List.mem_of_getElem? hc) hthread
  · have hopened := hd.opened s
    have hcount := hcancelled.opened s
    show s ∈ a'.opened ↔ _
    rw [← List.count_pos_iff, hcount]
    show 0 < a.opened.count s - _ ↔ _
    rw [hopened, Nat.add_sub_cancel_left, holds_pos]

/-- **some are served, and some places are free** -/
theorem Table.end_null (hd : Table a slots) (hf : a.failed = 0) (hpos : 0 < a.connsCount)
    (hfree : tally Handler.alive a.handlers ≠ a.maxConns) :
    connectionsCleanup { a with stopped := true } = .error .null := by
  have hwhole : ∀ c : ApiConn, some c ∈ slots → c.pthread.isSome := by
    intro c hc
    obtain ⟨i, hi⟩ := List.mem_iff_getElem?.1 hc
    exact hd.whole hf i c hi
  have hnone : none ∈ slots := by
    rw [hd.alive, hd.attended_eq hf, ← hd.length] at hfree
    exact List.mem_of_getElem? (freeSlot_spec (freeSlot_lt_iff.2 hfree))
  rw [connectionsCleanup_eq (a := { a with stopped := true }) hd.conns, if_pos hpos,
    foldlM_cancel_null hwhole hnone, error_bind]

end

/-! ## one thread that is not started -/

/-- a client comes and is let in -/
def comes (k : Nat) : List ApiTurn := [.accept (k + 1 : Nat) 0 0, .listener true true true]

/-- no thread is made for the first client, and more come than there are places -/
def overrun (n : Nat) : List ApiTurn :=
  [.accept 1 0 0, .listener true true false] ++ (List.range (n + 1)).flatMap comes

def placeOf (k : Nat) : Option ApiConn := some ⟨(k + 1 : Nat), 0, 0, some k⟩

/-- after the first, `k` clients have come -/
def crowded (n k : Nat) : ApiServer where
  maxConns := n
  connsCount := (k : Int) - 1
  conns := some ((List.range k).map placeOf ++ List.replicate (n - k) none)
  listener := .accepting
  handlers := (List.range k).map .starting
  cancelled := []
  opened := ((List.range k).map fun j => ((j + 1 : Nat) : Int)).reverse
  stopped := false
  locked := false
  failed := 1

theorem freeSlot_crowded (n k : Nat) :
    freeSlot ((List.range k).map placeOf ++ List.replicate (n - k) none) = k := by
  have hlen : ((List.range k).map placeOf).length = k := by rw [List.length_map, List.length_range]
  have htaken : ((List.range k).map placeOf).findIdx Option.isNone = k := by
    refine (List.findIdx_eq_length.2 fun slot hslot => ?_).trans hlen
    obtain ⟨j, -, rfl⟩ := List.mem_map.1 hslot
    rfl
  unfold freeSlot
  rw [List.findIdx_append, htaken, hlen, if_neg (Nat.lt_irrefl k)]
  cases n - k with
  | zero => rw [List.replicate_zero, List.findIdx_nil, Nat.zero_add]
  | succ m => rw [List.replicate_succ, List.findIdx_cons, Option.isNone_none, cond_true, Nat.zero_add]

theorem length_crowded {n k : Nat} (hk : k ≤ n) :
    ((List.range k).map placeOf ++ List.replicate (n - k) none).length = n := by
  rw [List.length_append, List.length_map, List.length_range, List.length_replicate]
  omega

section
variable {a : ApiServer} {slots : List (Option ApiConn)} {s : Int} {ipv4 : UInt32} {port : UInt16}
variable {n k : Nat}

/-- the listener sees that there is room -/
theorem listenerAccepts_room (hl : a.listener = .accepting) (hstopped : a.stopped = false)
    (hpos : 0 < s) (hroom : a.connsCount < a.maxConns) : listenerAccepts s ipv4 port a =
      { a with listener := .admitting s ipv4 port, opened := s :: a.opened } := by
  unfold listenerAccepts
  rw [hl]
  simp only
  rw [if_neg (by rw [hstopped]; exact Bool.false_ne_true), if_neg (not_le.2 hpos),
    if_neg (not_le.2 hroom)]

theorem admitClient_eq (hconns : a.conns = some slots) : admitClient true true true s ipv4 port a =
    require .outOfBounds (freeSlot slots < slots.length) >>= fun _ => .ok { a with
      conns := some (slots.set (freeSlot slots) (some ⟨s, ipv4, port, some a.handlers.length⟩))
      connsCount := a.connsCount + 1
      listener := .accepting
      handlers := a.handlers ++ [.starting (freeSlot slots)] } := by
  unfold admitClient
  cases a
  cases hconns
  rfl

theorem admitClient_fails (hconns : a.conns = some slots) (hfree : freeSlot slots < slots.length) :
    admitClient true true false s ipv4 port a =
      .ok ({ a with connsCount := a.connsCount - 1, failed := a.failed + 1 }.reject s) := by
  unfold admitClient
  cases a
  cases hconns
  show (require .outOfBounds (freeSlot slots < slots.length) >>= _) = _
  rw [require_pos hfree]
  rfl

/-- a client comes while the limit is not reached -/
theorem comes_eq (hk : k ≤ n) : runOps apiStep (comes k) (crowded n k) =
    admitClient true true true (k + 1 : Nat) 0 0 { crowded n k with
      listener := .admitting (k + 1 : Nat) 0 0
      opened := ((k + 1 : Nat) : Int) :: (crowded n k).opened } := by
  have hroom : (k : Int) - 1 < n := by omega
  unfold comes
  rw [runOps_cons]
  show (Except.ok (listenerAccepts _ 0 0 (crowded n k)) >>= _) = _
  rw [listenerAccepts_room rfl rfl (by omega) hroom, ok_bind, runOps_cons]
  exact bind_pure _

/-- **a client is let in** -/
theorem comes_crowded (hk : k < n) :
    runOps apiStep (comes k) (crowded n k) = .ok (crowded n (k + 1)) := by
  obtain ⟨m, hm⟩ : ∃ m, n - k = m + 1 := ⟨n - k - 1, by omega⟩
  have hset : ((List.range k).map placeOf ++ List.replicate (n - k) none).set k (placeOf k) =
      (List.range (k + 1)).map placeOf ++ List.replicate (n - (k + 1)) none := by
    rw [show n - (k + 1) = m by omega, hm, List.replicate_succ, List.range_succ, List.map_append,
      List.append_assoc, List.set_append_right _ _ (by rw [List.length_map, List.length_range]),
      List.length_map, List.length_range, Nat.sub_self]
    rfl
  rw [comes_eq (Nat.le_of_lt hk), admitClient_eq rfl, freeSlot_crowded,
    require_pos (by rw [length_crowded (Nat.le_of_lt hk)]; exact hk), ok_bind]
  have hlen : ((List.range k).map Handler.starting).length = k := by
    rw [List.length_map, List.length_range]
  have hplace : (some ⟨(k + 1 : Nat), 0, 0, some (crowded n k).handlers.length⟩ : Option ApiConn) =
      placeOf k := by
    show some (ApiConn.mk _ 0 0 (some ((List.range k).map Handler.starting).length)) = _
    rw [hlen]
    rfl
  have hopened : (crowded n (k + 1)).opened = ((k + 1 : Nat) : Int) :: (crowded n k).opened := by
    show ((List.range (k + 1)).map fun j => ((j + 1 : Nat) : Int)).reverse = _
    rw [List.range_succ, List.map_append, List.reverse_append]
    rfl
  have hcount : (k : Int) - 1 + 1 = ((k + 1 : Nat) : Int) - 1 := by omega
  have hhandlers : (List.range (k + 1)).map Handler.starting =
      (List.range k).map .starting ++ [.starting k] := by
    rw [List.range_succ, List.map_append]
    rfl
  rw [hplace, hset]
  show Except.ok (ApiServer.mk n ((k : Int) - 1 + 1) (some _) .accepting
    ((List.range k).map .starting ++ [.starting k]) [] (_ :: _) false false 1) = _
  rw [hcount, ← hhandlers, ← hopened]
  rfl

/-- **one thread that is not started is enough** for a client to be put behind the end of the table,
however many places there are -/
theorem overruns (n : Nat) :
    runOps apiStep (overrun (n + 1)) (apiStart (n + 1)) = .error .outOfBounds := by
  have hfirst : runOps apiStep [.accept 1 0 0, .listener true true false] (apiStart (n + 1)) =
      .ok (crowded (n + 1) 0) := by
    have hroom : (0 : Int) < (n + 1 : Nat) := by omega
    have hfree : freeSlot (List.replicate (n + 1) none) <
        (List.replicate (n + 1) (none : Option ApiConn)).length := by
      rw [freeSlot_lt_iff, List.length_replicate, tally_zero]
      · exact (Nat.succ_ne_zero n).symm
      · intro slot hslot
        rw [List.eq_of_mem_replicate hslot]
        rfl
    rw [runOps_cons]
    show (Except.ok (listenerAccepts 1 0 0 (apiStart (n + 1))) >>= _) = _
    rw [listenerAccepts_room rfl rfl Int.one_pos hroom, ok_bind]
    rw [runOps_cons]
    show (admitClient true true false 1 0 0 _ >>= _) = _
    rw [admitClient_fails rfl hfree]
    rfl
  have hrun : ∀ k ≤ n + 1, runOps apiStep ((List.range k).flatMap comes) (crowded (n + 1) 0) =
      .ok (crowded (n + 1) k) := by
    intro k hk
    induction k with
    | zero => rfl
    | succ k ih =>
      rw [List.range_succ, List.flatMap_append, runOps_append, ih (by omega), ok_bind,
        List.flatMap_singleton, comes_crowded (by omega)]
  unfold overrun
  rw [runOps_append, hfirst, ok_bind, List.range_succ, List.flatMap_append, runOps_append,
    hrun (n + 1) (Nat.le_refl _), ok_bind, List.flatMap_singleton, comes_eq (Nat.le_refl _),
    admitClient_eq rfl, freeSlot_crowded, require_neg, error_bind]
  rw [length_crowded (Nat.le_refl _)]
  exact Nat.lt_irrefl _

end

/-! ## one client -/

instance (op : ApiTurn) (a : ApiServer) : Decidable (Proper op a) := by
  cases op <;> unfold Proper <;> infer_instance

instance (op : ApiTurn) (a : ApiServer) : Decidable (Undisturbed op a) := by
  unfold Undisturbed ApiTurn.Succeeds
  cases op <;> infer_instance

/-- a client is served -/
def oneClient : List ApiTurn :=
  [.accept 7 0x0100007F 50000, .listener true true true, .handler 0]

theorem connections_along_oneClient : HoldsAlong apiStep Attended
    (oneClient ++ [.handler 0, .accept 8 0x0100007F 50001, .handler 0]) (apiStart 2) :=
  connections_along (by decide)

-- with the limit that `ipfs_node_online_new` sets, a single client is enough
example : (runOps apiStep (oneClient ++ [.stop]) (apiStart 10)) = .error .null := by decide

end Ipfs.Api
