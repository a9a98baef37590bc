import Libipfs.Bitswap.WantlistQueue

/-!
# The engine of the want list

A thread that takes entries off the want list: one that was tried more than ten times is given
up, the others are processed.  To give up means to take the sessions out of the entry, by a loop
over the vector that the removal shortens.  The entry itself stays where it is.

* `engineWantlistProcessor`   one turn of the thread;
* `giveUpFrom_eq`   what the loop leaves of the sessions: the second half, less the cleared ones;
* `givesUp_iff`     **when giving up removes a want**.
-/

set_option linter.unusedVariables false

namespace Ipfs
open CSem Libp2p

/-! ## the thread -/

/-- without a block, and not asked for -/
def WantListQueueEntry.waiting (entry : WantListQueueEntry) : Bool :=
  entry.block.isNone && !entry.askedNetwork

/-- each slot up to the entry that is returned is followed -/
def popEntry : List (Option WantListQueueEntry) → Exec (Option Nat)
  | [] => .ok none
  | slot :: items => do
    let current ← deref slot
    if current.waiting then .ok (some 0)
    else do
      let index ← popEntry items
      .ok (index.map (· + 1))

/-- the index of the entry, which stays in the vector -/
def wantlistQueuePop (wantlist : WantListQueue) : Exec (Option Nat) := popEntry wantlist.entries

/-- the entry that a pointer into the queue is for -/
def WantListQueue.entryAt (wantlist : WantListQueue) (item : Nat) : Option WantListQueueEntry :=
  utilsVectorGet wantlist.entries item

/-- the loop over the sessions; the total is read again at each turn -/
def giveUpFrom (item : Nat) : Nat → Nat → WantListQueue → Exec WantListQueue
  | 0, _, _ => .error .diverges
  | fuel + 1, i, wantlist => do
    let entry ← deref (wantlist.entryAt item)
    if i < entry.sessionsRequesting.length then do
      let currSession := utilsVectorGet entry.sessionsRequesting i
      let (_, wantlist) ← wantlistQueueRemove wantlist entry.cid currSession
      giveUpFrom item fuel (i + 1) wantlist
    else .ok wantlist

/-- one turn of `ipfs_bitswap_engine_wantlist_processor_start`; what is not given up is looked
for in the blockstore and on the network -/
def engineWantlistProcessor (processEntry : Nat → WantListQueue → Exec WantListQueue)
    (wantlist : WantListQueue) : Exec WantListQueue := do
  match ← wantlistQueuePop wantlist with
  | none => .ok wantlist
  | some item => do
    let entry ← deref (wantlist.entryAt item)
    if 10 < entry.attempts then
      giveUpFrom item (entry.sessionsRequesting.length + 1) 0 wantlist
    else processEntry item wantlist

/-! ## giving up -/

/-- none of the sessions of the entry is left, and it is not returned again while another one
waits -/
def GivesUp (processEntry : Nat → WantListQueue → Exec WantListQueue) (wantlist : WantListQueue)
    (item : Nat) : Prop :=
  ∃ wantlist', engineWantlistProcessor processEntry wantlist = .ok wantlist' ∧
    (∀ entry entry', wantlist.entryAt item = some entry → wantlist'.entryAt item = some entry' →
      ∀ s, some s ∈ entry.sessionsRequesting → some s ∉ entry'.sessionsRequesting) ∧
    ((∃ other entry, other ≠ item ∧ wantlist'.entryAt other = some entry ∧ entry.waiting = true) →
      wantlistQueuePop wantlist' ≠ .ok (some item))

/-- no entry but this one is to be processed -/
def AloneWaiting (wantlist : WantListQueue) (item : Nat) : Prop :=
  ∀ other entry, other ≠ item → wantlist.entryAt other = some entry → entry.waiting = false

/-- one of the first `passes` passes clears the slot: it is the first one behind the start of the
vector whose session equals that of the pass and that is not cleared yet -/
def ClearedBefore (sessions : List (Option WantListSession)) : Nat → Nat → Prop
  | 0, _ => False
  | pass + 1, i => ClearedBefore sessions pass i ∨
    (pass ≤ i ∧ i ≤ 2 * pass ∧
      wantlistSessionCompare (utilsVectorGet sessions (2 * pass)) (utilsVectorGet sessions i) = 0 ∧
      ∀ j < i, pass ≤ j →
        wantlistSessionCompare (utilsVectorGet sessions (2 * pass)) (utilsVectorGet sessions j) = 0 →
        ClearedBefore sessions pass j)

/-- every session of the second half of the vector is cleared -/
def AllCleared (sessions : List (Option WantListSession)) : Prop :=
  ∀ i s, sessions.length ≤ 2 * i → utilsVectorGet sessions i = some s →
    ClearedBefore sessions ((sessions.length + 1) / 2) i

instance ClearedBefore.decide (sessions : List (Option WantListSession)) :
    (pass i : Nat) → Decidable (ClearedBefore sessions pass i)
  | 0, _ => isFalse id
  | pass + 1, i =>
    have : ∀ j, Decidable (ClearedBefore sessions pass j) := ClearedBefore.decide sessions pass
    inferInstanceAs (Decidable (_ ∨ _))

/-! ## what a removal leaves alone -/

/-- what the lookup and the processor see of the slots -/
def shapeOf (items : List (Option WantListQueueEntry)) : List (Option (Option Cid × Bool)) :=
  items.map (Option.map fun entry => (entry.cid, entry.waiting))

section
variable {items items' : List (Option WantListQueueEntry)} {cid : Option Cid}
  {f : WantListQueueEntry → WantListQueueEntry}

/-- the first slots are both empty, or hold entries of which the same is seen -/
theorem shapeOf_cons {slot : Option WantListQueueEntry}
    (h : shapeOf (slot :: items) = shapeOf items') :
    ∃ slot' rest, items' = slot' :: rest ∧ shapeOf items = shapeOf rest ∧
      (slot = none ∧ slot' = none ∨ ∃ entry entry', slot = some entry ∧ slot' = some entry' ∧
        entry'.cid = entry.cid ∧ entry'.waiting = entry.waiting) := by
  obtain ⟨slot', rest, rfl, hslot, hrest⟩ := List.map_eq_cons_iff.1 h.symm
  refine ⟨slot', rest, rfl, hrest.symm, ?_⟩
  cases slot with
  | none => exact .inl ⟨rfl, Option.map_eq_none_iff.1 hslot⟩
  | some entry =>
    obtain ⟨entry', rfl, hentry⟩ := Option.map_eq_some_iff.1 hslot
    obtain ⟨hcid, hwaiting⟩ := Prod.mk.inj hentry
    exact .inr ⟨entry, entry', rfl, rfl, hcid, hwaiting⟩

theorem findEntryOf_shape (h : shapeOf items = shapeOf items') :
    findEntryOf cid items = findEntryOf cid items' := by
  induction items generalizing items' with
  | nil => rw [List.map_eq_nil_iff.1 h.symm]
  | cons slot items ih =>
    obtain ⟨slot', rest, rfl, hrest, ⟨rfl, rfl⟩ | ⟨entry, entry', rfl, rfl, hcid, -⟩⟩ :=
      shapeOf_cons h
    · rfl
    · rw [findEntryOf, findEntryOf, hcid, ih hrest]

theorem popEntry_shape (h : shapeOf items = shapeOf items') : popEntry items = popEntry items' := by
  induction items generalizing items' with
  | nil => rw [List.map_eq_nil_iff.1 h.symm]
  | cons slot items ih =>
    obtain ⟨slot', rest, rfl, hrest, ⟨rfl, rfl⟩ | ⟨entry, entry', rfl, rfl, -, hwaiting⟩⟩ :=
      shapeOf_cons h
    · rfl
    · rw [popEntry, popEntry, deref_some, deref_some, ok_bind, ok_bind, hwaiting, ih hrest]

theorem waiting_shape (h : shapeOf items = shapeOf items') {other : Nat}
    {entry : WantListQueueEntry} (hentry : utilsVectorGet items other = some entry) :
    ∃ entry', utilsVectorGet items' other = some entry' ∧ entry'.waiting = entry.waiting := by
  have hat : (shapeOf items)[other]? = (shapeOf items')[other]? := by rw [h]
  unfold shapeOf at hat
  rw [List.getElem?_map, List.getElem?_map] at hat
  have hslot : items[other]? = some (some entry) := Option.join_eq_some_iff.1 hentry
  rw [hslot] at hat
  obtain ⟨slot', hslot', hmap⟩ := Option.map_eq_some_iff.1 hat.symm
  obtain ⟨entry', rfl, heq⟩ := Option.map_eq_some_iff.1 hmap
  refine ⟨entry', ?_, (Prod.mk.inj heq).2⟩
  unfold utilsVectorGet
  rw [hslot']
  rfl

theorem shapeOf_updateEntry (item : Nat) (hcid : ∀ e, (f e).cid = e.cid)
    (hwaiting : ∀ e, (f e).waiting = e.waiting) :
    shapeOf (updateEntry items item f) = shapeOf items := by
  unfold shapeOf updateEntry
  apply List.ext_getElem?
  intro j
  rw [List.getElem?_map, List.getElem?_map, List.getElem?_modify, Option.map_eq_map,
    Option.map_map]
  refine congrFun (congrArg Option.map (funext fun slot => ?_)) _
  by_cases hj : item = j
  · cases slot with
    | none => simp [hj]
    | some entry => simp [hj, hcid, hwaiting]
  · simp [hj]

theorem utilsVectorGet_updateEntry (item other : Nat) :
    utilsVectorGet (updateEntry items item f) other =
      if other = item then (utilsVectorGet items item).map f else utilsVectorGet items other := by
  unfold utilsVectorGet updateEntry
  rw [List.getElem?_modify]
  by_cases h : other = item
  · rw [if_pos h, h]
    cases items[item]? with
    | none => rfl
    | some slot => simp
  · have hne : ¬ item = other := fun e => h e.symm
    rw [if_neg h]
    simp [hne]

end

/-! ## what the loop leaves -/

section
variable {sessions : List (Option WantListSession)} {pass i : Nat}

theorem not_clearedBefore_zero : ¬ ClearedBefore sessions 0 i := id

/-- a pass looks no further than at its own session -/
theorem ClearedBefore.lt (h : ClearedBefore sessions pass i) : i + 2 ≤ 2 * pass := by
  induction pass with
  | zero => exact absurd h not_clearedBefore_zero
  | succ pass ih =>
    rcases h with h | ⟨-, hle, -⟩
    · have := ih h
      omega
    · omega

/-- the slots that are left after so many passes -/
def leftAfter (sessions : List (Option WantListSession)) (pass : Nat) :
    List (Option WantListSession) :=
  (List.range' pass (sessions.length - pass)).map fun i =>
    if ClearedBefore sessions pass i then none else utilsVectorGet sessions i

theorem leftAfter_length (sessions : List (Option WantListSession)) (pass : Nat) :
    (leftAfter sessions pass).length = sessions.length - pass := by
  unfold leftAfter
  rw [List.length_map, List.length_range']

theorem utilsVectorGet_of_le {α : Type} {items : List (Option α)} {t : Nat}
    (h : items.length ≤ t) : utilsVectorGet items t = none := by
  unfold utilsVectorGet
  rw [List.getElem?_eq_none h]
  rfl

theorem utilsVectorGet_leftAfter (pass t : Nat) : utilsVectorGet (leftAfter sessions pass) t =
    if ClearedBefore sessions pass (pass + t) then none
    else utilsVectorGet sessions (pass + t) := by
  by_cases ht : t < sessions.length - pass
  · unfold leftAfter
    conv => lhs; unfold utilsVectorGet
    rw [List.getElem?_map, List.getElem?_range' ht, Nat.one_mul]
    rfl
  · have hlen : (leftAfter sessions pass).length ≤ t := by rw [leftAfter_length]; omega
    rw [utilsVectorGet_of_le hlen, utilsVectorGet_of_le (show sessions.length ≤ pass + t by omega),
      ite_self]

theorem ext_slots {α : Type} {a b : List (Option α)} (hl : a.length = b.length)
    (h : ∀ t, utilsVectorGet a t = utilsVectorGet b t) : a = b := by
  apply List.ext_getElem hl
  intro t ha hb
  have ht := h t
  unfold utilsVectorGet at ht
  rwa [List.getElem?_eq_getElem ha, List.getElem?_eq_getElem hb] at ht

theorem leftAfter_zero : leftAfter sessions 0 = sessions := by
  apply ext_slots
  · rw [leftAfter_length, Nat.sub_zero]
  · intro t
    rw [utilsVectorGet_leftAfter, if_neg not_clearedBefore_zero, Nat.zero_add]

theorem utilsVectorGet_delete {α : Type} {items : List (Option α)} {index : Nat}
    (h : index < items.length) (t : Nat) : utilsVectorGet (utilsVectorDelete items index) t =
      if t + 1 = index then none else utilsVectorGet items (t + 1) := by
  rw [utilsVectorDelete_eq h]
  unfold utilsVectorGet
  rw [List.getElem?_tail, List.getElem?_set]
  by_cases ht : index = t + 1
  · rw [if_pos ht, if_pos h, if_pos ht.symm]
    rfl
  · rw [if_neg ht, if_neg (fun e => ht e.symm)]

theorem compare_of_some {session : Option WantListSession} {s : WantListSession}
    (h : wantlistSessionCompare session (some s) = 0) : ∃ s', session = some s' := by
  cases session with
  | none => exact absurd h (show (-1 : Int) ≠ 0 by decide)
  | some s' => exact ⟨s', rfl⟩

theorem compare_none_of_some (s : WantListSession) :
    wantlistSessionCompare (some s) none ≠ 0 := by
  show (1 : Int) ≠ 0
  decide

/-- the session of a pass is not cleared before it -/
theorem leftAfter_self : utilsVectorGet (leftAfter sessions pass) pass =
    utilsVectorGet sessions (2 * pass) := by
  have hnot : ¬ ClearedBefore sessions pass (pass + pass) := fun h => by
    have := h.lt
    omega
  rw [utilsVectorGet_leftAfter, if_neg hnot, Nat.two_mul]

/-- **one pass** clears one slot more: the first one left that equals its session -/
theorem clearedBefore_succ_iff {t : Nat} {s : WantListSession}
    (hsome : utilsVectorGet sessions (pass + t) = some s) {first : Nat} (hle : first ≤ pass)
    (hequal : wantlistSessionCompare (utilsVectorGet sessions (2 * pass))
      (utilsVectorGet (leftAfter sessions pass) first) = 0)
    (hfirst : ∀ j < first, wantlistSessionCompare (utilsVectorGet sessions (2 * pass))
      (utilsVectorGet (leftAfter sessions pass) j) ≠ 0) :
    ClearedBefore sessions (pass + 1) (pass + t) ↔
      t = first ∨ ClearedBefore sessions pass (pass + t) := by
  constructor
  · intro h
    by_cases hbefore : ClearedBefore sessions pass (pass + t)
    · exact .inr hbefore
    · left
      obtain ⟨-, hlast, hsame, hall⟩ := Or.resolve_left h hbefore
      rw [hsome] at hsame
      obtain ⟨s', hs'⟩ := compare_of_some hsame
      have hslot : utilsVectorGet (leftAfter sessions pass) t = some s := by
        rw [utilsVectorGet_leftAfter, if_neg hbefore, hsome]
      rcases Nat.lt_trichotomy t first with hlt | heq | hgt
      · exact absurd (by rw [hslot]; exact hsame) (hfirst t hlt)
      · exact heq
      · -- what is found earlier is not cleared, and does not equal the session
        rw [utilsVectorGet_leftAfter, hs'] at hequal
        by_cases hcleared : ClearedBefore sessions pass (pass + first)
        · rw [if_pos hcleared] at hequal
          exact absurd hequal (compare_none_of_some s')
        · rw [if_neg hcleared, ← hs'] at hequal
          exact absurd (hall (pass + first) (by omega) (by omega) hequal) hcleared
  · rintro (rfl | hbefore)
    · rw [utilsVectorGet_leftAfter] at hequal
      by_cases hbefore : ClearedBefore sessions pass (pass + t)
      · exact Or.inl hbefore
      · rw [if_neg hbefore] at hequal
        refine Or.inr ⟨by omega, by omega, hequal, fun j hj hpass hsame => ?_⟩
        obtain ⟨u, rfl⟩ := Nat.exists_eq_add_of_le hpass
        by_contra hcleared
        refine hfirst u (by omega) ?_
        rw [utilsVectorGet_leftAfter, if_neg hcleared]
        exact hsame
    · exact Or.inl hbefore

theorem delete_leftAfter {first : Nat} (hlt : first < (leftAfter sessions pass).length)
    (hle : first ≤ pass)
    (hequal : wantlistSessionCompare (utilsVectorGet sessions (2 * pass))
      (utilsVectorGet (leftAfter sessions pass) first) = 0)
    (hfirst : ∀ j < first, wantlistSessionCompare (utilsVectorGet sessions (2 * pass))
      (utilsVectorGet (leftAfter sessions pass) j) ≠ 0) :
    utilsVectorDelete (leftAfter sessions pass) first = leftAfter sessions (pass + 1) := by
  apply ext_slots
  · have hshorter := utilsVectorDelete_length hlt
    rw [leftAfter_length] at hshorter ⊢
    omega
  · intro t
    rw [utilsVectorGet_delete hlt, utilsVectorGet_leftAfter, utilsVectorGet_leftAfter,
      show pass + 1 + t = pass + (t + 1) by omega]
    cases hsome : utilsVectorGet sessions (pass + (t + 1)) with
    | none => rw [ite_self, ite_self, ite_self]
    | some s =>
      have hiff := clearedBefore_succ_iff hsome hle hequal hfirst
      by_cases ht : t + 1 = first
      · rw [if_pos ht, if_pos (hiff.2 (.inl ht))]
      · rw [if_neg ht]
        by_cases hcleared : ClearedBefore sessions pass (pass + (t + 1))
        · rw [if_pos hcleared, if_pos (hiff.2 (.inr hcleared))]
        · rw [if_neg hcleared, if_neg fun hsucc => (hiff.1 hsucc).elim ht hcleared]

/-- **one turn of the loop** -/
theorem decrement_leftAfter {entry : WantListQueueEntry}
    (hs : entry.sessionsRequesting = leftAfter sessions pass) (h : 2 * pass < sessions.length) :
    (wantlistQueueEntryDecrement entry (utilsVectorGet entry.sessionsRequesting pass)).2 =
      { entry with sessionsRequesting := leftAfter sessions (pass + 1) } := by
  have hlen := leftAfter_length sessions pass
  have hpass : pass < (leftAfter sessions pass).length := by omega
  have hself : wantlistSessionCompare (utilsVectorGet sessions (2 * pass))
      (utilsVectorGet (leftAfter sessions pass) pass) = 0 := by
    rw [leftAfter_self]
    exact wantlistSessionCompare_self _
  have hget : ∀ t (ht : t < (leftAfter sessions pass).length),
      (leftAfter sessions pass)[t] = utilsVectorGet (leftAfter sessions pass) t := by
    intro t ht
    unfold utilsVectorGet
    rw [List.getElem?_eq_getElem ht]
    rfl
  unfold wantlistQueueEntryDecrement
  rw [hs, leftAfter_self]
  cases hfind : (leftAfter sessions pass).findIdx? fun current =>
      wantlistSessionCompare (utilsVectorGet sessions (2 * pass)) current = 0 with
  | none =>
    have hall := List.findIdx?_eq_none_iff.1 hfind _ (List.getElem_mem hpass)
    rw [hget pass hpass, hself] at hall
    exact absurd hall (by decide)
  | some first =>
    obtain ⟨hlt, hequal, hfirst⟩ := List.findIdx?_eq_some_iff_getElem.1 hfind
    rw [hget first hlt, decide_eq_true_eq] at hequal
    have hbefore : ∀ j < first, wantlistSessionCompare (utilsVectorGet sessions (2 * pass))
        (utilsVectorGet (leftAfter sessions pass) j) ≠ 0 := by
      intro j hj
      have hne := hfirst j hj
      rwa [hget j (by omega), decide_eq_true_eq] at hne
    have hle : first ≤ pass := by
      by_contra hgt
      exact hbefore pass (by omega) hself
    dsimp only
    rw [delete_leftAfter hlt hle hequal hbefore]

end

/-! ## the whole loop -/

theorem wantlistQueueEntryDecrement_cid (entry : WantListQueueEntry)
    (session : Option WantListSession) :
    (wantlistQueueEntryDecrement entry session).2.cid = entry.cid := by
  unfold wantlistQueueEntryDecrement
  split
  · rfl
  · rfl

theorem wantlistQueueEntryDecrement_waiting (entry : WantListQueueEntry)
    (session : Option WantListSession) :
    (wantlistQueueEntryDecrement entry session).2.waiting = entry.waiting := by
  unfold wantlistQueueEntryDecrement
  split
  · rfl
  · rfl

section
variable {wantlist : WantListQueue} {items : List (Option WantListQueueEntry)}
  {entry : WantListQueueEntry} {session : Option WantListSession} {cid : Option Cid}
  {item found : Nat}

theorem queue_of_entryAt (h : wantlist.entryAt item = some entry) :
    wantlist.queue = some wantlist.entries := by
  obtain ⟨queue⟩ := wantlist
  cases queue with
  | none => cases h
  | some items => rfl

theorem wantlistQueueRemove_eq (hqueue : wantlist.queue = some wantlist.entries)
    (hfind : findEntryOf cid wantlist.entries = some found) :
    wantlistQueueRemove wantlist cid session = .ok (true,
      { queue := some (updateEntry wantlist.entries found fun entry =>
          (wantlistQueueEntryDecrement entry session).2) }) := by
  unfold wantlistQueueRemove wantlistQueueFind
  rw [hqueue, deref_some, ok_bind, ok_bind, hfind]
  rfl

/-- one removal, by what the loop and the processor see -/
theorem wantlistQueueRemove_shape (session : Option WantListSession)
    (hentry : wantlist.entryAt item = some entry)
    (hfind : findEntryOf cid wantlist.entries = some found) :
    ∃ wantlist', wantlistQueueRemove wantlist cid session = .ok (true, wantlist') ∧
      shapeOf wantlist'.entries = shapeOf wantlist.entries ∧
      wantlist'.entryAt item = some (if item = found then
        (wantlistQueueEntryDecrement entry session).2 else entry) := by
  refine ⟨_, wantlistQueueRemove_eq (queue_of_entryAt hentry) hfind, ?_, ?_⟩
  · exact shapeOf_updateEntry _ (fun e => wantlistQueueEntryDecrement_cid e session)
      fun e => wantlistQueueEntryDecrement_waiting e session
  · show utilsVectorGet (updateEntry wantlist.entries found _) item = _
    have hget : utilsVectorGet wantlist.entries item = some entry := hentry
    rw [utilsVectorGet_updateEntry]
    by_cases h : item = found
    · rw [if_pos h, if_pos h, ← h, hget]
      rfl
    · rw [if_neg h, if_neg h, hget]

/-- the passes over the entry itself, from one of them on -/
theorem giveUpFrom_own {sessions : List (Option WantListSession)} (fuel pass : Nat)
    (hentry : wantlist.entryAt item = some entry)
    (hs : entry.sessionsRequesting = leftAfter sessions pass)
    (hfind : findEntryOf entry.cid wantlist.entries = some item)
    (hpass : pass ≤ (sessions.length + 1) / 2) (hfuel : (sessions.length + 1) / 2 < pass + fuel) :
    ∃ wantlist', giveUpFrom item fuel pass wantlist = .ok wantlist' ∧
      shapeOf wantlist'.entries = shapeOf wantlist.entries ∧
      wantlist'.entryAt item = some { entry with
        sessionsRequesting := leftAfter sessions ((sessions.length + 1) / 2) } := by
  induction fuel generalizing pass wantlist entry with
  | zero => omega
  | succ fuel ih =>
    unfold giveUpFrom
    rw [hentry, deref_some, ok_bind]
    have hlen : entry.sessionsRequesting.length = sessions.length - pass := by
      rw [hs, leftAfter_length]
    by_cases hmore : 2 * pass < sessions.length
    · obtain ⟨next, hremove, hshape, hnext⟩ := wantlistQueueRemove_shape
        (utilsVectorGet entry.sessionsRequesting pass) hentry hfind
      rw [if_pos rfl, decrement_leftAfter hs hmore] at hnext
      rw [if_pos (by omega)]
      dsimp only
      rw [hremove, ok_bind]
      have hfindnext : findEntryOf entry.cid next.entries = some item := by
        rw [findEntryOf_shape hshape, hfind]
      obtain ⟨wantlist', hrun, hshape', hlast⟩ := ih (pass + 1) hnext rfl hfindnext (by omega)
        (by omega)
      exact ⟨wantlist', hrun, hshape'.trans hshape, hlast⟩
    · have hdone : (sessions.length + 1) / 2 = pass := by omega
      refine ⟨wantlist, if_neg (by omega), rfl, ?_⟩
      rw [hdone, ← hs, hentry]

/-- the passes, when another entry is found in front of it -/
theorem giveUpFrom_other (fuel pass : Nat) (hentry : wantlist.entryAt item = some entry)
    (hfind : findEntryOf entry.cid wantlist.entries = some found) (hne : item ≠ found)
    (hpass : pass ≤ entry.sessionsRequesting.length)
    (hfuel : entry.sessionsRequesting.length < pass + fuel) :
    ∃ wantlist', giveUpFrom item fuel pass wantlist = .ok wantlist' ∧
      shapeOf wantlist'.entries = shapeOf wantlist.entries ∧
      wantlist'.entryAt item = some entry := by
  induction fuel generalizing pass wantlist with
  | zero => omega
  | succ fuel ih =>
    unfold giveUpFrom
    rw [hentry, deref_some, ok_bind]
    by_cases hmore : pass < entry.sessionsRequesting.length
    · obtain ⟨next, hremove, hshape, hnext⟩ := wantlistQueueRemove_shape
        (utilsVectorGet entry.sessionsRequesting pass) hentry hfind
      rw [if_neg hne] at hnext
      rw [if_pos hmore]
      dsimp only
      rw [hremove, ok_bind]
      have hfindnext : findEntryOf entry.cid next.entries = some found := by
        rw [findEntryOf_shape hshape, hfind]
      obtain ⟨wantlist', hrun, hshape', hlast⟩ := ih (pass + 1) hnext hfindnext (by omega)
        (by omega)
      exact ⟨wantlist', hrun, hshape'.trans hshape, hlast⟩
    · exact ⟨wantlist, if_neg hmore, rfl, hentry⟩

/-- **what the loop leaves**: the second half of the sessions, less the cleared ones, when the
lookup by the CID finds the entry itself -/
theorem giveUpFrom_eq (hentry : wantlist.entryAt item = some entry)
    (hfind : findEntryOf entry.cid wantlist.entries = some found) :
    ∃ wantlist' entry', giveUpFrom item (entry.sessionsRequesting.length + 1) 0 wantlist =
        .ok wantlist' ∧
      shapeOf wantlist'.entries = shapeOf wantlist.entries ∧
      wantlist'.entryAt item = some entry' ∧
      entry'.sessionsRequesting =
        if item = found then leftAfter entry.sessionsRequesting
          ((entry.sessionsRequesting.length + 1) / 2)
        else entry.sessionsRequesting := by
  by_cases h : item = found
  · subst h
    obtain ⟨wantlist', hrun, hshape, hlast⟩ := giveUpFrom_own
      (entry.sessionsRequesting.length + 1) 0 hentry leftAfter_zero.symm hfind (by omega) (by omega)
    refine ⟨wantlist', _, hrun, hshape, hlast, ?_⟩
    rw [if_pos rfl]
  · obtain ⟨wantlist', hrun, hshape, hlast⟩ := giveUpFrom_other
      (entry.sessionsRequesting.length + 1) 0 hentry hfind h (by omega) (by omega)
    refine ⟨wantlist', entry, hrun, hshape, hlast, ?_⟩
    rw [if_neg h]

/-! ## when giving up removes the want -/

/-- the lookup by the CID of the entry that is popped finds it, or one in front of it -/
theorem findEntryOf_of_popEntry (hpop : popEntry items = .ok (some item))
    (hentry : utilsVectorGet items item = some entry) :
    ∃ found, findEntryOf entry.cid items = some found := by
  induction items generalizing item with
  | nil => cases hpop
  | cons slot items ih =>
    rw [popEntry] at hpop
    obtain ⟨current, hcurrent, hstep⟩ := bind_eq_ok.1 hpop
    obtain rfl := deref_eq_ok.1 hcurrent
    rw [findEntryOf]
    by_cases h0 : cidCompare entry.cid current.cid = 0
    · exact ⟨0, if_pos h0⟩
    · rw [if_neg h0]
      by_cases hwaiting : current.waiting = true
      · rw [if_pos hwaiting] at hstep
        obtain rfl := Option.some.inj (Except.ok.inj hstep)
        have hsame : current = entry := Option.some.inj hentry
        exact absurd (hsame ▸ cidCompare_self entry.cid) h0
      · rw [if_neg hwaiting] at hstep
        obtain ⟨index, hindex, hstep⟩ := bind_eq_ok.1 hstep
        obtain ⟨rest, rfl, rfl⟩ := Option.map_eq_some_iff.1 (Except.ok.inj hstep)
        obtain ⟨found, hfound⟩ := ih hindex hentry
        exact ⟨found + 1, by rw [hfound]; rfl⟩

theorem mem_slots {α : Type} {slots : List (Option α)} {a : α} :
    some a ∈ slots ↔ ∃ t, utilsVectorGet slots t = some a := by
  unfold utilsVectorGet
  rw [List.mem_iff_getElem?]
  exact exists_congr fun t => Option.join_eq_some_iff.symm

/-- no session is left when those of the second half are cleared -/
theorem leftAfter_empty_iff {sessions : List (Option WantListSession)} :
    (∀ s, some s ∉ leftAfter sessions ((sessions.length + 1) / 2)) ↔ AllCleared sessions := by
  constructor
  · intro h i s hhalf hs
    by_contra hcleared
    obtain ⟨t, rfl⟩ := Nat.exists_eq_add_of_le (show (sessions.length + 1) / 2 ≤ i by omega)
    refine h s (mem_slots.2 ⟨t, ?_⟩)
    rw [utilsVectorGet_leftAfter, if_neg hcleared, hs]
  · intro h s hs
    obtain ⟨t, ht⟩ := mem_slots.1 hs
    rw [utilsVectorGet_leftAfter] at ht
    by_cases hcleared : ClearedBefore sessions ((sessions.length + 1) / 2)
        ((sessions.length + 1) / 2 + t)
    · rw [if_pos hcleared] at ht
      cases ht
    · rw [if_neg hcleared] at ht
      exact hcleared (h _ s (by omega) ht)

theorem mem_of_mem_leftAfter {sessions : List (Option WantListSession)} {pass : Nat}
    {s : WantListSession} (h : some s ∈ leftAfter sessions pass) : some s ∈ sessions := by
  obtain ⟨t, ht⟩ := mem_slots.1 h
  rw [utilsVectorGet_leftAfter] at ht
  by_cases hcleared : ClearedBefore sessions pass (pass + t)
  · rw [if_pos hcleared] at ht
    cases ht
  · rw [if_neg hcleared] at ht
    exact mem_slots.2 ⟨_, ht⟩

/-- **giving up removes the want** exactly when no other entry waits, and either there was no
session, or the entry is the first of its CID and the loop clears the sessions behind it -/
theorem givesUp_iff (processEntry : Nat → WantListQueue → Exec WantListQueue)
    (wantlist : WantListQueue) (item : Nat) (entry : WantListQueueEntry)
    (hpop : wantlistQueuePop wantlist = .ok (some item))
    (hentry : wantlist.entryAt item = some entry) (hattempts : 10 < entry.attempts) :
    GivesUp processEntry wantlist item ↔ AloneWaiting wantlist item ∧
      ((∀ s, some s ∉ entry.sessionsRequesting) ∨
        findEntryOf entry.cid wantlist.entries = some item ∧
          AllCleared entry.sessionsRequesting) := by
  obtain ⟨found, hfind⟩ := findEntryOf_of_popEntry hpop hentry
  obtain ⟨last, entry', hrun, hshape, hlast, hsessions⟩ := giveUpFrom_eq hentry hfind
  have hturn : engineWantlistProcessor processEntry wantlist = .ok last := by
    unfold engineWantlistProcessor
    rw [hpop, ok_bind]
    dsimp only
    rw [hentry, deref_some, ok_bind, if_pos hattempts, hrun]
  have hpoplast : wantlistQueuePop last = .ok (some item) := (popEntry_shape hshape).trans hpop
  have halone : ((∃ other e, other ≠ item ∧ last.entryAt other = some e ∧ e.waiting = true) →
      wantlistQueuePop last ≠ .ok (some item)) ↔ AloneWaiting wantlist item := by
    constructor
    · intro h other e hne he
      by_contra hwaiting
      obtain ⟨e', he', hsame⟩ := waiting_shape hshape.symm he
      refine h ⟨other, e', hne, he', ?_⟩ hpoplast
      rw [hsame]
      exact eq_true_of_ne_false hwaiting
    · rintro h ⟨other, e, hne, he, hwaiting⟩
      obtain ⟨e', he', hsame⟩ := waiting_shape hshape he
      rw [h other e' hne he'] at hsame
      rw [hwaiting] at hsame
      cases hsame
  have hnone : (∀ s, some s ∈ entry.sessionsRequesting → some s ∉ entry'.sessionsRequesting) ↔
      (∀ s, some s ∉ entry.sessionsRequesting) ∨
        findEntryOf entry.cid wantlist.entries = some item ∧
          AllCleared entry.sessionsRequesting := by
    rw [hsessions, hfind]
    by_cases h : item = found
    · rw [if_pos h, h, ← leftAfter_empty_iff]
      constructor
      · intro hall
        exact .inr ⟨rfl, fun s hs => hall s (mem_of_mem_leftAfter hs) hs⟩
      · rintro (hempty | ⟨-, hall⟩)
        · exact fun s hs => absurd hs (hempty s)
        · exact fun s _ => hall s
    · rw [if_neg h]
      constructor
      · exact fun hall => .inl fun s hs => hall s hs hs
      · rintro (hempty | ⟨hsame, -⟩)
        · exact fun s hs => absurd hs (hempty s)
        · exact absurd (Option.some.inj hsame).symm h
  rw [← halone, ← hnone]
  constructor
  · rintro ⟨wantlist', hturn', hleft, hagain⟩
    rw [hturn] at hturn'
    obtain rfl := Except.ok.inj hturn'
    exact ⟨hagain, hleft entry entry' hentry hlast⟩
  · rintro ⟨hagain, hleft⟩
    refine ⟨last, hturn, fun e e' he he' => ?_, hagain⟩
    rw [hentry] at he
    rw [hlast] at he'
    obtain rfl := Option.some.inj he
    obtain rfl := Option.some.inj he'
    exact hleft

end

/-! ## two wants -/

/-- two files are wanted locally; the first was looked for eleven times -/
def triedWantlist : WantListQueue :=
  { queue := some
      [some { cid := some (cidNew 1 [7] 0x70)
              priority := 1
              sessionsRequesting := [some wantlistSessionNew, some wantlistSessionNew]
              attempts := 11 },
       some { cid := some (cidNew 1 [8] 0x70)
              priority := 1
              sessionsRequesting := [some wantlistSessionNew, some wantlistSessionNew] }] }

/-- the first file is given up with nobody else waiting -/
def lonelyWantlist : WantListQueue :=
  { queue := some
      [some { cid := some (cidNew 1 [7] 0x70)
              priority := 1
              sessionsRequesting := [some wantlistSessionNew]
              attempts := 11 }] }

theorem givesUp_iff_lonely : GivesUp (fun _ wantlist => .ok wantlist) lonelyWantlist 0 ↔
    AloneWaiting lonelyWantlist 0 ∧
      ((∀ s, some s ∉ [some wantlistSessionNew]) ∨
        findEntryOf (some (cidNew 1 [7] 0x70)) lonelyWantlist.entries = some 0 ∧
          AllCleared [some wantlistSessionNew]) :=
  givesUp_iff (fun _ wantlist => .ok wantlist) lonelyWantlist 0 _ (by decide) rfl
    (by decide)

/-- the entry is returned again, with a session left -/
theorem not_givesUp_tried : ¬ GivesUp (fun _ wantlist => .ok wantlist) triedWantlist 0 := by
  rintro ⟨wantlist', hturn, -, hagain⟩
  have hpop : (engineWantlistProcessor (fun _ wantlist => .ok wantlist) triedWantlist).bind
      wantlistQueuePop = .ok (some 0) := by decide
  have hother : (engineWantlistProcessor (fun _ wantlist => .ok wantlist) triedWantlist).map
      (fun wantlist => (wantlist.entryAt 1).map WantListQueueEntry.waiting) = .ok (some true) := by
    decide
  rw [hturn] at hpop hother
  obtain ⟨entry, hentry, hwaiting⟩ := Option.map_eq_some_iff.1 (Except.ok.inj hother)
  exact hagain ⟨1, entry, by decide, hentry, hwaiting⟩ hpop

end Ipfs
