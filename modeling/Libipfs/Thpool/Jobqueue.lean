import Libipfs.Lib.Linked

/-!
# The queue of jobs

The jobs that are waiting are linked from the front to the rear, each to the one that was added
after it (`prev`).

* `Jobqueue`         the front, the rear and the number of jobs;
* `jobqueuePush`     a job is put behind the rear one;
* `jobqueuePull`     the front one is taken out;
* `jobqueueClear`    all of them are taken out and freed;
* `Jobqueue.Holds q h queued`   the jobs in the queue are the `queued` ones, in this order;
* `Jobqueue.Holds.push`, `.pull`, `.clear`   what the three do to them.
-/

namespace Libp2p.Thpool
open CSem

/-- `struct job`: `current` is the function with its argument, and `next` is `prev` -/
abbrev Job (W : Type) := Cell W

structure Jobqueue where
  front : Option Nat
  rear : Option Nat
  len : Nat

/-- `jobqueue_init` -/
def jobqueueInit : Jobqueue := { front := none, rear := none, len := 0 }

/-- follow a pointer to a job -/
def follow : Option Nat → Exec Nat
  | none => .error .null
  | some i => .ok i

section
variable {W : Type}

/-- `jobqueue_push` up to its `bsem_post` -/
def jobqueuePush (q : Jobqueue) (h : Heap (Job W)) (newjob : Nat) :
    Exec (Jobqueue × Heap (Job W)) := do
  let job ← h.get newjob
  let h := h.set newjob { job with next := none }
  if q.len = 0 then
    .ok ({ front := some newjob, rear := some newjob, len := q.len + 1 }, h)
  else
    let rear ← follow q.rear
    let last ← h.get rear
    .ok ({ q with rear := some newjob, len := q.len + 1 },
      h.set rear { last with next := some newjob })

/-- `jobqueue_pull` up to its `bsem_post`, and whether there is one -/
def jobqueuePull (q : Jobqueue) (h : Heap (Job W)) : Exec (Jobqueue × Option Nat × Bool) :=
  if q.len = 0 then .ok (q, q.front, false)
  else if q.len = 1 then .ok ({ front := none, rear := none, len := 0 }, q.front, false)
  else do
    let jobP ← follow q.front
    let job ← h.get jobP
    .ok ({ q with front := job.next, len := q.len - 1 }, q.front, true)

/-- `free`, which must not be called twice -/
def freeJob (h : Heap (Job W)) : Option Nat → Exec (Heap (Job W))
  | none => .ok h
  | some i => do
    let _ ← h.get i
    .ok (h.free i)

/-- the loop of `jobqueue_clear`; what comes of it is the heap with the queue that is left -/
def jobqueueClear : Nat → Jobqueue → Heap (Job W) → Exec (Heap (Job W))
  | 0, q, h => if q.len = 0 then .ok h else .error .diverges
  | k + 1, q, h =>
    if q.len = 0 then .ok h
    else do
      let (q, jobP, _) ← jobqueuePull q h
      let h ← freeJob h jobP
      jobqueueClear k q h

structure Jobqueue.Holds (q : Jobqueue) (h : Heap (Job W)) (queued : List (Nat × W)) : Prop where
  front : Linked h q.front queued
  rear : q.rear = queued.getLast?.map Prod.fst
  len : q.len = queued.length

variable {q q' : Jobqueue} {h h' : Heap (Job W)} {queued rest : List (Nat × W)} {i j : Nat} {w : W}

theorem Jobqueue.Holds.congr (hq : q.Holds h queued)
    (hc : ∀ c ∈ queued, h'.cells c.1 = h.cells c.1) : q.Holds h' queued :=
  ⟨Segment.congr hc hq.front, hq.rear, hq.len⟩

theorem Jobqueue.Holds.isEmpty (hq : q.Holds h queued) : q.len = 0 ↔ queued = [] := by
  rw [hq.len, List.length_eq_zero_iff]

/-- the work in a cell does not change when it is linked -/
theorem set_next_current {next : Option Nat} {c : Job W} (hc : h.cells i = some c) (j : Nat) :
    ((h.set i { c with next := next }).cells j).map Cell.current =
      (h.cells j).map Cell.current := by
  by_cases hj : j = i
  · subst hj
    rw [Heap.set_cells_self (by rw [hc]; rfl), hc]
    rfl
  · rw [Heap.set_cells_ne hj]

/-- **a job is added** behind the others, and no job's work changes -/
theorem Jobqueue.Holds.push {c : Job W} (hq : q.Holds h queued) (hc : h.cells i = some c)
    (hi : i ∉ queued.map Prod.fst) :
    ∃ q' h', jobqueuePush q h i = .ok (q', h') ∧ q'.Holds h' (queued ++ [(i, c.current)]) ∧
      q'.len = q.len + 1 ∧
      ∀ j, (h'.cells j).map Cell.current = (h.cells j).map Cell.current := by
  have hset : (h.set i { c with next := none }).cells i = some { c with next := none } :=
    Heap.set_cells_self (by rw [hc]; rfl)
  have hne : ∀ d ∈ queued, d.1 ≠ i := fun d hd e => hi (e ▸ fst_mem hd)
  unfold jobqueuePush
  rw [Heap.get_eq_ok.2 hc, ok_bind]
  by_cases hlen : q.len = 0
  · obtain rfl := hq.isEmpty.1 hlen
    refine ⟨{ front := some i, rear := some i, len := q.len + 1 }, _, by rw [if_pos hlen], ?_, rfl,
      set_next_current hc⟩
    exact ⟨⟨rfl, none, hset, rfl⟩, rfl, by rw [hlen]; rfl⟩
  · obtain ⟨pre, ⟨k, r⟩, rfl⟩ : ∃ pre d, queued = pre ++ [d] := by
      rcases List.eq_nil_or_concat queued with rfl | ⟨pre, d, rfl⟩
      · exact absurd (hq.isEmpty.2 rfl) hlen
      · exact ⟨pre, d, List.concat_eq_append⟩
    have hrear : q.rear = some k := by rw [hq.rear, List.getLast?_concat]; rfl
    have hki : k ≠ i := hne (k, r) (by simp)
    have hlast : (h.set i { c with next := none }).cells k =
        some { current := r, next := none } := by
      rw [Heap.set_cells_ne hki]
      exact Segment.last hq.front
    refine ⟨{ q with rear := some i, len := q.len + 1 },
      (h.set i { c with next := none }).set k { current := r, next := some i }, ?_, ⟨?_, ?_, ?_⟩,
      rfl, fun j => ?_⟩
    · rw [if_neg hlen, hrear]
      show (Heap.get _ k >>= _) = _
      rw [Heap.get_eq_ok.2 hlast]
      rfl
    · exact Linked.link (Segment.congr (fun d hd => Heap.set_cells_ne (hne d hd)) hq.front) hset hi
    · rw [List.getLast?_concat]
      rfl
    · simp [hq.len]
    · exact (set_next_current hlast j).trans (set_next_current hc j)

/-- nothing to pull -/
theorem Jobqueue.Holds.pull_nil (hq : q.Holds h []) : jobqueuePull q h = .ok (q, none, false) := by
  have hfront : q.front = none := hq.front
  rw [jobqueuePull, if_pos (hq.isEmpty.2 rfl), hfront]

/-- **the job at the front is taken** -/
theorem Jobqueue.Holds.pull (hq : q.Holds h ((i, w) :: rest)) :
    ∃ q', jobqueuePull q h = .ok (q', some i, !rest.isEmpty) ∧ q'.Holds h rest ∧
      q.len = q'.len + 1 := by
  obtain ⟨hfront, next, hc, hrest⟩ := hq.front
  have hlen : q.len = rest.length + 1 := hq.len
  unfold jobqueuePull
  rw [if_neg (by omega)]
  cases rest with
  | nil =>
    rw [if_pos (show q.len = 1 from hlen), hfront]
    exact ⟨_, rfl, ⟨rfl, rfl, rfl⟩, hlen⟩
  | cons d rest =>
    rw [if_neg (by rw [hlen, List.length_cons]; omega), hfront]
    refine ⟨{ q with front := next, len := q.len - 1 }, ?_, ⟨hrest, ?_, by simp [hlen]⟩, ?_⟩
    · show (Heap.get h i >>= _) = _
      rw [Heap.get_eq_ok.2 hc]
      rfl
    · show q.rear = _
      rw [hq.rear, List.getLast?_cons_cons]
    · show q.len = q.len - 1 + 1
      omega

/-- **all the jobs are freed**, and nothing else -/
theorem Jobqueue.Holds.clear (hq : q.Holds h queued) {k : Nat} (hk : queued.length ≤ k) :
    ∃ h', jobqueueClear k q h = .ok h' ∧
      ∀ j, h'.cells j = if j ∈ queued.map Prod.fst then none else h.cells j := by
  induction queued generalizing q h k with
  | nil =>
    refine ⟨h, ?_, fun j => by simp⟩
    cases k <;> rw [jobqueueClear, if_pos (hq.isEmpty.2 rfl)]
  | cons d queued ih =>
    obtain ⟨i, w⟩ := d
    obtain ⟨k, rfl⟩ : ∃ m, k = m + 1 := ⟨k - 1, by rw [List.length_cons] at hk; omega⟩
    obtain ⟨q', hpull, hq', hlen⟩ := hq.pull
    have hnodup := hq.front.nodup
    rw [List.map_cons, List.nodup_cons] at hnodup
    obtain ⟨-, next, hc, -⟩ := hq.front
    have hrest : q'.Holds (h.free i) queued := by
      refine hq'.congr fun c hcm => Heap.free_cells_ne ?_
      rintro rfl
      exact hnodup.1 (show c.1 ∈ _ from fst_mem hcm)
    obtain ⟨h', hclear, hcells⟩ := ih hrest (by simpa using hk)
    refine ⟨h', ?_, fun j => ?_⟩
    · rw [jobqueueClear, if_neg (by omega), hpull]
      show (freeJob h (some i) >>= _) = _
      rw [freeJob, Heap.get_eq_ok.2 hc]
      exact hclear
    · rw [hcells, List.map_cons]
      by_cases hj : j = i
      · subst hj
        rw [if_pos List.mem_cons_self, if_neg hnodup.1, Heap.free_cells_self]
      · simp only [List.mem_cons, hj, false_or, Heap.free_cells_ne hj]

end

end Libp2p.Thpool
