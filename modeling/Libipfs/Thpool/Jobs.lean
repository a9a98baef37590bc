import Libipfs.Thpool.Law

/-!
# Whose job is whose

* `Jobs.move`        a thread goes on with the job it has in hand;
* `Jobs.pull`        it takes the one at the front;
* `Jobs.free`        it frees the one that it has run;
* `Jobs.push`, `Jobs.add`   a caller makes a job, and puts it into the queue;
* `Jobs.clear`       what is left in the queue when the pool is taken down is freed.
-/

set_option linter.unusedVariables false

namespace Libp2p.Thpool
open CSem

section
variable {W : Type} {p p' : Pool W} {queued : List (Nat × W)} {i j k wake : Nat}
variable {w w' : Worker W} {c c' : Caller}

/-- nothing changes hands -/
theorem Jobs.congr (hj : Jobs p queued) (hqueue : p'.jobqueue = p.jobqueue)
    (hjobs : p'.jobs = p.jobs) (howner : p'.owner ≠ .destroyed → p.owner ≠ .destroyed)
    (hadded : p'.added = p.added) (htaken : p'.taken = p.taken) (hended : p'.ended = p.ended)
    (hhas : ∀ j, tally (Worker.has j) p'.threads = tally (Worker.has j) p.threads)
    (hcalls : ∀ j, tally (Caller.has j) p'.callers = tally (Caller.has j) p.callers)
    (hwork : tally (Worker.work p.jobs) p'.threads = tally (Worker.work p.jobs) p.threads) :
    Jobs p' queued where
  queue := by rw [hqueue, hjobs]; exact hj.queue
  owned j := by rw [hhas, hcalls, hjobs]; exact hj.owned j
  order h := by rw [htaken, hadded]; exact hj.order (howner h)
  begun := by rw [htaken, hadded]; exact hj.begun
  once := by rw [htaken, hended, hjobs, hwork]; exact hj.once

/-- **a thread goes on** with the job it has in hand, which may have ended -/
theorem Jobs.move (hj : Jobs p queued) (hw : p.threads[i]? = some w)
    (hthreads : p'.threads = p.threads.set i w') (hqueue : p'.jobqueue = p.jobqueue)
    (hjobs : p'.jobs = p.jobs) (howner : p'.owner = p.owner) (hadded : p'.added = p.added)
    (htaken : p'.taken = p.taken)
    (hcalls : ∀ j, tally (Caller.has j) p'.callers = tally (Caller.has j) p.callers)
    (hhas : ∀ j, w'.has j = w.has j)
    (hended : (p'.ended : Multiset W) + w'.work p.jobs = p.ended + w.work p.jobs) :
    Jobs p' queued where
  queue := by rw [hqueue, hjobs]; exact hj.queue
  owned j := by
    have h := hthreads ▸ tally_set (Worker.has j) hw w'
    rw [hhas] at h
    rw [hcalls, hjobs, ← hj.owned j, Nat.add_right_cancel h]
  order := by rw [howner, htaken, hadded]; exact hj.order
  begun := by rw [htaken, hadded]; exact hj.begun
  once := by
    have h := hthreads ▸ tally_set (Worker.work p.jobs) hw w'
    rw [htaken, hj.once, hjobs]
    refine add_right_cancel (b := w.work p.jobs) ?_
    calc (p.ended : Multiset W) + tally (Worker.work p.jobs) p.threads + w.work p.jobs
        = p.ended + w.work p.jobs + tally (Worker.work p.jobs) p.threads := add_right_comm _ _ _
      _ = p'.ended + (tally (Worker.work p.jobs) p.threads + w'.work p.jobs) := by
        rw [← hended]
        abel
      _ = p'.ended + tally (Worker.work p.jobs) p'.threads + w.work p.jobs := by
        rw [← h, add_assoc]

/-- whoever has a job in hand has one that is there -/
theorem Jobs.live (hj : Jobs p queued) (hw : w ∈ p.threads) (hhas : 0 < w.has j) :
    (p.jobs.cells j).isSome := by
  have howned := hj.owned j
  have hle : w.has j ≤ _ := le_tally hw
  by_contra hno
  rw [if_neg hno] at howned
  omega

/-- what is in hand depends on the jobs in hand only -/
theorem work_congr {h h' : Heap (Job W)}
    (hc : ∀ j, 0 < w.has j → (h'.cells j).map Cell.current = (h.cells j).map Cell.current) :
    w.work h' = w.work h := by
  have hat : ∀ j, 0 < w.has j → workAt h' (some j) = workAt h (some j) := hc
  cases w with
  | posting j => simp only [Worker.work, hat j (by simp [Worker.has])]
  | pulled jobP =>
    cases jobP with
    | none => rfl
    | some j => simp only [Worker.work, hat j (by simp [Worker.has])]
  | _ => rfl

/-- **the job at the front** is taken -/
theorem Jobs.pull {a : Nat} {work : W} {rest : List (Nat × W)} (hj : Jobs p ((a, work) :: rest))
    (hw : p.threads[i]? = some .pulling) (hd : p.owner ≠ .destroyed)
    (hthreads : p'.threads = p.threads.set i w') (hqueue : p'.jobqueue.Holds p.jobs rest)
    (hjobs : p'.jobs = p.jobs) (howner : p'.owner = p.owner) (hadded : p'.added = p.added)
    (htaken : p'.taken = p.taken ++ [work]) (hended : p'.ended = p.ended)
    (hcalls : p'.callers = p.callers) (hhas : ∀ j, w'.has j = if a = j then 1 else 0)
    (hwork : w'.work p.jobs = {work}) : Jobs p' rest where
  queue := by rw [hjobs]; exact hqueue
  owned j := by
    have h := hthreads ▸ tally_set (Worker.has j) hw w'
    have howned := hj.owned j
    rw [List.map_cons, List.count_cons] at howned
    rw [hhas, show Worker.has j (.pulling : Worker W) = 0 from rfl] at h
    rw [hcalls, hjobs, ← howned]
    simp only [beq_iff_eq]
    omega
  order hd' := by
    have h := hj.order hd
    rw [htaken, hadded, ← h, List.append_assoc]
    rfl
  begun := by
    have h := hj.order hd
    rw [htaken, hadded, ← h]
    exact ⟨rest.map Prod.snd, by rw [List.append_assoc]; rfl⟩
  once := by
    have h := hthreads ▸ tally_set (Worker.work p.jobs) hw w'
    rw [hwork, show Worker.work p.jobs (.pulling : Worker W) = 0 from rfl, add_zero] at h
    rw [htaken, hended, hjobs, h, ← Multiset.coe_add, hj.once, add_assoc]
    rfl

/-- **the job that was run** is freed -/
theorem Jobs.free {a : Nat} (hj : Jobs p queued) (hw : p.threads[i]? = some (.ran a))
    (hthreads : p'.threads = p.threads.set i .finishing) (hqueue : p'.jobqueue = p.jobqueue)
    (hjobs : p'.jobs = p.jobs.free a) (howner : p'.owner = p.owner) (hadded : p'.added = p.added)
    (htaken : p'.taken = p.taken) (hended : p'.ended = p.ended) (hcalls : p'.callers = p.callers) :
    Jobs p' queued := by
  have hset : ∀ j, tally (Worker.has j) p'.threads + (if a = j then 1 else 0) =
      tally (Worker.has j) p.threads := fun j => hthreads ▸ tally_set (Worker.has j) hw .finishing
  -- nobody else has it
  have howned := hj.owned a
  have hone := hset a
  rw [if_pos rfl] at hone
  have hlive : (p.jobs.cells a).isSome := hj.live (List.mem_of_getElem? hw) (by simp [Worker.has])
  rw [if_pos hlive] at howned
  have hqueued : a ∉ queued.map Prod.fst := List.count_eq_zero.1 (by omega)
  have hnobody : tally (Worker.has a) p'.threads = 0 := by omega
  have hwork : tally (Worker.work p'.jobs) p'.threads = tally (Worker.work p.jobs) p.threads := by
    have h := hthreads ▸ tally_set (Worker.work p.jobs) hw .finishing
    simp only [Worker.work, add_zero] at h
    refine Eq.trans (tally_congr fun w hmem => ?_) h
    refine work_congr fun j hhas => ?_
    rw [hjobs, Heap.free_cells_ne]
    rintro rfl
    rw [tally_eq_zero.1 hnobody w hmem] at hhas
    exact absurd hhas (Nat.lt_irrefl 0)
  refine ⟨?_, fun j => ?_, ?_, ?_, ?_⟩
  · rw [hqueue, hjobs]
    exact hj.queue.congr fun c hc => Heap.free_cells_ne fun e => hqueued (e ▸ fst_mem hc)
  · have h := hset j
    have hj' := hj.owned j
    rw [hcalls, hjobs]
    by_cases ha : a = j
    · subst ha
      rw [Heap.free_cells_self, Option.isSome_none, if_neg Bool.false_ne_true]
      omega
    · rw [Heap.free_cells_ne (fun e => ha e.symm), ← hj']
      rw [if_neg ha] at h
      omega
  · rw [howner, htaken, hadded]
    exact hj.order
  · rw [htaken, hadded]
    exact hj.begun
  · rw [htaken, hended, hwork]
    exact hj.once

/-- a caller's job is put into **the queue** -/
theorem Jobs.push {a : Nat} {job : Job W} (hj : Jobs p queued)
    (hcall : p.callers[k]? = some (.pushing a)) (hd : p.owner ≠ .destroyed)
    (hcell : p.jobs.cells a = some job) (hcalls : p'.callers = p.callers.set k .posting)
    (hthreads : p'.threads = p.threads)
    (hqueue : p'.jobqueue.Holds p'.jobs (queued ++ [(a, job.current)]))
    (hjobs : ∀ j, (p'.jobs.cells j).map Cell.current = (p.jobs.cells j).map Cell.current)
    (howner : p'.owner = p.owner) (hadded : p'.added = p.added ++ [job.current])
    (htaken : p'.taken = p.taken) (hended : p'.ended = p.ended) :
    Jobs p' (queued ++ [(a, job.current)]) where
  queue := hqueue
  owned j := by
    have h := hcalls ▸ tally_set (Caller.has j) hcall .posting
    have hsome : (p'.jobs.cells j).isSome = (p.jobs.cells j).isSome := by
      rw [← Option.isSome_map (f := Cell.current), hjobs, Option.isSome_map]
    rw [show Caller.has j (.pushing a) = if a = j then 1 else 0 from rfl,
      show Caller.has j .posting = 0 from rfl] at h
    rw [hthreads, hsome, ← hj.owned j, List.map_append, List.count_append, List.map_singleton,
      List.count_singleton]
    simp only [beq_iff_eq]
    omega
  order hd' := by
    rw [htaken, hadded, ← hj.order hd, List.map_append, List.append_assoc]
    rfl
  begun := by
    rw [htaken, hadded]
    exact hj.begun.trans (List.prefix_append _ _)
  once := by
    rw [htaken, hended, hthreads, hj.once]
    exact congrArg (_ + ·) (tally_congr fun w _ => (work_congr fun j _ => hjobs j).symm)

/-- a caller makes **a job** -/
theorem Jobs.add (hj : Jobs p queued) (hcall : p.callers[k]? = some .away) (work : W) :
    Jobs (addWork k work p) queued := by
  have hne : ∀ j, (p.jobs.cells j).isSome →
      (addWork k work p).jobs.cells j = p.jobs.cells j := fun j hsome =>
    Heap.alloc_cells_ne (Nat.ne_of_lt (Heap.lt_fresh hsome))
  refine ⟨?_, fun j => ?_, hj.order, hj.begun, ?_⟩
  · exact hj.queue.congr fun c hc => hne c.1 (Segment.isSome hj.queue.front hc)
  · have h : tally (Caller.has j) (addWork k work p).callers + 0 =
        _ + if p.jobs.fresh = j then 1 else 0 :=
      tally_set (Caller.has j) hcall (.pushing p.jobs.fresh)
    have howned := hj.owned j
    show _ + tally _ p.threads + _ = _
    by_cases hfresh : p.jobs.fresh = j
    · subst hfresh
      rw [Heap.cells_fresh, Option.isSome_none, if_neg Bool.false_ne_true] at howned
      rw [show (addWork k work p).jobs.cells p.jobs.fresh = some _ from Heap.alloc_cells_fresh]
      rw [if_pos rfl] at h
      rw [Option.isSome_some, if_pos rfl]
      omega
    · rw [show (addWork k work p).jobs.cells j = _ from
        Heap.alloc_cells_ne fun e => hfresh e.symm]
      rw [if_neg hfresh] at h
      omega
  · refine hj.once.trans (congrArg (_ + ·) (tally_congr fun w hw => ?_))
    refine (work_congr fun j hhas => ?_).symm
    rw [hne j (hj.live hw hhas)]

theorem gone_has (h : ∀ w ∈ p.threads, w.isGone) (j : Nat) : tally (Worker.has j) p.threads = 0 :=
  tally_eq_zero.2 fun w hw => by
    obtain rfl := isGone_iff.1 (h w hw)
    rfl

theorem away_has (h : ∀ c ∈ p.callers, c.isAway) (j : Nat) :
    tally (Caller.has j) p.callers = 0 :=
  tally_eq_zero.2 fun c hc => by
    obtain rfl := isAway_iff.1 (h c hc)
    rfl

/-- **what is left in the queue** is freed -/
theorem Jobs.clear {h : Heap (Job W)} (hj : Jobs p queued) (hd : p.owner ≠ .destroyed)
    (hgone : ∀ w ∈ p.threads, w.isGone) (haway : ∀ c ∈ p.callers, c.isAway)
    (hcells : ∀ j, h.cells j = if j ∈ queued.map Prod.fst then none else p.jobs.cells j) :
    Jobs { p with jobqueue := jobqueueInit, hasJobs := 0, jobs := h, owner := .destroyed } [] where
  queue := ⟨rfl, rfl, rfl⟩
  owned j := by
    have howned := hj.owned j
    rw [gone_has hgone, away_has haway] at howned
    show 0 + tally _ p.threads + tally _ p.callers = if (h.cells j).isSome then 1 else 0
    rw [gone_has hgone, away_has haway, hcells]
    by_cases hmem : j ∈ queued.map Prod.fst
    · rw [if_pos hmem]
      rfl
    · rw [if_neg hmem, ← howned, List.count_eq_zero.2 hmem]
  order h := absurd rfl h
  begun := hj.begun
  once := by
    refine hj.once.trans (congrArg (_ + ·) (tally_congr fun w hw => ?_))
    obtain rfl := isGone_iff.1 (hgone w hw)
    rfl

end

end Libp2p.Thpool
