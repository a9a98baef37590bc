import Libipfs.Thpool.Jobqueue
import Libipfs.Lib.Tally
import Libipfs.Lib.Run

/-!
# The thread pool

The threads of a pool, the callers of the library and the owner of the pool take turns in any
order; a turn is what one of them does between two accesses to what they share, where a section
under a mutex is one turn unless there is another mutex inside it.  A thread whose turn comes while
it cannot go on stays where it is.

* `Worker`, `Caller`, `Owner`   where a thread of the pool, one that calls `thpool_add_work` or
                     `thpool_wait`, and the one with `thpool_init` and `thpool_destroy` are;
* `Pool`             what they share, where they are, and which jobs were added, taken and ended;
* `threadDo`         the turn of a thread of the pool;
* `callerGoes`, `ownerGoes`   the turns of the others;
* `step`             one turn;
* `Orderly`          nobody is inside when the pool is taken down, and nobody calls after that;
* `Kept`             the threads are to go on, and no other pool has a hand in it.
-/

namespace Libp2p.Thpool
open CSem

/-- where a thread of the pool is in `thread_do` -/
inductive Worker (W : Type) where
  /-- it has not marked itself as alive -/
  | starting
  | looping
  /-- in `bsem_wait`, and asleep there on the condition variable -/
  | waiting
  | asleep
  | woken
  /-- it has seen `threads_keepalive` and is to count itself as working -/
  | counting
  | pulling
  /-- in `jobqueue_pull`, which holds `rwmutex`, before `bsem_post` -/
  | posting (jobP : Nat)
  | pulled (jobP : Option Nat)
  | running (jobP : Nat) (work : W)
  | ran (jobP : Nat)
  | finishing
  | leaving
  /-- it has counted itself out, and still holds `thcount_lock` -/
  | unlocking
  | gone

/-- where a caller is in `thpool_add_work` or `thpool_wait` -/
inductive Caller where
  | away
  | pushing (newjob : Nat)
  /-- in `jobqueue_push`, which holds `rwmutex`, before `bsem_post` -/
  | posting
  /-- at the condition of `thpool_wait`, and asleep on the condition variable -/
  | checking
  | sleeping
  deriving DecidableEq

/-- where the owner of the pool is -/
inductive Owner where
  /-- in `thpool_init`, where it waits for the threads -/
  | starting
  | serving
  /-- in `thpool_destroy`, at the condition of its loops, and before `bsem_post_all` -/
  | ending
  | sweeping
  | destroyed
  deriving DecidableEq

structure Pool (W : Type) where
  /-- one variable for all the pools there are -/
  threadsKeepalive : Bool
  numThreadsAlive : Int
  numThreadsWorking : Int
  thcountLock : Bool
  jobqueue : Jobqueue
  rwmutex : Bool
  /-- the value of the semaphore -/
  hasJobs : Nat
  jobs : Heap (Job W)
  threads : List (Worker W)
  callers : List Caller
  owner : Owner
  -- for the record: whether another pool has written `threads_keepalive`; the jobs in the order they
  -- were put into the queue, taken from it, and ended
  disturbed : Bool
  added : List W
  taken : List W
  ended : List W

inductive Turn (W : Type) where
  /-- the scheduler also has a say in who is woken by a signal -/
  | thread (i wake : Nat)
  | caller (k wake : Nat)
  | owner
  /-- `pthread_cond_wait` may return without a signal -/
  | strayThread (i : Nat)
  | strayCaller (k : Nat)
  | addWork (k : Nat) (work : W)
  | wait (k : Nat)
  | destroy
  /-- another pool is made, or begins to be destroyed -/
  | others (keepalive : Bool)

section
variable {W : Type}

def Worker.isAsleep : Worker W → Bool
  | .asleep => true
  | _ => false

def Worker.isGone : Worker W → Bool
  | .gone => true
  | _ => false

def Caller.isSleeping : Caller → Bool
  | .sleeping => true
  | _ => false

def Caller.isAway : Caller → Bool
  | .away => true
  | _ => false

/-- `thpool_init` up to its loop, with the threads it has made -/
def thpoolInit (numThreads : Int) (callers : Nat) : Pool W where
  threadsKeepalive := true
  numThreadsAlive := 0
  numThreadsWorking := 0
  thcountLock := false
  jobqueue := jobqueueInit
  rwmutex := false
  hasJobs := 0
  jobs := Heap.empty
  threads := List.replicate numThreads.toNat .starting
  callers := List.replicate callers .away
  owner := .starting
  disturbed := false
  added := []
  taken := []
  ended := []

def Pool.moveTo (i : Nat) (w : Worker W) (p : Pool W) : Pool W :=
  { p with threads := p.threads.set i w }

def Pool.moveCaller (k : Nat) (c : Caller) (p : Pool W) : Pool W :=
  { p with callers := p.callers.set k c }

/-- `bsem_post` -/
def Pool.bsemPost (wake : Nat) (p : Pool W) : Pool W :=
  { p with hasJobs := 1, threads := signal Worker.isAsleep .waiting wake p.threads }

/-- `bsem_post_all` -/
def Pool.bsemPostAll (p : Pool W) : Pool W :=
  { p with hasJobs := 1, threads := broadcast Worker.isAsleep .waiting p.threads }

/-- the work of a job -/
def workAt (h : Heap (Job W)) (jobP : Option Nat) : Option W :=
  jobP.bind fun i => (h.cells i).map Cell.current

/-- `jobqueue_pull`, which keeps the mutex when there is something to be posted -/
def pullStep (i : Nat) (p : Pool W) : Exec (Pool W) := do
  let (q, jobP, more) ← jobqueuePull p.jobqueue p.jobs
  let p' := { p with jobqueue := q, taken := p.taken ++ (workAt p.jobs jobP).toList }
  if more then do
    let job ← follow jobP
    .ok ({ p' with rwmutex := true }.moveTo i (.posting job))
  else .ok (p'.moveTo i (.pulled jobP))

/-- the end of a turn of the loop -/
def finishStep (i wake : Nat) (p : Pool W) : Pool W :=
  let p := { p with numThreadsWorking := p.numThreadsWorking - 1 }.moveTo i .looping
  if p.numThreadsWorking = 0 then
    { p with callers := signal Caller.isSleeping .checking wake p.callers }
  else p

/-- the turn of a thread of the pool -/
def threadDo (i wake : Nat) (p : Pool W) : Worker W → Exec (Pool W)
  | .starting =>
    if p.thcountLock then .ok p
    else .ok ({ p with numThreadsAlive := p.numThreadsAlive + 1 }.moveTo i .looping)
  | .looping => .ok (p.moveTo i (if p.threadsKeepalive then .waiting else .leaving))
  | .waiting =>
    if p.hasJobs = 1 then .ok ({ p with hasJobs := 0 }.moveTo i .woken)
    else .ok (p.moveTo i .asleep)
  | .asleep => .ok p
  | .woken => .ok (p.moveTo i (if p.threadsKeepalive then .counting else .looping))
  | .counting =>
    if p.thcountLock then .ok p
    else .ok ({ p with numThreadsWorking := p.numThreadsWorking + 1 }.moveTo i .pulling)
  | .pulling => if p.rwmutex then .ok p else pullStep i p
  | .posting jobP => .ok ({ p.bsemPost wake with rwmutex := false }.moveTo i (.pulled (some jobP)))
  | .pulled none => .ok (p.moveTo i .finishing)
  | .pulled (some jobP) => do
    let job ← p.jobs.get jobP
    .ok (p.moveTo i (.running jobP job.current))
  | .running jobP work => .ok ({ p with ended := p.ended ++ [work] }.moveTo i (.ran jobP))
  | .ran jobP => do
    let h ← freeJob p.jobs (some jobP)
    .ok ({ p with jobs := h }.moveTo i .finishing)
  | .finishing => if p.thcountLock then .ok p else .ok (finishStep i wake p)
  | .leaving =>
    if p.thcountLock then .ok p
    else .ok ({ p with
      numThreadsAlive := p.numThreadsAlive - 1, thcountLock := true }.moveTo i .unlocking)
  | .unlocking => .ok ({ p with thcountLock := false }.moveTo i .gone)
  | .gone => .ok p

/-- `jobqueue_push`, which keeps the mutex -/
def pushStep (k newjob : Nat) (p : Pool W) : Exec (Pool W) := do
  let (q, h) ← jobqueuePush p.jobqueue p.jobs newjob
  .ok ({ p with jobqueue := q, jobs := h, rwmutex := true,
                added := p.added ++ (workAt p.jobs (some newjob)).toList }.moveCaller k .posting)

/-- the turn of a caller -/
def callerGoes (k wake : Nat) (p : Pool W) : Caller → Exec (Pool W)
  | .away => .ok p
  | .pushing newjob => if p.rwmutex then .ok p else pushStep k newjob p
  | .posting => .ok ({ p.bsemPost wake with rwmutex := false }.moveCaller k .away)
  | .checking =>
    if p.thcountLock then .ok p
    else if p.jobqueue.len ≠ 0 ∨ p.numThreadsWorking ≠ 0 then .ok (p.moveCaller k .sleeping)
    else .ok (p.moveCaller k .away)
  | .sleeping => .ok p

/-- `jobqueue_destroy` and what is freed after it -/
def cleanUp (p : Pool W) : Exec (Pool W) :=
  if p.jobqueue.len ≠ 0 ∧ p.rwmutex then .ok p
  else do
    let h ← jobqueueClear p.jobqueue.len p.jobqueue p.jobs
    .ok { p with jobqueue := jobqueueInit, hasJobs := 0, jobs := h, owner := .destroyed }

/-- the turn of the owner -/
def ownerGoes (p : Pool W) : Exec (Pool W) :=
  match p.owner with
  | .starting =>
    if p.numThreadsAlive = p.threads.length then .ok { p with owner := .serving } else .ok p
  | .serving => .ok p
  | .ending => if p.numThreadsAlive ≠ 0 then .ok { p with owner := .sweeping } else cleanUp p
  | .sweeping => .ok { p.bsemPostAll with owner := .ending }
  | .destroyed => .ok p

/-- `thpool_add_work` up to `jobqueue_push` -/
def addWork (k : Nat) (work : W) (p : Pool W) : Pool W :=
  { p with jobs := p.jobs.alloc { current := work, next := none } }.moveCaller k
    (.pushing p.jobs.fresh)

/-- `caller` calls, once there is a pool -/
def calls (k : Nat) (p : Pool W) (call : Pool W → Pool W) : Exec (Pool W) :=
  if p.owner ≠ .starting ∧ (p.callers[k]?).any Caller.isAway then .ok (call p) else .ok p

/-- one turn; a pool that has been freed is touched by whoever is still inside -/
def step : Turn W → Pool W → Exec (Pool W)
  | .thread i wake, p =>
    match p.threads[i]? with
    | none => .ok p
    | some w => do
      require .freed (w.isGone ∨ p.owner ≠ .destroyed)
      threadDo i wake p w
  | .caller k wake, p =>
    match p.callers[k]? with
    | none => .ok p
    | some c => do
      require .freed (c.isAway ∨ p.owner ≠ .destroyed)
      callerGoes k wake p c
  | .owner, p => ownerGoes p
  | .strayThread i, p =>
    if (p.threads[i]?).any Worker.isAsleep then .ok (p.moveTo i .waiting) else .ok p
  | .strayCaller k, p =>
    if (p.callers[k]?).any Caller.isSleeping then .ok (p.moveCaller k .checking) else .ok p
  | .addWork k work, p => calls k p (addWork k work)
  | .wait k, p => calls k p (Pool.moveCaller k .checking)
  | .destroy, p =>
    if p.owner = .serving then .ok { p with threadsKeepalive := false, owner := .ending }
    else .ok p
  | .others keepalive, p => .ok { p with threadsKeepalive := keepalive, disturbed := true }

/-- the threads are to go on, and no other pool has a hand in it -/
def Pool.Kept (p : Pool W) : Prop := p.threadsKeepalive = true ∧ p.disturbed = false

/-- nobody is inside when the pool is taken down, which the code does not see to: the last thread may
still hold `thcount_lock`, and a caller may be in a call; and nobody calls after that -/
def Orderly : Turn W → Pool W → Prop
  | .owner, p => p.owner = .ending → p.numThreadsAlive = 0 →
      p.thcountLock = false ∧ ∀ c ∈ p.callers, c.isAway
  | .addWork _ _, p => p.owner ≠ .destroyed
  | .wait _, p => p.owner ≠ .destroyed
  | _, _ => True

variable {p : Pool W} {i k wake : Nat} {w : Worker W} {c : Caller}

theorem step_thread_none (h : p.threads[i]? = none) : step (.thread i wake) p = .ok p := by
  simp only [step, h]

theorem step_thread (h : p.threads[i]? = some w) (hin : w.isGone ∨ p.owner ≠ .destroyed) :
    step (.thread i wake) p = threadDo i wake p w := by
  simp only [step, h]
  rw [require_pos hin, ok_bind]

theorem step_caller_none (h : p.callers[k]? = none) : step (.caller k wake) p = .ok p := by
  simp only [step, h]

theorem step_caller (h : p.callers[k]? = some c) (hin : c.isAway ∨ p.owner ≠ .destroyed) :
    step (.caller k wake) p = callerGoes k wake p c := by
  simp only [step, h]
  rw [require_pos hin, ok_bind]

end

end Libp2p.Thpool
