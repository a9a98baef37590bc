import Libipfs.Thpool.Threads
import Mathlib.Algebra.Order.Group.Multiset

/-!
# What is true of the pool at any time

* `Worker.alive`, `Worker.working`, …   what is counted of the threads, one number for each;
* `Census p`         the counters of the pool are those numbers, the mutexes are held by at most one,
                     and no post of the semaphore is lost unless another pool has a hand in it;
* `Jobs p queued`    every job that has not been freed is in the queue or in one hand, and the jobs
                     that were taken have ended or are in the hands of threads.
-/

namespace Libp2p.Thpool
open CSem

section
variable {W : Type}

/-- counted by `num_threads_alive` -/
def Worker.alive : Worker W → Nat
  | .starting => 0
  | .unlocking => 0
  | .gone => 0
  | _ => 1

/-- counted by `num_threads_working` -/
def Worker.working : Worker W → Nat
  | .pulling => 1
  | .posting _ => 1
  | .pulled _ => 1
  | .running _ _ => 1
  | .ran _ => 1
  | .finishing => 1
  | _ => 0

/-- holds `thcount_lock` between two turns -/
def Worker.locks : Worker W → Nat
  | .unlocking => 1
  | _ => 0

/-- holds `rwmutex` between two turns -/
def Worker.posts : Worker W → Nat
  | .posting _ => 1
  | _ => 0

def Caller.posts : Caller → Nat
  | .posting => 1
  | _ => 0

/-- has left the loop -/
def Worker.leaves : Worker W → Nat
  | .leaving => 1
  | .unlocking => 1
  | .gone => 1
  | _ => 0

def Worker.starts : Worker W → Nat
  | .starting => 1
  | _ => 0

/-- has taken the semaphore and will pull -/
def Worker.carries : Worker W → Nat
  | .woken => 1
  | .counting => 1
  | .pulling => 1
  | _ => 0

def Worker.sleeps : Worker W → Nat
  | .asleep => 1
  | _ => 0

def Worker.waits : Worker W → Nat
  | .waiting => 1
  | _ => 0

/-- has the job at `j` in hand -/
def Worker.has (j : Nat) : Worker W → Nat
  | .posting i => if i = j then 1 else 0
  | .pulled (some i) => if i = j then 1 else 0
  | .running i _ => if i = j then 1 else 0
  | .ran i => if i = j then 1 else 0
  | _ => 0

def Caller.has (j : Nat) : Caller → Nat
  | .pushing i => if i = j then 1 else 0
  | _ => 0

/-- the work that has been taken and has not ended -/
def Worker.work (h : Heap (Job W)) : Worker W → Multiset W
  | .posting i => (workAt h (some i)).toList
  | .pulled i => (workAt h i).toList
  | .running _ w => {w}
  | _ => 0

structure Census (p : Pool W) : Prop where
  alive : p.numThreadsAlive = (tally Worker.alive p.threads : Nat)
  working : p.numThreadsWorking = (tally Worker.working p.threads : Nat)
  locks : tally Worker.locks p.threads = p.thcountLock.toNat
  posts : tally Worker.posts p.threads + tally Caller.posts p.callers = p.rwmutex.toNat
  keepalive : p.disturbed = false →
    (p.threadsKeepalive = true ↔ p.owner = .starting ∨ p.owner = .serving)
  stays : p.Kept → tally Worker.leaves p.threads = 0
  started : p.owner ≠ .starting → tally Worker.starts p.threads = 0
  down : p.owner = .destroyed →
    (∀ w ∈ p.threads, w.isGone) ∧ (∀ c ∈ p.callers, c.isAway) ∧ p.jobqueue.len = 0
  /-- a job in the queue has somebody coming -/
  coming : p.Kept → p.jobqueue.len ≠ 0 →
    p.hasJobs = 1 ∨ 0 < tally Worker.carries p.threads + p.rwmutex.toNat
  /-- a post has somebody awake, or nobody to be woken -/
  awake : p.hasJobs = 1 → 0 < tally Worker.sleeps p.threads → 0 < tally Worker.waits p.threads

structure Jobs (p : Pool W) (queued : List (Nat × W)) : Prop where
  queue : p.jobqueue.Holds p.jobs queued
  /-- **no job is lost, freed twice or shared** -/
  owned : ∀ j, (queued.map Prod.fst).count j + tally (Worker.has j) p.threads +
    tally (Caller.has j) p.callers = if (p.jobs.cells j).isSome then 1 else 0
  /-- **first in, first out** -/
  order : p.owner ≠ .destroyed → p.taken ++ queued.map Prod.snd = p.added
  begun : p.taken <+: p.added
  /-- **what was taken has ended once or is in hand** -/
  once : (p.taken : Multiset W) = p.ended + tally (Worker.work p.jobs) p.threads

def Pool.Law (p : Pool W) : Prop := Census p ∧ ∃ queued, Jobs p queued

variable {p p' : Pool W} {queued : List (Nat × W)} {i j k wake : Nat} {w w' : Worker W} {c c' : Caller}

theorem not_kept (h : p.threadsKeepalive = false) : ¬ p.Kept := fun hk =>
  absurd (h.symm.trans hk.1) Bool.false_ne_true

/-! ## the counters -/

/-- **one thread goes on**: the counters follow -/
theorem Census.move (hc : Census p) (hw : p.threads[i]? = some w)
    (hthreads : p'.threads = p.threads.set i w') (howner : p'.owner = p.owner)
    (hkeep : (p'.threadsKeepalive, p'.disturbed) = (p.threadsKeepalive, p.disturbed))
    (hd : p.owner ≠ .destroyed)
    (hcallers : tally Caller.posts p'.callers = tally Caller.posts p.callers)
    (halive : p'.numThreadsAlive + w.alive = p.numThreadsAlive + w'.alive)
    (hworking : p'.numThreadsWorking + w.working = p.numThreadsWorking + w'.working)
    (hlocks : p'.thcountLock.toNat + w.locks = p.thcountLock.toNat + w'.locks)
    (hposts : p'.rwmutex.toNat + w.posts = p.rwmutex.toNat + w'.posts)
    (hleaves : p.Kept → w'.leaves = 0) (hstarts : w'.starts ≤ w.starts)
    (hcoming : p'.jobqueue.len ≠ 0 → p'.hasJobs = 1 ∨ 0 < w'.carries + p'.rwmutex.toNat ∨
      p.jobqueue.len ≠ 0 ∧ p'.hasJobs = p.hasJobs ∧ w.carries = 0 ∧ p'.rwmutex = p.rwmutex ∨
      ¬ p.Kept)
    (hawake : p'.hasJobs = 1 → p.hasJobs = 1 ∧ w'.sleeps ≤ w.sleeps ∧ w.waits ≤ w'.waits) :
    Census p' := by
  have h := hthreads ▸ tally_set Worker.alive hw w'
  have h₁ := hthreads ▸ tally_set Worker.working hw w'
  have h₂ := hthreads ▸ tally_set Worker.locks hw w'
  have h₃ := hthreads ▸ tally_set Worker.posts hw w'
  have h₄ := hthreads ▸ tally_set Worker.leaves hw w'
  have h₅ := hthreads ▸ tally_set Worker.starts hw w'
  have h₆ := hthreads ▸ tally_set Worker.carries hw w'
  have h₇ := hthreads ▸ tally_set Worker.sleeps hw w'
  have h₈ := hthreads ▸ tally_set Worker.waits hw w'
  have hle : w.waits ≤ _ := le_tally (List.mem_of_getElem? hw)
  have hle' : w.carries ≤ _ := le_tally (List.mem_of_getElem? hw)
  obtain ⟨hflag, hothers⟩ := Prod.mk.inj hkeep
  have hkept : p'.Kept → p.Kept := fun h => ⟨hflag ▸ h.1, hothers ▸ h.2⟩
  refine ⟨?_, ?_, ?_, ?_, ?_, fun hk => ?_, fun hs => ?_, fun hdown => ?_, fun hk hlen => ?_,
    fun hv hs => ?_⟩
  · have := hc.alive
    omega
  · have := hc.working
    omega
  · have := hc.locks
    omega
  · have := hc.posts
    omega
  · rw [hflag, hothers, howner]
    exact hc.keepalive
  · have := hc.stays (hkept hk)
    have := hleaves (hkept hk)
    omega
  · have := hc.started (howner ▸ hs)
    omega
  · exact absurd (howner ▸ hdown) hd
  · rcases hcoming hlen with h | h | ⟨h, hv, hz, hr⟩ | h
    · exact .inl h
    · exact .inr (by omega)
    · rcases hc.coming (hkept hk) h with hv' | hpos
      · exact .inl (hv.trans hv')
      · rw [hr]
        exact .inr (by omega)
    · exact absurd (hkept hk) h
  · obtain ⟨hv', hs', hw'⟩ := hawake hv
    have := hc.awake hv' (by omega)
    omega

/-- **a caller goes on** -/
theorem Census.moveCaller (hc : Census p) (hcall : p.callers[k]? = some c)
    (hcallers : p'.callers = p.callers.set k c') (hthreads : p'.threads = p.threads)
    (howner : p'.owner = p.owner)
    (hkeep : (p'.threadsKeepalive, p'.disturbed) = (p.threadsKeepalive, p.disturbed))
    (hd : p.owner ≠ .destroyed) (halive : p'.numThreadsAlive = p.numThreadsAlive)
    (hworking : p'.numThreadsWorking = p.numThreadsWorking)
    (hlocks : p'.thcountLock = p.thcountLock) (hhasJobs : p'.hasJobs = p.hasJobs)
    (hposts : p'.rwmutex.toNat + c.posts = p.rwmutex.toNat + c'.posts)
    (hcoming : p'.jobqueue.len ≠ 0 → p'.hasJobs = 1 ∨ p'.rwmutex = true ∨
      p'.jobqueue.len = p.jobqueue.len ∧ p'.rwmutex = p.rwmutex) :
    Census p' := by
  have h := hcallers ▸ tally_set Caller.posts hcall c'
  obtain ⟨hflag, hothers⟩ := Prod.mk.inj hkeep
  have hkept : p'.Kept → p.Kept := fun h => ⟨hflag ▸ h.1, hothers ▸ h.2⟩
  refine ⟨?_, ?_, ?_, ?_, ?_, ?_, ?_, fun hdown => absurd (howner ▸ hdown) hd, fun hk hlen => ?_, ?_⟩
  · rw [halive, hthreads, hc.alive]
  · rw [hworking, hthreads, hc.working]
  · rw [hlocks, hthreads, hc.locks]
  · have := hc.posts
    rw [hthreads]
    omega
  · rw [hflag, hothers, howner]
    exact hc.keepalive
  · rw [hthreads]
    exact fun hk => hc.stays (hkept hk)
  · rw [howner, hthreads]
    exact hc.started
  · rw [hthreads]
    rcases hcoming hlen with hv | hr | ⟨hq, hr⟩
    · exact .inl hv
    · rw [hr]
      exact .inr (Nat.lt_of_lt_of_le Nat.one_pos (Nat.le_add_left _ _))
    · rw [hhasJobs, hr]
      exact hc.coming (hkept hk) (hq ▸ hlen)
  · rw [hhasJobs, hthreads]
    exact hc.awake

/-- whoever is about to post has `rwmutex` -/
theorem Census.held (hc : Census p)
    (hposts : 0 < tally Worker.posts p.threads + tally Caller.posts p.callers) :
    p.rwmutex.toNat = 1 := by
  have hcount := hc.posts
  have hle := Bool.toNat_le p.rwmutex
  omega

theorem isAsleep_iff : w.isAsleep = true ↔ w = .asleep := by
  cases w <;> simp [Worker.isAsleep]

theorem isSleeping_iff : c.isSleeping = true ↔ c = .sleeping := by
  cases c <;> simp [Caller.isSleeping]

theorem isGone_iff : w.isGone = true ↔ w = .gone := by
  cases w <;> simp [Worker.isGone]

theorem isAway_iff : c.isAway = true ↔ c = .away := by
  cases c <;> simp [Caller.isAway]

/-- being woken does not count -/
theorem tally_bsemPost {M : Type} [AddCancelCommMonoid M] {f : Worker W → M}
    (hf : f .asleep = f .waiting) : tally f (p.bsemPost wake).threads = tally f p.threads := by
  show tally f (signal Worker.isAsleep .waiting wake p.threads) = _
  rcases signal_cases Worker.isAsleep .waiting wake p.threads with ⟨-, hs⟩ | ⟨j, w, hw, ha, hs⟩
  · rw [hs]
  · obtain rfl := isAsleep_iff.1 ha
    rw [hs]
    have h := tally_set f hw .waiting
    rw [hf] at h
    exact add_right_cancel h

theorem tally_wakeCaller {M : Type} [AddCancelCommMonoid M] {f : Caller → M}
    {callers : List Caller} (hf : f .sleeping = f .checking) :
    tally f (signal Caller.isSleeping .checking wake callers) = tally f callers := by
  rcases signal_cases Caller.isSleeping .checking wake callers with ⟨-, hs⟩ | ⟨j, c, hc, ha, hs⟩
  · rw [hs]
  · obtain rfl := isSleeping_iff.1 ha
    rw [hs]
    have h := tally_set f hc .checking
    rw [hf] at h
    exact add_right_cancel h

/-- somebody is awake after a post, or nobody was asleep -/
theorem bsemPost_awake (h : 0 < tally Worker.sleeps (p.bsemPost wake).threads) :
    0 < tally Worker.waits (p.bsemPost wake).threads := by
  change 0 < tally _ (signal Worker.isAsleep .waiting wake p.threads) at h ⊢
  rcases signal_cases Worker.isAsleep .waiting wake p.threads with ⟨hno, hs⟩ | ⟨j, w, hw, ha, hs⟩
  · rw [hs] at h
    obtain ⟨w, hw, hpos⟩ := tally_pos.1 h
    have hw := hno w hw
    cases w <;> simp_all [Worker.sleeps, Worker.isAsleep]
  · obtain rfl := isAsleep_iff.1 ha
    have h := tally_set Worker.waits hw .waiting
    rw [hs]
    simp only [Worker.waits] at h
    omega

theorem Census.bsemPost (hc : Census p) (wake : Nat) (hd : p.owner ≠ .destroyed) :
    Census (p.bsemPost wake) where
  alive := by rw [tally_bsemPost rfl]; exact hc.alive
  working := by rw [tally_bsemPost rfl]; exact hc.working
  locks := by rw [tally_bsemPost rfl]; exact hc.locks
  posts := by rw [tally_bsemPost rfl]; exact hc.posts
  keepalive := hc.keepalive
  stays := by rw [tally_bsemPost rfl]; exact hc.stays
  started := by rw [tally_bsemPost rfl]; exact hc.started
  down h := absurd h hd
  coming _ _ := .inl rfl
  awake _ h := bsemPost_awake h

theorem tally_bsemPostAll {M : Type} [AddCommMonoid M] {f : Worker W → M}
    (hf : f .waiting = f .asleep) : tally f p.bsemPostAll.threads = tally f p.threads :=
  tally_broadcast fun w hw ha => by rw [isAsleep_iff.1 ha, hf]

theorem Census.bsemPostAll (hc : Census p) (hd : p.owner = .sweeping) :
    Census { p.bsemPostAll with owner := .ending } where
  alive := hc.alive.trans (congrArg Nat.cast (tally_bsemPostAll rfl).symm)
  working := hc.working.trans (congrArg Nat.cast (tally_bsemPostAll rfl).symm)
  locks := (tally_bsemPostAll rfl).trans hc.locks
  posts := (congrArg (· + _) (tally_bsemPostAll rfl)).trans hc.posts
  keepalive hu := by
    have h := hc.keepalive hu
    rw [hd] at h
    simpa [Pool.bsemPostAll] using h
  stays hk := (tally_bsemPostAll rfl).trans (hc.stays hk)
  started _ := (tally_bsemPostAll rfl).trans (hc.started (by rw [hd]; decide))
  down h := by cases h
  coming _ _ := .inl rfl
  awake _ h := by
    obtain ⟨w, hw, hpos⟩ := tally_pos.1 h
    have hw := broadcast_awake rfl w hw
    cases w <;> simp_all [Worker.sleeps, Worker.isAsleep]

/-- **all of the threads have started** when `thpool_init` returns -/
theorem Census.serving (hc : Census p) (hd : p.owner = .starting)
    (hall : p.numThreadsAlive = p.threads.length) : Census { p with owner := .serving } := by
  have hkeep : p.disturbed = false → p.threadsKeepalive = true := fun hu =>
    (hc.keepalive hu).2 (.inl hd)
  refine { hc with keepalive := fun hu => ⟨fun _ => .inr rfl, fun _ => hkeep hu⟩,
                   started := fun _ => ?_, down := fun h => by cases h }
  have halive := hc.alive
  have hone : tally Worker.alive p.threads + tally Worker.starts p.threads ≤ p.threads.length := by
    rw [← tally_add, ← tally_one]
    refine tally_le fun w _ => ?_
    cases w <;> simp [Worker.alive, Worker.starts]
  show tally Worker.starts p.threads = 0
  omega

theorem Census.destroy (hc : Census p) (hd : p.owner = .serving) :
    Census { p with threadsKeepalive := false, owner := .ending } :=
  { hc with
    keepalive := by simp
    stays := fun h => by cases h.1
    started := fun _ => hc.started (by rw [hd]; decide)
    down := fun h => by cases h
    coming := fun h => by cases h.1 }

/-- **another pool** writes the flag -/
theorem Census.others (hc : Census p) (keepalive : Bool) :
    Census { p with threadsKeepalive := keepalive, disturbed := true } :=
  { hc with
    keepalive := fun h => by cases h
    stays := fun h => by cases h.2
    coming := fun h => by cases h.2 }

theorem Census.sweep (hc : Census p) (hd : p.owner = .ending) :
    Census { p with owner := .sweeping } :=
  { hc with
    keepalive := fun hu => by
      have h := hc.keepalive hu
      rw [hd] at h
      simpa using h
    started := fun _ => hc.started (by rw [hd]; decide)
    down := fun h => by cases h }

/-- **no thread is inside** once the count is down to nothing and the lock is free -/
theorem Census.gone (hc : Census p) (hd : p.owner ≠ .starting) (hall : p.numThreadsAlive = 0)
    (hfree : p.thcountLock = false) : ∀ w ∈ p.threads, w.isGone := by
  intro w hw
  have halive : tally Worker.alive p.threads = 0 := by
    have := hc.alive
    omega
  have hlocks := hc.locks
  rw [hfree] at hlocks
  have hnot := tally_eq_zero.1 halive w hw
  have hstarts := tally_eq_zero.1 (hc.started hd) w hw
  have hlock := tally_eq_zero.1 hlocks w hw
  cases w <;> simp_all [Worker.alive, Worker.starts, Worker.locks, Worker.isGone]

/-- **the pool is taken down** -/
theorem Census.cleanUp {h : Heap (Job W)} (hc : Census p) (hd : p.owner = .ending)
    (hgone : ∀ w ∈ p.threads, w.isGone) (haway : ∀ c ∈ p.callers, c.isAway) :
    Census { p with jobqueue := jobqueueInit, hasJobs := 0, jobs := h, owner := .destroyed } :=
  { hc with
    keepalive := fun hu => by
      have h := hc.keepalive hu
      rw [hd] at h
      simpa using h
    started := fun _ => hc.started (by rw [hd]; decide)
    down := fun _ => ⟨hgone, haway, rfl⟩
    coming := fun _ h => absurd rfl h
    awake := fun h => by cases h }

end

end Libp2p.Thpool
