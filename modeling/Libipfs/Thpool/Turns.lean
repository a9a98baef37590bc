import Libipfs.Thpool.Jobs

/-!
# One turn

* `rank p`           how far the pool is from rest: each turn of a thread, a caller or the owner that
                     is not in vain brings it down, as long as nobody calls;
* `Heard p`          whoever sleeps in `thpool_wait` will be woken;
* `Goes p p'`        what is the same for every turn;
* `threadDo_goes`, `callerGoes_goes`, `ownerGoes_law`   the turns;
* `step_law`         **one turn** does not fault, and keeps the law.
-/

namespace Libp2p.Thpool
open CSem

section
variable {W : Type}

def Worker.weight : Worker W → Nat
  | .starting => 3
  | .looping => 2
  | .waiting => 1
  | .woken => 10
  | .counting => 9
  | .pulling => 8
  | .posting _ => 19
  | .pulled _ => 7
  | .running _ _ => 6
  | .ran _ => 5
  | .finishing => 4
  | _ => 0

def Caller.weight : Caller → Nat
  | .pushing _ => 25
  | .posting => 12
  | .checking => 1
  | _ => 0

def postWeight (hasJobs : Nat) : Nat := if hasJobs = 1 then 10 else 0

def rank (p : Pool W) : Nat :=
  12 * p.jobqueue.len + postWeight p.hasJobs + tally Worker.weight p.threads +
    tally Caller.weight p.callers

def Caller.sleeps : Caller → Nat
  | .sleeping => 1
  | _ => 0

/-- in `thpool_wait` -/
def Caller.inWait : Caller → Nat
  | .checking => 1
  | .sleeping => 1
  | _ => 0

/-- the last thread at work will wake whoever sleeps -/
def Heard (p : Pool W) : Prop :=
  0 < tally Caller.sleeps p.callers → p.jobqueue.len ≠ 0 ∨ p.numThreadsWorking ≠ 0

/-- it is not asleep, and no mutex is in its way -/
def Worker.ready (p : Pool W) : Worker W → Bool
  | .starting => !p.thcountLock
  | .counting => !p.thcountLock
  | .finishing => !p.thcountLock
  | .leaving => !p.thcountLock
  | .pulling => !p.rwmutex
  | .asleep => false
  | .gone => false
  | _ => true

def Caller.ready (p : Pool W) : Caller → Bool
  | .pushing _ => !p.rwmutex
  | .posting => true
  | .checking => !p.thcountLock
  | _ => false

structure Goes (p p' : Pool W) : Prop where
  law : p'.Law
  lower : p.Kept → rank p' < rank p
  disturbed : p'.disturbed = p.disturbed
  owner : p'.owner = p.owner
  threads : p'.threads.length = p.threads.length
  inWait : tally Caller.inWait p'.callers ≤ tally Caller.inWait p.callers
  heard : tally Caller.inWait p.callers ≤ 1 → Heard p → Heard p'

variable {p p' : Pool W} {queued : List (Nat × W)} {i j k wake a : Nat} {w w' : Worker W}
variable {c c' : Caller}

/-! ## what a turn does to the others -/

/-- after a post at most one thread more is awake -/
theorem bsemPost_weight : tally Worker.weight (p.bsemPost wake).threads ≤
    tally Worker.weight p.threads + 1 := by
  show tally _ (signal Worker.isAsleep .waiting wake p.threads) ≤ _
  rcases signal_cases Worker.isAsleep .waiting wake p.threads with ⟨-, hs⟩ | ⟨j, w, hw, ha, hs⟩
  · rw [hs]
    exact Nat.le_succ _
  · obtain rfl := isAsleep_iff.1 ha
    have h := tally_set Worker.weight hw .waiting
    rw [hs]
    simp only [Worker.weight] at h
    omega

theorem postWeight_le (v : Nat) : postWeight v ≤ 10 := by
  unfold postWeight
  split <;> omega

/-- a caller that is alone in `thpool_wait` does not sleep after a signal -/
theorem wakeCaller_sleeps {callers : List Caller} (h : tally Caller.inWait callers ≤ 1) :
    tally Caller.sleeps (signal Caller.isSleeping .checking wake callers) = 0 := by
  rcases signal_cases Caller.isSleeping .checking wake callers with ⟨hno, hs⟩ | ⟨j, c, hc, ha, hs⟩
  · rw [hs, tally_eq_zero]
    intro c hc
    have hno := hno c hc
    cases c <;> simp_all [Caller.sleeps, Caller.isSleeping]
  · obtain rfl := isSleeping_iff.1 ha
    have hle : tally Caller.sleeps callers ≤ tally Caller.inWait callers :=
      tally_le fun c _ => by cases c <;> simp [Caller.sleeps, Caller.inWait]
    have hset := tally_set Caller.sleeps hc .checking
    rw [hs]
    simp only [Caller.sleeps] at hset
    omega

theorem wakeCaller_weight {callers : List Caller} :
    tally Caller.weight (signal Caller.isSleeping .checking wake callers) ≤
      tally Caller.weight callers + 1 := by
  rcases signal_cases Caller.isSleeping .checking wake callers with ⟨-, hs⟩ | ⟨j, c, hc, ha, hs⟩
  · rw [hs]
    exact Nat.le_succ _
  · obtain rfl := isSleeping_iff.1 ha
    have h := tally_set Caller.weight hc .checking
    rw [hs]
    simp only [Caller.weight] at h
    omega

/-- **a job is pulled**, and the mutex is kept when there are more -/
theorem pull_goes {work : W} {rest : List (Nat × W)} {q : Jobqueue} (hc : Census p)
    (hj : Jobs p ((a, work) :: rest)) (hw : p.threads[i]? = some .pulling)
    (hd : p.owner ≠ .destroyed) (hfree : p.rwmutex = false) (hq : q.Holds p.jobs rest)
    (hlen : p.jobqueue.len = q.len + 1) (more : Bool) (w' : Worker W) (halive : w'.alive = 1)
    (hworking : w'.working = 1) (hlocks : w'.locks = 0) (hposts : w'.posts = more.toNat)
    (hleaves : w'.leaves = 0) (hstarts : w'.starts = 0) (hsleeps : w'.sleeps = 0)
    (hmore : q.len ≠ 0 → more = true) (hhas : ∀ j, w'.has j = if a = j then 1 else 0)
    (hwork : w'.work p.jobs = {work}) (hweight : w'.weight < 20) :
    Goes p ({ p with jobqueue := q, taken := p.taken ++ [work], rwmutex := more }.moveTo i w') := by
  refine ⟨⟨?_, rest, ?_⟩, fun _ => ?_, rfl, rfl, List.length_set, Nat.le_refl _, fun _ _ _ => .inr ?_⟩
  · refine hc.move hw rfl rfl rfl hd rfl ?_ ?_ ?_ ?_ (fun _ => hleaves) (by rw [hstarts]; exact Nat.le_refl _)
      (fun h => .inr (.inl ?_)) fun h => ⟨h, by rw [hsleeps]; exact Nat.le_refl _, Nat.zero_le _⟩
    · rw [halive]
      rfl
    · rw [hworking]
      rfl
    · rw [hlocks]
      rfl
    · show more.toNat + 0 = _
      rw [hposts, hfree]
      exact Nat.add_comm _ _
    · show 0 < _ + more.toNat
      rw [hmore h]
      exact Nat.succ_pos _
  · exact hj.pull hw hd rfl hq rfl rfl rfl rfl rfl rfl hhas hwork
  · have h := tally_set Worker.weight hw w'
    show 12 * q.len + postWeight p.hasJobs + tally Worker.weight (p.threads.set i w') +
      tally Caller.weight p.callers < rank p
    unfold rank
    rw [show Worker.weight (.pulling : Worker W) = 8 from rfl] at h
    omega
  · have h : Worker.working .pulling ≤ _ := le_tally (List.mem_of_getElem? hw)
    have hcount := hc.working
    simp only [Worker.working] at h
    show p.numThreadsWorking ≠ 0
    omega

theorem Jobs.bsemPost (hj : Jobs p queued) (wake : Nat) : Jobs (p.bsemPost wake) queued :=
  hj.congr rfl rfl id rfl rfl rfl (fun _ => tally_bsemPost rfl) (fun _ => rfl) (tally_bsemPost rfl)

/-- whoever has made a job has one that is there -/
theorem Jobs.made (hj : Jobs p queued) (hcall : p.callers[k]? = some (.pushing a)) :
    ∃ job, p.jobs.cells a = some job ∧ a ∉ queued.map Prod.fst := by
  have howned := hj.owned a
  have hone : Caller.has a (.pushing a) ≤ _ := le_tally (List.mem_of_getElem? hcall)
  simp only [Caller.has, if_true] at hone
  by_cases hlive : (p.jobs.cells a).isSome
  · obtain ⟨job, hjob⟩ := Option.isSome_iff_exists.1 hlive
    rw [if_pos hlive] at howned
    exact ⟨job, hjob, List.count_eq_zero.1 (by omega)⟩
  · rw [if_neg hlive] at howned
    omega

section
variable (hlaw : p.Law) (hd : p.owner ≠ .destroyed)
include hlaw hd

/-! ## a thread -/

/-- **most of the turns**: a thread goes on, and the counters with it -/
theorem goes_move (hw : p.threads[i]? = some w) (alive working : Int) (lock : Bool)
    (hasJobs : Nat) (ended : List W) (w' : Worker W)
    (halive : alive + w.alive = p.numThreadsAlive + w'.alive)
    (hworking : working + w.working = p.numThreadsWorking + w'.working)
    (hlocks : lock.toNat + w.locks = p.thcountLock.toNat + w'.locks) (hposts : w.posts = w'.posts)
    (hleaves : p.Kept → w'.leaves = 0) (hstarts : w'.starts ≤ w.starts)
    (hcarries : 0 < w'.carries ∨ w.carries = 0 ∧ hasJobs = p.hasJobs ∨
      ¬ p.Kept ∨ p.jobqueue.len = 0)
    (hawake : hasJobs = 1 → p.hasJobs = 1 ∧ w'.sleeps ≤ w.sleeps ∧ w.waits ≤ w'.waits)
    (hhas : ∀ j, w'.has j = w.has j)
    (hended : (ended : Multiset W) + w'.work p.jobs = p.ended + w.work p.jobs)
    (hweight : p.Kept →
      w'.weight + postWeight hasJobs < w.weight + postWeight p.hasJobs)
    (hheard : p.numThreadsWorking ≠ 0 → working ≠ 0) :
    Goes p ({ p with
      numThreadsAlive := alive, numThreadsWorking := working, thcountLock := lock,
      hasJobs := hasJobs, ended := ended }.moveTo i w') := by
  obtain ⟨hc, queued, hj⟩ := hlaw
  refine ⟨⟨?_, queued, ?_⟩, fun hk => ?_, rfl, rfl, List.length_set, Nat.le_refl _, fun _ h hs => ?_⟩
  · refine hc.move hw rfl rfl rfl hd rfl halive hworking hlocks ?_ hleaves hstarts ?_ hawake
    · show p.rwmutex.toNat + _ = _
      rw [hposts]
    · intro hlen
      rcases hcarries with h | ⟨h, hv⟩ | h | h
      · exact .inr (.inl (Nat.lt_of_lt_of_le h (Nat.le_add_right _ _)))
      · exact .inr (.inr (.inl ⟨hlen, hv, h, rfl⟩))
      · exact .inr (.inr (.inr h))
      · exact absurd h hlen
  · exact hj.move hw rfl rfl rfl rfl rfl rfl (fun _ => rfl) hhas hended
  · have h := tally_set Worker.weight hw w'
    have := hweight hk
    show 12 * p.jobqueue.len + postWeight hasJobs + tally Worker.weight (p.threads.set i w') +
      tally Caller.weight p.callers < rank p
    unfold rank
    omega
  · rcases h hs with h | h
    · exact .inl h
    · exact .inr (hheard h)

/-- a thread goes on, and **nothing is counted** -/
theorem goes_place (hw : p.threads[i]? = some w) (w' : Worker W) (halive : w.alive = w'.alive)
    (hworking : w.working = w'.working) (hlocks : w.locks = w'.locks) (hposts : w.posts = w'.posts)
    (hleaves : p.Kept → w'.leaves = 0) (hstarts : w'.starts ≤ w.starts)
    (hcarries : 0 < w'.carries ∨ w.carries = 0 ∨ ¬ p.Kept ∨ p.jobqueue.len = 0)
    (hawake : p.hasJobs = 1 → w'.sleeps ≤ w.sleeps ∧ w.waits ≤ w'.waits)
    (hhas : ∀ j, w'.has j = w.has j) (hwork : w'.work p.jobs = w.work p.jobs)
    (hweight : w'.weight < w.weight) : Goes p (p.moveTo i w') :=
  goes_move hlaw hd hw p.numThreadsAlive p.numThreadsWorking p.thcountLock p.hasJobs p.ended w'
    (by rw [halive]) (by rw [hworking]) (by rw [hlocks]) hposts hleaves hstarts
    (hcarries.imp_right (Or.imp_left fun h => ⟨h, rfl⟩)) (fun h => ⟨h, hawake h⟩) hhas (by rw [hwork])
    (fun _ => Nat.add_lt_add_right hweight _) id

/-- a turn of the loop is over, and **the last thread at work** wakes a caller -/
theorem finishStep_goes (hw : p.threads[i]? = some .finishing) : Goes p (finishStep i wake p) := by
  show Goes p (if p.numThreadsWorking - 1 = 0 then _ else _)
  by_cases hlast : p.numThreadsWorking - 1 = 0
  · obtain ⟨hc, queued, hj⟩ := hlaw
    rw [if_pos hlast]
    refine ⟨⟨?_, queued, ?_⟩, fun _ => ?_, rfl, rfl, List.length_set, ?_, fun h _ hs => ?_⟩
    · exact hc.move hw rfl rfl rfl hd (tally_wakeCaller rfl) rfl (by simp [Pool.moveTo, Worker.working])
        rfl rfl (fun _ => rfl) (Nat.le_refl _)
        (fun hlen => .inr (.inr (.inl ⟨hlen, rfl, rfl, rfl⟩)))
        fun h => ⟨h, Nat.le_refl _, Nat.le_refl _⟩
    · exact hj.move hw rfl rfl rfl rfl rfl rfl (fun _ => tally_wakeCaller rfl) (fun _ => rfl) rfl
    · have h := tally_set Worker.weight hw .looping
      have hcall : tally Caller.weight (signal Caller.isSleeping .checking wake p.callers) ≤
          tally Caller.weight p.callers + 1 := wakeCaller_weight
      show 12 * p.jobqueue.len + postWeight p.hasJobs + tally Worker.weight (p.threads.set i _) +
        tally Caller.weight (signal Caller.isSleeping .checking wake p.callers) < rank p
      unfold rank
      simp only [Worker.weight] at h
      omega
    · exact Nat.le_of_eq (tally_wakeCaller rfl)
    · have hs : 0 < tally Caller.sleeps (signal Caller.isSleeping .checking wake p.callers) := hs
      rw [wakeCaller_sleeps h] at hs
      exact absurd hs (Nat.lt_irrefl 0)
  · rw [if_neg hlast]
    exact goes_move hlaw hd hw p.numThreadsAlive (p.numThreadsWorking - 1) p.thcountLock p.hasJobs
      p.ended .looping rfl (by simp [Worker.working]) rfl rfl (fun _ => rfl) (Nat.le_refl _)
      (.inr (.inl ⟨rfl, rfl⟩)) (fun h => ⟨h, Nat.le_refl _, Nat.le_refl _⟩) (fun _ => rfl) rfl
      (fun _ => by simp [Worker.weight]) fun _ => hlast

/-- the turn of a thread that has the queue for itself -/
theorem pullStep_goes (hw : p.threads[i]? = some .pulling) (hfree : p.rwmutex = false) :
    ∃ p', pullStep i p = .ok p' ∧ Goes p p' := by
  have hlaw' := hlaw
  obtain ⟨hc, queued, hj⟩ := hlaw
  unfold pullStep
  cases queued with
  | nil =>
    have hgoes := goes_place hlaw' hd hw (.pulled none) rfl rfl rfl rfl (fun _ => rfl) (Nat.le_refl _)
      (.inr (.inr (.inr hj.queue.len))) (fun _ => ⟨Nat.le_refl _, Nat.le_refl _⟩) (fun _ => rfl) rfl
      (by simp [Worker.weight])
    rw [hj.queue.pull_nil]
    refine ⟨_, rfl, ?_⟩
    rw [show (workAt p.jobs none).toList = [] from rfl, List.append_nil]
    exact hgoes
  | cons job rest =>
    obtain ⟨a, work⟩ := job
    obtain ⟨q, hpull, hq, hlen⟩ := hj.queue.pull
    obtain ⟨-, next, hcell, -⟩ := hj.queue.front
    have hat : workAt p.jobs (some a) = some work := congrArg (Option.map Cell.current) hcell
    rw [hpull]
    cases rest with
    | nil =>
      refine ⟨_, rfl, ?_⟩
      rw [hat]
      have hgoes := pull_goes hc hj hw hd hfree hq hlen false (.pulled (some a)) rfl rfl rfl rfl rfl rfl
        rfl (fun h => absurd hq.len h) (fun _ => rfl) (by rw [Worker.work, hat]; rfl)
        (by simp [Worker.weight])
      rw [← hfree] at hgoes
      exact hgoes
    | cons job rest =>
      refine ⟨_, rfl, ?_⟩
      rw [hat]
      exact pull_goes hc hj hw hd hfree hq hlen true (.posting a) rfl rfl rfl rfl rfl rfl
        rfl (fun _ => rfl) (fun _ => rfl) (by rw [Worker.work, hat]; rfl) (by simp [Worker.weight])

/-- **the others are told** that there are more jobs -/
theorem posting_goes (hw : p.threads[i]? = some (.posting a)) :
    Goes p ({ p.bsemPost wake with rwmutex := false }.moveTo i (.pulled (some a))) := by
  obtain ⟨hc, queued, hj⟩ := hlaw
  have hw' : (p.bsemPost wake).threads[i]? = some (.posting a) := signal_getElem? hw rfl
  have hheld : p.rwmutex.toNat = 1 :=
    hc.held (Nat.add_pos_left (tally_pos.2 ⟨_, List.mem_of_getElem? hw, Nat.one_pos⟩) _)
  refine ⟨⟨?_, queued, ?_⟩, fun _ => ?_, rfl, rfl, ?_, Nat.le_refl _, fun _ h => h⟩
  · exact (hc.bsemPost wake hd).move hw' rfl rfl rfl hd rfl rfl rfl rfl
      (show 0 + 1 = p.rwmutex.toNat + 0 by rw [hheld]) (fun _ => rfl) (Nat.le_refl _)
      (fun _ => .inl rfl) fun h => ⟨h, Nat.le_refl _, Nat.le_refl _⟩
  · exact (hj.bsemPost wake).move hw' rfl rfl rfl rfl rfl rfl (fun _ => rfl) (fun _ => rfl) rfl
  · have h := tally_set Worker.weight hw' (.pulled (some a))
    have hpost : tally Worker.weight (p.bsemPost wake).threads ≤ _ := bsemPost_weight
    show 12 * p.jobqueue.len + postWeight 1 +
      tally Worker.weight ((p.bsemPost wake).threads.set i (.pulled (some a))) +
      tally Caller.weight p.callers < rank p
    have hle := postWeight_le 1
    unfold rank
    simp only [Worker.weight] at h
    omega
  · exact List.length_set.trans signal_length

/-- a thread takes a look at **the job in its hand** -/
theorem pulled_goes (hw : p.threads[i]? = some (.pulled (some a))) :
    ∃ job, p.jobs.get a = .ok job ∧ Goes p (p.moveTo i (.running a job.current)) := by
  obtain ⟨hc, queued, hj⟩ := hlaw
  obtain ⟨job, hjob⟩ := Option.isSome_iff_exists.1
    (hj.live (j := a) (List.mem_of_getElem? hw) (by simp [Worker.has]))
  refine ⟨job, Heap.get_eq_ok.2 hjob, ?_⟩
  have hwork : Worker.work p.jobs (.pulled (some a)) = {job.current} := by
    rw [Worker.work, show workAt p.jobs (some a) = some job.current from
      congrArg (Option.map Cell.current) hjob]
    rfl
  exact goes_place ⟨hc, queued, hj⟩ hd hw (.running a job.current) rfl rfl rfl rfl (fun _ => rfl)
    (Nat.le_refl _) (.inr (.inl rfl)) (fun _ => ⟨Nat.le_refl _, Nat.le_refl _⟩) (fun _ => rfl)
    (by rw [hwork]; rfl) (by simp [Worker.weight])

/-- **and frees it** in the end -/
theorem ran_goes (hw : p.threads[i]? = some (.ran a)) :
    ∃ h, freeJob p.jobs (some a) = .ok h ∧ Goes p ({ p with jobs := h }.moveTo i .finishing) := by
  obtain ⟨hc, queued, hj⟩ := hlaw
  obtain ⟨job, hjob⟩ := Option.isSome_iff_exists.1
    (hj.live (j := a) (List.mem_of_getElem? hw) (by simp [Worker.has]))
  refine ⟨p.jobs.free a, by rw [freeJob, Heap.get_eq_ok.2 hjob]; rfl, ?_⟩
  refine ⟨⟨?_, queued, ?_⟩, fun _ => ?_, rfl, rfl, List.length_set, Nat.le_refl _, fun _ h => h⟩
  · exact hc.move hw rfl rfl rfl hd rfl rfl rfl rfl rfl (fun _ => rfl) (Nat.le_refl _)
      (fun hlen => .inr (.inr (.inl ⟨hlen, rfl, rfl, rfl⟩))) fun h => ⟨h, Nat.le_refl _, Nat.le_refl _⟩
  · exact hj.free hw rfl rfl rfl rfl rfl rfl rfl rfl
  · have h := tally_set Worker.weight hw .finishing
    show 12 * p.jobqueue.len + postWeight p.hasJobs +
      tally Worker.weight (p.threads.set i .finishing) + tally Caller.weight p.callers < rank p
    unfold rank
    simp only [Worker.weight] at h
    omega

/-- **the turn of a thread**: it waits for a mutex or a signal, or goes on -/
theorem threadDo_goes (hw : p.threads[i]? = some w) :
    (w.ready p = false ∧ threadDo i wake p w = .ok p) ∨
      w.ready p = true ∧ ∃ p', threadDo i wake p w = .ok p' ∧ Goes p p' := by
  have hc := hlaw.1
  have hmem := List.mem_of_getElem? hw
  have hsame : p.hasJobs = 1 → p.hasJobs = 1 ∧ 0 ≤ 0 ∧ 0 ≤ 0 := fun h => ⟨h, Nat.le_refl _, Nat.le_refl _⟩
  have hplace : p.hasJobs = 1 → 0 ≤ 0 ∧ 0 ≤ 0 := fun _ => ⟨Nat.le_refl _, Nat.le_refl _⟩
  have hstay : p.Kept → w.leaves = 0 := fun hk =>
    tally_eq_zero.1 (hc.stays hk) w hmem
  cases w with
  | starting =>
    cases hlock : p.thcountLock with
    | true => exact .inl ⟨by rw [Worker.ready, hlock]; rfl, if_pos hlock⟩
    | false =>
      refine .inr ⟨by rw [Worker.ready, hlock]; rfl, _, if_neg (by rw [hlock]; decide), ?_⟩
      exact goes_move hlaw hd hw (p.numThreadsAlive + 1) p.numThreadsWorking p.thcountLock p.hasJobs
        p.ended .looping (by simp [Worker.alive]) rfl rfl rfl (fun _ => rfl) (Nat.zero_le _)
        (.inr (.inl ⟨rfl, rfl⟩)) hsame (fun _ => rfl) rfl (fun _ => by simp [Worker.weight]) id
  | looping =>
    refine .inr ⟨rfl, _, rfl, ?_⟩
    cases hkeep : p.threadsKeepalive with
    | true =>
      exact goes_place hlaw hd hw .waiting rfl rfl rfl rfl (fun _ => rfl) (Nat.le_refl _)
        (.inr (.inl rfl)) (fun _ => ⟨Nat.le_refl _, Nat.zero_le _⟩) (fun _ => rfl) rfl
        (by simp [Worker.weight])
    | false =>
      exact goes_place hlaw hd hw .leaving rfl rfl rfl rfl (fun h => absurd h (not_kept hkeep))
        (Nat.le_refl _) (.inr (.inl rfl)) hplace (fun _ => rfl) rfl (by simp [Worker.weight])
  | waiting =>
    refine .inr ⟨rfl, ?_⟩
    by_cases hpost : p.hasJobs = 1
    · refine ⟨_, if_pos hpost, ?_⟩
      exact goes_move hlaw hd hw p.numThreadsAlive p.numThreadsWorking p.thcountLock 0 p.ended .woken
        rfl rfl rfl rfl (fun _ => rfl) (Nat.le_refl _) (.inl Nat.one_pos) (fun h => by cases h)
        (fun _ => rfl) rfl (fun _ => by simp [Worker.weight, postWeight, hpost]) id
    · refine ⟨_, if_neg hpost, ?_⟩
      exact goes_place hlaw hd hw .asleep rfl rfl rfl rfl (fun _ => rfl) (Nat.le_refl _)
        (.inr (.inl rfl)) (fun h => absurd h hpost) (fun _ => rfl) rfl (by simp [Worker.weight])
  | asleep => exact .inl ⟨rfl, rfl⟩
  | woken =>
    refine .inr ⟨rfl, _, rfl, ?_⟩
    cases hkeep : p.threadsKeepalive with
    | true =>
      exact goes_place hlaw hd hw .counting rfl rfl rfl rfl (fun _ => rfl) (Nat.le_refl _)
        (.inl Nat.one_pos) hplace (fun _ => rfl) rfl (by simp [Worker.weight])
    | false =>
      exact goes_place hlaw hd hw .looping rfl rfl rfl rfl (fun _ => rfl) (Nat.le_refl _)
        (.inr (.inr (.inl (not_kept hkeep)))) hplace (fun _ => rfl) rfl (by simp [Worker.weight])
  | counting =>
    cases hlock : p.thcountLock with
    | true => exact .inl ⟨by rw [Worker.ready, hlock]; rfl, if_pos hlock⟩
    | false =>
      refine .inr ⟨by rw [Worker.ready, hlock]; rfl, _, if_neg (by rw [hlock]; decide), ?_⟩
      exact goes_move hlaw hd hw p.numThreadsAlive (p.numThreadsWorking + 1) p.thcountLock p.hasJobs
        p.ended .pulling rfl (by simp [Worker.working]) rfl rfl (fun _ => rfl) (Nat.le_refl _)
        (.inl Nat.one_pos) hsame (fun _ => rfl) rfl (fun _ => by simp [Worker.weight])
        fun _ => by have := hc.working; omega
  | pulling =>
    cases hfree : p.rwmutex with
    | true => exact .inl ⟨by rw [Worker.ready, hfree]; rfl, if_pos hfree⟩
    | false =>
      obtain ⟨p', hp', hgoes⟩ := pullStep_goes hlaw hd hw hfree
      exact .inr ⟨by rw [Worker.ready, hfree]; rfl, p',
        (if_neg (by rw [hfree]; decide)).trans hp', hgoes⟩
  | posting jobP => exact .inr ⟨rfl, _, rfl, posting_goes hlaw hd hw⟩
  | pulled jobP =>
    refine .inr ⟨rfl, ?_⟩
    cases jobP with
    | none =>
      refine ⟨_, rfl, ?_⟩
      exact goes_place hlaw hd hw .finishing rfl rfl rfl rfl (fun _ => rfl) (Nat.le_refl _)
        (.inr (.inl rfl)) hplace (fun _ => rfl) rfl (by simp [Worker.weight])
    | some a =>
      obtain ⟨job, hget, hgoes⟩ := pulled_goes hlaw hd hw
      exact ⟨_, by rw [threadDo, hget]; rfl, hgoes⟩
  | running jobP work =>
    refine .inr ⟨rfl, _, rfl, ?_⟩
    exact goes_move hlaw hd hw p.numThreadsAlive p.numThreadsWorking p.thcountLock p.hasJobs
      (p.ended ++ [work]) (.ran jobP) rfl rfl rfl rfl (fun _ => rfl) (Nat.le_refl _)
      (.inr (.inl ⟨rfl, rfl⟩)) hsame (fun _ => rfl)
      (by rw [← Multiset.coe_add]; exact add_zero _) (fun _ => by simp [Worker.weight]) id
  | ran jobP =>
    obtain ⟨h, hfree, hgoes⟩ := ran_goes hlaw hd hw
    exact .inr ⟨rfl, _, by rw [threadDo, hfree]; rfl, hgoes⟩
  | finishing =>
    cases hlock : p.thcountLock with
    | true => exact .inl ⟨by rw [Worker.ready, hlock]; rfl, if_pos hlock⟩
    | false =>
      exact .inr ⟨by rw [Worker.ready, hlock]; rfl, _, if_neg (by rw [hlock]; decide),
        finishStep_goes hlaw hd hw⟩
  | leaving =>
    have hoff : ¬ p.Kept := fun hk => absurd (hstay hk) Nat.one_ne_zero
    cases hlock : p.thcountLock with
    | true => exact .inl ⟨by rw [Worker.ready, hlock]; rfl, if_pos hlock⟩
    | false =>
      refine .inr ⟨by rw [Worker.ready, hlock]; rfl, _, if_neg (by rw [hlock]; decide), ?_⟩
      exact goes_move hlaw hd hw (p.numThreadsAlive - 1) p.numThreadsWorking true p.hasJobs
        p.ended .unlocking (by simp [Worker.alive]) rfl (by rw [hlock]; rfl) rfl
        (fun hk => absurd hk hoff) (Nat.le_refl _) (.inr (.inl ⟨rfl, rfl⟩)) hsame (fun _ => rfl) rfl
        (fun hk => absurd hk hoff) id
  | unlocking =>
    have hoff : ¬ p.Kept := fun hk => absurd (hstay hk) Nat.one_ne_zero
    have hlock : p.thcountLock.toNat = 1 := by
      have h : Worker.locks .unlocking ≤ _ := le_tally hmem
      have hle := Bool.toNat_le p.thcountLock
      have hcount := hc.locks
      simp only [Worker.locks] at h
      omega
    refine .inr ⟨rfl, _, rfl, ?_⟩
    exact goes_move hlaw hd hw p.numThreadsAlive p.numThreadsWorking false p.hasJobs
      p.ended .gone rfl rfl (by rw [hlock]; rfl) rfl (fun hk => absurd hk hoff) (Nat.le_refl _)
      (.inr (.inl ⟨rfl, rfl⟩)) hsame (fun _ => rfl) rfl (fun hk => absurd hk hoff) id
  | gone => exact .inl ⟨rfl, rfl⟩

/-! ## a caller -/

/-- **a job is added** -/
theorem pushStep_goes (hcall : p.callers[k]? = some (.pushing a)) (hfree : p.rwmutex = false) :
    ∃ p', pushStep k a p = .ok p' ∧ Goes p p' := by
  obtain ⟨hc, queued, hj⟩ := hlaw
  obtain ⟨job, hjob, hmem⟩ := hj.made hcall
  obtain ⟨q, h, hpush, hq, hlen, hcells⟩ := hj.queue.push hjob hmem
  have hat : workAt p.jobs (some a) = some job.current := congrArg (Option.map Cell.current) hjob
  refine ⟨_, by rw [pushStep, hpush, hat]; rfl, ?_⟩
  refine ⟨⟨?_, queued ++ [(a, job.current)], ?_⟩, fun _ => ?_, rfl, rfl, rfl, ?_, fun _ _ _ => .inl ?_⟩
  · refine hc.moveCaller hcall rfl rfl rfl rfl hd rfl rfl rfl rfl ?_ fun _ => .inr (.inl rfl)
    show true.toNat + 0 = p.rwmutex.toNat + 1
    rw [hfree]
    rfl
  · exact hj.push hcall hd hjob rfl rfl hq hcells rfl rfl rfl rfl
  · have h := tally_set Caller.weight hcall .posting
    show 12 * q.len + postWeight p.hasJobs + tally Worker.weight p.threads +
      tally Caller.weight (p.callers.set k .posting) < rank p
    unfold rank
    simp only [Caller.weight] at h
    omega
  · have h := tally_set Caller.inWait hcall .posting
    exact Nat.le_of_eq h
  · show q.len ≠ 0
    omega

/-- **the threads are told** -/
theorem posted_goes (hcall : p.callers[k]? = some .posting) :
    Goes p ({ p.bsemPost wake with rwmutex := false }.moveCaller k .away) := by
  obtain ⟨hc, queued, hj⟩ := hlaw
  have hcall' : (p.bsemPost wake).callers[k]? = some .posting := hcall
  have hheld : p.rwmutex.toNat = 1 :=
    hc.held (Nat.add_pos_right _ (tally_pos.2 ⟨_, List.mem_of_getElem? hcall, Nat.one_pos⟩))
  have hset : ∀ f : Caller → Nat, f .posting = f .away →
      tally f (p.callers.set k .away) = tally f p.callers := by
    intro f hf
    have h := tally_set f hcall .away
    omega
  refine ⟨⟨?_, queued, ?_⟩, fun _ => ?_, rfl, rfl, signal_length, Nat.le_of_eq (hset _ rfl),
    fun _ h hs => h ?_⟩
  · exact (hc.bsemPost wake hd).moveCaller hcall' rfl rfl rfl rfl hd rfl rfl rfl rfl
      (show 0 + 1 = p.rwmutex.toNat + 0 by rw [hheld]) fun _ => .inl rfl
  · exact (hj.bsemPost wake).congr rfl rfl id rfl rfl rfl (fun _ => rfl) (fun _ => hset _ rfl) rfl
  · have h := tally_set Caller.weight hcall .away
    have hpost : tally Worker.weight (p.bsemPost wake).threads ≤ _ := bsemPost_weight
    show 12 * p.jobqueue.len + postWeight 1 + tally Worker.weight (p.bsemPost wake).threads +
      tally Caller.weight (p.callers.set k .away) < rank p
    have hle := postWeight_le 1
    unfold rank
    simp only [Caller.weight] at h
    omega
  · exact (hset Caller.sleeps rfl) ▸ hs

/-- a caller of `thpool_wait` goes to sleep or returns -/
theorem checked_goes (hcall : p.callers[k]? = some .checking) (c' : Caller)
    (hposts : c'.posts = 0) (hhas : ∀ j, c'.has j = 0) (hweight : c'.weight = 0) (hwait : c'.inWait ≤ 1)
    (hheard : c'.sleeps = 0 ∨ p.jobqueue.len ≠ 0 ∨ p.numThreadsWorking ≠ 0) :
    Goes p (p.moveCaller k c') := by
  obtain ⟨hc, queued, hj⟩ := hlaw
  refine ⟨⟨?_, queued, ?_⟩, fun _ => ?_, rfl, rfl, rfl, ?_, fun _ h hs => ?_⟩
  · exact hc.moveCaller hcall rfl rfl rfl rfl hd rfl rfl rfl rfl (by rw [hposts]; rfl)
      fun _ => .inr (.inr ⟨rfl, rfl⟩)
  · refine hj.congr rfl rfl id rfl rfl rfl (fun _ => rfl) (fun j => ?_) rfl
    have h := tally_set (Caller.has j) hcall c'
    rw [hhas] at h
    exact h
  · have h := tally_set Caller.weight hcall c'
    show 12 * p.jobqueue.len + postWeight p.hasJobs + tally Worker.weight p.threads +
      tally Caller.weight (p.callers.set k c') < rank p
    unfold rank
    rw [hweight, show Caller.weight .checking = 1 from rfl] at h
    omega
  · have h := tally_set Caller.inWait hcall c'
    show tally _ (p.callers.set k c') ≤ _
    rw [show Caller.inWait .checking = 1 from rfl] at h
    omega
  · rcases hheard with hz | hleft
    · have hset := tally_set Caller.sleeps hcall c'
      have hs : 0 < tally Caller.sleeps (p.callers.set k c') := hs
      rw [hz, show Caller.sleeps .checking = 0 from rfl] at hset
      exact h (by omega)
    · exact hleft

/-- **the turn of a caller** -/
theorem callerGoes_goes (hcall : p.callers[k]? = some c) :
    (c.ready p = false ∧ callerGoes k wake p c = .ok p) ∨
      c.ready p = true ∧ ∃ p', callerGoes k wake p c = .ok p' ∧ Goes p p' := by
  cases c with
  | away => exact .inl ⟨rfl, rfl⟩
  | pushing newjob =>
    cases hfree : p.rwmutex with
    | true => exact .inl ⟨by rw [Caller.ready, hfree]; rfl, if_pos hfree⟩
    | false =>
      obtain ⟨p', hp', hgoes⟩ := pushStep_goes hlaw hd hcall hfree
      exact .inr ⟨by rw [Caller.ready, hfree]; rfl, p',
        (if_neg (by rw [hfree]; decide)).trans hp', hgoes⟩
  | posting => exact .inr ⟨rfl, _, rfl, posted_goes hlaw hd hcall⟩
  | checking =>
    cases hlock : p.thcountLock with
    | true => exact .inl ⟨by rw [Caller.ready, hlock]; rfl, if_pos hlock⟩
    | false =>
      refine .inr ⟨by rw [Caller.ready, hlock]; rfl, ?_⟩
      have hgo : callerGoes k wake p .checking = if p.jobqueue.len ≠ 0 ∨ p.numThreadsWorking ≠ 0
          then .ok (p.moveCaller k .sleeping) else .ok (p.moveCaller k .away) :=
        if_neg (by rw [hlock]; decide)
      by_cases hleft : p.jobqueue.len ≠ 0 ∨ p.numThreadsWorking ≠ 0
      · exact ⟨_, hgo.trans (if_pos hleft), checked_goes hlaw hd hcall .sleeping rfl (fun _ => rfl) rfl
          (Nat.le_refl _) (.inr hleft)⟩
      · exact ⟨_, hgo.trans (if_neg hleft), checked_goes hlaw hd hcall .away rfl (fun _ => rfl) rfl
          (Nat.zero_le _) (.inl rfl)⟩
  | sleeping => exact .inl ⟨rfl, rfl⟩

/-- **a caller** goes to a place where it has neither a job nor the mutex -/
theorem moveCaller_law (hcall : p.callers[k]? = some c) (hposts : c.posts = 0)
    (hposts' : c'.posts = 0) (hhas : ∀ j, c.has j = 0) (hhas' : ∀ j, c'.has j = 0) : (p.moveCaller k c').Law := by
  obtain ⟨hc, queued, hj⟩ := hlaw
  refine ⟨?_, queued, hj.congr rfl rfl id rfl rfl rfl (fun _ => rfl) (fun j => ?_) rfl⟩
  · exact hc.moveCaller hcall rfl rfl rfl rfl hd rfl rfl rfl rfl (by rw [hposts, hposts']; rfl)
      fun _ => .inr (.inr ⟨rfl, rfl⟩)
  · have h := tally_set (Caller.has j) hcall c'
    rw [hhas, hhas'] at h
    exact h

theorem addWork_law (hcall : p.callers[k]? = some .away) (work : W) : (addWork k work p).Law := by
  obtain ⟨hc, queued, hj⟩ := hlaw
  refine ⟨?_, queued, hj.add hcall work⟩
  exact hc.moveCaller hcall rfl rfl rfl rfl hd rfl rfl rfl rfl rfl fun _ => .inr (.inr ⟨rfl, rfl⟩)

end

/-! ## the owner, and what comes from outside -/

/-- **the owner's turn** -/
theorem ownerGoes_law (hlaw : p.Law) (horderly : Orderly .owner p) :
    ∃ p', ownerGoes p = .ok p' ∧ p'.Law ∧ p'.threads.length = p.threads.length := by
  obtain ⟨hc, queued, hj⟩ := hlaw
  unfold ownerGoes
  cases hown : p.owner with
  | starting =>
    by_cases hall : p.numThreadsAlive = p.threads.length
    · exact ⟨_, if_pos hall, ⟨hc.serving hown hall, queued, hj.congr rfl rfl
        (fun _ => by rw [hown]; decide) rfl rfl rfl (fun _ => rfl) (fun _ => rfl) rfl⟩, rfl⟩
    · exact ⟨p, if_neg hall, ⟨hc, queued, hj⟩, rfl⟩
  | serving => exact ⟨p, rfl, ⟨hc, queued, hj⟩, rfl⟩
  | ending =>
    have hd : p.owner ≠ .destroyed := by rw [hown]; decide
    by_cases hall : p.numThreadsAlive ≠ 0
    · exact ⟨_, if_pos hall, ⟨hc.sweep hown, queued, hj.congr rfl rfl (fun _ => hd) rfl rfl rfl
        (fun _ => rfl) (fun _ => rfl) rfl⟩, rfl⟩
    · have hall := not_not.1 hall
      obtain ⟨hlock, haway⟩ := horderly hown hall
      have hgone := hc.gone (by rw [hown]; decide) hall hlock
      -- nobody is left who could hold the mutex
      have hfree : p.rwmutex.toNat = 0 := by
        rw [← hc.posts, Nat.add_eq_zero_iff, tally_eq_zero, tally_eq_zero]
        constructor
        · intro w hw
          obtain rfl := isGone_iff.1 (hgone w hw)
          rfl
        · intro c hc
          obtain rfl := isAway_iff.1 (haway c hc)
          rfl
      obtain ⟨h, hclear, hcells⟩ := hj.queue.clear (Nat.le_of_eq hj.queue.len.symm)
      refine ⟨_, ?_, ⟨hc.cleanUp hown hgone haway, [], hj.clear hd hgone haway hcells⟩, rfl⟩
      show (if p.numThreadsAlive ≠ 0 then _ else cleanUp p) = _
      rw [if_neg (not_not.2 hall), cleanUp, if_neg, hclear]
      · rfl
      · rintro ⟨-, hheld⟩
        rw [hheld] at hfree
        cases hfree
  | sweeping =>
    have hd : p.owner ≠ .destroyed := by rw [hown]; decide
    exact ⟨_, rfl, ⟨hc.bsemPostAll hown, queued, hj.congr rfl rfl (fun _ => hd) rfl rfl rfl
      (fun _ => tally_bsemPostAll rfl) (fun _ => rfl) (tally_bsemPostAll rfl)⟩, List.length_map _⟩
  | destroyed => exact ⟨p, rfl, ⟨hc, queued, hj⟩, rfl⟩

/-- **a sleeper may wake up** by itself -/
theorem stray_law (hlaw : p.Law) (hw : p.threads[i]? = some .asleep) : (p.moveTo i .waiting).Law := by
  obtain ⟨hc, queued, hj⟩ := hlaw
  have hd : p.owner ≠ .destroyed := fun hd => by
    cases (hc.down hd).1 _ (List.mem_of_getElem? hw)
  refine ⟨?_, queued, hj.move hw rfl rfl rfl rfl rfl rfl (fun _ => rfl) (fun _ => rfl) rfl⟩
  exact hc.move hw rfl rfl rfl hd rfl rfl rfl rfl rfl (fun _ => rfl) (Nat.le_refl _)
    (fun hlen => .inr (.inr (.inl ⟨hlen, rfl, rfl, rfl⟩))) fun h => ⟨h, Nat.zero_le _, Nat.zero_le _⟩

/-- a call comes through, or there is nobody to make it -/
theorem calls_cases (k : Nat) (p : Pool W) (call : Pool W → Pool W) :
    calls k p call = .ok p ∨
      p.owner ≠ .starting ∧ p.callers[k]? = some .away ∧ calls k p call = .ok (call p) := by
  by_cases h : p.owner ≠ .starting ∧ (p.callers[k]?).any Caller.isAway
  · obtain ⟨c, hc, haway⟩ := (Option.any_eq_true _ _).1 h.2
    obtain rfl := isAway_iff.1 haway
    exact .inr ⟨h.1, hc, if_pos h⟩
  · exact .inl (if_neg h)

variable {t : Turn W}

/-- nobody goes on in a pool that was taken down -/
theorem thread_down (hlaw : p.Law) (hd : p.owner = .destroyed) :
    step (.thread i wake) p = .ok p := by
  cases hw : p.threads[i]? with
  | none => exact step_thread_none hw
  | some w =>
    have hgone := (hlaw.1.down hd).1 w (List.mem_of_getElem? hw)
    rw [step_thread hw (.inl hgone)]
    obtain rfl := isGone_iff.1 hgone
    rfl

theorem caller_down (hlaw : p.Law) (hd : p.owner = .destroyed) :
    step (.caller k wake) p = .ok p := by
  cases hcall : p.callers[k]? with
  | none => exact step_caller_none hcall
  | some c =>
    have haway := (hlaw.1.down hd).2.1 c (List.mem_of_getElem? hcall)
    rw [step_caller hcall (.inl haway)]
    obtain rfl := isAway_iff.1 haway
    rfl

/-- **one turn**: nothing that was freed is touched, and the law is kept -/
theorem step_law (hlaw : p.Law) (horderly : Orderly t p) :
    ∃ p', step t p = .ok p' ∧ p'.Law ∧ p'.threads.length = p.threads.length := by
  cases t with
  | thread i wake =>
    by_cases hd : p.owner = .destroyed
    · exact ⟨p, thread_down hlaw hd, hlaw, rfl⟩
    · cases hw : p.threads[i]? with
      | none => exact ⟨p, step_thread_none hw, hlaw, rfl⟩
      | some w =>
        rw [step_thread hw (.inr hd)]
        rcases threadDo_goes hlaw hd hw with ⟨-, h⟩ | ⟨-, p', h, hgoes⟩
        · exact ⟨p, h, hlaw, rfl⟩
        · exact ⟨p', h, hgoes.law, hgoes.threads⟩
  | caller k wake =>
    by_cases hd : p.owner = .destroyed
    · exact ⟨p, caller_down hlaw hd, hlaw, rfl⟩
    · cases hcall : p.callers[k]? with
      | none => exact ⟨p, step_caller_none hcall, hlaw, rfl⟩
      | some c =>
        rw [step_caller hcall (.inr hd)]
        rcases callerGoes_goes hlaw hd hcall with ⟨-, h⟩ | ⟨-, p', h, hgoes⟩
        · exact ⟨p, h, hlaw, rfl⟩
        · exact ⟨p', h, hgoes.law, hgoes.threads⟩
  | owner => exact ownerGoes_law hlaw horderly
  | strayThread i =>
    by_cases h : (p.threads[i]?).any Worker.isAsleep
    · obtain ⟨w, hw, hs⟩ := (Option.any_eq_true _ _).1 h
      obtain rfl := isAsleep_iff.1 hs
      exact ⟨_, if_pos h, stray_law hlaw hw, List.length_set⟩
    · exact ⟨p, if_neg h, hlaw, rfl⟩
  | strayCaller k =>
    by_cases h : (p.callers[k]?).any Caller.isSleeping
    · obtain ⟨c, hcall, hs⟩ := (Option.any_eq_true _ _).1 h
      obtain rfl := isSleeping_iff.1 hs
      have hd : p.owner ≠ .destroyed := fun hd => by
        cases (hlaw.1.down hd).2.1 _ (List.mem_of_getElem? hcall)
      exact ⟨_, if_pos h, moveCaller_law hlaw hd hcall rfl rfl (fun _ => rfl) fun _ => rfl, rfl⟩
    · exact ⟨p, if_neg h, hlaw, rfl⟩
  | addWork k work =>
    rcases calls_cases k p (addWork k work) with h | ⟨-, hcall, h⟩
    · exact ⟨p, h, hlaw, rfl⟩
    · exact ⟨_, h, addWork_law hlaw horderly hcall work, rfl⟩
  | wait k =>
    rcases calls_cases k p (Pool.moveCaller k .checking) with h | ⟨-, hcall, h⟩
    · exact ⟨p, h, hlaw, rfl⟩
    · exact ⟨_, h, moveCaller_law hlaw horderly hcall rfl rfl (fun _ => rfl) fun _ => rfl, rfl⟩
  | destroy =>
    by_cases h : p.owner = .serving
    · obtain ⟨hc, queued, hj⟩ := hlaw
      exact ⟨_, if_pos h, ⟨hc.destroy h, queued, hj.congr rfl rfl (fun _ => by rw [h]; decide) rfl
        rfl rfl (fun _ => rfl) (fun _ => rfl) rfl⟩, rfl⟩
    · exact ⟨p, if_neg h, hlaw, rfl⟩
  | others keepalive =>
    obtain ⟨hc, queued, hj⟩ := hlaw
    exact ⟨_, rfl, ⟨hc.others keepalive, queued, hj.congr rfl rfl id rfl rfl rfl (fun _ => rfl)
      (fun _ => rfl) rfl⟩, rfl⟩

end

end Libp2p.Thpool
