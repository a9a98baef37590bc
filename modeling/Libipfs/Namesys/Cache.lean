import Libipfs.Lib.Run
import Libipfs.Util.Time

/-!
# The cache of resolved names

An entry is added behind the others while there is room; none is ever replaced or given up.  A look
into the cache takes the first entry of the key that has not expired.

* `routingCacheGet`, `routingCacheSet`   the two functions;
* `CacheRun`, `cacheStep`    a cache, what was set before, and the clock;
* `CacheRight`      **what is found is what was set last**, while it is younger than a minute;
* `CacheKept`       the invariant: what lives of a key is what was set last;
* `SetKept`         there is room, and no entry of the key lives with another value;
* `cacheRight_iff`  the law holds along a run exactly when each set is one of these.
-/

set_option linter.unusedVariables false

namespace Ipfs
open CSem

/-! ## the functions -/

def defaultResolverCacheTtl : Int := 60

/-- the texts are those of the caller, which keeps them -/
structure CacheEntry where
  key : List UInt8
  value : List UInt8
  eol : Timespec
  deriving DecidableEq, Repr

/-- `next` is the length of `data` -/
structure RoutingResolver where
  cachesize : Int
  data : List CacheEntry
  deriving DecidableEq, Repr

def namesysNewRoutingResolver (cachesize : Int) : RoutingResolver :=
  { cachesize := cachesize, data := [] }

/-- the comparison with the end of an entry -/
def Timespec.before (now eol : Timespec) : Bool :=
  now.tvSec < eol.tvSec ∨ now.tvSec = eol.tvSec ∧ now.tvNsec < eol.tvNsec

/-- null when the key or the cache is, and when nothing is found -/
def routingCacheGet (now : Timespec) (key : Option (List UInt8)) (cache : Option RoutingResolver) :
    Option (List UInt8) := do
  let key ← key
  let cache ← cache
  let entry ← cache.data.find? fun entry => now.before entry.eol ∧ entry.key = key
  return entry.value

def routingCacheSet (now : Timespec) (key value : Option (List UInt8))
    (cache : Option RoutingResolver) : Option RoutingResolver :=
  match key, value, cache with
  | some key, some value, some cache =>
    if (cache.data.length : Int) < cache.cachesize then
      let eol := { now with tvSec := now.tvSec + defaultResolverCacheTtl }
      some { cache with data := cache.data ++ [{ key := key, value := value, eol := eol }] }
    else some cache
  | _, _, cache => cache

/-! ## runs -/

/-- a time in nanoseconds, as the clock gives it -/
def Timespec.ofNanos (time : Int) : Timespec :=
  { tvSec := time / 1000000000, tvNsec := time % 1000000000 }

def Timespec.nanos (ts : Timespec) : Int := ts.tvSec * 1000000000 + ts.tvNsec

/-- so long a value is good -/
def cacheTtlNanos : Int := defaultResolverCacheTtl * 1000000000

structure CacheSet where
  key : List UInt8
  value : List UInt8
  time : Int
  deriving DecidableEq, Repr

/-- the cache; what was set, the last first; the time; and whether there were ever more keys with a
value that is good than the cache is for -/
structure CacheRun where
  cache : RoutingResolver
  sets : List CacheSet
  clock : Int
  exceeded : Bool
  deriving DecidableEq, Repr

/-- what the next call is, and how long after the last one -/
inductive CacheOp where
  | set (wait : Nat) (key value : List UInt8)
  | get (wait : Nat) (key : List UInt8)
  deriving DecidableEq, Repr

/-- the last set of a key -/
def CacheRun.latest (s : CacheRun) (key : List UInt8) : Option CacheSet :=
  s.sets.find? fun set => set.key = key

/-- the keys with a value that is good -/
def liveKeys (sets : List CacheSet) (now : Int) : List (List UInt8) :=
  ((sets.filter fun set => now - set.time < cacheTtlNanos).map CacheSet.key).dedup

def CacheRun.afterSet (s : CacheRun) (wait : Nat) (key value : List UInt8) : CacheRun :=
  let now := s.clock + wait
  let sets := { key := key, value := value, time := now } :: s.sets
  { cache := (routingCacheSet (Timespec.ofNanos now) (some key) (some value) (some s.cache)).getD s.cache
    sets := sets
    clock := now
    exceeded := s.exceeded ∨ s.cache.cachesize < (liveKeys sets now).length }

def cacheStep : CacheOp → CacheRun → Exec CacheRun
  | .set wait key value, s => .ok (s.afterSet wait key value)
  | .get wait key, s => .ok { s with clock := s.clock + wait }

def CacheRun.new (cachesize clock : Int) : CacheRun :=
  { cache := namesysNewRoutingResolver cachesize, sets := [], clock := clock, exceeded := false }

/-- the value of the last set of a key, if it is less than a minute old -/
def CacheRun.expected (s : CacheRun) (now : Int) (key : List UInt8) : Option (List UInt8) :=
  ((s.latest key).filter fun set => now - set.time < cacheTtlNanos).map CacheSet.value

/-- whatever is asked for next is right, unless there were too many keys -/
def CacheRight (s : CacheRun) : Prop :=
  s.exceeded = false → ∀ (wait : Nat) key,
    routingCacheGet (Timespec.ofNanos (s.clock + wait)) (some key) (some s.cache) =
      s.expected (s.clock + wait) key

/-- what may be set: there is room for it, or the key was set at the same instant; and every entry
of the key that lives has this value -/
def SetKept : CacheOp → CacheRun → Prop
  | .set wait key value, s =>
    (s.afterSet wait key value).exceeded = true ∨
      ((s.cache.data.length : Int) < s.cache.cachesize ∨
        ∃ entry ∈ s.cache.data, entry.key = key ∧
          entry.eol.nanos = s.clock + wait + cacheTtlNanos) ∧
      ∀ entry ∈ s.cache.data, entry.key = key → s.clock + wait < entry.eol.nanos →
        entry.value = value
  | .get _ _, _ => True

instance : (op : CacheOp) → (s : CacheRun) → Decidable (SetKept op s)
  | .set _ _ _, _ => inferInstanceAs (Decidable (_ ∨ _))
  | .get _ _, _ => inferInstanceAs (Decidable True)

/-! ## times -/

section
variable {now time : Int} {ts eol : Timespec}

/-- the fields are compared as the times are -/
theorem before_iff (heol : 0 ≤ eol.tvNsec ∧ eol.tvNsec < 1000000000) :
    (Timespec.ofNanos now).before eol = true ↔ now < eol.nanos := by
  unfold Timespec.before Timespec.ofNanos Timespec.nanos
  rw [decide_eq_true_iff]
  dsimp only
  omega

end

/-! ## what is kept -/

/-- no entry outlives the last set of its key -/
structure CacheKnown (s : CacheRun) : Prop where
  nsec : ∀ entry ∈ s.cache.data, 0 ≤ entry.eol.tvNsec ∧ entry.eol.tvNsec < 1000000000
  known : ∀ entry ∈ s.cache.data, ∃ set, s.latest entry.key = some set ∧
    entry.eol.nanos ≤ set.time + cacheTtlNanos
  past : ∀ set ∈ s.sets, set.time ≤ s.clock

/-- of each key there is an entry that lives as long as the last set, and whatever lives has its
value -/
def CacheKept (s : CacheRun) : Prop :=
  ∀ key set, s.latest key = some set →
    (∀ entry ∈ s.cache.data, entry.key = key → s.clock < entry.eol.nanos →
      entry.value = set.value) ∧
    (s.clock < set.time + cacheTtlNanos → ∃ entry ∈ s.cache.data, entry.key = key ∧
      entry.eol.nanos = set.time + cacheTtlNanos)

section
variable {s s' : CacheRun} {key value value' : List UInt8} {wait : Nat} {now : Int} {op : CacheOp}

theorem expected_eq {set : CacheSet} (h : s.latest key = some set) :
    s.expected now key = if now < set.time + cacheTtlNanos then some set.value else none := by
  rw [CacheRun.expected, h, Option.filter_some]
  by_cases hlt : now < set.time + cacheTtlNanos
  · rw [if_pos hlt, if_pos (decide_eq_true (by omega))]
    rfl
  · rw [if_neg hlt, if_neg (fun hd => hlt (by have := of_decide_eq_true hd; omega))]
    rfl

theorem expected_none (h : s.latest key = none) : s.expected now key = none := by
  rw [CacheRun.expected, h]
  rfl

/-- the entry that is found -/
theorem routingCacheGet_eq_some (hs : CacheKnown s) :
    routingCacheGet (Timespec.ofNanos now) (some key) (some s.cache) = some value →
      ∃ entry ∈ s.cache.data, entry.key = key ∧ now < entry.eol.nanos ∧ entry.value = value := by
  intro h
  obtain ⟨entry, hentry, hvalue⟩ := Option.bind_eq_some_iff.1 h
  have hmem := List.mem_of_find?_eq_some hentry
  have hfound : _ ∧ _ := of_decide_eq_true (List.find?_some hentry :)
  exact ⟨entry, hmem, hfound.2, (before_iff (hs.nsec entry hmem)).1 hfound.1,
    Option.some.inj hvalue⟩

theorem routingCacheGet_eq_none (hs : CacheKnown s)
    (h : routingCacheGet (Timespec.ofNanos now) (some key) (some s.cache) = none) :
    ∀ entry ∈ s.cache.data, entry.key = key → entry.eol.nanos ≤ now := by
  intro entry hmem hkey
  by_contra hlt
  cases hfind : s.cache.data.find? fun entry =>
      (Timespec.ofNanos now).before entry.eol ∧ entry.key = key with
  | none =>
    have hnot := List.find?_eq_none.1 hfind entry hmem
    exact hnot (decide_eq_true ⟨(before_iff (hs.nsec entry hmem)).2 (by omega), hkey⟩)
  | some found =>
    have hsome : routingCacheGet (Timespec.ofNanos now) (some key) (some s.cache) =
        some found.value := by
      simp only [routingCacheGet, Option.bind_eq_bind, Option.bind_some, hfind]
      rfl
    rw [h] at hsome
    exact nomatch hsome

/-- **what is kept is right** -/
theorem CacheKnown.right (hs : CacheKnown s) (h : CacheKept s) (wait : Nat) (key : List UInt8) :
    routingCacheGet (Timespec.ofNanos (s.clock + wait)) (some key) (some s.cache) =
      s.expected (s.clock + wait) key := by
  cases hget : routingCacheGet (Timespec.ofNanos (s.clock + wait)) (some key) (some s.cache) with
  | some value =>
    obtain ⟨entry, hmem, rfl, hlive, rfl⟩ := routingCacheGet_eq_some hs hget
    obtain ⟨set, hset, hle⟩ := hs.known entry hmem
    rw [expected_eq hset, if_pos (by omega), (h _ set hset).1 entry hmem rfl (by omega)]
  | none =>
    have hdead := routingCacheGet_eq_none hs hget
    cases hlatest : s.latest key with
    | none => exact (expected_none hlatest).symm
    | some set =>
      rw [expected_eq hlatest, if_neg]
      intro hlive
      obtain ⟨entry, hmem, hkey, heol⟩ := (h key set hlatest).2 (by omega)
      have := hdead entry hmem hkey
      omega

/-! ## one call -/

theorem afterSet_latest_self : (s.afterSet wait key value).latest key =
    some { key := key, value := value, time := s.clock + wait } :=
  List.find?_cons_of_pos (decide_eq_true rfl)

theorem afterSet_latest_of_ne {other : List UInt8} (h : key ≠ other) :
    (s.afterSet wait key value).latest other = s.latest other :=
  List.find?_cons_of_neg (fun hd => h (of_decide_eq_true hd))

/-- the entry of a set -/
def setEntry (now : Int) (key value : List UInt8) : CacheEntry :=
  { key := key
    value := value
    eol := { (Timespec.ofNanos now) with tvSec := (Timespec.ofNanos now).tvSec + defaultResolverCacheTtl } }

theorem setEntry_eol (now : Int) (key value : List UInt8) :
    (setEntry now key value).eol.nanos = now + cacheTtlNanos := by
  unfold setEntry Timespec.ofNanos Timespec.nanos cacheTtlNanos
  dsimp only
  omega

theorem afterSet_data : (s.afterSet wait key value).cache.data =
    if (s.cache.data.length : Int) < s.cache.cachesize then
      s.cache.data ++ [setEntry (s.clock + wait) key value]
    else s.cache.data := by
  unfold CacheRun.afterSet routingCacheSet
  dsimp only
  split <;> rfl

theorem mem_afterSet {entry : CacheEntry} : entry ∈ (s.afterSet wait key value).cache.data ↔
    entry ∈ s.cache.data ∨ (s.cache.data.length : Int) < s.cache.cachesize ∧
      entry = setEntry (s.clock + wait) key value := by
  rw [afterSet_data]
  split
  · rename_i hroom
    rw [List.mem_append, List.mem_singleton, and_iff_right hroom]
  · rename_i hfull
    rw [or_iff_left fun h => hfull h.1]

/-- what is found before it is found behind it -/
theorem routingCacheGet_afterSet {ts : Timespec} {other : List UInt8}
    (h : routingCacheGet ts (some other) (some s.cache) = some value') :
    routingCacheGet ts (some other) (some (s.afterSet wait key value).cache) = some value' := by
  simp only [routingCacheGet, Option.bind_eq_bind, Option.bind_some] at h ⊢
  rw [afterSet_data]
  split
  · obtain ⟨entry, hentry, hvalue⟩ := Option.bind_eq_some_iff.1 h
    rw [List.find?_append, hentry]
    exact hvalue
  · exact h

theorem latest_mem {set : CacheSet} (h : s.latest key = some set) : set ∈ s.sets :=
  List.mem_of_find?_eq_some h

theorem CacheKnown.set (hs : CacheKnown s) : CacheKnown (s.afterSet wait key value) := by
  refine ⟨?_, ?_, ?_⟩
  · intro entry hmem
    rcases mem_afterSet.1 hmem with hold | ⟨-, rfl⟩
    · exact hs.nsec entry hold
    · unfold setEntry Timespec.ofNanos
      dsimp only
      omega
  · intro entry hmem
    rcases mem_afterSet.1 hmem with hold | ⟨-, rfl⟩
    · obtain ⟨set, hset, hle⟩ := hs.known entry hold
      by_cases hkey : key = entry.key
      · have hpast := hs.past set (latest_mem hset)
        refine ⟨_, by rw [← hkey]; exact afterSet_latest_self, ?_⟩
        dsimp only
        omega
      · exact ⟨set, by rw [afterSet_latest_of_ne hkey, hset], hle⟩
    · exact ⟨_, afterSet_latest_self, le_of_eq (setEntry_eol _ _ _)⟩
  · intro set hset
    show set.time ≤ s.clock + wait
    rcases List.mem_cons.1 hset with rfl | hold
    · exact le_refl _
    · have := hs.past set hold
      omega

theorem CacheKept.set (h : CacheKept s)
    (hroom : (s.cache.data.length : Int) < s.cache.cachesize ∨
      ∃ entry ∈ s.cache.data, entry.key = key ∧ entry.eol.nanos = s.clock + wait + cacheTtlNanos)
    (hsame : ∀ entry ∈ s.cache.data, entry.key = key → s.clock + wait < entry.eol.nanos →
      entry.value = value) : CacheKept (s.afterSet wait key value) := by
  intro other set hset
  show (∀ entry ∈ (s.afterSet wait key value).cache.data, entry.key = other →
    s.clock + wait < entry.eol.nanos → entry.value = set.value) ∧ (s.clock + wait < _ → _)
  by_cases hkey : key = other
  · subst hkey
    rw [afterSet_latest_self] at hset
    cases hset
    refine ⟨?_, fun _ => ?_⟩
    · intro entry hmem hentry hlive
      rcases mem_afterSet.1 hmem with hold | ⟨-, rfl⟩
      · exact hsame entry hold hentry hlive
      · rfl
    · rcases hroom with hroom | ⟨entry, hmem, hentry, heol⟩
      · exact ⟨_, mem_afterSet.2 (.inr ⟨hroom, rfl⟩), rfl, setEntry_eol _ _ _⟩
      · exact ⟨entry, mem_afterSet.2 (.inl hmem), hentry, heol⟩
  · rw [afterSet_latest_of_ne hkey] at hset
    obtain ⟨hvalues, hlast⟩ := h other set hset
    refine ⟨?_, fun hlive => ?_⟩
    · intro entry hmem hentry hlive
      rcases mem_afterSet.1 hmem with hold | ⟨-, rfl⟩
      · exact hvalues entry hold hentry (by omega)
      · exact absurd hentry hkey
    · obtain ⟨entry, hmem, hentry, heol⟩ := hlast (by omega)
      exact ⟨entry, mem_afterSet.2 (.inl hmem), hentry, heol⟩

theorem CacheKnown.get (hs : CacheKnown s) : CacheKnown { s with clock := s.clock + wait } :=
  ⟨hs.nsec, hs.known, fun set hset => by
    have := hs.past set hset
    show set.time ≤ s.clock + wait
    omega⟩

theorem CacheKept.get (h : CacheKept s) : CacheKept { s with clock := s.clock + wait } := by
  intro key set hset
  obtain ⟨hvalues, hlast⟩ := h key set hset
  refine ⟨fun entry hmem hkey hlive => hvalues entry hmem hkey ?_, fun hlive => hlast ?_⟩
  · have hlive : s.clock + wait < entry.eol.nanos := hlive
    omega
  · have hlive : s.clock + wait < set.time + cacheTtlNanos := hlive
    omega

/-- **a set that is not allowed** is not found, or something else is found for it -/
theorem not_right_of_set (hs : CacheKnown s) (h : s.exceeded = false → CacheKept s)
    (hnot : ¬ SetKept (.set wait key value) s) : ¬ CacheRight (s.afterSet wait key value) := by
  intro hright
  obtain ⟨hwithin, hbad⟩ := not_or.1 hnot
  have hwithin : (s.afterSet wait key value).exceeded = false := eq_false_of_ne_true hwithin
  have hbefore : s.exceeded = false := by
    have := (of_decide_eq_false hwithin)
    exact eq_false_of_ne_true fun he => this (.inl he)
  have hkept := h hbefore
  have hget := hright hwithin
  have hexpected (later : Nat) (hlater : (later : Int) < cacheTtlNanos) :
      (s.afterSet wait key value).expected (s.clock + wait + later) key = some value := by
    rw [expected_eq afterSet_latest_self, if_pos]
    dsimp only
    omega
  rcases not_and_or.1 hbad with hroom | hvalue
  · -- just before its end the value is not found
    obtain ⟨hfull, hnone⟩ := not_or.1 hroom
    have hlast := hget (cacheTtlNanos - 1).toNat key
    have hlater : (((cacheTtlNanos - 1).toNat : Nat) : Int) = cacheTtlNanos - 1 := by decide
    rw [show (s.afterSet wait key value).clock = s.clock + wait from rfl,
      hexpected _ (by omega)] at hlast
    obtain ⟨entry, hmem, hkey, hlive, -⟩ := routingCacheGet_eq_some hs.set hlast
    have hold : entry ∈ s.cache.data := by
      rcases mem_afterSet.1 hmem with hold | ⟨hroom, -⟩
      · exact hold
      · exact absurd hroom hfull
    obtain ⟨set, hset, hle⟩ := hs.known entry hold
    have hpast := hs.past set (latest_mem hset)
    exact hnone ⟨entry, hold, hkey, by omega⟩
  · -- at once an older value is found
    push Not at hvalue
    obtain ⟨entry, hmem, hkey, hlive, hne⟩ := hvalue
    have hnow := hget 0 key
    rw [show (s.afterSet wait key value).clock = s.clock + wait from rfl,
      hexpected 0 (by decide), Nat.cast_zero, add_zero] at hnow
    obtain ⟨set, hset, -⟩ := hs.known entry hmem
    rw [hkey] at hset
    have hvalues := (hkept key set hset).1
    cases hold : routingCacheGet (Timespec.ofNanos (s.clock + wait)) (some key) (some s.cache) with
    | none =>
      have := routingCacheGet_eq_none hs hold entry hmem hkey
      omega
    | some older =>
      rw [routingCacheGet_afterSet hold] at hnow
      obtain ⟨found, hfound, hfoundKey, hfoundLive, rfl⟩ := routingCacheGet_eq_some hs hold
      refine hne ?_
      rw [hvalues entry hmem hkey (by omega), ← hvalues found hfound hfoundKey (by omega)]
      exact Option.some.inj hnow

/-! ## runs -/

/-- **what the cache finds is what was set last**, along a run, exactly when every set is allowed -/
theorem cacheRight_iff (cachesize clock : Int) (ops : List CacheOp) :
    HoldsAlong cacheStep CacheRight ops (CacheRun.new cachesize clock) ↔
      Guarded cacheStep SetKept ops (CacheRun.new cachesize clock) := by
  refine holdsAlong_iff_guarded
    (I := fun s => CacheKnown s ∧ (s.exceeded = false → CacheKept s)) ?_ ?_ ?_ ?_
  · rintro s ⟨hs, h⟩ hwithin wait key
    exact hs.right (h hwithin) wait key
  · rintro op s ⟨hs, h⟩ hallowed
    cases op with
    | get wait key => exact ⟨_, rfl, hs.get, fun hwithin => (h hwithin).get⟩
    | set wait key value =>
      refine ⟨_, rfl, hs.set, fun hwithin => ?_⟩
      have hbefore : s.exceeded = false :=
        eq_false_of_ne_true fun he => of_decide_eq_false hwithin (.inl he)
      rcases hallowed with hexceeded | ⟨hroom, hsame⟩
      · exact absurd hexceeded (ne_true_of_eq_false hwithin)
      · exact (h hbefore).set hroom hsame
  · rintro op s s' ⟨hs, h⟩ hnot hstep
    cases op with
    | get wait key => exact absurd trivial hnot
    | set wait key value =>
      cases hstep
      exact not_right_of_set hs h hnot
  · refine ⟨⟨?_, ?_, ?_⟩, fun _ => ?_⟩
    · exact fun entry hmem => absurd hmem List.not_mem_nil
    · exact fun entry hmem => absurd hmem List.not_mem_nil
    · exact fun set hmem => absurd hmem List.not_mem_nil
    · exact fun key set hset => nomatch hset

/-- a value that is set again, and a place that is not given back -/
theorem not_cacheRight :
    ¬ HoldsAlong cacheStep CacheRight [.set 0 [107] [1], .set 1 [107] [2]] (CacheRun.new 2 0) ∧
      ¬ HoldsAlong cacheStep CacheRight [.set 0 [107] [1], .set 60000000000 [108] [2]]
        (CacheRun.new 1 0) := by
  rw [cacheRight_iff, cacheRight_iff]
  constructor
  · rintro ⟨-, h⟩
    obtain ⟨hset, -⟩ := h _ rfl
    revert hset
    decide
  · rintro ⟨-, h⟩
    obtain ⟨hset, -⟩ := h _ rfl
    revert hset
    decide

end

end Ipfs
