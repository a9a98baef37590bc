import Libipfs.Lib.Exec

/-!
# Regions of memory

What `malloc` and `realloc` hand out, with the copies into it and out of it.  What has not been
written yet reads as zero.

* `Region.malloc`, `Region.realloc`   a region of so many bytes, as long as there are so many;
* `Region.load`, `Region.store`       `memcpy` out of a region, and into it;
* `Region.store_malloc`               a new region that is filled;
* `Region.store_realloc`              a region that is grown and filled up.
-/

namespace CSem

/-- the length is the size it was allocated with -/
abbrev Region : Type := List UInt8

def Region.malloc (n : Nat) : Option Region :=
  if n ≤ ptrdiffMax then some (List.replicate n 0) else none

def Region.realloc (r : Region) (n : Nat) : Option Region :=
  if n ≤ ptrdiffMax then some (r.take n ++ List.replicate (n - r.length) 0) else none

def Region.load (r : Region) (off n : Nat) : Exec (List UInt8) := do
  require .outOfBounds (off + n ≤ r.length)
  .ok ((r.drop off).take n)

def Region.store (r : Region) (off : Nat) (bytes : List UInt8) : Exec Region := do
  require .outOfBounds (off + bytes.length ≤ r.length)
  .ok (r.take off ++ bytes ++ r.drop (off + bytes.length))

section
variable {r r' : Region} {off n : Nat} {bytes out : List UInt8}

theorem Region.malloc_pos (h : n ≤ ptrdiffMax) : Region.malloc n = some (List.replicate n 0) :=
  if_pos h

theorem Region.realloc_pos (h : n ≤ ptrdiffMax) :
    r.realloc n = some (r.take n ++ List.replicate (n - r.length) 0) := if_pos h

theorem Region.realloc_neg (h : ¬ n ≤ ptrdiffMax) : r.realloc n = none := if_neg h

theorem Region.load_pos (h : off + n ≤ r.length) : r.load off n = .ok ((r.drop off).take n) := by
  unfold Region.load
  rw [require_pos h]
  rfl

theorem Region.store_eq_ok : r.store off bytes = .ok r' ↔
    off + bytes.length ≤ r.length ∧ r.take off ++ bytes ++ r.drop (off + bytes.length) = r' := by
  unfold Region.store
  rw [require_bind_eq_ok, Except.ok.injEq]

theorem Region.store_pos (h : off + bytes.length ≤ r.length) :
    r.store off bytes = .ok (r.take off ++ bytes ++ r.drop (off + bytes.length)) :=
  Region.store_eq_ok.2 ⟨h, rfl⟩

theorem Region.length_store (h : r.store off bytes = .ok r') : r'.length = r.length := by
  obtain ⟨hle, rfl⟩ := Region.store_eq_ok.1 h
  rw [List.length_append, List.length_append, List.length_take, List.length_drop]
  omega

/-- up to a place inside what is stored -/
theorem Region.take_store {front back : List UInt8} (h : r.store off (front ++ back) = .ok r') :
    r'.take (off + front.length) = r.take off ++ front := by
  obtain ⟨hle, rfl⟩ := Region.store_eq_ok.1 h
  rw [List.length_append] at hle
  have hlen : (r.take off ++ front).length = off + front.length := by
    rw [List.length_append, List.length_take]
    omega
  rw [List.append_assoc, List.append_assoc, ← List.append_assoc, ← hlen]
  exact List.take_left

/-- behind what is stored -/
theorem Region.drop_store (h : r.store off bytes = .ok r') (k : Nat) :
    r'.drop (off + bytes.length + k) = r.drop (off + bytes.length + k) := by
  obtain ⟨hle, rfl⟩ := Region.store_eq_ok.1 h
  have hlen : (r.take off ++ bytes).length = off + bytes.length := by
    rw [List.length_append, List.length_take]
    omega
  rw [← List.drop_drop, ← hlen, List.drop_left, List.drop_drop]

/-- **a new region that is filled** -/
theorem Region.store_malloc (h : bytes.length = n) :
    Region.store (List.replicate n 0) 0 bytes = .ok bytes := by
  have hle : 0 + bytes.length ≤ (List.replicate n (0 : UInt8)).length := by
    rw [List.length_replicate, Nat.zero_add, h]
  rw [Region.store_pos hle, List.take_zero, List.nil_append,
    List.drop_of_length_le (by rw [List.length_replicate, Nat.zero_add, h]), List.append_nil]

/-- **a region that is grown and filled up** -/
theorem Region.store_realloc (r : Region) (bytes : List UInt8) :
    Region.store (r.take (r.length + bytes.length) ++
      List.replicate (r.length + bytes.length - r.length) 0) r.length bytes = .ok (r ++ bytes) := by
  have htake : r.take (r.length + bytes.length) = r := List.take_of_length_le (by omega)
  rw [htake, Nat.add_sub_cancel_left]
  have hle : r.length + bytes.length ≤ (r ++ List.replicate bytes.length (0 : UInt8)).length := by
    rw [List.length_append, List.length_replicate]
  have hdrop : (r ++ List.replicate bytes.length (0 : UInt8)).drop (r.length + bytes.length) = [] :=
    List.drop_of_length_le (by rw [List.length_append, List.length_replicate])
  rw [Region.store_pos hle, List.take_left, hdrop, List.append_nil]

end

end CSem
