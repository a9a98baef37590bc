import Libipfs.Lib.Multimap

/-!
# Tables of LMDB

A table opened with `MDB_DUPSORT` is a sorted multimap of byte strings in the order of `memcmp`,
a prefix before what it is a prefix of.  A key has between 1 and 511 bytes, a value at most 511.

* `mdbPut`      `mdb_put` and `mdb_cursor_put`: the code they return, and the table;
* `mdbPut_of_not_fits`, …, `mdbPut_of_not_mem`   the four ways it ends.
-/

namespace Lmdb
open CSem

/-- the order of `memcmp` -/
instance memcmpOrder : LinearOrder UInt8 where
  le_refl := UInt8.le_refl
  le_trans := fun _ _ _ => UInt8.le_trans
  lt_iff_le_not_ge := fun a b => by
    rw [UInt8.lt_iff_toNat_lt, UInt8.le_iff_toNat_le, UInt8.le_iff_toNat_le]
    omega
  le_antisymm := fun _ _ => UInt8.le_antisymm
  le_total := UInt8.le_total
  toDecidableLE := inferInstance

abbrev MdbTable : Type := Multimap (List UInt8) (List UInt8)

def mdbKeyexist : Int := -30799
def mdbMapFull : Int := -30792
def mdbBadValsize : Int := -30781

def mdbMaxkeysize : Nat := 511

/-- sizes that a pair of the table may have -/
def Fits (key value : List UInt8) : Prop :=
  0 < key.length ∧ key.length ≤ mdbMaxkeysize ∧ value.length ≤ mdbMaxkeysize

instance (key value : List UInt8) : Decidable (Fits key value) :=
  inferInstanceAs (Decidable (_ ∧ _ ∧ _))

/-- `full` when the map has no page left; `nodupdata` is the flag `MDB_NODUPDATA` -/
def mdbPut (nodupdata full : Bool) (key value : List UInt8) (table : MdbTable) :
    Int × MdbTable :=
  if ¬ Fits key value then (mdbBadValsize, table)
  else if full then (mdbMapFull, table)
  else if value ∈ table.values key then (if nodupdata then mdbKeyexist else 0, table)
  else (0, table.insert key value)

section
variable {nodupdata full : Bool} {key value : List UInt8} {table : MdbTable}

theorem mdbPut_of_not_fits (h : ¬ Fits key value) :
    mdbPut nodupdata full key value table = (mdbBadValsize, table) := if_pos h

theorem mdbPut_of_full (h : Fits key value) :
    mdbPut nodupdata true key value table = (mdbMapFull, table) := by
  unfold mdbPut
  rw [if_neg (not_not_intro h), if_pos rfl]

theorem mdbPut_of_mem (h : Fits key value) (hm : value ∈ table.values key) :
    mdbPut nodupdata false key value table = (if nodupdata then mdbKeyexist else 0, table) := by
  unfold mdbPut
  rw [if_neg (not_not_intro h), if_neg Bool.false_ne_true, if_pos hm]

theorem mdbPut_of_not_mem (h : Fits key value) (hm : value ∉ table.values key) :
    mdbPut nodupdata false key value table = (0, table.insert key value) := by
  unfold mdbPut
  rw [if_neg (not_not_intro h), if_neg Bool.false_ne_true, if_neg hm]

/-- without the flag a pair that is there already is put once more, to no effect -/
theorem mdbPut_of_room (h : Fits key value) :
    mdbPut false false key value table = (0, table.insert key value) := by
  by_cases hm : value ∈ table.values key
  · rw [mdbPut_of_mem h hm, Multimap.insert_of_mem hm]
    rfl
  · exact mdbPut_of_not_mem h hm

theorem mdbPut_eq_mapFull :
    (mdbPut nodupdata full key value table).1 = mdbMapFull ↔ Fits key value ∧ full = true := by
  have hbad : mdbBadValsize ≠ mdbMapFull := by decide
  have hexist : mdbKeyexist ≠ mdbMapFull := by decide
  have hzero : (0 : Int) ≠ mdbMapFull := by decide
  unfold mdbPut
  cases full <;> split_ifs <;> simp_all

theorem mdbPut_eq_zero :
    (mdbPut false full key value table).1 = 0 ↔ Fits key value ∧ full = false := by
  have hbad : mdbBadValsize ≠ 0 := by decide
  have hfull : mdbMapFull ≠ 0 := by decide
  unfold mdbPut
  cases full <;> split_ifs <;> simp_all

end

end Lmdb
