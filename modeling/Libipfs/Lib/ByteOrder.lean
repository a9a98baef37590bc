import Mathlib.Data.Nat.Digits.Defs
import Mathlib.Tactic.Ring

/-!
# Integers in memory and on the wire

A host keeps an `n`-byte integer lowest byte first or highest byte first; the network has the
highest first.

* `leBytes n v`         the `n` low bytes of `v`, the lowest first;
* `store`, `load`       an integer as a host writes it to memory and reads it back;
* `toNetwork`           `htons` and `htonl`, and `ntohs` and `ntohl`, which compute the same;
* `store_toNetwork`     **what a host stores after the conversion does not depend on the host**;
* `toNetwork_load`      **another host gets the integer back by converting what it loads**.
-/

namespace CSem

/-- the order in which a host keeps the bytes of an integer -/
inductive ByteOrder where
  | little
  | big
  deriving DecidableEq, Repr

def leBytes : Nat → Nat → List UInt8
  | 0, _ => []
  | n + 1, v => UInt8.ofNat v :: leBytes n (v / 256)

def ofLeBytes (bs : List UInt8) : Nat := Nat.ofDigits 256 (bs.map UInt8.toNat)

@[simp] theorem leBytes_zero (v : Nat) : leBytes 0 v = [] := rfl
@[simp] theorem leBytes_succ (n v : Nat) :
    leBytes (n + 1) v = UInt8.ofNat v :: leBytes n (v / 256) := rfl

@[simp] theorem ofLeBytes_nil : ofLeBytes [] = 0 := rfl
@[simp] theorem ofLeBytes_cons (b : UInt8) (bs : List UInt8) :
    ofLeBytes (b :: bs) = b.toNat + 256 * ofLeBytes bs := by
  show Nat.ofDigits 256 (b.toNat :: bs.map UInt8.toNat) = _
  rw [Nat.ofDigits_cons]
  rfl

@[simp] theorem length_leBytes (n v : Nat) : (leBytes n v).length = n := by
  induction n generalizing v with
  | zero => rfl
  | succ n ih => rw [leBytes_succ, List.length_cons, ih]

theorem ofLeBytes_lt (bs : List UInt8) : ofLeBytes bs < 256 ^ bs.length := by
  have h : ∀ x ∈ bs.map UInt8.toNat, x < 256 := by
    intro x hx
    obtain ⟨b, -, rfl⟩ := List.mem_map.1 hx
    exact b.toNat_lt
  have hlt := Nat.ofDigits_lt_base_pow_length (by norm_num) h
  rwa [List.length_map] at hlt

theorem ofLeBytes_leBytes {n v : Nat} (h : v < 256 ^ n) : ofLeBytes (leBytes n v) = v := by
  induction n generalizing v with
  | zero =>
    have hv : v = 0 := by
      rw [pow_zero] at h
      omega
    rw [hv]
    rfl
  | succ n ih =>
    have hdiv : v / 256 < 256 ^ n := by
      rw [pow_succ] at h
      omega
    have hlow : (UInt8.ofNat v).toNat = v % 256 := UInt8.toNat_ofNat'
    rw [leBytes_succ, ofLeBytes_cons, ih hdiv, hlow]
    omega

theorem leBytes_ofLeBytes (bs : List UInt8) : leBytes bs.length (ofLeBytes bs) = bs := by
  induction bs with
  | nil => rfl
  | cons b bs ih =>
    have hb : b.toNat < 256 := b.toNat_lt
    have hlow : UInt8.ofNat (b.toNat + 256 * ofLeBytes bs) = b := by
      apply UInt8.toNat_inj.1
      rw [UInt8.toNat_ofNat']
      omega
    have hhigh : (b.toNat + 256 * ofLeBytes bs) / 256 = ofLeBytes bs := by omega
    rw [List.length_cons, ofLeBytes_cons, leBytes_succ, hlow, hhigh, ih]

/-! ## a host's memory -/

section
variable {n v : Nat} (host : ByteOrder)

def store (n v : Nat) : List UInt8 :=
  match host with
  | .little => leBytes n v
  | .big => (leBytes n v).reverse

def load (bs : List UInt8) : Nat :=
  match host with
  | .little => ofLeBytes bs
  | .big => ofLeBytes bs.reverse

/-- the integer whose bytes in the host's memory are those of `v` in network order -/
def toNetwork (n v : Nat) : Nat :=
  match host with
  | .little => ofLeBytes (leBytes n v).reverse
  | .big => v

@[simp] theorem length_store : (store host n v).length = n := by
  cases host with
  | little => exact length_leBytes n v
  | big => rw [store, List.length_reverse, length_leBytes]

theorem load_lt (bs : List UInt8) : load host bs < 256 ^ bs.length := by
  cases host with
  | little => exact ofLeBytes_lt bs
  | big =>
    have hlt := ofLeBytes_lt bs.reverse
    rwa [List.length_reverse] at hlt

theorem toNetwork_lt (h : v < 256 ^ n) : toNetwork host n v < 256 ^ n := by
  cases host with
  | little =>
    have hlt := ofLeBytes_lt (leBytes n v).reverse
    rwa [List.length_reverse, length_leBytes] at hlt
  | big => exact h

theorem toNetwork_toNetwork (h : v < 256 ^ n) : toNetwork host n (toNetwork host n v) = v := by
  cases host with
  | little =>
    have hbytes := leBytes_ofLeBytes (leBytes n v).reverse
    rw [List.length_reverse, length_leBytes] at hbytes
    show ofLeBytes (leBytes n (ofLeBytes (leBytes n v).reverse)).reverse = v
    rw [hbytes, List.reverse_reverse, ofLeBytes_leBytes h]
  | big => rfl

/-- **what is stored after the conversion is the same on every host** -/
theorem store_toNetwork (n v : Nat) :
    store host n (toNetwork host n v) = (leBytes n v).reverse := by
  cases host with
  | little =>
    have hbytes := leBytes_ofLeBytes (leBytes n v).reverse
    rwa [List.length_reverse, length_leBytes] at hbytes
  | big => rfl

/-- **a host that converts what it loads has the integer that was meant** -/
theorem toNetwork_load (h : v < 256 ^ n) :
    toNetwork host n (load host (leBytes n v).reverse) = v := by
  cases host with
  | little => exact toNetwork_toNetwork .little h
  | big =>
    show ofLeBytes (leBytes n v).reverse.reverse = v
    rw [List.reverse_reverse, ofLeBytes_leBytes h]

/-- an integer stored as it is reaches a host that converts with its bytes in the other order -/
theorem toNetwork_load_store (receiver : ByteOrder) (h : v < 256 ^ n) :
    toNetwork receiver n (load receiver (store host n v)) = toNetwork host n v := by
  cases host with
  | little =>
    have hbytes : store .little n v = (leBytes n (toNetwork .little n v)).reverse := by
      show leBytes n v = (store .little n (toNetwork .little n v)).reverse
      rw [store_toNetwork, List.reverse_reverse]
    rw [hbytes, toNetwork_load receiver (toNetwork_lt .little h)]
  | big => exact toNetwork_load receiver h

end

end CSem
