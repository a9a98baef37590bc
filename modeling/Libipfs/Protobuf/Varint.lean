import Libipfs.Lib.Exec

/-!
# Varints

`varint_decode` reads base-128 groups, least significant first, until a byte without the high
bit.  It is told a length, and checks it only AFTER a continuation byte, by an `assert`: the
first byte is read whatever the length is, and nothing stops a varint of more than ten bytes,
whose groups are then shifted by 64 bits and more.

* `varintDecode`, `varintEncode`   the two loops, with the reads, writes, shifts and asserts
                                   that may fault;
* `varintLength`, `varintValue`    the number of bytes and the value of the varint at the
                                   beginning of a buffer;
* `varintDecode_eq_ok`             exactly when decoding succeeds, and with what result;
* `varintEncode_eq_ok`             exactly when encoding succeeds;
* `varintDecode_varintBytes`       decoding what was encoded.
-/

set_option linter.unusedVariables false

namespace Libp2p
open CSem

/-! ## the two loops -/

/-- the loop of `varint_decode`: `i` bytes are behind `ptr`, so `bits = 7 * i` -/
def varintDecodeFrom (len : Int) : Nat → Nat → List UInt8 → Exec (Nat × Nat)
  | _, _, [] => .error .outOfBounds
  | i, result, b :: bs => do
    require .shift (7 * i < 64)
    let result := (result + b.toNat % 128 * 2 ^ (7 * i)) % 2 ^ 64
    if b.toNat < 128 then
      .ok (result, i + 1)
    else do
      require .assertion (((i + 1 : Nat) : Int) < len)
      varintDecodeFrom len (i + 1) result bs

/-- the value and the number of bytes read -/
def varintDecode (len : Int) (buf : List UInt8) : Exec (Nat × Nat) :=
  varintDecodeFrom len 0 0 buf

/-- the loop of `varint_encode`, into a buffer of `room` bytes; ten passes shift out 64 bits -/
def varintEncodeFrom (room : Nat) : Nat → Nat → Nat → Exec (List UInt8)
  | 0, _, _ => .error .diverges
  | k + 1, i, copy => do
    require .overflow (i < room)
    if copy < 128 then
      .ok [UInt8.ofNat copy]
    else do
      require .assertion (((i + 1 : Nat) : Int) < toInt32 room)
      let rest ← varintEncodeFrom room k (i + 1) (copy / 128)
      .ok (UInt8.ofNat (copy % 128 + 128) :: rest)

def varintEncode (n room : Nat) : Exec (List UInt8) := varintEncodeFrom room 10 0 n

/-! ## the varint at the beginning of a buffer -/

/-- the bytes up to and including the first one without the high bit, if there is one -/
def varintLength : List UInt8 → Option Nat
  | [] => none
  | b :: bs => if b.toNat < 128 then some 1 else (varintLength bs).map (· + 1)

/-- the number a list of groups stands for -/
def varintValue : List UInt8 → Nat
  | [] => 0
  | b :: bs => b.toNat % 128 + 128 * varintValue bs

/-- the bytes `varint_encode` produces -/
def varintBytesFrom : Nat → Nat → List UInt8
  | 0, _ => []
  | k + 1, n =>
    if n < 128 then [UInt8.ofNat n]
    else UInt8.ofNat (n % 128 + 128) :: varintBytesFrom k (n / 128)

def varintBytes (n : Nat) : List UInt8 := varintBytesFrom 10 n

theorem varintLength_cons (b : UInt8) (bs : List UInt8) :
    varintLength (b :: bs) = if b.toNat < 128 then some 1 else (varintLength bs).map (· + 1) := rfl
@[simp] theorem varintValue_nil : varintValue [] = 0 := rfl
@[simp] theorem varintValue_cons (b : UInt8) (bs : List UInt8) :
    varintValue (b :: bs) = b.toNat % 128 + 128 * varintValue bs := rfl

theorem varintLength_pos {buf : List UInt8} {n : Nat} (h : varintLength buf = some n) :
    0 < n := by
  cases buf with
  | nil => cases h
  | cons b bs =>
    rw [varintLength_cons] at h
    split at h
    · cases h; exact Nat.one_pos
    · obtain ⟨m, -, rfl⟩ := Option.map_eq_some_iff.1 h
      exact Nat.succ_pos m

theorem varintLength_le {buf : List UInt8} {n : Nat} (h : varintLength buf = some n) :
    n ≤ buf.length := by
  induction buf generalizing n with
  | nil => cases h
  | cons b bs ih =>
    rw [varintLength_cons] at h
    split at h
    · cases h; simp
    · obtain ⟨m, hm, rfl⟩ := Option.map_eq_some_iff.1 h
      exact Nat.succ_le_succ (ih hm)

theorem varintLength_append {buf rest : List UInt8} {n : Nat} (h : varintLength buf = some n) :
    varintLength (buf ++ rest) = some n := by
  induction buf generalizing n with
  | nil => cases h
  | cons b bs ih =>
    rw [List.cons_append, varintLength_cons]
    rw [varintLength_cons] at h
    split at h
    · cases h; simp_all
    · obtain ⟨m, hm, rfl⟩ := Option.map_eq_some_iff.1 h
      rw [if_neg ‹_›, ih hm, Option.map_some]

/-! ## decoding -/

/-- the room a varint of `n` bytes needs in a buffer said to have `len` bytes: one byte is
never checked -/
def varintFits (n : Nat) (len : Int) : Prop := n = 1 ∨ (n : Int) ≤ len

instance (n : Nat) (len : Int) : Decidable (varintFits n len) :=
  inferInstanceAs (Decidable (_ ∨ _))

theorem varintFits_of_le {n : Nat} {len : Int} (h : (n : Int) ≤ len) : varintFits n len := .inr h

/-- the groups behind the first byte, seen from the accumulator -/
private theorem shift_group (acc b r i : Nat) :
    ((acc + b * 2 ^ (7 * i)) % 2 ^ 64 + 2 ^ (7 * (i + 1)) * r) % 2 ^ 64 =
      (acc + 2 ^ (7 * i) * (b + 128 * r)) % 2 ^ 64 := by
  rw [Nat.mod_add_mod]
  congr 1
  rw [show 7 * (i + 1) = 7 * i + 7 by ring, pow_add]
  ring

theorem varintDecodeFrom_eq_ok {len : Int} {buf : List UInt8} {i acc v n : Nat} :
    varintDecodeFrom len i acc buf = .ok (v, n) ↔
      ∃ m, varintLength buf = some m ∧ n = i + m ∧ n ≤ 10 ∧ (m = 1 ∨ (n : Int) ≤ len) ∧
        v = (acc + 2 ^ (7 * i) * varintValue (buf.take m)) % 2 ^ 64 := by
  induction buf generalizing i acc with
  | nil => simp [varintDecodeFrom, varintLength]
  | cons b bs ih =>
    rw [varintDecodeFrom, varintLength_cons, bind_eq_ok]
    by_cases hb : b.toNat < 128
    · -- the last byte
      simp only [require_eq_ok, if_pos hb, Except.ok.injEq, Prod.mk.injEq, exists_const]
      constructor
      · rintro ⟨hi, rfl, rfl⟩
        exact ⟨1, rfl, rfl, by omega, .inl rfl, by simp [Nat.mul_comm]⟩
      · rintro ⟨m, hm, rfl, hn, -, rfl⟩
        cases hm
        exact ⟨by omega, by simp [Nat.mul_comm], rfl⟩
    · -- a continuation byte: the assert, then the rest
      simp only [require_eq_ok, if_neg hb, exists_const, bind_eq_ok, ih]
      constructor
      · rintro ⟨hi, hlen, m, hm, rfl, hn, hr, rfl⟩
        refine ⟨m + 1, by rw [hm]; rfl, by omega, hn, .inr ?_, ?_⟩
        · rcases hr with rfl | hr
          · omega
          · exact hr
        · rw [List.take_succ_cons, varintValue_cons, shift_group]
      · rintro ⟨m', hm', rfl, hn, hr, rfl⟩
        obtain ⟨m, hm, rfl⟩ := Option.map_eq_some_iff.1 hm'
        have hpos := varintLength_pos hm
        have hr : ((i + (m + 1) : Nat) : Int) ≤ len := by
          rcases hr with hr | hr
          · omega
          · exact hr
        refine ⟨by omega, by omega, m, hm, by omega, hn, .inr (by omega), ?_⟩
        rw [List.take_succ_cons, varintValue_cons, shift_group]

/-- **decoding**: it succeeds when the varint ends inside the buffer, has at most ten bytes and
fits the length given, and the groups make up the result -/
theorem varintDecode_eq_ok {len : Int} {buf : List UInt8} {v n : Nat} :
    varintDecode len buf = .ok (v, n) ↔
      varintLength buf = some n ∧ n ≤ 10 ∧ varintFits n len ∧
        v = varintValue (buf.take n) % 2 ^ 64 := by
  unfold varintDecode varintFits
  rw [varintDecodeFrom_eq_ok]
  constructor
  · rintro ⟨m, hm, rfl, hn, hr, rfl⟩
    simp_all
  · rintro ⟨hm, hn, hr, rfl⟩
    exact ⟨n, hm, by simp, hn, hr, by simp⟩

theorem varintDecode_pos {len : Int} {buf : List UInt8} {v n : Nat}
    (h : varintDecode len buf = .ok (v, n)) : 0 < n :=
  varintLength_pos (varintDecode_eq_ok.1 h).1

theorem varintDecode_le {len : Int} {buf : List UInt8} {v n : Nat}
    (h : varintDecode len buf = .ok (v, n)) : n ≤ buf.length :=
  varintLength_le (varintDecode_eq_ok.1 h).1

/-! ## encoding -/

theorem varintBytesFrom_succ (k n : Nat) :
    varintBytesFrom (k + 1) n =
      if n < 128 then [UInt8.ofNat n]
      else UInt8.ofNat (n % 128 + 128) :: varintBytesFrom k (n / 128) := rfl

theorem varintBytesFrom_length_le (k n : Nat) : (varintBytesFrom k n).length ≤ k := by
  induction k generalizing n with
  | zero => rfl
  | succ k ih =>
    rw [varintBytesFrom_succ]
    split
    · simp
    · simpa using ih (n / 128)

theorem varintBytes_length_le (n : Nat) : (varintBytes n).length ≤ 10 :=
  varintBytesFrom_length_le 10 n

/-- a number of at most `j + 1` groups of seven bits -/
theorem varintBytesFrom_length_le_of_lt {k n j : Nat} (h : n < 128 ^ (j + 1)) :
    (varintBytesFrom k n).length ≤ j + 1 := by
  induction j generalizing k n with
  | zero =>
    cases k with
    | zero => exact Nat.zero_le _
    | succ k =>
      rw [varintBytesFrom_succ, if_pos (by omega)]
      simp
  | succ j ih =>
    cases k with
    | zero => exact Nat.zero_le _
    | succ k =>
      rw [varintBytesFrom_succ]
      split
      · simp
      · have hdiv : n / 128 < 128 ^ (j + 1) := by
          rw [Nat.div_lt_iff_lt_mul (by norm_num)]
          rwa [pow_succ] at h
        rw [List.length_cons]
        exact Nat.succ_le_succ (ih hdiv)

theorem varintBytes_length_le_of_lt {n j : Nat} (h : n < 128 ^ (j + 1)) :
    (varintBytes n).length ≤ j + 1 :=
  varintBytesFrom_length_le_of_lt h

theorem varintBytes_length_pos (n : Nat) : 0 < (varintBytes n).length := by
  rw [varintBytes, varintBytesFrom_succ]
  split <;> simp

/-- the write of byte `i`, and the assert behind it when another byte follows -/
def varintRoom (i m room : Nat) : Prop :=
  i + m ≤ room ∧ (m = 1 ∨ ((i + m : Nat) : Int) ≤ toInt32 room)

private theorem varintBytesFrom_length_pos {k n : Nat} (h : n < 128 ^ (k + 1)) :
    0 < (varintBytesFrom (k + 1) n).length := by
  rw [varintBytesFrom_succ]
  split <;> simp

theorem varintEncodeFrom_eq_ok {room k i n : Nat} {out : List UInt8} (h : n < 128 ^ k) (hk : 0 < k) :
    varintEncodeFrom room k i n = .ok out ↔
      out = varintBytesFrom k n ∧ varintRoom i (varintBytesFrom k n).length room := by
  induction k generalizing i n out with
  | zero => omega
  | succ k ih =>
    unfold varintRoom
    rw [varintEncodeFrom, varintBytesFrom_succ, bind_eq_ok]
    by_cases hn : n < 128
    · simp only [require_eq_ok, if_pos hn, exists_const, Except.ok.injEq, List.length_singleton]
      constructor
      · rintro ⟨hi, rfl⟩
        exact ⟨rfl, by omega, .inl trivial⟩
      · rintro ⟨rfl, hi, -⟩
        exact ⟨by omega, rfl⟩
    · have hk' : 0 < k := by
        rcases Nat.eq_zero_or_pos k with rfl | hk'
        · simp at h; omega
        · exact hk'
      have h' : n / 128 < 128 ^ k := by
        rw [pow_succ] at h
        exact Nat.div_lt_of_lt_mul (by rwa [Nat.mul_comm] at h)
      obtain ⟨k, rfl⟩ : ∃ j, k = j + 1 := ⟨k - 1, by omega⟩
      have hpos := varintBytesFrom_length_pos h'
      simp only [require_eq_ok, if_neg hn, exists_const, bind_eq_ok, Except.ok.injEq, ih h' hk',
        List.length_cons]
      unfold varintRoom
      constructor
      · rintro ⟨hi, hr, rest, ⟨rfl, h1, h2⟩, rfl⟩
        refine ⟨rfl, by omega, .inr ?_⟩
        rcases h2 with h2 | h2 <;> omega
      · rintro ⟨rfl, h1, h2⟩
        have h2 : ((i + ((varintBytesFrom (k + 1) (n / 128)).length + 1) : Nat) : Int)
            ≤ toInt32 room := by
          rcases h2 with h2 | h2
          · omega
          · exact h2
        exact ⟨by omega, by omega, _, ⟨rfl, by omega, .inr (by omega)⟩, rfl⟩

theorem varintEncodeFrom_ok_lt {room k i n : Nat} {out : List UInt8}
    (h : varintEncodeFrom room k i n = .ok out) : n < 128 ^ k := by
  induction k generalizing i n out with
  | zero => cases h
  | succ k ih =>
    rw [varintEncodeFrom] at h
    have h := (require_bind_eq_ok.1 h).2
    by_cases hn : n < 128
    · exact lt_of_lt_of_le hn (Nat.le_self_pow (Nat.succ_ne_zero k) 128)
    · rw [if_neg hn] at h
      obtain ⟨rest, hrest, -⟩ := bind_eq_ok.1 (require_bind_eq_ok.1 h).2
      have := ih hrest
      rw [pow_succ]
      omega

private theorem lt_ten_groups {n : Nat} (h : n < 2 ^ 64) : n < 128 ^ 10 :=
  lt_trans h (by norm_num)

/-- **encoding**: the bytes always are those of `varintBytes`; a number of one byte needs room
for it, a longer one needs it also in the length as an `int` -/
theorem varintEncode_eq_ok {n room : Nat} {out : List UInt8} (h : n < 2 ^ 64) :
    varintEncode n room = .ok out ↔
      out = varintBytes n ∧ varintRoom 0 (varintBytes n).length room :=
  varintEncodeFrom_eq_ok (lt_ten_groups h) (by norm_num)

/-- whatever `varint_encode` wrote is the varint, and it had room -/
theorem varintEncode_ok {n room : Nat} {out : List UInt8} (h : varintEncode n room = .ok out) :
    out = varintBytes n ∧ out.length ≤ room := by
  obtain ⟨rfl, hroom, -⟩ :=
    (varintEncodeFrom_eq_ok (varintEncodeFrom_ok_lt h) (by norm_num)).1 h
  exact ⟨rfl, by simpa using hroom⟩

theorem varintEncode_of_le {n room : Nat} (h : n < 2 ^ 64) (hroom : (varintBytes n).length ≤ room)
    (hint : room < 2 ^ 31) : varintEncode n room = .ok (varintBytes n) := by
  refine (varintEncode_eq_ok h).2 ⟨rfl, by omega, .inr ?_⟩
  rw [toInt32_natCast_of_lt hint]
  omega

/-! ## decoding what was encoded -/

theorem varintLength_varintBytesFrom {k n : Nat} (h : n < 128 ^ k) (hk : 0 < k) :
    varintLength (varintBytesFrom k n) = some (varintBytesFrom k n).length := by
  induction k generalizing n with
  | zero => omega
  | succ k ih =>
    rw [varintBytesFrom_succ]
    by_cases hn : n < 128
    · rw [if_pos hn, varintLength_cons, UInt8.toNat_ofNat']
      rw [if_pos (by omega), List.length_singleton]
    · have hk' : 0 < k := by
        rcases Nat.eq_zero_or_pos k with rfl | hk'
        · simp at h; omega
        · exact hk'
      have h' : n / 128 < 128 ^ k := by
        rw [pow_succ] at h
        exact Nat.div_lt_of_lt_mul (by rwa [Nat.mul_comm] at h)
      rw [if_neg hn, varintLength_cons, UInt8.toNat_ofNat', if_neg (by omega), ih h' hk']
      rfl

theorem varintValue_varintBytesFrom {k n : Nat} (h : n < 128 ^ k) :
    varintValue (varintBytesFrom k n) = n := by
  induction k generalizing n with
  | zero => simp at h; simp [varintBytesFrom, h]
  | succ k ih =>
    rw [varintBytesFrom_succ]
    by_cases hn : n < 128
    · rw [if_pos hn, varintValue_cons, UInt8.toNat_ofNat', varintValue_nil]
      omega
    · have h' : n / 128 < 128 ^ k := by
        rw [pow_succ] at h
        exact Nat.div_lt_of_lt_mul (by rwa [Nat.mul_comm] at h)
      rw [if_neg hn, varintValue_cons, UInt8.toNat_ofNat', ih h']
      omega

theorem varintValue_lt (bs : List UInt8) : varintValue bs < 128 ^ bs.length := by
  induction bs with
  | nil => exact Nat.one_pos
  | cons b bs ih =>
    have hb : b.toNat % 128 < 128 := Nat.mod_lt _ (by norm_num)
    rw [varintValue_cons, List.length_cons, pow_succ]
    omega

/-- **a short buffer**: the numbers it takes are those of as many groups of seven bits -/
theorem varintEncode_eq_ok_of_short {n room : Nat} {out : List UInt8} (hpos : 0 < room)
    (hroom : room ≤ 9) : varintEncode n room = .ok out ↔ n < 128 ^ room ∧ out = varintBytes n := by
  constructor
  · intro h
    have hn : n < 128 ^ 10 := varintEncodeFrom_ok_lt h
    obtain ⟨rfl, hlen⟩ := varintEncode_ok h
    have hlt := varintValue_lt (varintBytes n)
    rw [varintBytes, varintValue_varintBytesFrom hn] at hlt
    exact ⟨lt_of_lt_of_le hlt (Nat.pow_le_pow_right (by norm_num) hlen), rfl⟩
  · rintro ⟨hn, rfl⟩
    obtain ⟨j, rfl⟩ : ∃ j, room = j + 1 := ⟨room - 1, by omega⟩
    have h64 : n < 2 ^ 64 :=
      calc n < 128 ^ (j + 1) := hn
        _ ≤ 128 ^ 9 := Nat.pow_le_pow_right (by norm_num) hroom
        _ ≤ 2 ^ 64 := by norm_num
    exact varintEncode_of_le h64 (varintBytes_length_le_of_lt hn) (by omega)

/-- **round trip**: what `varint_encode` wrote is read back, when it fits the length given -/
theorem varintDecode_varintBytes {len : Int} {n : Nat} {rest : List UInt8} (h : n < 2 ^ 64)
    (hfit : varintFits (varintBytes n).length len) :
    varintDecode len (varintBytes n ++ rest) = .ok (n, (varintBytes n).length) := by
  refine varintDecode_eq_ok.2 ⟨?_, varintBytes_length_le n, hfit, ?_⟩
  · exact varintLength_append (varintLength_varintBytesFrom (lt_ten_groups h) (by norm_num))
  · rw [List.take_left, varintBytes, varintValue_varintBytesFrom (lt_ten_groups h),
      Nat.mod_eq_of_lt h]

/-- and nothing else is ever read back -/
theorem varintDecode_varintBytes_eq {len : Int} {n v m : Nat} {rest : List UInt8} (h : n < 2 ^ 64)
    (hd : varintDecode len (varintBytes n ++ rest) = .ok (v, m)) :
    v = n ∧ m = (varintBytes n).length := by
  have hl : varintLength (varintBytes n ++ rest) = some (varintBytes n).length :=
    varintLength_append (varintLength_varintBytesFrom (lt_ten_groups h) (by norm_num))
  obtain ⟨h1, -, hfit, -⟩ := varintDecode_eq_ok.1 hd
  obtain rfl : (varintBytes n).length = m := Option.some.inj (hl.symm.trans h1)
  rw [varintDecode_varintBytes h hfit] at hd
  cases hd
  exact ⟨rfl, rfl⟩

/-- a varint in front is read iff it fits the length given -/
theorem safe_varintDecode_varintBytes {len : Int} {n : Nat} {rest : List UInt8} (h : n < 2 ^ 64) :
    Safe (varintDecode len (varintBytes n ++ rest)) ↔ varintFits (varintBytes n).length len := by
  constructor
  · rintro ⟨⟨v, m⟩, hd⟩
    obtain ⟨-, rfl⟩ := varintDecode_varintBytes_eq h hd
    exact (varintDecode_eq_ok.1 hd).2.2.1
  · intro hfit
    exact ⟨_, varintDecode_varintBytes h hfit⟩

end Libp2p
