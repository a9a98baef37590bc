import Libipfs.Crypto.Base16
import Libipfs.Namesys.Namesys

/-!
# Hexadecimal names

A multihash is written as a hexadecimal string behind a prefix and read from one.  The writer asks
for two characters for each byte and writes a zero byte behind them; the reader takes a step of two
characters for each character of the string, and never says how many bytes it has read.

* `namesysBytesToHexString`, `namesysHexStringToBytes`   the two functions;
* `hexStringFrom_eq_ok`   what is written, and the room it takes;
* `of_hexStringToBytes`   a string that is read has two characters at most;
* `hexRoundTrips_iff`     **the round trip** holds for one byte, where the length was 1 before.
-/

namespace Ipfs
open CSem Libp2p

/-! ## the two functions -/

def errInvalidParam : Int := 19

/-- `sprintf` of each byte, with the zero byte behind its two digits -/
def hexStringFrom : Nat → List UInt8 → Region → Exec Region
  | _, [], buffer => .ok buffer
  | i, b :: bytes, buffer => do
    let buffer ← buffer.store (i * 2) (hexByte b ++ [0])
    hexStringFrom (i + 1) bytes buffer

/-- the error and the buffer -/
def namesysBytesToHexString (bytes : List UInt8) (buffer : Region) : Exec (Int × Region) :=
  if toUInt64 (bytes.length * 2 : Nat) > buffer.length then .ok (errInvalidParam, buffer)
  else do
    let buffer ← hexStringFrom 0 bytes buffer
    .ok (0, buffer)

/-- `sscanf` with `%2hhx` at a place of the string: spaces, and two characters of a number; nothing
is stored where there is none -/
def scanHexAt (hex : List UInt8) (pos : Nat) : Exec (Option UInt8) := do
  require .outOfBounds (pos ≤ hex.length)
  let item := ((hex.drop pos).dropWhile isSpace).take 2
  let (value, length) ← strtol 16 (item ++ [0])
  .ok (if length = 0 then none else some (UInt8.ofNat (value % 256).toNat))

/-- so many passes of the loop, from the one with the number `i` on -/
def hexBytesFrom (hex : List UInt8) : Nat → Nat → Region → Exec Region
  | 0, _, ptr => .ok ptr
  | passes + 1, i, ptr => do
    match ← scanHexAt hex (i * 2) with
    | none => hexBytesFrom hex passes (i + 1) ptr
    | some b => do
      let ptr ← ptr.store i [b]
      hexBytesFrom hex passes (i + 1) ptr

/-- the error, the buffer and its length, which is handed in and never written; the string ends at
the first zero byte of its memory -/
def namesysHexStringToBytes (memory : Region) (bufferLength : Nat) :
    Exec (Int × Option Region × Nat) := do
  require .outOfBounds (0 ∈ memory)
  let hex := cstr memory 0
  if hex.length % 2 ≠ 0 then .ok (errInvalidParam, none, bufferLength)
  else
    match Region.malloc (hex.length / 2) with
    | none => .ok (errAllocFailed, none, bufferLength)
    | some ptr => do
      -- the bound is the length of the string, not that of the buffer
      let ptr ← hexBytesFrom hex hex.length 0 ptr
      .ok (0, some ptr, bufferLength)

/-- an error is reported, or what is written stays inside the buffer and is read as the bytes and
their number -/
def HexRoundTrips (bytes : List UInt8) (buffer : Region) (bufferLength : Nat) : Prop :=
  ∃ err text, namesysBytesToHexString bytes buffer = .ok (err, text) ∧
    (err = 0 → namesysHexStringToBytes text bufferLength = .ok (0, some bytes, bytes.length))

/-! ## writing -/

section
variable {bytes : List UInt8} {buffer out : Region} {i : Nat} {b : UInt8}

theorem varToHex_cons (b : UInt8) (bytes : List UInt8) :
    varToHex (b :: bytes) = hexByte b ++ varToHex bytes := List.flatMap_cons

theorem length_hexByte (b : UInt8) : (hexByte b).length = 2 := rfl

/-- **what is written**: the digits and one zero byte, for which there has to be room -/
theorem hexStringFrom_eq_ok (hne : bytes ≠ []) :
    hexStringFrom i bytes buffer = .ok out ↔
      (i + bytes.length) * 2 + 1 ≤ buffer.length ∧
        out = buffer.take (i * 2) ++ (varToHex bytes ++
          0 :: buffer.drop ((i + bytes.length) * 2 + 1)) := by
  induction bytes generalizing i buffer with
  | nil => exact absurd rfl hne
  | cons b bytes ih =>
    have hdigits : (hexByte b ++ [0]).length = 3 := rfl
    rw [hexStringFrom, bind_eq_ok, List.length_cons, varToHex_cons]
    cases bytes with
    | nil =>
      have hend : (i + (0 + 1)) * 2 + 1 = i * 2 + 3 := by omega
      have hdone : varToHex [] = [] := rfl
      rw [List.length_nil, hend, hdone, List.append_nil]
      constructor
      · rintro ⟨next, hnext, h⟩
        cases h
        obtain ⟨hroom, rfl⟩ := Region.store_eq_ok.1 hnext
        refine ⟨hroom, ?_⟩
        rw [hdigits, List.append_assoc, List.append_assoc]
        rfl
      · rintro ⟨hroom, rfl⟩
        refine ⟨_, Region.store_pos hroom, ?_⟩
        rw [hexStringFrom, hdigits, List.append_assoc, List.append_assoc]
        rfl
    | cons c bytes =>
      -- the next digits go over the zero byte
      have hstep : ∀ next : Region, buffer.store (i * 2) (hexByte b ++ [0]) = .ok next →
          next.length = buffer.length ∧ next.take ((i + 1) * 2) = buffer.take (i * 2) ++ hexByte b ∧
          ∀ k, next.drop (i * 2 + 3 + k) = buffer.drop (i * 2 + 3 + k) := by
        intro next hnext
        refine ⟨Region.length_store hnext, ?_, fun k => Region.drop_store hnext k⟩
        rw [show (i + 1) * 2 = i * 2 + (hexByte b).length by rw [length_hexByte]; omega]
        exact Region.take_store hnext
      have hlast : ∀ n, (i + 1 + (n + 1)) * 2 + 1 = i * 2 + 3 + (n * 2 + 2) := fun n => by omega
      have hcount : i + ((c :: bytes).length + 1) = i + 1 + (c :: bytes).length := by omega
      rw [hcount]
      constructor
      · rintro ⟨next, hnext, h⟩
        obtain ⟨hlen, htake, hdrop⟩ := hstep next hnext
        obtain ⟨hroom, rfl⟩ := (ih (List.cons_ne_nil _ _)).1 h
        refine ⟨hlen ▸ hroom, ?_⟩
        rw [htake, List.length_cons, hlast, hdrop, List.append_assoc, List.append_assoc]
      · rintro ⟨hroom, rfl⟩
        have hfits : i * 2 + (hexByte b ++ [0]).length ≤ buffer.length := by
          rw [hdigits]
          rw [List.length_cons] at hroom
          omega
        have hnext := Region.store_pos hfits
        obtain ⟨hlen, htake, hdrop⟩ := hstep _ hnext
        refine ⟨_, hnext, (ih (List.cons_ne_nil _ _)).2 ⟨hlen.symm ▸ hroom, ?_⟩⟩
        rw [htake, List.length_cons, hlast, hdrop, List.append_assoc, List.append_assoc]

/-- the string that was written into a buffer -/
theorem cstr_of_hexStringFrom (hne : bytes ≠ []) (h : hexStringFrom 0 bytes buffer = .ok out) :
    0 ∈ out ∧ cstr out 0 = varToHex bytes := by
  obtain ⟨-, rfl⟩ := (hexStringFrom_eq_ok hne).1 h
  have h0 : 0 ∉ varToHex bytes := not_mem_of_spells (spells_varToHex bytes)
  rw [Nat.zero_mul, List.take_zero, List.nil_append]
  exact ⟨List.mem_append_right _ List.mem_cons_self, cstr_append h0 [] _⟩

end

/-! ## reading -/

section
variable {hex : List UInt8} {memory ptr ptr' : Region} {passes i bufferLength n : Nat}

/-- each pass begins inside the string -/
theorem le_length_of_hexBytesFrom (h : hexBytesFrom hex passes i ptr = .ok ptr') :
    ∀ j < passes, (i + j) * 2 ≤ hex.length := by
  induction passes generalizing i ptr with
  | zero => exact fun j hj => absurd hj (Nat.not_lt_zero j)
  | succ passes ih =>
    rw [hexBytesFrom] at h
    obtain ⟨byte, hbyte, h⟩ := bind_eq_ok.1 h
    have hfirst : i * 2 ≤ hex.length := (require_bind_eq_ok.1 hbyte).1
    have hrest : ∀ j < passes, (i + 1 + j) * 2 ≤ hex.length := by
      cases byte with
      | none => exact ih h
      | some b =>
        obtain ⟨next, -, h⟩ := bind_eq_ok.1 h
        exact ih h
    intro j hj
    cases j with
    | zero => exact hfirst
    | succ j =>
      have hlater := hrest j (Nat.lt_of_succ_lt_succ hj)
      omega

/-- an empty string begins with its zero byte -/
theorem head_of_cstr (h0 : 0 ∈ memory) (h : cstr memory 0 = []) : memory.head? = some 0 := by
  cases memory with
  | nil => cases h0
  | cons b memory =>
    by_cases hb : b = 0
    · rw [hb]
      rfl
    · have hcons : cstr (b :: memory) 0 = b :: cstr memory 0 :=
        List.takeWhile_cons_of_pos (decide_eq_true hb)
      rw [hcons] at h
      cases h

/-- the buffer keeps its length -/
theorem length_of_hexBytesFrom (h : hexBytesFrom hex passes i ptr = .ok ptr') :
    ptr'.length = ptr.length := by
  induction passes generalizing i ptr with
  | zero =>
    cases h
    rfl
  | succ passes ih =>
    rw [hexBytesFrom] at h
    obtain ⟨byte, hbyte, h⟩ := bind_eq_ok.1 h
    cases byte with
    | none => exact ih h
    | some b =>
      obtain ⟨next, hnext, h⟩ := bind_eq_ok.1 h
      exact (ih h).trans (Region.length_store hnext)

/-- **a string that is read** has two characters at most, the buffer half as many, and the length is
the one from before -/
theorem of_hexStringToBytes
    (h : namesysHexStringToBytes memory bufferLength = .ok (0, some ptr, n)) :
    0 ∈ memory ∧ (cstr memory 0).length ≤ 2 ∧ (cstr memory 0).length = ptr.length * 2 ∧
      n = bufferLength := by
  unfold namesysHexStringToBytes at h
  obtain ⟨h0, h⟩ := require_bind_eq_ok.1 h
  dsimp only at h
  by_cases hodd : (cstr memory 0).length % 2 ≠ 0
  · rw [if_pos hodd] at h
    cases h
  · rw [if_neg hodd] at h
    cases hmalloc : Region.malloc ((cstr memory 0).length / 2) with
    | none =>
      rw [hmalloc] at h
      cases h
    | some room =>
      rw [hmalloc] at h
      obtain ⟨ptr', hptr, h⟩ := bind_eq_ok.1 h
      cases h
      have hhalf : room.length = (cstr memory 0).length / 2 := by
        unfold Region.malloc at hmalloc
        split at hmalloc
        · cases hmalloc
          exact List.length_replicate
        · cases hmalloc
      have hlen := length_of_hexBytesFrom hptr
      refine ⟨h0, ?_, by omega, rfl⟩
      by_contra hlong
      have hlast := le_length_of_hexBytesFrom hptr ((cstr memory 0).length - 1) (by omega)
      omega

/-- a string with an even number of characters is read into a buffer of half as many -/
theorem hexStringToBytes_of_loop (h0 : 0 ∈ memory) (heven : (cstr memory 0).length % 2 = 0)
    (hfits : (cstr memory 0).length / 2 ≤ ptrdiffMax)
    (hloop : hexBytesFrom (cstr memory 0) (cstr memory 0).length 0
      (List.replicate ((cstr memory 0).length / 2) 0) = .ok ptr) :
    namesysHexStringToBytes memory bufferLength = .ok (0, some ptr, bufferLength) := by
  unfold namesysHexStringToBytes
  rw [require_pos h0, ok_bind]
  dsimp only
  rw [if_neg (not_not_intro heven), Region.malloc_pos hfits]
  dsimp only
  rw [hloop, ok_bind]

/-- there is no number at the end of the string -/
theorem scanHexAt_length (hex : List UInt8) : scanHexAt hex hex.length = .ok none := by
  have hread : strtol 16 [0] = .ok (0, 0) := by decide
  unfold scanHexAt
  rw [require_pos (Nat.le_refl _), ok_bind, List.drop_length, List.dropWhile_nil, List.take_nil]
  dsimp only
  rw [List.nil_append, hread, ok_bind]
  dsimp only
  rw [if_pos rfl]

/-- the first pass stores a byte, and the second is at the zero byte -/
theorem hexBytesFrom_two {b : UInt8} (hfirst : scanHexAt hex (0 * 2) = .ok (some b))
    (hsecond : scanHexAt hex (1 * 2) = .ok none) : hexBytesFrom hex 2 0 [0] = .ok [b] := by
  have hstore : Region.store [0] 0 [b] = .ok [b] := rfl
  rw [hexBytesFrom, hfirst, ok_bind]
  dsimp only
  rw [hstore, ok_bind, Nat.zero_add, hexBytesFrom, hsecond, ok_bind]
  rfl

/-- the two digits of a byte -/
theorem hexStringToBytes_hexByte {b : UInt8} (h0 : 0 ∈ memory) (h : cstr memory 0 = hexByte b) :
    namesysHexStringToBytes memory bufferLength = .ok (0, some [b], bufferLength) := by
  obtain ⟨c, d, more, htext, hc, hd, hmore⟩ := spells_cons (spells_hexByte b)
  obtain rfl : more = [] := List.eq_nil_of_length_eq_zero hmore.length
  rw [htext] at h
  have hspace : isSpace c = false := not_isSpace_of_le (lt_of_digitIn hc)
  obtain ⟨lu, hlu, hb⟩ := strtol_hexByte hc hd
  have hitem : (([c, d].drop (0 * 2)).dropWhile isSpace).take 2 = [c, d] := by
    rw [Nat.zero_mul, List.drop_zero, List.dropWhile_cons_of_neg (by rw [hspace]; decide)]
    rfl
  have hfirst : scanHexAt [c, d] (0 * 2) = .ok (some b) := by
    have hread : strtol 16 ([c, d] ++ [0]) = .ok (lu, 2) := hlu
    unfold scanHexAt
    dsimp only
    rw [require_pos (Nat.zero_le _), ok_bind, hitem, hread, ok_bind]
    dsimp only
    rw [if_neg (by decide), hb]
  have hsecond : scanHexAt [c, d] (1 * 2) = .ok none := scanHexAt_length [c, d]
  have hlen : (cstr memory 0).length = 2 := by rw [h]; rfl
  refine hexStringToBytes_of_loop h0 ?_ ?_ ?_
  · rw [hlen]
  · rw [hlen]
    norm_num [ptrdiffMax]
  · rw [hlen, h]
    exact hexBytesFrom_two hfirst hsecond

/-- an empty string -/
theorem hexStringToBytes_nil (h0 : 0 ∈ memory) (h : cstr memory 0 = []) :
    namesysHexStringToBytes memory bufferLength = .ok (0, some [], bufferLength) := by
  have hlen : (cstr memory 0).length = 0 := by rw [h]; rfl
  refine hexStringToBytes_of_loop h0 ?_ ?_ ?_
  · rw [hlen]
  · rw [hlen]
    exact Nat.zero_le _
  · rw [hlen]
    rfl

end

/-! ## the law -/

section
variable {bytes : List UInt8} {buffer : Region} {bufferLength : Nat}

/-- where nothing is written the string is what was there -/
theorem hexRoundTrips_nil :
    HexRoundTrips [] buffer bufferLength ↔ buffer.head? = some 0 ∧ bufferLength = 0 := by
  have hwrite : namesysBytesToHexString [] buffer = .ok (0, buffer) := by
    have hzero : toUInt64 (([] : List UInt8).length * 2 : Nat) = 0 :=
      toUInt64_natCast_of_lt (by decide)
    unfold namesysBytesToHexString
    rw [hzero, if_neg (Nat.not_lt_zero _)]
    rfl
  constructor
  · rintro ⟨err, text, htext, h⟩
    rw [hwrite] at htext
    cases htext
    obtain ⟨h0, -, hlen, hcount⟩ := of_hexStringToBytes (h rfl)
    exact ⟨head_of_cstr h0 (List.eq_nil_of_length_eq_zero hlen), hcount.symm⟩
  · rintro ⟨hhead, rfl⟩
    obtain ⟨rest, rfl⟩ : ∃ rest, buffer = 0 :: rest := by
      cases buffer with
      | nil => cases hhead
      | cons b rest => exact ⟨rest, by rw [Option.some.inj hhead]⟩
    exact ⟨0, _, hwrite, fun _ => hexStringToBytes_nil List.mem_cons_self rfl⟩

/-- one byte, in three characters of the buffer -/
theorem hexRoundTrips_singleton {b : UInt8} (hroom : ¬ buffer.length < toUInt64 (1 * 2 : Nat)) :
    HexRoundTrips [b] buffer bufferLength ↔ 3 ≤ buffer.length ∧ bufferLength = 1 := by
  have hwrite : namesysBytesToHexString [b] buffer =
      hexStringFrom 0 [b] buffer >>= fun buffer => .ok (0, buffer) := if_neg hroom
  constructor
  · rintro ⟨err, text, htext, h⟩
    rw [hwrite] at htext
    obtain ⟨out, hout, htext⟩ := bind_eq_ok.1 htext
    cases htext
    have hfits := ((hexStringFrom_eq_ok (List.cons_ne_nil _ _)).1 hout).1
    obtain ⟨-, -, -, hcount⟩ := of_hexStringToBytes (h rfl)
    exact ⟨hfits, hcount.symm⟩
  · rintro ⟨hfits, rfl⟩
    have hout := (hexStringFrom_eq_ok (i := 0) (List.cons_ne_nil b [])).2 ⟨hfits, rfl⟩
    obtain ⟨h0, htext⟩ := cstr_of_hexStringFrom (List.cons_ne_nil b []) hout
    refine ⟨0, _, ?_, fun _ => hexStringToBytes_hexByte h0 ?_⟩
    · rw [hwrite, hout, ok_bind]
    · rw [htext]
      exact List.append_nil _

/-- **hexadecimal names**: the writer reports an error; or one byte is written into three
characters and the length is 1 already; or nothing is written, where the string is empty and the
length 0 already -/
theorem hexRoundTrips_iff (bytes : List UInt8) (buffer : Region) (bufferLength : Nat) :
    HexRoundTrips bytes buffer bufferLength ↔
      buffer.length < toUInt64 (bytes.length * 2 : Nat) ∨
      (bytes.length = 1 ∧ 3 ≤ buffer.length ∧ bufferLength = 1) ∨
      (bytes = [] ∧ buffer.head? = some 0 ∧ bufferLength = 0) := by
  by_cases hroom : buffer.length < toUInt64 (bytes.length * 2 : Nat)
  · refine iff_of_true ⟨errInvalidParam, buffer, if_pos hroom, fun h => ?_⟩ (.inl hroom)
    exact absurd h (by decide)
  · rw [or_iff_right hroom]
    cases bytes with
    | nil =>
      rw [hexRoundTrips_nil]
      exact ⟨fun h => .inr ⟨rfl, h⟩, fun h => h.elim (fun h => nomatch h.1) fun h => h.2⟩
    | cons b bytes =>
      cases bytes with
      | nil =>
        rw [hexRoundTrips_singleton hroom]
        exact ⟨fun h => .inl ⟨rfl, h⟩, fun h => h.elim (fun h => h.2) fun h => nomatch h.1⟩
      | cons c bytes =>
        -- the string has four characters or more
        refine iff_of_false ?_ ?_
        · rintro ⟨err, text, htext, h⟩
          have hwrite : namesysBytesToHexString (b :: c :: bytes) buffer =
              hexStringFrom 0 (b :: c :: bytes) buffer >>= fun buffer => .ok (0, buffer) :=
            if_neg hroom
          rw [hwrite] at htext
          obtain ⟨out, hout, htext⟩ := bind_eq_ok.1 htext
          cases htext
          obtain ⟨-, hcstr⟩ := cstr_of_hexStringFrom (List.cons_ne_nil _ _) hout
          obtain ⟨-, hle, -, -⟩ := of_hexStringToBytes (h rfl)
          rw [hcstr, length_varToHex, List.length_cons, List.length_cons] at hle
          omega
        · rintro (⟨hone, -⟩ | ⟨hnil, -⟩)
          · cases hone
          · cases hnil

end

/-- **two bytes** in a buffer of five: the fourth pass is behind the end of the string; **one byte**
in a buffer of two: the zero byte is behind its end; and a length that was 0 before stays so -/
theorem not_hexRoundTrips :
    ¬ HexRoundTrips [171, 205] (List.replicate 5 0) 0 ∧
      ¬ HexRoundTrips [171] (List.replicate 2 0) 0 ∧
      ¬ HexRoundTrips [171] (List.replicate 3 0) 0 := by
  have h1 : namesysBytesToHexString [171, 205] (List.replicate 5 0) =
      .ok (0, [97, 98, 99, 100, 0]) := by decide +kernel
  have h2 : namesysHexStringToBytes [97, 98, 99, 100, 0] 0 = .error .outOfBounds := by
    decide
  have h3 : namesysBytesToHexString [171] (List.replicate 2 0) = .error .outOfBounds := by
    decide +kernel
  have h4 : namesysBytesToHexString [171] (List.replicate 3 0) = .ok (0, [97, 98, 0]) := by
    decide +kernel
  have h5 : namesysHexStringToBytes [97, 98, 0] 0 = .ok (0, some [171], 0) := by decide
  refine ⟨?_, ?_, ?_⟩
  · rintro ⟨err, text, htext, h⟩
    rw [h1] at htext
    cases htext
    have hread := h rfl
    rw [h2] at hread
    cases hread
  · rintro ⟨err, text, htext, -⟩
    rw [h3] at htext
    cases htext
  · rintro ⟨err, text, htext, h⟩
    rw [h4] at htext
    cases htext
    have hread := h rfl
    rw [h5] at hread
    cases hread

end Ipfs
