import Libipfs.Core.HttpRequest
import Libipfs.Lib.Numeral

/-!
# Percent coding

`libp2p_utils_url_encode` writes an escape for each character that is no letter and no digit, into
a buffer of three bytes for each character of the text; the zero byte behind it has no place of its
own.  The digits of an escape are taken from a table, and a character from 128 on is negative.

* `utilsUrlEncode`, `utilsUrlDecodeInto`   the two functions, with the room of their buffers;
* `utilsUrlDecodeInto_eq`   the buffer of the decoder is never too small;
* `UrlEncoded`              letters, digits and escapes;
* `EscapesComplete`         each percent sign that is read as one has two characters behind it;
* `urlEncodeFrom_eq_ok`     what the encoder writes, and when;
* `urlCoding_iff`           **the round trip** holds for ASCII texts with a letter or a digit in them,
                            and the decoder is safe on texts with complete escapes.
-/

namespace Ipfs
open CSem

/-! ## the two functions -/

/-- in the "C" locale, where no `char` below zero is one -/
def isalnum (c : UInt8) : Bool :=
  (48 ≤ c ∧ c ≤ 57) ∨ (65 ≤ c ∧ c ≤ 90) ∨ (97 ≤ c ∧ c ≤ 122)

/-- a `char`, which is signed, as an `int` -/
def charValue (c : UInt8) : Int := if c < 128 then c.toNat else c.toNat - 256

/-- `hex[i]`; the zero byte behind the digits belongs to the table -/
def hexAt (i : Int) : Exec UInt8 := do
  require .outOfBounds (0 ≤ i ∧ i < 17)
  .ok (if i = 16 then 0 else digitByte i.toNat)

/-- into the room that is left -/
def urlEncodeFrom : Nat → List UInt8 → Exec (List UInt8)
  | room, [] => do
    -- the zero byte
    require .outOfBounds (1 ≤ room)
    .ok []
  | room, c :: src =>
    if isalnum c then do
      require .outOfBounds (1 ≤ room)
      let dst ← urlEncodeFrom (room - 1) src
      .ok (c :: dst)
    else do
      require .outOfBounds (3 ≤ room)
      let high ← hexAt (charValue c / 16)
      let low ← hexAt (charValue c % 16)
      let dst ← urlEncodeFrom (room - 3) src
      .ok (37 :: high :: low :: dst)

/-- `none` when there is no memory -/
def utilsUrlEncode (src : List UInt8) : Exec (Option (List UInt8)) :=
  match malloc (toUInt64 (src.length * 3 : Nat)) with
  | none => .ok none
  | some room => do
    let dst ← urlEncodeFrom room src
    .ok (some dst)

/-- into the room that is left -/
def urlDecodeFrom : Nat → List UInt8 → Exec (List UInt8)
  | room, [] => do
    require .outOfBounds (1 ≤ room)
    .ok []
  | room, c :: src =>
    if c ≠ 37 then do
      require .outOfBounds (1 ≤ room)
      let dst ← urlDecodeFrom (room - 1) src
      .ok (c :: dst)
    else
      match src with
      | high :: low :: src => do
        require .outOfBounds (1 ≤ room)
        let dst ← urlDecodeFrom (room - 1) src
        .ok ((h2b high <<< 4 ||| h2b low &&& 15) :: dst)
      | _ => .error .outOfBounds

/-- the pointer to the buffer is not looked at -/
def utilsUrlDecodeInto (src : List UInt8) : Exec (List UInt8) := do
  let room ← deref (malloc (toUInt64 (src.length + 1 : Nat)))
  urlDecodeFrom room src

/-! ## texts -/

/-- letters, digits, and escapes of two digits -/
inductive UrlEncoded : List UInt8 → Prop
  | nil : UrlEncoded []
  | alnum {c : UInt8} {text : List UInt8} (hc : isalnum c = true) (h : UrlEncoded text) :
      UrlEncoded (c :: text)
  | escape {high low : UInt8} {text : List UInt8} (hhigh : (digitIn 16 high).isSome = true)
      (hlow : (digitIn 16 low).isSome = true) (h : UrlEncoded text) :
      UrlEncoded (37 :: high :: low :: text)

/-- characters, and percent signs with two characters behind them -/
inductive EscapesComplete : List UInt8 → Prop
  | nil : EscapesComplete []
  | char {c : UInt8} {text : List UInt8} (hc : c ≠ 37) (h : EscapesComplete text) :
      EscapesComplete (c :: text)
  | escape (high low : UInt8) {text : List UInt8} (h : EscapesComplete text) :
      EscapesComplete (37 :: high :: low :: text)

/-- the text comes back from its encoding, which has letters, digits and escapes in it -/
def UrlRoundTrips (src : List UInt8) : Prop :=
  ∃ text, utilsUrlEncode src = .ok (some text) ∧ UrlEncoded text ∧
    utilsUrlDecodeInto text = .ok src

/-- the two digits of a character -/
def urlEscape (c : UInt8) : List UInt8 :=
  [37, digitByte (c.toNat / 16), digitByte (c.toNat % 16)]

/-- what stands for a text -/
def urlText (src : List UInt8) : List UInt8 :=
  src.flatMap fun c => if isalnum c then [c] else urlEscape c

@[simp] theorem urlText_nil : urlText [] = [] := rfl
theorem urlText_cons_pos {c : UInt8} (h : isalnum c = true) (src : List UInt8) :
    urlText (c :: src) = c :: urlText src := by
  rw [urlText, List.flatMap_cons, if_pos h]
  rfl
theorem urlText_cons_neg {c : UInt8} (h : ¬ isalnum c = true) (src : List UInt8) :
    urlText (c :: src) =
      37 :: digitByte (c.toNat / 16) :: digitByte (c.toNat % 16) :: urlText src := by
  rw [urlText, List.flatMap_cons, if_neg h]
  rfl

/-! ## the encoder -/

section
variable {c : UInt8} {src text dst : List UInt8} {room : Nat}

theorem lt_of_isalnum (h : isalnum c = true) : c < 128 ∧ c ≠ 37 := by
  have hrange := of_decide_eq_true h
  simp only [UInt8.le_iff_toNat_le, UInt8.reduceToNat] at hrange
  refine ⟨UInt8.lt_iff_toNat_lt.2 (show c.toNat < 128 by omega), ?_⟩
  rintro rfl
  revert hrange
  decide

theorem hexAt_natCast {i : Nat} (h : i < 16) : hexAt i = .ok (digitByte i) := by
  unfold hexAt
  rw [require_pos (by omega), ok_bind, if_neg (by omega), Int.toNat_natCast]

theorem charValue_of_lt (h : c < 128) : charValue c = c.toNat := if_pos h

theorem charValue_of_le (h : ¬ c < 128) : charValue c = c.toNat - 256 := if_neg h

/-- **the digits of an escape** are in the table up to 127 -/
theorem hexAt_high (h : c < 128) : hexAt (charValue c / 16) = .ok (digitByte (c.toNat / 16)) := by
  have hlt : c.toNat < 128 := UInt8.lt_iff_toNat_lt.1 h
  have hdiv : (c.toNat : Int) / 16 = (c.toNat / 16 : Nat) := by omega
  rw [charValue_of_lt h, hdiv]
  exact hexAt_natCast (by omega)

theorem hexAt_low (c : UInt8) : hexAt (charValue c % 16) = .ok (digitByte (c.toNat % 16)) := by
  have hmod : charValue c % 16 = (c.toNat % 16 : Nat) := by
    unfold charValue
    split <;> omega
  rw [hmod]
  exact hexAt_natCast (Nat.mod_lt _ (by norm_num))

/-- a character from 128 on has a place in front of the table -/
theorem hexAt_high_of_le (h : ¬ c < 128) : hexAt (charValue c / 16) = .error .outOfBounds := by
  have hlt := c.toNat_lt
  unfold hexAt
  rw [charValue_of_le h, require_neg (by omega)]
  rfl

/-- **what the encoder writes**, when it may -/
theorem urlEncodeFrom_eq_ok :
    urlEncodeFrom room src = .ok dst ↔
      (∀ c ∈ src, c < 128) ∧ (urlText src).length < room ∧ dst = urlText src := by
  induction src generalizing room dst with
  | nil =>
    rw [urlEncodeFrom, require_bind_eq_ok, urlText_nil]
    constructor
    · rintro ⟨hroom, h⟩
      cases h
      exact ⟨fun c hc => absurd hc List.not_mem_nil, hroom, rfl⟩
    · rintro ⟨-, hroom, rfl⟩
      exact ⟨hroom, rfl⟩
  | cons c src ih =>
    rw [urlEncodeFrom]
    by_cases hc : isalnum c = true
    · rw [if_pos hc, require_bind_eq_ok, bind_eq_ok, urlText_cons_pos hc, List.length_cons]
      have hlt := (lt_of_isalnum hc).1
      constructor
      · rintro ⟨hroom, rest, hrest, h⟩
        cases h
        obtain ⟨hall, hlen, rfl⟩ := ih.1 hrest
        exact ⟨List.forall_mem_cons.2 ⟨hlt, hall⟩, by omega, rfl⟩
      · rintro ⟨hall, hlen, rfl⟩
        exact ⟨by omega, _, ih.2 ⟨(List.forall_mem_cons.1 hall).2, by omega, rfl⟩, rfl⟩
    · rw [if_neg hc, require_bind_eq_ok, urlText_cons_neg hc]
      simp only [List.length_cons]
      by_cases hlt : c < 128
      · rw [hexAt_high hlt, ok_bind, hexAt_low, ok_bind, bind_eq_ok]
        constructor
        · rintro ⟨hroom, rest, hrest, h⟩
          cases h
          obtain ⟨hall, hlen, rfl⟩ := ih.1 hrest
          exact ⟨List.forall_mem_cons.2 ⟨hlt, hall⟩, by omega, rfl⟩
        · rintro ⟨hall, hlen, rfl⟩
          exact ⟨by omega, _, ih.2 ⟨(List.forall_mem_cons.1 hall).2, by omega, rfl⟩, rfl⟩
      · rw [hexAt_high_of_le hlt]
        constructor
        · rintro ⟨-, h⟩
          cases h
        · rintro ⟨hall, -⟩
          exact absurd (List.forall_mem_cons.1 hall).1 hlt

/-- three bytes for each character are enough if one of them takes a single byte -/
theorem length_urlText_lt (src : List UInt8) :
    (urlText src).length ≤ src.length * 3 ∧
      ((urlText src).length < src.length * 3 ↔ ∃ c ∈ src, isalnum c = true) := by
  induction src with
  | nil => exact ⟨Nat.le_refl _, fun h => absurd h (Nat.lt_irrefl _), fun ⟨c, hc, _⟩ => by cases hc⟩
  | cons c src ih =>
    obtain ⟨hle, hiff⟩ := ih
    rw [List.length_cons]
    by_cases hc : isalnum c = true
    · rw [urlText_cons_pos hc, List.length_cons]
      exact ⟨by omega, fun _ => ⟨c, List.mem_cons_self, hc⟩, fun _ => by omega⟩
    · have hmem : (∃ d ∈ c :: src, isalnum d = true) ↔ ∃ d ∈ src, isalnum d = true := by
        constructor
        · rintro ⟨d, hd, halnum⟩
          rcases List.mem_cons.1 hd with rfl | hd
          · exact absurd halnum hc
          · exact ⟨d, hd, halnum⟩
        · rintro ⟨d, hd, halnum⟩
          exact ⟨d, List.mem_cons_of_mem _ hd, halnum⟩
      rw [urlText_cons_neg hc, hmem, ← hiff]
      simp only [List.length_cons]
      exact ⟨by omega, by omega, by omega⟩

/-- no character takes less than one byte -/
theorem length_le_urlText (src : List UInt8) : src.length ≤ (urlText src).length := by
  induction src with
  | nil => exact Nat.le_refl _
  | cons c src ih =>
    by_cases hc : isalnum c = true
    · rw [urlText_cons_pos hc]
      exact Nat.succ_le_succ ih
    · rw [urlText_cons_neg hc]
      simp only [List.length_cons]
      omega

/-- **the encoder**: there is memory, each character is in the table and there is room -/
theorem utilsUrlEncode_eq_some (hsrc : src.length < ptrdiffMax) :
    utilsUrlEncode src = .ok (some text) ↔
      (∀ c ∈ src, c < 128) ∧ (∃ c ∈ src, isalnum c = true) ∧ src.length * 3 ≤ ptrdiffMax ∧
        text = urlText src := by
  obtain ⟨-, hroom⟩ := length_urlText_lt src
  have hlow := length_le_urlText src
  have hmax : ptrdiffMax = 2 ^ 63 - 1 := rfl
  unfold utilsUrlEncode
  by_cases hmem : src.length * 3 ≤ ptrdiffMax
  · have hmalloc : malloc (toUInt64 (src.length * 3 : Nat)) = some (src.length * 3) := by
      rw [toUInt64_natCast_of_lt (by omega)]
      exact malloc_eq_some.2 ⟨rfl, hmem⟩
    rw [hmalloc]
    dsimp only
    rw [bind_eq_ok]
    constructor
    · rintro ⟨dst, hdst, h⟩
      cases h
      obtain ⟨hall, hlen, rfl⟩ := urlEncodeFrom_eq_ok.1 hdst
      exact ⟨hall, hroom.1 hlen, hmem, rfl⟩
    · rintro ⟨hall, halnum, -, rfl⟩
      exact ⟨_, urlEncodeFrom_eq_ok.2 ⟨hall, hroom.2 halnum, rfl⟩, rfl⟩
  · -- the size is too large, or wraps around to one that is too small
    refine iff_of_false (fun h => ?_) fun h => hmem h.2.2.1
    cases hmalloc : malloc (toUInt64 (src.length * 3 : Nat)) with
    | none =>
      rw [hmalloc] at h
      cases h
    | some room =>
      rw [hmalloc] at h
      obtain ⟨dst, hdst, -⟩ := bind_eq_ok.1 h
      obtain ⟨-, hlen, -⟩ := urlEncodeFrom_eq_ok.1 hdst
      obtain ⟨rfl, hle⟩ := malloc_eq_some.1 hmalloc
      rcases Nat.lt_or_ge (src.length * 3) (2 ^ 64) with hlt | hge
      · rw [toUInt64_natCast_of_lt hlt] at hle
        exact hmem hle
      · have hwrap := toUInt64_natCast_of_ge hge (by omega)
        omega

theorem urlEncoded_urlText (h : ∀ c ∈ src, c < 128) : UrlEncoded (urlText src) := by
  have hdigit : ∀ d < 16, (digitIn 16 (digitByte d)).isSome = true := by decide
  induction src with
  | nil => exact .nil
  | cons c src ih =>
    obtain ⟨hc, hsrc⟩ := List.forall_mem_cons.1 h
    by_cases halnum : isalnum c = true
    · rw [urlText_cons_pos halnum]
      exact .alnum halnum (ih hsrc)
    · have hbyte := c.toNat_lt
      rw [urlText_cons_neg halnum]
      exact .escape (hdigit _ (by omega)) (hdigit _ (by omega)) (ih hsrc)

end

/-! ## the decoder -/

section
variable {src dst text : List UInt8} {room : Nat}

theorem utilsUrlDecode_char {c : UInt8} (hc : c ≠ 37) (src : List UInt8) :
    utilsUrlDecode (c :: src) = utilsUrlDecode src >>= fun dst => .ok (c :: dst) := by
  conv => lhs; unfold utilsUrlDecode
  exact if_pos hc

theorem utilsUrlDecode_escape (high low : UInt8) (src : List UInt8) :
    utilsUrlDecode (37 :: high :: low :: src) = utilsUrlDecode src >>= fun dst =>
      .ok ((h2b high <<< 4 ||| h2b low &&& 15) :: dst) := rfl

/-- a percent sign with less than two characters behind it -/
theorem utilsUrlDecode_cut (h : ∀ high low rest, src = high :: low :: rest → False) :
    utilsUrlDecode (37 :: src) = .error .outOfBounds := by
  cases src with
  | nil => rfl
  | cons high src =>
    cases src with
    | nil => rfl
    | cons low rest => exact (h high low rest rfl).elim

theorem urlDecodeFrom_char {c : UInt8} (hc : c ≠ 37) (hroom : 1 ≤ room) (src : List UInt8) :
    urlDecodeFrom room (c :: src) =
      urlDecodeFrom (room - 1) src >>= fun dst => .ok (c :: dst) := by
  conv => lhs; unfold urlDecodeFrom
  rw [if_pos hc, require_pos hroom, ok_bind]

theorem urlDecodeFrom_escape (hroom : 1 ≤ room) (high low : UInt8) (src : List UInt8) :
    urlDecodeFrom room (37 :: high :: low :: src) = urlDecodeFrom (room - 1) src >>= fun dst =>
      .ok ((h2b high <<< 4 ||| h2b low &&& 15) :: dst) := by
  conv => lhs; unfold urlDecodeFrom
  rw [if_neg (by decide), require_pos hroom]
  rfl

theorem urlDecodeFrom_cut (h : ∀ high low rest, src = high :: low :: rest → False) :
    urlDecodeFrom room (37 :: src) = .error .outOfBounds := by
  cases src with
  | nil => rfl
  | cons high src =>
    cases src with
    | nil => rfl
    | cons low rest => exact (h high low rest rfl).elim

/-- with room for each character and the zero byte -/
theorem urlDecodeFrom_eq (h : src.length < room) : urlDecodeFrom room src = utilsUrlDecode src := by
  induction src using utilsUrlDecode.induct generalizing room with
  | case1 =>
    have hroom : 1 ≤ room := h
    rw [urlDecodeFrom, require_pos hroom]
    rfl
  | case2 c src hc ih =>
    rw [List.length_cons] at h
    rw [urlDecodeFrom_char hc (by omega), utilsUrlDecode_char hc, ih (by omega)]
  | case3 c hc high low src ih =>
    obtain rfl := not_not.1 hc
    simp only [List.length_cons] at h
    rw [urlDecodeFrom_escape (by omega), utilsUrlDecode_escape, ih (by omega)]
  | case4 c src hc hsrc =>
    obtain rfl := not_not.1 hc
    rw [urlDecodeFrom_cut hsrc, utilsUrlDecode_cut hsrc]

/-- **the buffer of the decoder** is never too small -/
theorem utilsUrlDecodeInto_eq (h : src.length < ptrdiffMax) :
    utilsUrlDecodeInto src = utilsUrlDecode src := by
  have hmax : ptrdiffMax = 2 ^ 63 - 1 := rfl
  have hmalloc : malloc (toUInt64 (src.length + 1 : Nat)) = some (src.length + 1) := by
    rw [toUInt64_natCast_of_lt (by omega)]
    exact malloc_eq_some.2 ⟨rfl, h⟩
  unfold utilsUrlDecodeInto
  rw [hmalloc, deref_some, ok_bind, urlDecodeFrom_eq (Nat.lt_succ_self _)]

/-- **the decoder stays inside the text** when its escapes are complete -/
theorem safe_utilsUrlDecode : Safe (utilsUrlDecode src) ↔ EscapesComplete src := by
  constructor
  · rintro ⟨dst, h⟩
    induction src using utilsUrlDecode.induct generalizing dst with
    | case1 => exact .nil
    | case2 c src hc ih =>
      rw [utilsUrlDecode_char hc] at h
      obtain ⟨rest, hrest, -⟩ := bind_eq_ok.1 h
      exact .char hc (ih rest hrest)
    | case3 c hc high low src ih =>
      obtain rfl := not_not.1 hc
      rw [utilsUrlDecode_escape] at h
      obtain ⟨rest, hrest, -⟩ := bind_eq_ok.1 h
      exact .escape high low (ih rest hrest)
    | case4 c src hc hsrc =>
      obtain rfl := not_not.1 hc
      rw [utilsUrlDecode_cut hsrc] at h
      cases h
  · intro h
    induction h with
    | nil => exact ⟨[], rfl⟩
    | char hc _ ih =>
      obtain ⟨rest, hrest⟩ := ih
      exact ⟨_, by rw [utilsUrlDecode_char hc, hrest, ok_bind]⟩
    | escape high low _ ih =>
      obtain ⟨rest, hrest⟩ := ih
      exact ⟨_, by rw [utilsUrlDecode_escape, hrest, ok_bind]⟩

theorem h2b_digitByte : ∀ d < 16, h2b (digitByte d) = UInt8.ofNat d := by decide

/-- two digits are put together as they were taken apart -/
theorem h2b_digits (c : UInt8) :
    (h2b (digitByte (c.toNat / 16)) <<< 4 ||| h2b (digitByte (c.toNat % 16)) &&& 15) = c := by
  have hc := c.toNat_lt
  rw [h2b_digitByte _ (by omega), h2b_digitByte _ (by omega)]
  apply UInt8.toNat.inj
  have hlow : c.toNat % 16 &&& 15 = c.toNat % 16 := by
    rw [show 15 = 2 ^ 4 - 1 from rfl, Nat.and_two_pow_sub_one_eq_mod, Nat.mod_mod]
  have hor : 2 ^ 4 * (c.toNat / 16) + c.toNat % 16 = 2 ^ 4 * (c.toNat / 16) ||| c.toNat % 16 :=
    Nat.two_pow_add_eq_or_of_lt (Nat.mod_lt _ (by norm_num)) _
  simp only [UInt8.toNat_or, UInt8.toNat_shiftLeft, UInt8.toNat_and, UInt8.toNat_ofNat',
    UInt8.reduceToNat]
  rw [Nat.mod_eq_of_lt (by omega : c.toNat / 16 < 2 ^ 8),
    Nat.mod_eq_of_lt (by omega : c.toNat % 16 < 2 ^ 8), hlow, show 4 % 8 = 4 from rfl, Nat.shiftLeft_eq,
    Nat.mul_comm, Nat.mod_eq_of_lt (by omega), ← hor]
  omega

/-- **what stands for a text is decoded as it** -/
theorem utilsUrlDecode_urlText (src : List UInt8) : utilsUrlDecode (urlText src) = .ok src := by
  induction src with
  | nil => rfl
  | cons c src ih =>
    by_cases hc : isalnum c = true
    · rw [urlText_cons_pos hc, utilsUrlDecode_char (lt_of_isalnum hc).2, ih, ok_bind]
    · rw [urlText_cons_neg hc, utilsUrlDecode_escape, ih, ok_bind, h2b_digits]

end

/-! ## the law -/

/-- **percent coding**: the round trip, with all reads and writes inside the buffers, for texts of
ASCII characters of which one is a letter or a digit; and reads inside the text for texts whose
escapes are complete -/
theorem urlCoding_iff (src query : CString) :
    (UrlRoundTrips src.text ↔ (∀ c ∈ src.text, c < 128) ∧ (∃ c ∈ src.text, isalnum c = true) ∧
      src.text.length * 3 ≤ ptrdiffMax) ∧
    (Safe (utilsUrlDecodeInto query.text) ↔ EscapesComplete query.text) := by
  refine ⟨?_, ?_⟩
  · constructor
    · rintro ⟨text, htext, -⟩
      obtain ⟨hall, halnum, hmem, -⟩ := (utilsUrlEncode_eq_some src.fits).1 htext
      exact ⟨hall, halnum, hmem⟩
    · rintro ⟨hall, halnum, hmem⟩
      have hlen := (length_urlText_lt src.text).2.2 halnum
      refine ⟨urlText src.text,
        (utilsUrlEncode_eq_some src.fits).2 ⟨hall, halnum, hmem, rfl⟩, urlEncoded_urlText hall, ?_⟩
      rw [utilsUrlDecodeInto_eq (by omega), utilsUrlDecode_urlText]
  · rw [utilsUrlDecodeInto_eq query.fits, safe_utilsUrlDecode]

/-- **no letter and no digit**: there is no room for the zero byte; a character from 128 on has no
digits; and a percent sign at the end is read beyond -/
theorem not_urlCoding :
    ¬ UrlRoundTrips (asciiBytes "/") ∧ ¬ UrlRoundTrips [97, 195, 169] ∧
      ¬ Safe (utilsUrlDecodeInto (asciiBytes "100%")) ∧
      ¬ Safe (utilsUrlDecodeInto (asciiBytes "100%2")) := by
  have h1 : utilsUrlEncode (asciiBytes "/") = .error .outOfBounds := by decide +kernel
  have h2 : utilsUrlEncode [97, 195, 169] = .error .outOfBounds := by decide +kernel
  have h3 : utilsUrlDecodeInto (asciiBytes "100%") = .error .outOfBounds := by decide +kernel
  have h4 : utilsUrlDecodeInto (asciiBytes "100%2") = .error .outOfBounds := by decide +kernel
  refine ⟨?_, ?_, ?_, ?_⟩
  · rintro ⟨text, htext, -⟩
    rw [h1] at htext
    cases htext
  · rintro ⟨text, htext, -⟩
    rw [h2] at htext
    cases htext
  · rw [h3]
    exact not_safe_error _
  · rw [h4]
    exact not_safe_error _

end Ipfs
