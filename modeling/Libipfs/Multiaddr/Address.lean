import Libipfs.Multiaddr.Ipv4

/-!
# Addresses of a multiaddress

What becomes of an address on its way to bytes and back.

* `ip4StringToBytes_dotted`, `int2ip_bytesValue`   four numbers below 256;
* `portStringToBytes_numeral`                      a port, in two bytes;
* `Base58Id`                                       a text of base58 digits;
* `ipfsStringToBytes_map`                          **the bytes of an id**: those at the front of a
                                                   buffer that its number may not fill.
-/

namespace Libp2p
open CSem

/-! ## numbers with dots between them -/

section
variable {a b c d n v : Nat}

theorem le_of_mem_numeral {x : UInt8} (h : x ∈ numeral 10 n) : 48 ≤ x ∧ x ≤ 57 := by
  obtain ⟨k, hk⟩ := exists_digit_of_mem_numeral (by decide) (by decide) h
  have hall : ∀ m < 256, digitIn 10 (UInt8.ofNat m) = none ∨
      48 ≤ UInt8.ofNat m ∧ UInt8.ofNat m ≤ 57 := by decide +kernel
  have hx : UInt8.ofNat x.toNat = x := UInt8.ofNat_toNat
  have hcases := hall x.toNat x.toNat_lt
  rw [hx, hk] at hcases
  exact hcases.resolve_left (Option.some_ne_none k)

theorem not_mem_numeral {x : UInt8} (hx : x < 48) (n : Nat) : x ∉ numeral 10 n := fun h =>
  absurd (le_of_mem_numeral h).1 (UInt8.not_le.2 hx)

theorem numeral_ne_nil (n : Nat) : numeral 10 n ≠ [] :=
  List.ne_nil_of_length_pos length_numeral_pos

theorem strtok_dotted (a b c d : Nat) :
    strtok 46 (dotted a b c d) = [numeral 10 a, numeral 10 b, numeral 10 c, numeral 10 d] := by
  have hdot : ∀ n, 46 ∉ numeral 10 n := not_mem_numeral (by decide)
  unfold dotted
  rw [strtok_word (numeral_ne_nil a) (hdot a), strtok_word (numeral_ne_nil b) (hdot b),
    strtok_word (numeral_ne_nil c) (hdot c), strtok_of_not_mem (numeral_ne_nil d) (hdot d)]

theorem dotted_injective {a' b' c' d' : Nat} (h : dotted a b c d = dotted a' b' c' d') :
    a = a' ∧ b = b' ∧ c = c' ∧ d = d' := by
  have hinj := @numeral_injective 10
  have hwords := strtok_dotted a b c d
  rw [h, strtok_dotted] at hwords
  obtain ⟨ha, hwords⟩ := List.cons.inj hwords
  obtain ⟨hb, hwords⟩ := List.cons.inj hwords
  obtain ⟨hc, hwords⟩ := List.cons.inj hwords
  obtain ⟨hd, -⟩ := List.cons.inj hwords
  exact ⟨(hinj (by decide) (by decide) ha).symm, (hinj (by decide) (by decide) hb).symm,
    (hinj (by decide) (by decide) hc).symm, (hinj (by decide) (by decide) hd).symm⟩

theorem dotted_ne_nil (a b c d : Nat) : dotted a b c d ≠ [] := by
  intro h
  have hwords := strtok_dotted a b c d
  rw [h] at hwords
  cases hwords

theorem not_mem_dotted (a b c d : Nat) : 47 ∉ dotted a b c d := by
  have hslash : ∀ n, 47 ∉ numeral 10 n := not_mem_numeral (by decide)
  unfold dotted
  simp only [List.mem_append, List.mem_cons, hslash, false_or, not_or]
  decide

theorem dotted_length_lt (ha : a < 256) (hb : b < 256) (hc : c < 256) (hd : d < 256) :
    (dotted a b c d).length < 16 := by
  have hlen : ∀ n, n < 256 → (numeral 10 n).length ≤ 3 := fun n hn =>
    (length_numeral_le_iff (by decide) (by decide)).2 (by omega)
  have h1 := hlen a ha
  have h2 := hlen b hb
  have h3 := hlen c hc
  have h4 := hlen d hd
  unfold dotted
  simp only [List.length_append, List.length_cons]
  omega

theorem isValidIpv4_dotted (ha : a < 256) (hb : b < 256) (hc : c < 256) (hd : d < 256) (fuel : Nat) :
    isValidIpv4 (fuel + 5) (dotted a b c d) = .ok true := by
  have hrange : ∀ n, n < 256 → InRange (numeral 10 n) := fun n hn =>
    ⟨n, atoi_numeral (by omega), by omega⟩
  have hdigits : ∀ n, validDigit (numeral 10 n) = true := fun n =>
    List.all_eq_true.2 fun x hx => decide_eq_true (le_of_mem_numeral hx)
  unfold isValidIpv4 ipv4Start
  rw [strtok_dotted, ipv4Loop_next (hrange a ha), require_pos (by decide), ok_bind,
    ipv4Loop_next (hrange b hb), require_pos (by decide), ok_bind, ipv4Loop_next (hrange c hc),
    require_pos (by decide), ok_bind, ipv4Loop_last (hrange d hd), ipv4Loop_nil, ok_bind, hdigits,
    hdigits, hdigits, hdigits]
  rfl

theorem ip2int_dotted (ha : a < 256) (hb : b < 256) (hc : c < 256) (hd : d < 256) :
    ip2int (dotted a b c d) = .ok (a * 2 ^ 24 + b * 2 ^ 16 + c * 2 ^ 8 + d) := by
  have hread : ∀ n, n < 256 → atoi (numeral 10 n) = .ok (n : Int) := fun n hn =>
    atoi_numeral (by omega)
  unfold ip2int
  rw [strcpy_pos (dotted_length_lt ha hb hc hd), ok_bind, strtok_dotted]
  show (atoi (numeral 10 a) >>= fun ipat1 => atoi (numeral 10 b) >>= fun ipat2 =>
    atoi (numeral 10 c) >>= fun ipat3 => atoi (numeral 10 d) >>= _) = _
  rw [hread a ha, ok_bind, hread b hb, ok_bind, hread c hc, ok_bind, hread d hd, ok_bind]
  have hcast : (a : Int) * 2 ^ 24 + b * 2 ^ 16 + c * 2 ^ 8 + d * 1 =
      ((a * 2 ^ 24 + b * 2 ^ 16 + c * 2 ^ 8 + d : Nat) : Int) := by
    push_cast
    omega
  rw [hcast, toUInt64_natCast_of_lt (by omega)]

/-- the number of four bytes -/
theorem bytesValue_four (a b c d : UInt8) : bytesValue [a, b, c, d] =
    a.toNat * 2 ^ 24 + b.toNat * 2 ^ 16 + c.toNat * 2 ^ 8 + d.toNat := by
  simp only [bytesValue_cons, List.length_cons, List.length_nil]
  show _ + (_ + (_ + (_ + 0))) = _
  omega

/-- **an IPv4 address to bytes**, as few as its number takes -/
theorem ip4StringToBytes_dotted (a b c d : UInt8) :
    ip4StringToBytes (dotted a.toNat b.toNat c.toNat d.toNat) =
      .ok (some (intToHex (bytesValue [a, b, c, d]),
        (intToHex (bytesValue [a, b, c, d])).length)) := by
  have ha := a.toNat_lt
  have hb := b.toNat_lt
  have hc := c.toNat_lt
  have hd := d.toNat_lt
  -- a pass for each of the four numbers, and one behind them
  obtain ⟨fuel, hfuel⟩ : ∃ fuel, (dotted a.toNat b.toNat c.toNat d.toNat).length + 1 = fuel + 5 := by
    have hpos : 0 < (numeral 10 a.toNat).length := length_numeral_pos
    refine Nat.exists_eq_add_of_le' ?_
    unfold dotted
    simp only [List.length_append, List.length_cons]
    omega
  unfold ip4StringToBytes
  rw [strcpy_pos (dotted_length_lt ha hb hc hd), ok_bind, hfuel, isValidIpv4_dotted ha hb hc hd, ok_bind,
    if_pos rfl, ip2int_dotted ha hb hc hd, ok_bind, bytesValue_four]

/-- **and back** -/
theorem int2ip_bytesValue (a b c d : UInt8) :
    int2ip (bytesValue [a, b, c, d]) = dotted a.toNat b.toNat c.toNat d.toNat := by
  have ha := a.toNat_lt
  have hb := b.toNat_lt
  have hc := c.toNat_lt
  have hd := d.toNat_lt
  rw [bytesValue_four]
  unfold int2ip
  dsimp only
  congr 1
  · omega
  · omega
  · omega
  · omega

end

/-! ## ports -/

section
variable {v : Nat}

/-- **a port to bytes**: four digits, whatever the number -/
theorem portStringToBytes_numeral (h0 : 0 < v) (hv : v < 65536) :
    ∃ hex, portStringToBytes (numeral 10 v) = .ok (some (hex, 5)) ∧
      Spells hex (valueBytes 2 v) := by
  have hsize : byteSize v ≤ 2 := byteSize_le_iff.2 hv
  have hspells := spells_intToHex v
  have hlen := hspells.length
  rw [valueBytes_length] at hlen
  have hlt : v < 256 ^ max 1 (byteSize v) := byteSize_le_iff.1 (Nat.le_max_right _ _)
  obtain ⟨k, hk⟩ : ∃ k, k + max 1 (byteSize v) = 2 := ⟨2 - max 1 (byteSize v), by omega⟩
  have hpad := spells_leftpad hspells hlt k
  rw [hk] at hpad
  refine ⟨_, ?_, hpad⟩
  have hcast : ((v : Int) < 65536) ∧ (v : Int) > 0 := by omega
  unfold portStringToBytes
  rw [atoi_numeral (by omega), ok_bind, if_pos hcast, Int.toNat_natCast,
    strcpy_pos (by omega), ok_bind]

theorem portStringToBytes_zero : portStringToBytes (numeral 10 0) = .ok none := by
  unfold portStringToBytes
  rw [atoi_numeral (by decide), ok_bind, if_neg (by decide)]

end

/-! ## ids -/

/-- a text of base58 digits -/
structure Base58Id where
  text : List UInt8
  ne : text ≠ []
  valid : ∀ c ∈ text, c ∈ base58Alphabet

namespace Base58Id

def value (id : Base58Id) : Nat := ofDigits 58 (id.text.filterMap base58Digit)

/-- the digits in front that are zero -/
def ones (id : Base58Id) : Nat := (id.text.takeWhile fun c => c = 49).length

/-- a zero for each `1` in front, and the bytes of the number -/
def bytes (id : Base58Id) : List UInt8 := List.replicate id.ones 0 ++ numberBytes id.value

/-- an id that comes back: its number has as many bytes as a number of so many digits may have,
and the number of their digits fits in seven bits -/
structure Plain (id : Base58Id) : Prop where
  noOnes : id.text.head? ≠ some 49
  full : 256 ^ (Nat.clog 256 (58 ^ id.text.length) - 1) ≤ id.value
  short : id.bytes.length ≤ 63

end Base58Id

section
variable {ds : List Nat} {id : Base58Id}

theorem exists_digits_of_mem (text : List UInt8) (h : ∀ c ∈ text, c ∈ base58Alphabet) :
    ∃ ds : List Nat, (∀ d ∈ ds, d < 58) ∧ text = ds.map base58Char := by
  induction text with
  | nil => exact ⟨[], fun _ hd => (nomatch hd), rfl⟩
  | cons c text ih =>
    obtain ⟨ds, hds, htext⟩ := ih fun x hx => h x (List.mem_cons_of_mem _ hx)
    obtain ⟨d, hd, hc⟩ := List.mem_iff_getElem.1 (h c List.mem_cons_self)
    have hchar : base58Char d = c := by
      unfold base58Char
      rw [List.getD_eq_getElem?_getD, List.getElem?_eq_getElem hd, hc]
      rfl
    refine ⟨d :: ds, ?_, by rw [List.map_cons, hchar, htext]⟩
    intro x hx
    rcases List.mem_cons.1 hx with rfl | hx
    · exact hd
    · exact hds x hx

theorem filterMap_base58Digit (h : ∀ d ∈ ds, d < 58) :
    (ds.map base58Char).filterMap base58Digit = ds := by
  induction ds with
  | nil => rfl
  | cons d ds ih =>
    rw [List.map_cons, List.filterMap_cons, base58Digit_base58Char (h d List.mem_cons_self),
      ih fun x hx => h x (List.mem_cons_of_mem _ hx)]

theorem base58Char_mem {d : Nat} (h : d < 58) : base58Char d ∈ base58Alphabet := by
  have hall : ∀ d < 58, base58Char d ∈ base58Alphabet := by decide
  exact hall d h

/-- the id of digits -/
def idOfDigits (ds : List Nat) (h : ∀ d ∈ ds, d < 58) (hne : ds ≠ []) : Base58Id where
  text := ds.map base58Char
  ne := fun hnil => hne (List.map_eq_nil_iff.1 hnil)
  valid := by
    intro c hc
    obtain ⟨d, hd, rfl⟩ := List.mem_map.1 hc
    exact base58Char_mem (h d hd)

theorem head_map_base58Char (h : ∀ d ∈ ds, d < 58) :
    (ds.map base58Char).head? = some 49 ↔ ds.head? = some 0 := by
  cases ds with
  | nil => exact ⟨fun h => (nomatch h), fun h => (nomatch h)⟩
  | cons d ds =>
    rw [List.map_cons, List.head?_cons, List.head?_cons, Option.some.injEq, Option.some.injEq]
    exact base58Char_eq_one_iff (h d List.mem_cons_self)

theorem takeWhile_ones {text : List UInt8} (h : text.head? ≠ some 49) :
    text.takeWhile (fun c => c = 49) = [] := by
  cases text with
  | nil => rfl
  | cons c text =>
    have hc : ¬ c = 49 := fun hc => h (congrArg some hc)
    rw [List.takeWhile_cons, decide_eq_false hc]
    rfl

/-- **an id to bytes**: as many as its number has, from the front of the buffer -/
theorem ipfsStringToBytes_map (h : ∀ d ∈ ds, d < 58) (h0 : ds.head? ≠ some 0)
    (hshort : byteSize (ofDigits 58 ds) ≤ 149) :
    ∃ out hex, ipfsStringToBytes (ds.map base58Char) =
        .ok (some (hex, 2 * byteSize (ofDigits 58 ds) + 3)) ∧
      out = (valueBytes (Nat.clog 256 (58 ^ ds.length)) (ofDigits 58 ds)).take
        (byteSize (ofDigits 58 ds)) ∧
      Spells hex (sizeByte (2 * byteSize (ofDigits 58 ds)) :: out) := by
  have hones : (ds.map base58Char).takeWhile (fun c => c = 49) = [] :=
    takeWhile_ones fun h1 => h0 ((head_map_base58Char h).1 h1)
  have hle := byteSize_ofDigits_le h
  have hdecode := base58Decode_map h
  rw [hones, List.length_nil, Nat.add_zero] at hdecode
  obtain ⟨out, hout⟩ : ∃ out, out = (valueBytes (Nat.clog 256 (58 ^ ds.length))
    (ofDigits 58 ds)).take (byteSize (ofDigits 58 ds)) := ⟨_, rfl⟩
  have hlen : (varToHex out).length = 2 * byteSize (ofDigits 58 ds) := by
    rw [varToHex_length, hout, List.length_take, valueBytes_length, Nat.min_eq_left hle]
  refine ⟨out, _, ?_, hout, (spells_numToHexVar32 _).append (spells_varToHex out)⟩
  unfold ipfsStringToBytes
  dsimp only
  rw [hdecode, ok_bind]
  dsimp only
  rw [require_pos (by rw [valueBytes_length]; exact hle), ok_bind, ← hout,
    strcpy_pos (by omega), ok_bind, hlen]

/-- the front of the buffer has the bytes of the number when that takes all of it -/
theorem full_of_take_eq {n v : Nat} (h : byteSize v ≤ n) (h0 : 0 < v)
    (heq : (valueBytes n v).take (byteSize v) = numberBytes v) : byteSize v = n := by
  have hpos : 0 < byteSize v := lt_byteSize_iff.2 h0
  by_contra hne
  obtain ⟨k, hk⟩ : ∃ k, n - byteSize v = k + 1 := ⟨n - byteSize v - 1, by omega⟩
  obtain ⟨m, hm⟩ : ∃ m, byteSize v = m + 1 := ⟨byteSize v - 1, by omega⟩
  rw [valueBytes_eq_append h, hk, List.replicate_succ, List.cons_append, hm,
    List.take_succ_cons] at heq
  exact head_numberBytes v (by rw [← heq]; rfl)

theorem Base58Id.exists_digits (id : Base58Id) :
    ∃ ds : List Nat, (∀ d ∈ ds, d < 58) ∧ ds ≠ [] ∧ id.text = ds.map base58Char ∧
      id.value = ofDigits 58 ds := by
  obtain ⟨ds, hds, htext⟩ := exists_digits_of_mem id.text id.valid
  refine ⟨ds, hds, ?_, htext, ?_⟩
  · rintro rfl
    exact id.ne htext
  · rw [value, htext, filterMap_base58Digit hds]

/-- the size of a plain id -/
theorem Base58Id.Plain.byteSize_eq (h : id.Plain) :
    byteSize id.value = Nat.clog 256 (58 ^ id.text.length) := by
  obtain ⟨ds, hds, hne, htext, hvalue⟩ := id.exists_digits
  have hle := byteSize_ofDigits_le hds
  have hlow := lt_byteSize_iff.2 h.full
  rw [← hvalue] at hle
  rw [htext, List.length_map] at hlow ⊢
  omega

theorem Base58Id.Plain.bytes_eq (h : id.Plain) : id.bytes = numberBytes id.value := by
  unfold bytes ones
  rw [takeWhile_ones h.noOnes]
  rfl

theorem Base58Id.Plain.length_bytes (h : id.Plain) : id.bytes.length = byteSize id.value := by
  rw [h.bytes_eq, numberBytes_length]

/-- **a plain id to bytes** -/
theorem ipfsStringToBytes_plain (h : id.Plain) :
    ∃ hex, ipfsStringToBytes id.text = .ok (some (hex, 2 * id.bytes.length + 3)) ∧
      Spells hex (sizeByte (2 * id.bytes.length) :: id.bytes) := by
  obtain ⟨ds, hds, -, htext, hvalue⟩ := id.exists_digits
  have hsize := h.byteSize_eq
  have hshort := h.short
  have h0 : ds.head? ≠ some 0 := by
    intro h0
    exact h.noOnes (by rw [htext]; exact (head_map_base58Char hds).2 h0)
  rw [h.length_bytes] at hshort
  rw [hvalue] at hshort
  obtain ⟨out, hex, hconv, hout, hspells⟩ := ipfsStringToBytes_map hds h0 (by omega)
  rw [htext, List.length_map, hvalue] at hsize
  rw [← hsize, List.take_of_length_le (by rw [valueBytes_length])] at hout
  refine ⟨hex, ?_, ?_⟩
  · rw [htext, h.length_bytes, hvalue, hconv]
  · rw [h.length_bytes, h.bytes_eq, hvalue]
    rwa [hout] at hspells

/-- digits that do not begin with zero are those of their number -/
theorem digits_unique {es : List Nat} (hd : ∀ d ∈ ds, d < 58) (he : ∀ e ∈ es, e < 58)
    (hd0 : ds.head? ≠ some 0) (he0 : es.head? ≠ some 0) (h : ofDigits 58 ds = ofDigits 58 es) :
    ds = es := by
  have hds := dropWhile_toDigits hd hd0 (Nat.le_max_left ds.length es.length)
  have hes := dropWhile_toDigits he he0 (Nat.le_max_right ds.length es.length)
  rw [h, hes] at hds
  exact hds.symm

/-- two digits for each byte are more than there are -/
theorem length_lt_two_mul {n : Nat} (hne : ds ≠ []) (hn : Nat.clog 256 (58 ^ ds.length) ≤ n) :
    ds.length < 2 * n := by
  have hpos : 0 < ds.length := List.length_pos_iff.2 hne
  have hn0 : n ≠ 0 := by
    rintro rfl
    have hle := (Nat.clog_le_iff_le_pow (by decide)).1 hn
    have hgt : 58 ^ 1 ≤ 58 ^ ds.length := Nat.pow_le_pow_right (by decide) hpos
    omega
  refine (Nat.pow_lt_pow_iff_right (by decide : 1 < 58)).1 ?_
  calc 58 ^ ds.length ≤ 256 ^ n := (Nat.clog_le_iff_le_pow (by decide)).1 hn
    _ < (58 ^ 2) ^ n := Nat.pow_lt_pow_left (by decide) hn0
    _ = 58 ^ (2 * n) := (pow_mul 58 2 n).symm

/-- **and back** -/
theorem base58Encode_plain (h : id.Plain) :
    multiaddrEncodingBase58Encode id.bytes (2 * id.bytes.length) = .ok (some id.text) := by
  obtain ⟨ds, hds, hne, htext, hvalue⟩ := id.exists_digits
  have hsize := h.byteSize_eq
  have h0 : ds.head? ≠ some 0 := by
    intro h0
    exact h.noOnes (by rw [htext]; exact (head_map_base58Char hds).2 h0)
  rw [htext, List.length_map] at hsize
  rw [h.length_bytes, h.bytes_eq]
  obtain ⟨es, hes, hes0, hvalue', hencode⟩ :=
    @base58Encode_eq (numberBytes id.value) (head_numberBytes id.value) (2 * byteSize id.value)
  rw [bytesValue_numberBytes, hvalue] at hvalue'
  obtain rfl := digits_unique hes hds hes0 h0 hvalue'
  have hroom : ¬ 2 * byteSize id.value ≤ es.length :=
    Nat.not_le.2 (length_lt_two_mul hne (by rw [hsize]))
  rw [hencode, if_neg hroom, htext]

theorem ofDigits_pos (hne : ds ≠ []) (h0 : ds.head? ≠ some 0) : 0 < ofDigits 58 ds := by
  cases ds with
  | nil => exact absurd rfl hne
  | cons d ds =>
    have hd : d ≠ 0 := fun hd => h0 (congrArg some hd)
    rw [ofDigits_cons]
    have hpow : 0 < 58 ^ ds.length := Nat.pow_pos (by decide)
    have hmul := Nat.mul_pos (Nat.pos_of_ne_zero hd) hpow
    omega

/-- **the id of digits** whose number takes all of the buffer -/
theorem plain_idOfDigits (h : ∀ d ∈ ds, d < 58) (hne : ds ≠ []) (h0 : ds.head? ≠ some 0)
    (hfull : byteSize (ofDigits 58 ds) = Nat.clog 256 (58 ^ ds.length))
    (hshort : byteSize (ofDigits 58 ds) ≤ 63) :
    (idOfDigits ds h hne).Plain ∧ (idOfDigits ds h hne).bytes = numberBytes (ofDigits 58 ds) := by
  have hvalue : (idOfDigits ds h hne).value = ofDigits 58 ds := by
    show ofDigits 58 ((ds.map base58Char).filterMap base58Digit) = _
    rw [filterMap_base58Digit h]
  have hones : (idOfDigits ds h hne).text.head? ≠ some 49 :=
    fun h1 => h0 ((head_map_base58Char h).1 h1)
  have hbytes : (idOfDigits ds h hne).bytes = numberBytes (ofDigits 58 ds) := by
    unfold Base58Id.bytes Base58Id.ones
    rw [takeWhile_ones hones, hvalue]
    rfl
  refine ⟨⟨hones, ?_, ?_⟩, hbytes⟩
  · show 256 ^ (Nat.clog 256 (58 ^ (ds.map base58Char).length) - 1) ≤ _
    have hpos : 256 ^ 0 ≤ ofDigits 58 ds := ofDigits_pos hne h0
    have hsize := lt_byteSize_iff.2 hpos
    rw [List.length_map, hvalue, ← hfull]
    exact lt_byteSize_iff.1 (by omega)
  · rw [hbytes, numberBytes_length]
    exact hshort

/-- what is read as an id does not begin with a zero byte -/
theorem head_of_base58Encode {data text : List UInt8} {b58sz : Nat}
    (h : multiaddrEncodingBase58Encode data b58sz = .ok (some text)) : data.head? ≠ some 0 := by
  unfold multiaddrEncodingBase58Encode at h
  dsimp only at h
  split at h
  · cases h
  · obtain ⟨hzero, -⟩ := require_bind_eq_ok.1 h
    intro h0
    cases data with
    | nil => cases h0
    | cons b data =>
      obtain rfl : b = 0 := Option.some.inj h0
      rw [List.takeWhile_cons] at hzero
      cases hzero

/-- the digits of an id that was read -/
theorem digits_of_base58Encode {payload text : List UInt8}
    (h : multiaddrEncodingBase58Encode payload (2 * payload.length) = .ok (some text)) :
    ∃ ds : List Nat, (∀ d ∈ ds, d < 58) ∧ ds ≠ [] ∧ ds.head? ≠ some 0 ∧
      text = ds.map base58Char ∧ byteSize (ofDigits 58 ds) = payload.length ∧
      numberBytes (ofDigits 58 ds) = payload := by
  have hhead := head_of_base58Encode h
  obtain ⟨ds, hds, h0, hvalue, hencode⟩ := @base58Encode_eq payload hhead (2 * payload.length)
  rw [hencode] at h
  have hroom : ¬ 2 * payload.length ≤ ds.length := by
    intro hle
    rw [if_pos hle] at h
    cases h
  rw [if_neg hroom] at h
  have hne : payload ≠ [] := by
    rintro rfl
    exact hroom (Nat.zero_le _)
  have hsize : byteSize (ofDigits 58 ds) = payload.length := by
    rw [hvalue, byteSize_bytesValue hne hhead]
  refine ⟨ds, hds, ?_, h0, (Option.some.inj (Except.ok.inj h)).symm, hsize, ?_⟩
  · rintro rfl
    have hzero : byteSize (ofDigits 58 []) = 0 := by decide
    have hpos := List.length_pos_iff.2 hne
    omega
  · rw [hvalue, numberBytes_bytesValue hne hhead]

/-- **an id that was read, to bytes again**: as many as before, and the same ones only when the
id is plain -/
theorem ipfsStringToBytes_encoded {payload text : List UInt8} (hshort : payload.length ≤ 63)
    (h : multiaddrEncodingBase58Encode payload (2 * payload.length) = .ok (some text)) :
    ∃ out hex, ipfsStringToBytes text = .ok (some (hex, 2 * payload.length + 3)) ∧
      out.length = payload.length ∧ Spells hex (sizeByte (2 * payload.length) :: out) ∧
      (out = payload → ∃ id : Base58Id, id.Plain ∧ id.text = text ∧ id.bytes = payload) := by
  obtain ⟨ds, hds, hne, h0, rfl, hsize, hnumber⟩ := digits_of_base58Encode h
  obtain ⟨out, hex, hconv, hout, hspells⟩ := ipfsStringToBytes_map hds h0 (by omega)
  have hle := byteSize_ofDigits_le hds
  rw [hsize] at hconv hspells
  refine ⟨out, hex, hconv, ?_, hspells, ?_⟩
  · rw [hout, List.length_take, valueBytes_length, Nat.min_eq_left hle, hsize]
  · intro heq
    have hfull := full_of_take_eq hle (ofDigits_pos hne h0) (by rw [← hout, heq, hnumber])
    obtain ⟨hplain, hbytes⟩ := plain_idOfDigits hds hne h0 hfull (by omega)
    exact ⟨idOfDigits ds hds hne, hplain, rfl, by rw [hbytes, hnumber]⟩

/-- such an id has no slash in it, and is not empty -/
theorem word_of_base58Encode {payload text : List UInt8}
    (h : multiaddrEncodingBase58Encode payload (2 * payload.length) = .ok (some text)) :
    text ≠ [] ∧ 47 ∉ text := by
  obtain ⟨ds, -, hne, -, rfl, -, -⟩ := digits_of_base58Encode h
  refine ⟨fun hnil => hne (List.map_eq_nil_iff.1 hnil), fun hmem => ?_⟩
  obtain ⟨d, -, hd⟩ := List.mem_map.1 hmem
  exact base58Char_ne_slash d hd

end

end Libp2p
