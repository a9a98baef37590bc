import Libipfs.Protobuf.Encode

/-!
# Varints and tags by themselves

How long an encoding is, what a decoder makes of a part of one, and which field numbers a tag can
hold.  A field number is an `int`, of which three bits are lost when it is shifted.

* `varintEncodingLength`   the table of lengths (`varintEncodingLength_eq`);
* `varintDecode_of_continued`   an encoding that breaks off ends in the assertion;
* `fieldTag`               the number and the type of a field, in one `unsigned int`;
* `tagComesBack_iff`       the field numbers of 29 bits are read back;
* `varintCodec_iff`        **varints and tags come back**, and no part of a varint is ever reported.
-/

namespace Libp2p
open CSem

/-! ## the length of an encoding -/

def varintEncodingLength (n : Nat) : Nat :=
  if n < 128 then 1
  else if n < 16384 then 2
  else if n < 2097152 then 3
  else if n < 268435456 then 4
  else if n < 34359738368 then 5
  else if n < 4398046511104 then 6
  else if n < 562949953421312 then 7
  else if n < 72057594037927936 then 8
  else if n < 9223372036854775808 then 9
  else 10

section
variable {n k i j acc room : Nat} {p out : List UInt8} {len : Int}

theorem varintBytes_length_le_iff (hn : n < 2 ^ 64) :
    (varintBytes n).length ≤ j + 1 ↔ n < 128 ^ (j + 1) := by
  constructor
  · intro h
    have hlt := varintValue_lt (varintBytes n)
    rw [varintBytes, varintValue_varintBytesFrom (lt_trans hn (by norm_num))] at hlt
    exact lt_of_lt_of_le hlt (Nat.pow_le_pow_right (by norm_num) h)
  · exact varintBytes_length_le_of_lt

/-- **the table** holds the lengths -/
theorem varintEncodingLength_eq (hn : n < 2 ^ 64) :
    varintEncodingLength n = (varintBytes n).length := by
  have hpos := varintBytes_length_pos n
  have hten := varintBytes_length_le n
  have h1 := @varintBytes_length_le_iff n 0 hn
  have h2 := @varintBytes_length_le_iff n 1 hn
  have h3 := @varintBytes_length_le_iff n 2 hn
  have h4 := @varintBytes_length_le_iff n 3 hn
  have h5 := @varintBytes_length_le_iff n 4 hn
  have h6 := @varintBytes_length_le_iff n 5 hn
  have h7 := @varintBytes_length_le_iff n 6 hn
  have h8 := @varintBytes_length_le_iff n 7 hn
  have h9 := @varintBytes_length_le_iff n 8 hn
  norm_num at h1 h2 h3 h4 h5 h6 h7 h8 h9
  unfold varintEncodingLength
  split_ifs <;> omega

/-! ## a part of an encoding -/

/-- what is written by `varint_encode`, but for some of its last bytes -/
def VarintPrefix (p : List UInt8) (n : UInt64) : Prop :=
  ∃ room out, varintEncode n.toNat room = .ok out ∧ p <+: out ∧ p ≠ out

/-- nothing at all is a part of every encoding -/
theorem varintPrefix_nil (n : UInt64) : VarintPrefix [] n := by
  have hpos := varintBytes_length_pos n.toNat
  have hencode := varintEncode_of_le n.toNat_lt (varintBytes_length_le n.toNat) (by omega)
  refine ⟨10, varintBytes n.toNat, hencode, List.nil_prefix, ?_⟩
  exact (List.ne_nil_of_length_pos hpos).symm

/-- every byte but the last says that another one follows -/
theorem continued_of_part (h : p <+: varintBytesFrom k n) (hne : p ≠ varintBytesFrom k n) :
    ∀ b ∈ p, 128 ≤ b.toNat := by
  induction k generalizing n p with
  | zero =>
    have hnil : p = [] := List.prefix_nil.1 h
    exact absurd hnil hne
  | succ k ih =>
    rw [varintBytesFrom_succ] at h hne
    cases p with
    | nil => exact fun b hb => absurd hb List.not_mem_nil
    | cons c p =>
      by_cases hn : n < 128
      · rw [if_pos hn] at h hne
        obtain ⟨rfl, hp⟩ := List.cons_prefix_cons.1 h
        rw [List.prefix_nil.1 hp] at hne
        exact absurd rfl hne
      · rw [if_neg hn] at h hne
        obtain ⟨rfl, hp⟩ := List.cons_prefix_cons.1 h
        refine List.forall_mem_cons.2 ⟨?_, ih hp fun heq => hne (by rw [heq])⟩
        rw [UInt8.toNat_ofNat']
        omega

/-- the assertion behind the last byte that is there -/
theorem varintDecodeFrom_of_continued (hp : ∀ b ∈ p, 128 ≤ b.toNat) (hne : p ≠ [])
    (hlen : len = (i + p.length : Nat)) (hten : i + p.length ≤ 10) :
    varintDecodeFrom len i acc p = .error .assertion := by
  induction p generalizing i acc with
  | nil => exact absurd rfl hne
  | cons b p ih =>
    obtain ⟨hb, hp⟩ := List.forall_mem_cons.1 hp
    rw [List.length_cons] at hlen hten
    rw [varintDecodeFrom, require_pos (by omega), ok_bind]
    dsimp only
    rw [if_neg (by omega)]
    cases p with
    | nil =>
      rw [List.length_nil] at hlen
      rw [require_neg (by omega), error_bind]
    | cons c p =>
      rw [List.length_cons] at hlen hten
      rw [require_pos (by omega), ok_bind]
      exact ih hp (List.cons_ne_nil _ _) (by rw [List.length_cons]; omega)
        (by rw [List.length_cons]; omega)

/-- **an encoding that breaks off**: the first byte is read even where there is none, and behind
any other the assertion fails -/
theorem varintDecode_of_part {n : UInt64} (h : VarintPrefix p n) :
    varintDecode p.length p = .error (if p = [] then .outOfBounds else .assertion) := by
  obtain ⟨room, out, hout, hp, hne⟩ := h
  obtain ⟨rfl, -⟩ := varintEncode_ok hout
  by_cases hnil : p = []
  · rw [if_pos hnil, hnil]
    rfl
  · have hle := varintBytes_length_le n.toNat
    have hprefix := hp.length_le
    rw [if_neg hnil]
    refine varintDecodeFrom_of_continued (continued_of_part hp hne) hnil ?_ (by omega)
    rw [Nat.zero_add]

theorem not_safe_varintDecode_of_part {n : UInt64} (h : VarintPrefix p n) :
    ¬ Safe (varintDecode p.length p) := by
  rw [varintDecode_of_part h]
  exact not_safe_error _

end

/-! ## tags -/

/-- `field_number << 3 | field_type`, in an `unsigned int` -/
def fieldTag (fieldNumber : Int) (fieldType : WireType) : Nat :=
  (fieldNumber * 8 % 2 ^ 32).toNat + fieldType.num

/-- `protobuf_encode_varint`, with whatever field number -/
def protobufEncodeVarintAt (fieldNumber : Int) (fieldType : WireType) (incoming room : Nat) :
    Exec (List UInt8) :=
  encodeVarintField (fieldTag fieldNumber fieldType) incoming room

/-- `protobuf_encode_length_delimited`, with whatever field number -/
def protobufEncodeLengthDelimitedAt (fieldNumber : Int) (fieldType : WireType)
    (incoming : List UInt8) (room : Nat) : Exec (List UInt8) :=
  encodeBytesField (fieldTag fieldNumber fieldType) incoming room

/-- what an encoder writes for a field of this number and type -/
inductive FieldWritten (fieldNumber : Int) (fieldType : WireType) (out : List UInt8) : Prop
  | varint (incoming : UInt64) (room : Nat)
      (h : protobufEncodeVarintAt fieldNumber fieldType incoming.toNat room = .ok out)
  | lengthDelimited (incoming : List UInt8) (room : Nat)
      (h : protobufEncodeLengthDelimitedAt fieldNumber fieldType incoming room = .ok out)
  | string (incoming : List UInt8) (room : Nat)
      (h : protobufEncodeLengthDelimitedAt fieldNumber fieldType (cString incoming) room = .ok out)

/-- the number and the type are read from whatever was written, and whatever stands behind it -/
def TagComesBack (fieldNumber : Int) (fieldType : WireType) : Prop :=
  ∀ out, FieldWritten fieldNumber fieldType out → ∀ (rest : List UInt8) (len : Int),
    out.length ≤ len → ∃ bytesRead, protobufDecodeFieldAndType len (out ++ rest) =
      .ok { fieldNo := fieldNumber, fieldType := fieldType.num, bytesRead := bytesRead }

section
variable {fieldNumber : Int} {fieldType : WireType} {out rest : List UInt8} {len : Int} {room : Nat}

theorem fieldTag_lt (fieldNumber : Int) (fieldType : WireType) :
    fieldTag fieldNumber fieldType < 2 ^ 32 := by
  have htype := fieldType.num_lt
  unfold fieldTag
  omega

theorem fieldTag_natCast {n : Nat} (hn : n < 2 ^ 29) (fieldType : WireType) :
    fieldTag n fieldType = n * 8 + fieldType.num := by
  unfold fieldTag
  omega

/-- **the field numbers of the repository** are written as by the encoders that take no other -/
theorem protobufEncodeAt_natCast {n : Nat} (hn : n < 2 ^ 29) (fieldType : WireType) :
    protobufEncodeVarintAt n fieldType = protobufEncodeVarint n fieldType ∧
      protobufEncodeLengthDelimitedAt n fieldType = protobufEncodeLengthDelimited n fieldType := by
  unfold protobufEncodeVarintAt protobufEncodeLengthDelimitedAt
  rw [fieldTag_natCast hn]
  exact ⟨rfl, rfl⟩

/-- what is written begins with the tag -/
theorem FieldWritten.tag (h : FieldWritten fieldNumber fieldType out) :
    varintBytes (fieldTag fieldNumber fieldType) <+: out := by
  have hdelimited : ∀ incoming room,
      protobufEncodeLengthDelimitedAt fieldNumber fieldType incoming room = .ok out →
        varintBytes (fieldTag fieldNumber fieldType) <+: out := by
    intro incoming room h
    unfold protobufEncodeLengthDelimitedAt encodeBytesField at h
    obtain ⟨field, hfield, h⟩ := bind_eq_ok.1 h
    obtain ⟨size, -, h⟩ := bind_eq_ok.1 h
    obtain ⟨-, h⟩ := require_bind_eq_ok.1 h
    cases h
    rw [← (varintEncode_ok hfield).1, List.append_assoc]
    exact List.prefix_append _ _
  cases h with
  | varint incoming room h =>
    unfold protobufEncodeVarintAt encodeVarintField at h
    obtain ⟨field, hfield, h⟩ := bind_eq_ok.1 h
    obtain ⟨value, -, h⟩ := bind_eq_ok.1 h
    cases h
    rw [← (varintEncode_ok hfield).1]
    exact List.prefix_append _ _
  | lengthDelimited incoming room h => exact hdelimited incoming room h
  | string incoming room h => exact hdelimited (cString incoming) room h

/-- **what is read**: the field number, but for its first three bits -/
theorem protobufDecodeFieldAndType_fieldTag (fieldNumber : Int) (fieldType : WireType)
    (rest : List UInt8) (hlen : (varintBytes (fieldTag fieldNumber fieldType)).length ≤ len) :
    protobufDecodeFieldAndType len (varintBytes (fieldTag fieldNumber fieldType) ++ rest) =
      .ok
        { fieldNo := fieldNumber % 2 ^ 29
          fieldType := fieldType.num
          bytesRead := (varintBytes (fieldTag fieldNumber fieldType)).length } := by
  have htype := fieldType.num_lt
  have hlt := fieldTag_lt fieldNumber fieldType
  have hnumber : ((fieldTag fieldNumber fieldType / 8 : Nat) : Int) = fieldNumber % 2 ^ 29 := by
    unfold fieldTag
    omega
  have hvalue : ((fieldTag fieldNumber fieldType : Nat) : Int) - fieldNumber % 2 ^ 29 * 8 =
      fieldType.num := by
    unfold fieldTag
    omega
  refine protobufDecodeFieldAndType_eq_ok.2 ⟨_, _, varintDecode_varintBytes (by omega)
    (varintFits_of_le hlen), ?_⟩
  have hint : toInt32 (fieldNumber % 2 ^ 29) = fieldNumber % 2 ^ 29 :=
    toInt32_of_lt (by omega) (by omega)
  have htypeInt : toInt32 (fieldType.num : Int) = fieldType.num := toInt32_of_lt (by omega) (by omega)
  rw [hnumber, hint, hvalue, htypeInt]

/-- **a tag comes back** when the field number has 29 bits -/
theorem tagComesBack_iff : TagComesBack fieldNumber fieldType ↔
    0 ≤ fieldNumber ∧ fieldNumber < 2 ^ 29 := by
  have hdecode : ∀ out, FieldWritten fieldNumber fieldType out → ∀ (rest : List UInt8) (len : Int),
      out.length ≤ len → ∃ bytesRead, protobufDecodeFieldAndType len (out ++ rest) =
        .ok { fieldNo := fieldNumber % 2 ^ 29, fieldType := fieldType.num, bytesRead := bytesRead } := by
    intro out hout rest len hlen
    obtain ⟨more, rfl⟩ := hout.tag
    rw [List.length_append] at hlen
    rw [List.append_assoc]
    exact ⟨_, protobufDecodeFieldAndType_fieldTag fieldNumber fieldType _ (by omega)⟩
  constructor
  · intro h
    -- a field that is written in any case
    have hwritten : FieldWritten fieldNumber fieldType
        (varintBytes (fieldTag fieldNumber fieldType) ++ varintBytes 0) := by
      have hlt := fieldTag_lt fieldNumber fieldType
      have hten := varintBytes_length_le (fieldTag fieldNumber fieldType)
      have hzero := varintBytes_length_le 0
      refine .varint 0 20 ?_
      unfold protobufEncodeVarintAt encodeVarintField
      rw [varintEncode_of_le (by omega) (by omega) (by norm_num), ok_bind,
        varintEncode_of_le (by decide) (by show (varintBytes 0).length ≤ _; omega) (by omega), ok_bind]
      rfl
    obtain ⟨m, hm⟩ := h _ hwritten [] _ (le_refl _)
    obtain ⟨m', hm'⟩ := hdecode _ hwritten [] _ (le_refl _)
    rw [hm'] at hm
    have hnumber : fieldNumber % 2 ^ 29 = fieldNumber := congrArg Tag.fieldNo (Except.ok.inj hm)
    omega
  · rintro ⟨h0, h29⟩ out hout rest len hlen
    obtain ⟨m, hm⟩ := hdecode out hout rest len hlen
    rw [Int.emod_eq_of_lt h0 h29] at hm
    exact ⟨m, hm⟩

end

/-! ## the codec -/

/-- so many bytes are written as the table says, into every buffer that has them, and they are read
back whatever stands behind them -/
def VarintComesBack (n : UInt64) : Prop :=
  ∀ room, varintEncodingLength n.toNat ≤ room → room < 2 ^ 31 → ∃ out,
    varintEncode n.toNat room = .ok out ∧ out.length = varintEncodingLength n.toNat ∧
    ∀ (rest : List UInt8) (len : Int), out.length ≤ len →
      varintDecode len (out ++ rest) = .ok (n.toNat, out.length)

/-- the decoder comes back from every part of an encoding, neither aborted nor behind its end -/
def PrefixesReported (n : UInt64) : Prop :=
  ∀ p, VarintPrefix p n → Safe (varintDecode p.length p)

theorem varintComesBack (n : UInt64) : VarintComesBack n := by
  intro room hroom hint
  have hn := n.toNat_lt
  have hlength := varintEncodingLength_eq hn
  rw [hlength] at hroom
  refine ⟨varintBytes n.toNat, varintEncode_of_le hn hroom hint, hlength.symm, ?_⟩
  intro rest len hlen
  exact varintDecode_varintBytes hn (varintFits_of_le hlen)

/-- **varints and tags**: every number comes back, no part of an encoding is reported, and the
field numbers of 29 bits come back -/
theorem varintCodec_iff (n : UInt64) (fieldNumber : Int) (fieldType : WireType) :
    VarintComesBack n ∧
    (¬ PrefixesReported n ∧ ∀ p, VarintPrefix p n → ¬ Safe (varintDecode p.length p)) ∧
    (TagComesBack fieldNumber fieldType ↔ 0 ≤ fieldNumber ∧ fieldNumber < 2 ^ 29) := by
  refine ⟨varintComesBack n, ⟨?_, fun p => not_safe_varintDecode_of_part⟩, tagComesBack_iff⟩
  intro h
  have hempty := varintPrefix_nil n
  exact not_safe_varintDecode_of_part hempty (h [] hempty)

/-- the first byte of 300, and nothing of 0 -/
theorem not_prefixesReported : ¬ PrefixesReported 300 ∧ ¬ PrefixesReported 0 := by
  have h300 : VarintPrefix [172] 300 :=
    ⟨2, [172, 2], by decide +kernel, by decide, by decide⟩
  have h0 : VarintPrefix [] 0 := ⟨1, [0], by decide, by decide, by decide⟩
  constructor
  · intro h
    have hsafe := h _ h300
    revert hsafe
    decide
  · intro h
    have hsafe := h _ h0
    revert hsafe
    decide

end Libp2p
