import Libipfs.Lib.Split
import Libipfs.Lib.Words
import Libipfs.Multiaddr.ProtoUtils

/-!
# Adding and removing a component

`multiaddress_decapsulate` turns the slashes of the string into spaces, looks for the name and turns
the spaces back, where it has found the name.  `multiaddress_encapsulate` copies the string into a
buffer that has room for the zero byte if the new component begins with a slash.

* `multiaddressDecapsulate`, `multiaddressEncapsulate`   the two functions;
* `componentsBefore`           the words in front of the first component with a name;
* `CutsAtComponent`            the name is found at a component, behind a text without spaces;
* `decapsulateRight_iff`       **removing a component** is right in that case alone;
* `encapsulateRight_iff`       **adding one and removing it again**;
* `capsules_iff`               both.
-/

set_option linter.unusedVariables false

namespace Libp2p
open CSem

/-! ## the two functions -/

structure MultiAddress where
  string : List UInt8
  bytes : List UInt8
  deriving DecidableEq, Repr

/-- -1 when it is not found -/
def strpos (haystack needle : List UInt8) : Int :=
  match findSub needle haystack with
  | none => -1
  | some p => toInt32 p

def slashToSpace (c : UInt8) : UInt8 := if c = 47 then 32 else c

def spaceToSlash (c : UInt8) : UInt8 := if c = 32 then 47 else c

/-- the characters at places below `sz`, which is an `int` -/
def replaceUpTo (sz : Int) (f : UInt8 → UInt8) (text : List UInt8) : List UInt8 :=
  (text.take sz.toNat).map f ++ text.drop sz.toNat

/-- what is returned, and the address if it has not been freed -/
def multiaddressDecapsulate (result : MultiAddress) (src : List UInt8) :
    Exec (Bool × Option MultiAddress) := do
  let sz := toInt32 result.string.length
  let procstr := replaceUpTo sz slashToSpace result.string
  let pos := strpos procstr src
  if pos ≠ -1 then do
    require .outOfBounds (0 ≤ pos)
    -- zeros from there on, if it is in front of the end
    let procstr := if pos < sz then procstr.take pos.toNat else procstr
    let string := replaceUpTo sz spaceToSlash procstr
    match ← stringToBytes string (string.length + 1) with
    | none => .ok (false, none)
    | some bytes => .ok (true, some { string := string, bytes := bytes })
  else .ok (false, some { result with string := procstr })

/-- what is returned, and the address if it has not been freed -/
def multiaddressEncapsulate (result : MultiAddress) (string : List UInt8) :
    Exec (Bool × Option MultiAddress) := do
  let size := if string.head? = some 47 then result.string.length + 1 else result.string.length
  let exstr ← strcpy size result.string
  let room := string.length + exstr.length + 1
  let longer ← strcpy room exstr
  let longer ← strcat room longer (if string.head? = some 47 then string.drop 1 else string)
  match ← stringToBytes longer (longer.length + 1) with
  | none => .ok (false, none)
  | some bytes => .ok (true, some { string := longer, bytes := bytes })

/-! ## addresses and names -/

/-- what `multiaddress_new_from_string` makes of a string; its length is an `int` -/
structure ValidAddress where
  string : List UInt8
  bytes : List UInt8
  consistent : stringToBytes string string.length = .ok (some bytes)
  noZero : 0 ∉ string
  short : string.length < 2 ^ 31

def ValidAddress.address (a : ValidAddress) : MultiAddress := ⟨a.string, a.bytes⟩

/-- the name of a component -/
structure ComponentName where
  name : List UInt8
  nonempty : name ≠ []
  noSlash : 47 ∉ name
  noSpace : 32 ∉ name
  noZero : 0 ∉ name

/-- with or without a slash in front -/
def ComponentName.text (p : ComponentName) (slash : Bool) : List UInt8 :=
  if slash then 47 :: p.name else p.name

/-- the words in front of the first component with this name, every other word being one -/
def componentsBefore (name : List UInt8) : List (List UInt8) → Option (List (List UInt8))
  | [] => none
  | [word] => if word = name then some [] else none
  | word :: address :: words =>
    if word = name then some []
    else (componentsBefore name words).map fun before => word :: address :: before

/-- nothing is found and nothing changes; or the components in front are left, with their bytes -/
def DecapsulateRight (a : ValidAddress) (p : ComponentName) (slash : Bool) : Prop :=
  match componentsBefore p.name (strtok 47 a.string) with
  | none => multiaddressDecapsulate a.address (p.text slash) = .ok (false, some a.address)
  | some before => ∃ left : MultiAddress,
      multiaddressDecapsulate a.address (p.text slash) = .ok (true, some left) ∧
      strtok 47 left.string = before ∧
      stringToBytes left.string left.string.length = .ok (some left.bytes)

/-- a component that is added to an address, which ends in a slash and has none of this name: the
name, and nothing or a slash and a value -/
structure Extension (a : ValidAddress) where
  name : ComponentName
  slash : Bool
  tail : List UInt8
  delimited : Delimited 47 tail
  single : (strtok 47 tail).length ≤ 1
  noZero : 0 ∉ tail
  endsInSlash : a.string.getLast? = some 47
  absent : componentsBefore name.name (strtok 47 a.string) = none
  short : a.string.length + (name.name.length + tail.length) < 2 ^ 31

def Extension.text {a : ValidAddress} (e : Extension a) : List UInt8 := e.name.text e.slash ++ e.tail

def Extension.longer {a : ValidAddress} (e : Extension a) : List UInt8 :=
  a.string ++ (e.name.name ++ e.tail)

/-- if the component is added, string and bytes agree, and removing it gives the address back -/
def EncapsulateRight (a : ValidAddress) (e : Extension a) (slash : Bool) : Prop :=
  ∃ ret state, multiaddressEncapsulate a.address e.text = .ok (ret, state) ∧
    (ret = true → ∃ longer : MultiAddress, state = some longer ∧
      stringToBytes longer.string longer.string.length = .ok (some longer.bytes) ∧
      multiaddressDecapsulate longer (e.name.text slash) = .ok (true, some a.address))

/-- the first place where the name occurs at all is that of a component, and there are no spaces in
front of it -/
structure CutsAtComponent (text name front back : List UInt8) : Prop where
  eq : text = front ++ (name ++ back)
  first : findSub name text = some front.length
  slash : front.getLast? = some 47
  delimited : Delimited 47 back
  even : (strtok 47 front).length % 2 = 0
  noSpace : 32 ∉ front

/-! ## words and components -/

section
variable {name : List UInt8} {before words rest : List (List UInt8)}

/-- what is in front of the component, an even number of words -/
theorem componentsBefore_eq_some (h : componentsBefore name words = some before) :
    ∃ rest, words = before ++ name :: rest ∧ before.length % 2 = 0 := by
  fun_induction componentsBefore name words generalizing before with
  | case1 => cases h
  | case2 =>
    cases h
    exact ⟨[], rfl, rfl⟩
  | case3 word hword => cases h
  | case4 address words =>
    cases h
    exact ⟨address :: words, rfl, rfl⟩
  | case5 word address words hword ih =>
    obtain ⟨front, hfront, rfl⟩ := Option.map_eq_some_iff.1 h
    obtain ⟨rest, rfl, heven⟩ := ih hfront
    refine ⟨rest, rfl, ?_⟩
    rw [List.length_cons, List.length_cons]
    omega

/-- a name that is not among an even number of words, and then comes -/
theorem componentsBefore_append (hname : name ∉ before) (heven : before.length % 2 = 0)
    (rest : List (List UInt8)) :
    componentsBefore name (before ++ name :: rest) = some before := by
  fun_induction componentsBefore name before with
  | case1 =>
    cases rest with
    | nil => exact if_pos rfl
    | cons word rest => exact if_pos rfl
  | case2 => cases heven
  | case3 word hword => cases heven
  | case4 address words => exact absurd List.mem_cons_self hname
  | case5 word address words hword ih =>
    rw [List.length_cons, List.length_cons] at heven
    have hlater : name ∉ words := fun h =>
      hname (List.mem_cons_of_mem _ (List.mem_cons_of_mem _ h))
    rw [List.cons_append, List.cons_append, componentsBefore, if_neg hword,
      ih hlater (by omega)]
    rfl

end

/-! ## the bytes of the components in front -/

section
variable {p : Protocol} {address hex text more bytes processed out : List UInt8} {size n : Nat}
  {before rest : List (List UInt8)}

theorem even_intToHex (v : Nat) : (intToHex v).length % 2 = 0 := by
  rw [(spells_intToHex v).length, Nat.mul_mod_right]

theorem even_ip4StringToBytes (h : ip4StringToBytes address = .ok (some (hex, size))) :
    hex.length % 2 = 0 := by
  unfold ip4StringToBytes at h
  obtain ⟨testip, -, h⟩ := bind_eq_ok.1 h
  obtain ⟨valid, -, h⟩ := bind_eq_ok.1 h
  split at h
  · obtain ⟨iip, -, h⟩ := bind_eq_ok.1 h
    cases h
    exact even_intToHex iip
  · cases h

/-- a port has four digits, which the buffer has no room to exceed -/
theorem even_portStringToBytes (h : portStringToBytes address = .ok (some (hex, size))) :
    hex.length % 2 = 0 := by
  unfold portStringToBytes at h
  obtain ⟨port, -, h⟩ := bind_eq_ok.1 h
  split at h
  · obtain ⟨woot, hwoot, h⟩ := bind_eq_ok.1 h
    obtain ⟨hfits, rfl⟩ := strcat_eq_ok.1 hwoot
    rw [List.length_nil, Nat.zero_add] at hfits
    rw [Except.ok.injEq, Option.some_inj, Prod.mk.injEq] at h
    obtain ⟨rfl, -⟩ := h
    rw [List.length_leftpad, List.nil_append, Nat.max_eq_left (by omega)]
  · cases h

theorem even_ipfsStringToBytes (h : ipfsStringToBytes address = .ok (some (hex, size))) :
    hex.length % 2 = 0 := by
  unfold ipfsStringToBytes at h
  obtain ⟨decoded, -, h⟩ := bind_eq_ok.1 h
  cases decoded with
  | none => cases h
  | some pair =>
    obtain ⟨-, h⟩ := require_bind_eq_ok.1 h
    obtain ⟨encoded, hencoded, h⟩ := bind_eq_ok.1 h
    obtain ⟨-, rfl⟩ := strcat_eq_ok.1 hencoded
    cases h
    rw [List.length_append, (spells_numToHexVar32 _).length, List.nil_append,
      (spells_varToHex _).length]
    omega

/-- an address has an even number of digits -/
theorem even_addressStringToBytes (h : addressStringToBytes p address = .ok (some (hex, size))) :
    hex.length % 2 = 0 := by
  unfold addressStringToBytes at h
  split at h
  · exact even_ip4StringToBytes h
  · exact even_portStringToBytes h
  · exact even_portStringToBytes h
  · exact even_ipfsStringToBytes h
  · cases h

/-- **the words of whole components** are read when those behind them are -/
theorem stringToBytesLoop_front
    (h : stringToBytesLoop (before ++ rest) none processed false = .ok (some out))
    (heven : before.length % 2 = 0) (hprocessed : processed.length % 2 = 0) :
    ∃ front, stringToBytesLoop before none processed false = .ok (some front) ∧
      front.length % 2 = 0 := by
  obtain ⟨n, hn⟩ : ∃ n, before.length = 2 * n := ⟨before.length / 2, by omega⟩
  clear heven
  induction n generalizing before processed with
  | zero =>
    obtain rfl := List.eq_nil_of_length_eq_zero hn
    exact ⟨processed, rfl, hprocessed⟩
  | succ n ih =>
    obtain ⟨word, address, before, rfl⟩ : ∃ word address words, before = word :: address :: words := by
      cases before with
      | nil => rw [List.length_nil] at hn; omega
      | cons word words =>
        cases words with
        | nil => rw [List.length_singleton] at hn; omega
        | cons address words => exact ⟨word, address, words, rfl⟩
    rw [List.length_cons, List.length_cons] at hn
    rw [List.cons_append, List.cons_append, stringToBytesLoop] at h
    rw [stringToBytesLoop]
    cases hp : protoWithName word with
    | none =>
      rw [hp] at h
      cases h
    | some p =>
      rw [hp] at h
      dsimp only at h ⊢
      obtain ⟨next, hnext, h⟩ := bind_eq_ok.1 h
      obtain ⟨hroom, rfl⟩ := strcat_eq_ok.1 hnext
      rw [strcat_pos hroom, ok_bind, stringToBytesLoop]
      rw [stringToBytesLoop] at h
      obtain ⟨converted, hconverted, h⟩ := bind_eq_ok.1 h
      rw [hconverted, ok_bind]
      cases converted with
      | none => exact absurd h (stringToBytesLoop_malf _ _ _)
      | some pair =>
        obtain ⟨hex, size⟩ := pair
        obtain ⟨hsize, h⟩ := require_bind_eq_ok.1 h
        have hhex := even_addressStringToBytes hconverted
        have hcode := even_intToHex p.deccode
        dsimp only
        rw [require_pos hsize, ok_bind]
        refine ih h ?_ (by omega)
        rw [List.length_append, List.length_append]
        omega

/-- an even number of characters is read, whatever they are -/
theorem exists_hexToVar (h : text.length % 2 = 0) : ∃ bytes, hexToVar text = .ok bytes := by
  fun_induction hexToVar text with
  | case1 => exact ⟨[], rfl⟩
  | case2 c => cases h
  | case3 c d text ih =>
    rw [List.length_cons, List.length_cons] at h
    obtain ⟨rest, hrest⟩ := ih (by omega)
    obtain ⟨value, length, hread⟩ := exists_strtol 16 [c, d]
    have hpair : strtol 16 [c, d, 0] = .ok (value, length) := hread
    refine ⟨UInt8.ofNat (value % 256).toNat :: rest, ?_⟩
    rw [hpair, ok_bind]
    dsimp only
    rw [hrest, ok_bind]

/-- a buffer that is larger makes no difference -/
theorem stringToBytes_of_le (h : text.length ≤ n) :
    stringToBytes text n = stringToBytes text text.length := by
  unfold stringToBytes
  rw [strcpy_pos (Nat.lt_succ_of_le h), strcpy_pos (Nat.lt_succ_self _)]

theorem stringToBytes_eq (h : text.head? = some 47) : stringToBytes text text.length =
    stringToBytesLoop (strtok 47 text) none [] false >>= fun processed =>
      match processed with
      | none => .ok none
      | some processed => hexToVar processed >>= fun bytes => .ok (some bytes) := by
  unfold stringToBytes
  rw [if_neg (not_not_intro h), strcpy_pos (Nat.lt_succ_self _)]
  refine (ok_bind _).trans (bind_congr fun processed => ?_)
  cases processed with
  | none => rfl
  | some processed => rfl

theorem head_of_stringToBytes (h : stringToBytes text n = .ok (some bytes)) :
    text.head? = some 47 := by
  by_contra hhead
  rw [stringToBytes, if_pos hhead] at h
  cases h

/-- **the whole components in front** of a text that is read are read too -/
theorem stringToBytes_front (h : stringToBytes text text.length = .ok (some bytes))
    (hwords : strtok 47 text = before ++ rest) (heven : before.length % 2 = 0)
    (hmore : strtok 47 more = before) (hhead : more.head? = some 47) :
    ∃ front, stringToBytes more more.length = .ok (some front) := by
  rw [stringToBytes_eq (head_of_stringToBytes h), hwords] at h
  obtain ⟨processed, hloop, h⟩ := bind_eq_ok.1 h
  cases processed with
  | none => cases h
  | some processed =>
    obtain ⟨digits, hdigits, hlen⟩ := stringToBytesLoop_front hloop heven rfl
    obtain ⟨front, hfront⟩ := exists_hexToVar hlen
    refine ⟨front, ?_⟩
    rw [stringToBytes_eq hhead, hmore, hdigits, ok_bind]
    dsimp only
    rw [hfront, ok_bind]

end

/-! ## finding a name -/

section
variable {a : ValidAddress} {p : ComponentName} {slash : Bool} {text name front back : List UInt8}
  {k n : Nat}

/-- what becomes of a character that is changed and changed back -/
def slashedChar (c : UInt8) : UInt8 := spaceToSlash (slashToSpace c)

theorem slashedChar_eq_self {c : UInt8} : slashedChar c = c ↔ c ≠ 32 := by
  unfold slashedChar spaceToSlash slashToSpace
  by_cases h47 : c = 47
  · subst h47
    exact iff_of_true rfl (by decide)
  · rw [if_neg h47]
    by_cases h32 : c = 32
    · subst h32
      exact iff_of_false (by decide) (not_not_intro rfl)
    · rw [if_neg h32]
      exact iff_of_true rfl h32

/-- a text without spaces comes back -/
theorem map_slashedChar_eq_self : text.map slashedChar = text ↔ 32 ∉ text := by
  have heach := @List.map_inj_left _ _ text slashedChar id
  rw [List.map_id] at heach
  rw [heach]
  constructor
  · exact fun h hmem => slashedChar_eq_self.1 (h 32 hmem) rfl
  · exact fun h c hc => slashedChar_eq_self.2 fun e => h (e ▸ hc)

/-- each space is one more slash -/
theorem countP_map_slashedChar (text : List UInt8) :
    (text.map slashedChar).countP (· ≠ 47) + text.count 32 = text.countP (· ≠ 47) := by
  induction text with
  | nil => rfl
  | cons c text ih =>
    rw [List.map_cons, List.countP_cons, List.countP_cons, List.count_cons, ← ih]
    by_cases h32 : c = 32
    · subst h32
      have hslash : slashedChar 32 = 47 := rfl
      rw [hslash, if_neg (by decide), if_pos (by decide), if_pos (by decide)]
      omega
    · rw [slashedChar_eq_self.2 h32, if_neg (show ¬ (c == 32) = true by simpa using h32)]
      omega

theorem replaceUpTo_length {f : UInt8 → UInt8} :
    replaceUpTo (text.length : Nat) f text = text.map f := by
  unfold replaceUpTo
  rw [Int.toNat_natCast, List.take_length, List.drop_length, List.append_nil]

theorem replaceUpTo_of_le {f : UInt8 → UInt8} (h : text.length ≤ n) :
    replaceUpTo (n : Nat) f text = text.map f := by
  unfold replaceUpTo
  rw [Int.toNat_natCast, List.take_of_length_le h, List.drop_of_length_le h, List.append_nil]

theorem strpos_none (h : findSub name text = none) : strpos text name = -1 := by
  unfold strpos
  rw [h]

theorem strpos_some (h : findSub name text = some k) (hk : k < 2 ^ 31) : strpos text name = k := by
  unfold strpos
  rw [h]
  exact toInt32_natCast_of_lt hk

/-- **removing**, for strings whose length is an `int` -/
theorem multiaddressDecapsulate_eq {result : MultiAddress} (hshort : result.string.length < 2 ^ 31)
    (hname : name ≠ []) :
    multiaddressDecapsulate result name =
      match findSub name (result.string.map slashToSpace) with
      | none => .ok (false, some { result with string := result.string.map slashToSpace })
      | some k =>
        stringToBytes ((result.string.take k).map slashedChar)
            ((result.string.take k).map slashedChar).length >>= fun bytes =>
          .ok (bytes.isSome, bytes.map fun bytes =>
            { string := (result.string.take k).map slashedChar, bytes := bytes }) := by
  cases hfind : findSub name (result.string.map slashToSpace) with
  | none =>
    unfold multiaddressDecapsulate
    dsimp only
    rw [toInt32_natCast_of_lt hshort, replaceUpTo_length, strpos_none hfind,
      if_neg (not_not_intro rfl)]
  | some k =>
    have hle := findSub_le hfind
    have hpos := List.length_pos_iff.2 hname
    rw [List.length_map] at hle
    have hcut : (result.string.map slashToSpace).take k = (result.string.take k).map slashToSpace :=
      List.map_take.symm
    have hback : replaceUpTo (result.string.length : Nat) spaceToSlash
        ((result.string.take k).map slashToSpace) = (result.string.take k).map slashedChar := by
      rw [replaceUpTo_of_le (by rw [List.length_map, List.length_take]; omega), List.map_map]
      rfl
    have hne : (k : Int) ≠ -1 := by omega
    have hlt : (k : Int) < (result.string.length : Nat) := by omega
    unfold multiaddressDecapsulate
    dsimp only
    rw [toInt32_natCast_of_lt hshort, replaceUpTo_length, strpos_some hfind (by omega), if_pos hne,
      require_pos (Int.natCast_nonneg k), ok_bind, if_pos hlt, Int.toNat_natCast, hcut, hback,
      stringToBytes_of_le (Nat.le_succ _)]
    apply bind_congr
    intro bytes
    cases bytes with
    | none => rfl
    | some bytes => rfl

/-- a name is where it was when the slashes are spaces -/
theorem prefix_map_slashToSpace (h47 : 47 ∉ name) (h32 : 32 ∉ name) :
    name <+: text.map slashToSpace ↔ name <+: text := by
  induction name generalizing text with
  | nil => exact iff_of_true List.nil_prefix List.nil_prefix
  | cons c name ih =>
    cases text with
    | nil => exact Iff.rfl
    | cons d text =>
      have hchar : c = slashToSpace d ↔ c = d := by
        have hc47 : c ≠ 47 := (List.ne_of_not_mem_cons h47).symm
        have hc32 : c ≠ 32 := (List.ne_of_not_mem_cons h32).symm
        unfold slashToSpace
        by_cases hd : d = 47
        · rw [if_pos hd, hd]
          exact iff_of_false hc32 hc47
        · rw [if_neg hd]
      rw [List.map_cons, List.cons_prefix_cons, List.cons_prefix_cons, hchar,
        ih (List.not_mem_of_not_mem_cons h47) (List.not_mem_of_not_mem_cons h32)]

theorem findSub_map_slashToSpace (hne : name ≠ []) (h47 : 47 ∉ name) (h32 : 32 ∉ name) :
    findSub name (text.map slashToSpace) = findSub name text := by
  induction text with
  | nil => rfl
  | cons c text ih =>
    have hhere := @prefix_map_slashToSpace (c :: text) name h47 h32
    by_cases h : name <+: c :: text
    · rw [findSub_cons_pos h]
      exact findSub_cons_pos (hhere.2 h)
    · rw [findSub_cons_neg h, ← ih]
      exact findSub_cons_neg fun h' => h (hhere.1 h')

/-- **a name with a slash** is not found -/
theorem findSub_slash (text name : List UInt8) :
    findSub (47 :: name) (text.map slashToSpace) = none := by
  rw [findSub_eq_none]
  intro h
  obtain ⟨c, -, hc⟩ := List.mem_map.1 (h.subset List.mem_cons_self)
  unfold slashToSpace at hc
  split at hc
  · cases hc
  · contradiction

/-- the slashes of an address are gone -/
theorem map_slashToSpace_ne (h : text.head? = some 47) : text.map slashToSpace ≠ text := by
  intro heq
  have hhead := congrArg List.head? heq
  rw [List.head?_map, h] at hhead
  cases hhead

/-- an occurrence is not in front of the first -/
theorem le_of_findSub (hne : name ≠ []) (h : findSub name text = some k)
    (hocc : name <+: text.drop n) : k ≤ n := by
  by_contra hlt
  have hlater := findSub_drop h (Nat.le_of_not_le hlt)
  have hhere : findSub name (text.drop n) = some 0 := by
    cases hdrop : text.drop n with
    | nil =>
      rw [hdrop] at hocc
      exact absurd (List.prefix_nil.1 hocc) hne
    | cons c rest =>
      rw [hdrop] at hocc
      exact findSub_cons_pos hocc
  rw [hhere] at hlater
  have hzero := Option.some.inj hlater
  omega

/-- **in front of a text that ends in a slash** a name is found where it is found in that text, or
else behind it -/
theorem findSub_append (hname : 47 ∉ name) (hback : name <+: back)
    (hfront : front = [] ∨ front.getLast? = some 47) (hnot : ¬ name <:+: front) (hne : back ≠ []) :
    findSub name (front ++ back) = some front.length := by
  induction front with
  | nil =>
    cases back with
    | nil => exact absurd rfl hne
    | cons c back => exact findSub_cons_pos hback
  | cons c front ih =>
    have hlast : front = [] ∨ front.getLast? = some 47 := by
      cases front with
      | nil => exact .inl rfl
      | cons d front =>
        rw [List.getLast?_cons_cons] at hfront
        exact .inr (hfront.resolve_left (List.cons_ne_nil _ _))
    have hhere : ¬ name <+: (c :: front) ++ back := by
      intro h
      rcases List.prefix_or_prefix_of_prefix h (List.prefix_append (c :: front) back) with h | h
      · exact hnot h.isInfix
      · -- the name would go over the slash at the end
        have hmem := List.mem_of_getLast? (hfront.resolve_left (List.cons_ne_nil _ _))
        exact hname (h.subset hmem)
    have hrest : ¬ name <:+: front := fun h => hnot (h.trans (List.suffix_cons c front).isInfix)
    rw [List.cons_append] at hhere ⊢
    rw [findSub_cons_neg hhere, ih hlast hrest]
    rfl

theorem infix_of_mem_strtok {delim : UInt8} {word : List UInt8} (h : word ∈ strtok delim text) :
    word <:+: text := by
  obtain ⟨before, rest, hwords⟩ := List.append_of_mem h
  obtain ⟨front, back, rfl, -⟩ := exists_of_strtok hwords
  rw [← List.append_assoc]
  exact List.infix_append front word back

end

/-! ## removing a component -/

section
variable {a : ValidAddress} {p : ComponentName} {front back : List UInt8}

theorem head_string (a : ValidAddress) : a.string.head? = some 47 :=
  head_of_stringToBytes a.consistent

/-- **a name with a slash in front** is never removed, and the slashes of the address are lost -/
theorem not_decapsulateRight_slash (a : ValidAddress) (p : ComponentName) :
    ¬ DecapsulateRight a p true := by
  have hdec : multiaddressDecapsulate a.address (p.text true) =
      .ok (false, some { a.address with string := a.string.map slashToSpace }) := by
    have hshort : a.address.string.length < 2 ^ 31 := a.short
    have heq := multiaddressDecapsulate_eq hshort (List.cons_ne_nil 47 p.name)
    have hnone : findSub (47 :: p.name) (a.address.string.map slashToSpace) = none :=
      findSub_slash _ _
    rw [hnone] at heq
    exact heq
  unfold DecapsulateRight
  intro h
  split at h
  · rw [hdec] at h
    have heq := congrArg MultiAddress.string (Option.some.inj (Prod.mk.inj (Except.ok.inj h)).2)
    exact map_slashToSpace_ne (head_string a) heq
  · obtain ⟨left, h, -⟩ := h
    rw [hdec] at h
    cases h

/-- a name without one, at the place where it is found -/
theorem multiaddressDecapsulate_name (a : ValidAddress) (p : ComponentName) :
    multiaddressDecapsulate a.address p.name =
      match findSub p.name a.string with
      | none => .ok (false, some { a.address with string := a.string.map slashToSpace })
      | some k =>
        stringToBytes ((a.string.take k).map slashedChar)
            ((a.string.take k).map slashedChar).length >>= fun bytes =>
          .ok (bytes.isSome, bytes.map fun bytes =>
            { string := (a.string.take k).map slashedChar, bytes := bytes }) := by
  have hshort : a.address.string.length < 2 ^ 31 := a.short
  have heq := multiaddressDecapsulate_eq hshort p.nonempty
  rw [findSub_map_slashToSpace p.nonempty p.noSlash p.noSpace] at heq
  exact heq

/-- **a component at the first place of its name**, behind a text without spaces, is removed -/
theorem decapsulateRight_of_cuts (h : CutsAtComponent a.string p.name front back) :
    DecapsulateRight a p false := by
  obtain ⟨heq, hfirst, hslash, hback, heven, hspace⟩ := h
  have hwords : strtok 47 a.string = strtok 47 front ++ p.name :: strtok 47 back := by
    rw [heq, strtok_append_of_getLast hslash, strtok_word_delimited p.nonempty p.noSlash hback]
  have htake : a.string.take front.length = front := by
    rw [heq, List.take_left]
  have hname : p.name ∉ strtok 47 front := by
    intro hmem
    have hnot := not_infix_take p.nonempty hfirst
    rw [htake] at hnot
    exact hnot (infix_of_mem_strtok hmem)
  have hhead : front.head? = some 47 := by
    have hstring := head_string a
    cases front with
    | nil => cases hslash
    | cons c front =>
      rw [heq] at hstring
      exact hstring
  obtain ⟨bytes, hbytes⟩ := stringToBytes_front a.consistent hwords heven rfl hhead
  have hdec := multiaddressDecapsulate_name a p
  rw [hfirst] at hdec
  dsimp only at hdec
  rw [htake, map_slashedChar_eq_self.2 hspace, hbytes, ok_bind] at hdec
  unfold DecapsulateRight
  rw [hwords, componentsBefore_append hname heven]
  exact ⟨⟨front, bytes⟩, hdec, rfl, hbytes⟩

/-- what is left of the string, where the removal is right -/
theorem exists_of_decapsulateRight (h : DecapsulateRight a p false) :
    ∃ k before rest, findSub p.name a.string = some k ∧
      strtok 47 a.string = before ++ p.name :: rest ∧ before.length % 2 = 0 ∧
      strtok 47 ((a.string.take k).map slashedChar) = before := by
  have hdec := multiaddressDecapsulate_name a p
  have htext : p.text false = p.name := rfl
  unfold DecapsulateRight at h
  rw [htext, hdec] at h
  cases hfind : findSub p.name a.string with
  | none =>
    rw [hfind] at h
    dsimp only at h
    split at h
    · have heq := congrArg MultiAddress.string (Option.some.inj (Prod.mk.inj (Except.ok.inj h)).2)
      exact absurd heq (map_slashToSpace_ne (head_string a))
    · obtain ⟨left, h, -⟩ := h
      cases h
  | some k =>
    rw [hfind] at h
    dsimp only at h
    split at h
    · obtain ⟨bytes, -, h⟩ := bind_eq_ok.1 h
      cases bytes with
      | none => cases h
      | some bytes => cases h
    · next before hbefore =>
      obtain ⟨left, h, hwords, -⟩ := h
      obtain ⟨bytes, -, h⟩ := bind_eq_ok.1 h
      cases bytes with
      | none => cases h
      | some bytes =>
        cases h
        obtain ⟨rest, hrest, heven⟩ := componentsBefore_eq_some hbefore
        exact ⟨k, before, rest, rfl, hrest, heven, hwords⟩

/-- a text of which a part has the same words: there are slashes behind the part, and no spaces
in it, for each of them would be a slash -/
theorem slashes_of_strtok_eq {k : Nat}
    (h : strtok 47 ((front.take k).map slashedChar) = strtok 47 front) :
    (∀ c ∈ front.drop k, c = 47) ∧ 32 ∉ front.take k := by
  -- the words of both have the same number of characters
  have hcount := congrArg (fun words => words.flatten.length) h
  rw [flatten_strtok, flatten_strtok, ← List.countP_eq_length_filter,
    ← List.countP_eq_length_filter] at hcount
  have hspaces := countP_map_slashedChar (front.take k)
  have hsplit : (front.take k).countP (· ≠ 47) + (front.drop k).countP (· ≠ 47) =
      front.countP (· ≠ 47) := by
    rw [← List.countP_append, List.take_append_drop]
  have hzero : (front.drop k).countP (· ≠ 47) = 0 := by omega
  refine ⟨fun c hc => ?_, List.count_eq_zero.1 (by omega)⟩
  exact not_not.1 fun hne => List.countP_eq_zero.1 hzero c hc (decide_eq_true hne)

/-- **removing a component** -/
theorem decapsulateRight_iff {slash : Bool} : DecapsulateRight a p slash ↔
    slash = false ∧ ∃ front back, CutsAtComponent a.string p.name front back := by
  cases slash with
  | true => exact iff_of_false (not_decapsulateRight_slash a p) fun h => nomatch h.1
  | false =>
    constructor
    swap
    · rintro ⟨-, front, back, h⟩
      exact decapsulateRight_of_cuts h
    intro h
    obtain ⟨k, before, rest, hfirst, hwords, heven, hleft⟩ := exists_of_decapsulateRight h
    obtain ⟨front, back, heq, hfront, -, -, hlast, hback, -⟩ := exists_of_strtok hwords
    have hslash : front.getLast? = some 47 := by
      refine hlast.resolve_left ?_
      rintro rfl
      have hhead := head_string a
      rw [heq, List.nil_append, List.head?_append_of_ne_nil _ p.nonempty] at hhead
      exact p.noSlash (List.mem_of_mem_head? hhead)
    have hocc : p.name <+: a.string.drop front.length := by
      rw [heq, List.drop_left]
      exact List.prefix_append _ _
    have hk := le_of_findSub p.nonempty hfirst hocc
    have htake : a.string.take k = front.take k := by
      rw [heq, List.take_append_of_le_length hk]
    obtain ⟨hslashes, hspace⟩ := slashes_of_strtok_eq (by rw [← htake, hleft, hfront])
    -- the place where the name is found is no slash
    have hall : front.drop k = [] := by
      have hhere := eq_of_findSub (findSub_drop hfirst (Nat.le_refl k))
      rw [Nat.sub_self, List.take_zero, List.nil_append, heq,
        List.drop_append_of_le_length hk] at hhere
      cases hdrop : front.drop k with
      | nil => rfl
      | cons c more =>
        have hc := hslashes c (by rw [hdrop]; exact List.mem_cons_self)
        cases hname : p.name with
        | nil => exact absurd hname p.nonempty
        | cons d name =>
          rw [hdrop, hname, List.cons_append, List.cons_append] at hhere
          have hd : d = 47 := (List.cons.inj hhere).1.symm.trans hc
          exact absurd (by rw [hname, hd]; exact List.mem_cons_self) p.noSlash
    have hlen : k = front.length := Nat.le_antisymm hk (List.drop_eq_nil_iff.1 hall)
    subst hlen
    rw [List.take_length] at hspace
    exact ⟨rfl, front, back, heq, hfirst, hslash, hback, by rw [hfront]; exact heven, hspace⟩

end

/-! ## adding a component -/

section
variable {a : ValidAddress} {e : Extension a} {slash : Bool} {bytes : List UInt8}

/-- **without a slash in front** the string is copied into a buffer without room for its zero -/
theorem multiaddressEncapsulate_bare (h : e.slash = false) :
    multiaddressEncapsulate a.address e.text = .error .overflow := by
  have hhead : ¬ e.text.head? = some 47 := by
    have htext : e.text = e.name.name ++ e.tail := by
      unfold Extension.text ComponentName.text
      rw [h]
      rfl
    rw [htext, List.head?_append_of_ne_nil _ e.name.nonempty]
    exact fun hmem => e.name.noSlash (List.mem_of_mem_head? hmem)
  unfold multiaddressEncapsulate
  dsimp only
  rw [if_neg hhead]
  unfold strcpy strcat
  rw [require_neg (by rw [List.length_nil]; omega)]
  rfl

theorem multiaddressEncapsulate_eq (h : e.slash = true) :
    multiaddressEncapsulate a.address e.text =
      stringToBytes e.longer e.longer.length >>= fun bytes =>
        .ok (bytes.isSome, bytes.map fun bytes => { string := e.longer, bytes := bytes }) := by
  have htext : e.text = 47 :: (e.name.name ++ e.tail) := by
    unfold Extension.text ComponentName.text
    rw [h]
    rfl
  have hstring : a.address.string = a.string := rfl
  unfold multiaddressEncapsulate
  dsimp only
  rw [htext, List.head?_cons, if_pos rfl, if_pos rfl, hstring, strcpy_pos (Nat.lt_succ_self _),
    ok_bind, strcpy_pos (by omega), ok_bind, List.drop_succ_cons, List.drop_zero,
    strcat_pos (by rw [List.length_cons]; omega), ok_bind, stringToBytes_of_le (Nat.le_succ _)]
  apply bind_congr
  intro bytes
  cases bytes with
  | none => rfl
  | some bytes => rfl

/-- **the removal of what was added**: the name is not in the address, which has no spaces -/
theorem multiaddressDecapsulate_longer :
    multiaddressDecapsulate ⟨e.longer, bytes⟩ (e.name.text slash) = .ok (true, some a.address) ↔
      slash = false ∧ ¬ e.name.name <:+: a.string ∧ 32 ∉ a.string := by
  have hshort : (MultiAddress.mk e.longer bytes).string.length < 2 ^ 31 := by
    show e.longer.length < 2 ^ 31
    unfold Extension.longer
    rw [List.length_append, List.length_append]
    exact e.short
  cases slash with
  | true =>
    have heq := multiaddressDecapsulate_eq hshort (List.cons_ne_nil 47 e.name.name)
    rw [findSub_slash] at heq
    refine iff_of_false (fun h => ?_) fun h => nomatch h.1
    have hnone := heq.symm.trans h
    cases hnone
  | false =>
    have heq := multiaddressDecapsulate_eq hshort e.name.nonempty
    rw [findSub_map_slashToSpace e.name.nonempty e.name.noSlash e.name.noSpace] at heq
    have htext : e.name.text false = e.name.name := rfl
    rw [htext, heq]
    constructor
    · intro h
      refine ⟨rfl, ?_⟩
      cases hfind : findSub e.name.name e.longer with
      | none =>
        rw [hfind] at h
        cases h
      | some k =>
        rw [hfind] at h
        obtain ⟨read, -, h⟩ := bind_eq_ok.1 h
        cases read with
        | none => cases h
        | some read =>
          have hleft : (e.longer.take k).map slashedChar = a.string :=
            congrArg MultiAddress.string (Option.some.inj (Prod.mk.inj (Except.ok.inj h)).2)
          have hlen := congrArg List.length hleft
          have hle := findSub_le hfind
          rw [List.length_map, List.length_take] at hlen
          obtain rfl : k = a.string.length := by omega
          have htake : e.longer.take a.string.length = a.string := List.take_left
          have hnot := not_infix_take e.name.nonempty hfind
          rw [htake] at hleft hnot
          exact ⟨hnot, map_slashedChar_eq_self.1 hleft⟩
    · rintro ⟨-, hnot, hspace⟩
      have hfind : findSub e.name.name e.longer = some a.string.length :=
        findSub_append e.name.noSlash (List.prefix_append _ _) (.inr e.endsInSlash) hnot
          (List.append_ne_nil_of_left_ne_nil e.name.nonempty _)
      have htake : e.longer.take a.string.length = a.string := List.take_left
      rw [hfind]
      dsimp only
      rw [htake, map_slashedChar_eq_self.2 hspace, a.consistent, ok_bind]
      rfl

/-- **adding a component and removing it again** -/
theorem encapsulateRight_iff : EncapsulateRight a e slash ↔
    e.slash = true ∧ ∃ read, stringToBytes e.longer e.longer.length = .ok read ∧
      (read ≠ none → slash = false ∧ ¬ e.name.name <:+: a.string ∧ 32 ∉ a.string) := by
  unfold EncapsulateRight
  cases hslash : e.slash with
  | false =>
    rw [multiaddressEncapsulate_bare hslash]
    refine iff_of_false ?_ fun h => nomatch h.1
    rintro ⟨ret, state, h, -⟩
    cases h
  | true =>
    rw [multiaddressEncapsulate_eq hslash]
    constructor
    · rintro ⟨ret, state, h, hright⟩
      obtain ⟨read, hread, h⟩ := bind_eq_ok.1 h
      refine ⟨rfl, read, hread, fun hne => ?_⟩
      cases read with
      | none => exact absurd rfl hne
      | some bytes =>
        cases h
        obtain ⟨longer, hlonger, -, hback⟩ := hright rfl
        cases hlonger
        exact multiaddressDecapsulate_longer.1 hback
    · rintro ⟨-, read, hread, hright⟩
      refine ⟨read.isSome, _, by rw [hread, ok_bind], fun hsome => ?_⟩
      cases read with
      | none => cases hsome
      | some bytes =>
        exact ⟨⟨e.longer, bytes⟩, rfl, hread,
          multiaddressDecapsulate_longer.2 (hright (Option.some_ne_none bytes))⟩

end

/-- **adding and removing components** -/
theorem capsules_iff (a : ValidAddress) :
    (∀ (p : ComponentName) (slash : Bool), DecapsulateRight a p slash ↔
      slash = false ∧ ∃ front back, CutsAtComponent a.string p.name front back) ∧
    ∀ (e : Extension a) (slash : Bool), EncapsulateRight a e slash ↔
      e.slash = true ∧ ∃ read, stringToBytes e.longer e.longer.length = .ok read ∧
        (read ≠ none → slash = false ∧ ¬ e.name.name <:+: a.string ∧ 32 ∉ a.string) :=
  ⟨fun p slash => decapsulateRight_iff, fun e slash => encapsulateRight_iff⟩

/-- `/ip4/10.0.0.1/tcp/4001/` -/
def swarmAddress : ValidAddress where
  string := asciiBytes "/ip4/10.0.0.1/tcp/4001/"
  bytes := [4, 10, 0, 0, 1, 6, 15, 161]
  consistent := by decide +kernel
  noZero := by decide
  short := by decide

def tcpName : ComponentName := ⟨asciiBytes "tcp", by decide, by decide, by decide, by decide⟩
def udpName : ComponentName := ⟨asciiBytes "udp", by decide, by decide, by decide, by decide⟩

/-- `udp/4001`, without a slash in front -/
def bareUdp : Extension swarmAddress where
  name := udpName
  slash := false
  tail := asciiBytes "/4001"
  delimited := .inr ⟨asciiBytes "4001", rfl⟩
  single := by decide
  noZero := by decide
  endsInSlash := by decide
  absent := by decide
  short := by decide

example : multiaddressDecapsulate swarmAddress.address (asciiBytes "tcp") =
    .ok (true, some ⟨asciiBytes "/ip4/10.0.0.1/", [4, 10, 0, 0, 1]⟩) := by decide +kernel

/-- **`/tcp`** is not found, and nor is `udp`, but the slashes are spaces from then on; and a
component without a slash in front is written beyond a buffer -/
theorem not_capsules :
    ¬ DecapsulateRight swarmAddress tcpName true ∧ ¬ DecapsulateRight swarmAddress udpName false ∧
      ¬ EncapsulateRight swarmAddress bareUdp false := by
  have htcp : multiaddressDecapsulate swarmAddress.address (tcpName.text true) =
      .ok (false, some ⟨asciiBytes " ip4 10.0.0.1 tcp 4001 ", swarmAddress.bytes⟩) := by
    decide +kernel
  have hudp : multiaddressDecapsulate swarmAddress.address (udpName.text false) =
      .ok (false, some ⟨asciiBytes " ip4 10.0.0.1 tcp 4001 ", swarmAddress.bytes⟩) := by
    decide +kernel
  have hadd : multiaddressEncapsulate swarmAddress.address bareUdp.text = .error .overflow := by
    decide
  have hbefore : componentsBefore tcpName.name (strtok 47 swarmAddress.string) =
      some [asciiBytes "ip4", asciiBytes "10.0.0.1"] := by decide
  have hnone : componentsBefore udpName.name (strtok 47 swarmAddress.string) = none := by decide
  refine ⟨?_, ?_, ?_⟩
  · unfold DecapsulateRight
    rw [hbefore]
    rintro ⟨left, h, -⟩
    rw [htcp] at h
    cases h
  · unfold DecapsulateRight
    rw [hnone]
    intro h
    have hstring := congrArg MultiAddress.string
      (Option.some.inj (Prod.mk.inj (Except.ok.inj (hudp.symm.trans h))).2)
    exact absurd hstring (by decide)
  · rintro ⟨ret, state, h, -⟩
    rw [hadd] at h
    cases h

end Libp2p
