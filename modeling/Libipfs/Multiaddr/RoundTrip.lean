import Libipfs.Multiaddr.Address

/-!
# The round trip of a multiaddress

A multiaddress is a sequence of components, each a protocol and an address.  Its text is read and
its bytes are shown by two parsers that know of no components.

* `Component`             `/ip4/a.b.c.d`, `/tcp/p`, `/udp/p` or `/ipfs/id`;
* `Plain`                 what the buffers and the sizes in the code have room for;
* `stringToBytes_plain`   **a plain text is read as its bytes**;
* `bytesToString_plain`   **and shown for them**;
* `Shown`                 the texts that are shown for bytes, whatever these are;
* `shown_encode`          **a text that was shown is read as fewer bytes, unless it is plain**;
* `multiaddr_iff`         the round trip, in both directions.
-/

set_option linter.unusedVariables false

namespace Libp2p
open CSem

/-! ## components -/

structure Port where
  number : Nat
  pos : 0 < number
  lt : number < 65536

inductive Component where
  | ip4 (a b c d : UInt8)
  | tcp (port : Port)
  | udp (port : Port)
  | ipfs (id : Base58Id)

namespace Component

def protocol : Component → Protocol
  | ip4 _ _ _ _ => Libp2p.ip4
  | tcp _ => Libp2p.tcp
  | udp _ => Libp2p.udp
  | ipfs _ => Libp2p.ipfs

/-- the address in text -/
def address : Component → List UInt8
  | ip4 a b c d => dotted a.toNat b.toNat c.toNat d.toNat
  | tcp port => numeral 10 port.number
  | udp port => numeral 10 port.number
  | ipfs id => id.text

/-- the address in bytes; an id has the number of its hexadecimal digits in front -/
def addressBytes : Component → List UInt8
  | ip4 a b c d => [a, b, c, d]
  | tcp port => valueBytes 2 port.number
  | udp port => valueBytes 2 port.number
  | ipfs id => sizeByte (2 * id.bytes.length) :: id.bytes

def text (c : Component) : List UInt8 := 47 :: (c.protocol.name ++ 47 :: c.address)

def binary (c : Component) : List UInt8 := UInt8.ofNat c.protocol.deccode :: c.addressBytes

/-- a component that comes back -/
def Plain : Component → Prop
  | ip4 a _ _ _ => a ≠ 0
  | tcp port => port.number < 10000
  | udp port => port.number < 10000
  | ipfs id => id.Plain

end Component

def multiaddrText (cs : List Component) : List UInt8 := cs.flatMap Component.text

def multiaddrBinary (cs : List Component) : List UInt8 := cs.flatMap Component.binary

/-- each component comes back, and an id is the last -/
def Regular : List Component → Prop
  | [] => True
  | c :: cs => c.Plain ∧ (c.protocol = ipfs → cs = []) ∧ Regular cs

/-- and the text, with a slash behind it, has room in 800 bytes -/
structure Plain (cs : List Component) : Prop where
  regular : Regular cs
  short : (multiaddrText cs).length < 799

/-- the text is read, and shown again for what was read -/
def TextBack (cs : List Component) : Prop :=
  ∃ bytes back, stringToBytes (multiaddrText cs) (multiaddrText cs).length = .ok (some bytes) ∧
    bytesToString bytes = .ok (some back) ∧
    (back = multiaddrText cs ∨ back = multiaddrText cs ++ [47])

/-- the bytes are shown, and read again from what was shown -/
def BytesBack (bytes : List UInt8) : Prop :=
  ∃ text, bytesToString bytes = .ok (some text) ∧
    stringToBytes text text.length = .ok (some bytes)

/-! ### words -/

section
variable {c : Component} {cs : List Component} {text word : List UInt8}

/-- a protocol and an address -/
def multiaddrWords (cs : List Component) : List (List UInt8) :=
  cs.flatMap fun c => [c.protocol.name, c.address]

theorem protocol_eq (c : Component) :
    c.protocol = ip4 ∨ c.protocol = tcp ∨ c.protocol = udp ∨ c.protocol = ipfs := by
  cases c with
  | ip4 a b c d => exact .inl rfl
  | tcp port => exact .inr (.inl rfl)
  | udp port => exact .inr (.inr (.inl rfl))
  | ipfs id => exact .inr (.inr (.inr rfl))

/-- the name of a protocol is a word, by which and by whose code it is found -/
theorem protocol_spec : ∀ p ∈ [ip4, ip6, tcp, udp, dccp, sctp, ipfs],
    p.name ≠ [] ∧ 47 ∉ p.name ∧ protoWithName p.name = some p ∧ p.deccode < 256 ∧
      protoWithDeccode p.deccode = some p := by
  decide

theorem protocol_mem (c : Component) :
    c.protocol ∈ [ip4, ip6, tcp, udp, dccp, sctp, ipfs] := by
  rcases protocol_eq c with h | h | h | h
  · rw [h]; decide
  · rw [h]; decide
  · rw [h]; decide
  · rw [h]; decide

theorem address_ne_nil (c : Component) : c.address ≠ [] := by
  cases c with
  | ip4 a b c d => exact dotted_ne_nil _ _ _ _
  | tcp port => exact numeral_ne_nil _
  | udp port => exact numeral_ne_nil _
  | ipfs id => exact id.ne

theorem not_mem_address (c : Component) : 47 ∉ c.address := by
  cases c with
  | ip4 a b c d => exact not_mem_dotted _ _ _ _
  | tcp port => exact not_mem_numeral (by decide) _
  | udp port => exact not_mem_numeral (by decide) _
  | ipfs id =>
    intro h
    have hnot : 47 ∉ base58Alphabet := by decide
    exact hnot (id.valid 47 h)

/-- nothing, or what begins with a slash -/
def Slashed (text : List UInt8) : Prop := text = [] ∨ ∃ rest, text = 47 :: rest

theorem strtok_word_slashed (hne : word ≠ []) (h : 47 ∉ word) (htext : Slashed text) :
    strtok 47 (word ++ text) = word :: strtok 47 text := by
  rcases htext with rfl | ⟨rest, rfl⟩
  · rw [List.append_nil, strtok_of_not_mem hne h]
    rfl
  · rw [strtok_word hne h, strtok_cons_self]

/-- a name, an address, and what is behind them -/
theorem strtok_named {p : Protocol} (hp : p ∈ [ip4, ip6, tcp, udp, dccp, sctp, ipfs])
    (hne : word ≠ []) (h : 47 ∉ word) (htext : Slashed text) :
    strtok 47 (47 :: (p.name ++ 47 :: word) ++ text) = p.name :: word :: strtok 47 text := by
  obtain ⟨hname, hslash, -⟩ := protocol_spec p hp
  rw [List.cons_append, strtok_cons_self, List.append_assoc, List.cons_append,
    strtok_word hname hslash, strtok_word_slashed hne h htext]

theorem slashed_multiaddrText (cs : List Component) : Slashed (multiaddrText cs) := by
  cases cs with
  | nil => exact .inl rfl
  | cons c cs => exact .inr ⟨_, rfl⟩

theorem multiaddrText_cons (c : Component) (cs : List Component) :
    multiaddrText (c :: cs) = c.text ++ multiaddrText cs := rfl

theorem multiaddrBinary_cons (c : Component) (cs : List Component) :
    multiaddrBinary (c :: cs) = c.binary ++ multiaddrBinary cs := rfl

theorem multiaddrBinary_eq_nil : multiaddrBinary cs = [] ↔ cs = [] := by
  cases cs with
  | nil => exact ⟨fun _ => rfl, fun _ => rfl⟩
  | cons c cs => exact ⟨fun h => (nomatch h), fun h => (nomatch h)⟩

theorem strtok_multiaddrText (cs : List Component) :
    strtok 47 (multiaddrText cs) = multiaddrWords cs := by
  induction cs with
  | nil => rfl
  | cons c cs ih =>
    rw [multiaddrText_cons, Component.text, strtok_named (protocol_mem c) (address_ne_nil c)
      (not_mem_address c) (slashed_multiaddrText cs), ih]
    rfl

/-- a component is known by its protocol and address -/
theorem component_injective {c' : Component} (hp : c.protocol.deccode = c'.protocol.deccode)
    (ha : c.address = c'.address) : c = c' := by
  have hnum := @numeral_injective 10
  cases c with
  | ip4 a b x d =>
    cases c' with
    | ip4 a' b' x' d' =>
      obtain ⟨h1, h2, h3, h4⟩ := dotted_injective ha
      rw [UInt8.toNat_inj.1 h1, UInt8.toNat_inj.1 h2, UInt8.toNat_inj.1 h3, UInt8.toNat_inj.1 h4]
    | tcp port => exact nomatch hp
    | udp port => exact nomatch hp
    | ipfs id => exact nomatch hp
  | tcp port =>
    cases c' with
    | ip4 a' b' x' d' => exact nomatch hp
    | tcp port' =>
      cases port
      cases port'
      cases hnum (by decide) (by decide) ha
      rfl
    | udp port' => exact nomatch hp
    | ipfs id => exact nomatch hp
  | udp port =>
    cases c' with
    | ip4 a' b' x' d' => exact nomatch hp
    | tcp port' => exact nomatch hp
    | udp port' =>
      cases port
      cases port'
      cases hnum (by decide) (by decide) ha
      rfl
    | ipfs id => exact nomatch hp
  | ipfs id =>
    cases c' with
    | ip4 a' b' x' d' => exact nomatch hp
    | tcp port => exact nomatch hp
    | udp port => exact nomatch hp
    | ipfs id' =>
      cases id
      cases id'
      cases ha
      rfl

theorem multiaddrWords_injective {cs' : List Component}
    (h : multiaddrWords cs = multiaddrWords cs') : cs = cs' := by
  induction cs generalizing cs' with
  | nil =>
    cases cs' with
    | nil => rfl
    | cons c' cs' => cases h
  | cons c cs ih =>
    cases cs' with
    | nil => cases h
    | cons c' cs' =>
      obtain ⟨hname, h⟩ := List.cons.inj h
      obtain ⟨haddress, h⟩ := List.cons.inj h
      have hp : c.protocol = c'.protocol := by
        obtain ⟨-, -, hfind, -⟩ := protocol_spec c.protocol (protocol_mem c)
        obtain ⟨-, -, hfind', -⟩ := protocol_spec c'.protocol (protocol_mem c')
        rw [hname, hfind'] at hfind
        exact (Option.some.inj hfind).symm
      rw [component_injective (congrArg Protocol.deccode hp) haddress, ih h]

end

/-! ## plain components -/

section
variable {c : Component} {cs : List Component} {processed results rest : List UInt8}
  {fuel : Nat}

theorem spells_code {p : Protocol} (hp : p ∈ [ip4, ip6, tcp, udp, dccp, sctp, ipfs]) :
    Spells (intToHex p.deccode) [UInt8.ofNat p.deccode] := by
  obtain ⟨-, -, -, hcode, -⟩ := protocol_spec p hp
  have hsize : byteSize p.deccode ≤ 1 := byteSize_le_iff.2 hcode
  have hspells := spells_intToHex p.deccode
  have hbytes : valueBytes 1 p.deccode = [UInt8.ofNat (p.deccode % 256)] := rfl
  rwa [Nat.max_eq_left hsize, hbytes, Nat.mod_eq_of_lt hcode] at hspells

/-- **the address of a plain component to bytes** -/
theorem addressStringToBytes_plain (h : c.Plain) :
    ∃ hex size, addressStringToBytes c.protocol c.address = .ok (some (hex, size)) ∧
      Spells hex c.addressBytes ∧ size ≤ hex.length + 1 := by
  cases c with
  | ip4 a b x d =>
    have hhead : [a, b, x, d].head? ≠ some 0 := fun h0 => h (Option.some.inj h0)
    have hsize := byteSize_bytesValue (List.cons_ne_nil a [b, x, d]) hhead
    have hbytes := valueBytes_bytesValue [a, b, x, d]
    have hspells := spells_intToHex (bytesValue [a, b, x, d])
    have hmax : max 1 (byteSize (bytesValue [a, b, x, d])) = [a, b, x, d].length := by
      rw [hsize]
      rfl
    rw [hmax, hbytes] at hspells
    exact ⟨_, _, ip4StringToBytes_dotted a b x d, hspells, Nat.le_succ _⟩
  | tcp port =>
    obtain ⟨hex, hconv, hspells⟩ := portStringToBytes_numeral port.pos port.lt
    have hlen := hspells.length
    rw [valueBytes_length] at hlen
    exact ⟨hex, 5, hconv, hspells, by omega⟩
  | udp port =>
    obtain ⟨hex, hconv, hspells⟩ := portStringToBytes_numeral port.pos port.lt
    have hlen := hspells.length
    rw [valueBytes_length] at hlen
    exact ⟨hex, 5, hconv, hspells, by omega⟩
  | ipfs id =>
    obtain ⟨hex, hconv, hspells⟩ := ipfsStringToBytes_plain h
    have hlen := hspells.length
    rw [List.length_cons] at hlen
    exact ⟨hex, _, hconv, hspells, by omega⟩

/-- **the words of plain components** -/
theorem stringToBytesLoop_plain (h : ∀ c ∈ cs, c.Plain)
    (hroom : processed.length + 2 * (multiaddrBinary cs).length ≤ 798) :
    ∃ hex, stringToBytesLoop (multiaddrWords cs) none processed false =
        .ok (some (processed ++ hex)) ∧ Spells hex (multiaddrBinary cs) := by
  induction cs generalizing processed with
  | nil => exact ⟨[], by rw [List.append_nil]; rfl, rfl⟩
  | cons c cs ih =>
    obtain ⟨hex, size, hconv, haddress, hsize⟩ :=
      addressStringToBytes_plain (h c List.mem_cons_self)
    have hcode := spells_code (protocol_mem c)
    obtain ⟨-, -, hfind, -⟩ := protocol_spec c.protocol (protocol_mem c)
    have hcodelen := hcode.length
    have hlen := haddress.length
    rw [List.length_singleton] at hcodelen
    rw [multiaddrBinary_cons, List.length_append, Component.binary, List.length_cons] at hroom
    have hwords : multiaddrWords (c :: cs) =
        c.protocol.name :: c.address :: multiaddrWords cs := rfl
    obtain ⟨more, hmore, hspells⟩ := @ih (processed ++ intToHex c.protocol.deccode ++ hex)
      (fun x hx => h x (List.mem_cons_of_mem c hx))
      (by rw [List.length_append, List.length_append]; omega)
    refine ⟨intToHex c.protocol.deccode ++ hex ++ more, ?_, ?_⟩
    · rw [hwords, stringToBytesLoop_address hfind hconv, strcat_pos (by omega), ok_bind,
        require_pos (by rw [List.length_append]; omega), ok_bind, hmore, List.append_assoc,
        List.append_assoc, List.append_assoc]
    · exact (hcode.append haddress).append hspells

/-- **a plain text is read as its bytes**, with a slash behind it or not -/
theorem stringToBytes_plain {slash : List UInt8} (hne : cs ≠ []) (h : ∀ c ∈ cs, c.Plain)
    (hfit : (multiaddrBinary cs).length ≤ 399) (hslash : slash = [] ∨ slash = [47]) :
    stringToBytes (multiaddrText cs ++ slash) (multiaddrText cs ++ slash).length =
      .ok (some (multiaddrBinary cs)) := by
  have hwords : strtok 47 (multiaddrText cs ++ slash) = multiaddrWords cs := by
    rcases hslash with rfl | rfl
    · rw [List.append_nil, strtok_multiaddrText]
    · rw [strtok_concat_self, strtok_multiaddrText]
  have hhead : (multiaddrText cs ++ slash).head? = some 47 := by
    cases cs with
    | nil => exact absurd rfl hne
    | cons c cs => rfl
  obtain ⟨hex, hloop, hspells⟩ := @stringToBytesLoop_plain cs [] h
    (by rw [List.length_nil]; omega)
  unfold stringToBytes
  rw [if_neg (not_not_intro hhead), strcpy_pos (Nat.lt_succ_self _), ok_bind, hwords, hloop,
    ok_bind, List.nil_append]
  dsimp only
  rw [hexToVar_of_spells hspells, ok_bind]

theorem addressToString_ip4 (a b c d : UInt8) :
    addressToString ip4.name (varToHex [a, b, c, d]) =
      .ok (Component.ip4 a b c d).address := by
  show Except.ok (int2ip (hexToInt (varToHex [a, b, c, d]))) = _
  rw [hexToInt_of_spells (spells_varToHex _) (by simp), int2ip_bytesValue]
  rfl

/-- a port has two bytes, and room for four digits -/
theorem addressToString_port {p : Protocol} (hp : p = tcp ∨ p = udp) (bytes : List UInt8)
    (hlen : bytes.length = 2) : addressToString p.name (varToHex bytes) =
      strcpy 5 (numeral 10 (bytesValue bytes)) := by
  rw [← hexToInt_of_spells (spells_varToHex bytes) (by omega)]
  rcases hp with rfl | rfl
  · rfl
  · rfl

theorem addressToString_silent {p : Protocol} (hp : p = ip6 ∨ p = dccp ∨ p = sctp)
    (address : List UInt8) : addressToString p.name address = .ok [] := by
  rcases hp with rfl | rfl | rfl
  · rfl
  · rfl
  · rfl

theorem strcpy_port {n : Nat} {text : List UInt8} :
    strcpy 5 (numeral 10 n) = .ok text ↔ n < 10000 ∧ numeral 10 n = text := by
  have hlen : (numeral 10 n).length ≤ 4 ↔ n < 10 ^ 4 :=
    length_numeral_le_iff (by decide) (by decide)
  unfold strcpy
  rw [strcat_eq_ok, List.length_nil, Nat.zero_add, Nat.lt_succ_iff, hlen]
  rfl

/-- the address of a plain component that is no id is shown -/
theorem addressToString_plain (h : c.Plain) (hid : c.protocol ≠ ipfs) :
    addressToString c.protocol.name (varToHex c.addressBytes) = .ok c.address := by
  have hport : ∀ (p : Protocol) (port : Port), p = tcp ∨ p = udp → port.number < 10000 →
      addressToString p.name (varToHex (valueBytes 2 port.number)) =
        .ok (numeral 10 port.number) := by
    intro p port hp hlt
    rw [addressToString_port hp _ (valueBytes_length _ _), bytesValue_valueBytes port.lt]
    exact strcpy_port.2 ⟨hlt, rfl⟩
  cases c with
  | ip4 a b x d => exact addressToString_ip4 a b x d
  | tcp port => exact hport tcp port (.inl rfl) h
  | udp port => exact hport udp port (.inr rfl) h
  | ipfs id => exact absurd rfl hid

theorem protoWithDeccode_ofNat {p : Protocol}
    (hp : p ∈ [ip4, ip6, tcp, udp, dccp, sctp, ipfs]) :
    protoWithDeccode (UInt8.ofNat p.deccode).toNat = some p := by
  obtain ⟨-, -, -, hcode, hfind⟩ := protocol_spec p hp
  rw [UInt8.toNat_ofNat', Nat.mod_eq_of_lt hcode, hfind]

theorem name_ne_of_ne {p : Protocol} (hp : p ∈ [ip4, ip6, tcp, udp, dccp, sctp, ipfs])
    (hne : p ≠ ipfs) : p.name ≠ asciiBytes "ipfs" := by
  intro hname
  obtain ⟨-, -, hfind, -⟩ := protocol_spec p hp
  have hipfs : protoWithName (asciiBytes "ipfs") = some ipfs := by decide
  rw [hname, hipfs] at hfind
  exact hne (Option.some.inj hfind).symm

theorem size_addressBytes (hid : c.protocol ≠ ipfs) :
    (c.protocol.size / 4).toNat = 2 * c.addressBytes.length := by
  cases c with
  | ip4 a b x d => rfl
  | tcp port => rfl
  | udp port => rfl
  | ipfs id => exact absurd rfl hid

theorem append_text (results : List UInt8) (c : Component) :
    results ++ (47 :: c.protocol.name ++ [47]) ++ c.address = results ++ c.text := by
  unfold Component.text
  rw [List.append_assoc, List.append_assoc]
  rfl

/-- **a turn on a plain component** -/
theorem bytesToStringLoop_plain (h : c.Plain) (hid : c.protocol ≠ ipfs)
    (hroom : (results ++ c.text).length < 800) :
    bytesToStringLoop (fuel + 1) (varToHex (c.binary ++ rest) ++ [0]) results =
      decodeRest fuel rest (results ++ c.text) := by
  have hmem := protocol_mem c
  have hbinary : c.binary ++ rest =
      UInt8.ofNat c.protocol.deccode :: (c.addressBytes ++ rest) := rfl
  rw [← append_text, List.length_append, List.length_append] at hroom
  rw [hbinary, bytesToStringLoop_sized (protoWithDeccode_ofNat hmem) (name_ne_of_ne hmem hid)
    (size_addressBytes hid), require_pos (by rw [List.length_append]; omega), ok_bind,
    strcat_pos (by omega), ok_bind, List.take_left, List.drop_left,
    addressToString_plain h hid, ok_bind, strcat_pos (by rw [List.length_append]; omega),
    ok_bind, append_text]

theorem exists_of_protocol_eq (h : c.protocol = ipfs) : ∃ id, c = .ipfs id := by
  have hcode := congrArg Protocol.deccode h
  cases c with
  | ip4 a b x d => exact nomatch hcode
  | tcp port => exact nomatch hcode
  | udp port => exact nomatch hcode
  | ipfs id => exact ⟨id, rfl⟩

/-- **and on a plain id**, after which nothing is read -/
theorem bytesToStringLoop_id {id : Base58Id} (h : id.Plain)
    (hroom : (results ++ (Component.ipfs id).text).length < 800) :
    bytesToStringLoop (fuel + 1) (varToHex (Component.ipfs id).binary ++ [0]) results =
      .ok (some (results ++ (Component.ipfs id).text)) := by
  have hshort := h.short
  have hbinary : (Component.ipfs id).binary = 42 :: sizeByte (2 * id.bytes.length) :: id.bytes :=
    rfl
  rw [← append_text] at hroom ⊢
  rw [hbinary, bytesToStringLoop_ipfs]
  exact ipfsToString_eq (toNat_sizeByte (by omega)) (base58Encode_plain h) hroom

/-- **the text of regular components is shown** -/
theorem bytesToStringLoop_regular (h : Regular cs) (hne : cs ≠ [])
    (hroom : (results ++ multiaddrText cs).length < 800)
    (hfuel : (multiaddrBinary cs).length ≤ fuel) :
    bytesToStringLoop fuel (varToHex (multiaddrBinary cs) ++ [0]) results =
      .ok (some (results ++ multiaddrText cs)) := by
  induction cs generalizing results fuel with
  | nil => exact absurd rfl hne
  | cons c cs ih =>
    obtain ⟨hplain, hlast, hrest⟩ := h
    rw [multiaddrBinary_cons, List.length_append, Component.binary, List.length_cons] at hfuel
    obtain ⟨fuel, rfl⟩ : ∃ m, fuel = m + 1 := ⟨fuel - 1, by omega⟩
    rw [multiaddrText_cons, ← List.append_assoc] at hroom ⊢
    have hfirst : (results ++ c.text).length < 800 := by
      rw [List.length_append] at hroom
      omega
    by_cases hid : c.protocol = ipfs
    · obtain rfl := hlast hid
      obtain ⟨id, rfl⟩ := exists_of_protocol_eq hid
      have hall : multiaddrBinary [.ipfs id] = (Component.ipfs id).binary := List.append_nil _
      rw [hall, bytesToStringLoop_id hplain hfirst]
      exact congrArg (fun text => Except.ok (some text)) (List.append_nil _).symm
    · rw [multiaddrBinary_cons, bytesToStringLoop_plain hplain hid hfirst]
      unfold decodeRest
      by_cases hnil : cs = []
      · subst hnil
        have hdone : multiaddrBinary [] = [] := rfl
        rw [if_pos hdone]
        exact congrArg (fun text => Except.ok (some text)) (List.append_nil _).symm
      · rw [if_neg fun h => hnil (multiaddrBinary_eq_nil.1 h)]
        exact ih hrest hnil hroom (by omega)

/-- **plain bytes are shown as their text**, with a slash behind it -/
theorem bytesToString_plain (h : Plain cs) (hne : cs ≠ []) :
    bytesToString (multiaddrBinary cs) = .ok (some (multiaddrText cs ++ [47])) := by
  have hshort := h.short
  have hfuel : (multiaddrBinary cs).length ≤ (varToHex (multiaddrBinary cs) ++ [0]).length := by
    rw [List.length_append, varToHex_length]
    omega
  have hloop := @bytesToStringLoop_regular cs [] _ h.regular hne
    (by rw [List.nil_append]; omega) hfuel
  unfold bytesToString
  dsimp only
  rw [hloop, ok_bind, List.nil_append]
  dsimp only
  rw [strcat_pos (by rw [List.length_singleton]; omega), ok_bind]

end

/-! ## what is shown -/

/-- the texts that are shown for bytes: nothing is shown for the address of an `ip6`, a `dccp` or
an `sctp`, and what is behind an id or an unknown protocol is not read -/
inductive Shown : List UInt8 → List UInt8 → Prop
  | done : Shown [] []
  | unknown {b : UInt8} {bytes : List UInt8} :
      protoWithDeccode b.toNat = none → Shown (b :: bytes) []
  | ip4 (a b c d : UInt8) {bytes text : List UInt8} : Shown bytes text →
      Shown ((Component.ip4 a b c d).binary ++ bytes) ((Component.ip4 a b c d).text ++ text)
  | port {p : Protocol} {address bytes text : List UInt8} : p = tcp ∨ p = udp →
      address.length = 2 → bytesValue address < 10000 → Shown bytes text →
      Shown (UInt8.ofNat p.deccode :: (address ++ bytes))
        (47 :: (p.name ++ 47 :: numeral 10 (bytesValue address)) ++ text)
  | silent {p : Protocol} {address bytes text : List UInt8} : p = ip6 ∨ p = dccp ∨ p = sctp →
      address ≠ [] → Shown bytes text →
      Shown (UInt8.ofNat p.deccode :: (address ++ bytes)) (47 :: (p.name ++ 47 :: text))
  | ipfs {size : UInt8} {payload junk id : List UInt8} :
      2 * payload.length ≤ size.toNat % 128 →
      multiaddrEncodingBase58Encode payload (2 * payload.length) = .ok (some id) →
      Shown (42 :: size :: (payload ++ junk)) (47 :: (Libp2p.ipfs.name ++ 47 :: id))

section
variable {b : UInt8} {bytes text results out : List UInt8} {fuel k : Nat} {p : Protocol}

/-- the protocol of a byte -/
theorem eq_of_protoWithDeccode (h : protoWithDeccode b.toNat = some p) :
    p ∈ [ip4, ip6, tcp, udp, dccp, sctp, ipfs] ∧ b = UInt8.ofNat p.deccode := by
  have hall : ∀ p ∈ loadProtocols, p.deccode < 256 →
      p ∈ [ip4, ip6, tcp, udp, dccp, sctp, ipfs] := by decide
  have hfound := List.find?_some h
  have hcode : p.deccode = b.toNat := beq_iff_eq.1 hfound
  have hlt : p.deccode < 256 := by
    rw [hcode]
    exact b.toNat_lt
  refine ⟨hall p (List.mem_of_find?_eq_some h) hlt, ?_⟩
  rw [hcode, UInt8.ofNat_toNat]

/-- what a turn on a protocol of fixed size did -/
theorem exists_of_sized (hp : protoWithDeccode b.toNat = some p) (hne : p ≠ ipfs)
    (hk : (p.size / 4).toNat = 2 * k)
    (h : bytesToStringLoop (fuel + 1) (varToHex (b :: bytes) ++ [0]) results = .ok (some out)) :
    ∃ value, k ≤ bytes.length ∧ addressToString p.name (varToHex (bytes.take k)) = .ok value ∧
      decodeRest fuel (bytes.drop k) (results ++ (47 :: p.name ++ [47]) ++ value) =
        .ok (some out) := by
  obtain ⟨hmem, -⟩ := eq_of_protoWithDeccode hp
  rw [bytesToStringLoop_sized hp (name_ne_of_ne hmem hne) hk] at h
  obtain ⟨hle, h⟩ := require_bind_eq_ok.1 h
  obtain ⟨named, hnamed, h⟩ := bind_eq_ok.1 h
  obtain ⟨value, hvalue, h⟩ := bind_eq_ok.1 h
  obtain ⟨shown, hshown, h⟩ := bind_eq_ok.1 h
  rw [← (strcat_eq_ok.1 hshown).2, ← (strcat_eq_ok.1 hnamed).2] at h
  exact ⟨value, hle, hvalue, h⟩

/-- what is shown for what is left -/
def ShowsRest (fuel : Nat) (out : List UInt8) : Prop :=
  ∀ bytes results, decodeRest fuel bytes results = .ok (some out) →
    ∃ text, Shown bytes text ∧ out = results ++ text

theorem exists_shown_ip4 (hrest : ShowsRest fuel out) (hp : protoWithDeccode b.toNat = some ip4)
    (h : bytesToStringLoop (fuel + 1) (varToHex (b :: bytes) ++ [0]) results = .ok (some out)) :
    ∃ text, Shown (b :: bytes) text ∧ out = results ++ text := by
  obtain ⟨hmem, rfl⟩ := eq_of_protoWithDeccode hp
  obtain ⟨value, hle, hvalue, hmore⟩ := exists_of_sized hp (by decide)
    (by decide : (ip4.size / 4).toNat = 2 * 4) h
  obtain ⟨text, hshown, hout⟩ := hrest _ _ hmore
  obtain ⟨a, x, c, d, rest, rfl⟩ : ∃ a x c d rest, bytes = [a, x, c, d] ++ rest :=
    match bytes, hle with
    | a :: x :: c :: d :: rest, _ => ⟨a, x, c, d, rest, rfl⟩
  have htake : ([a, x, c, d] ++ rest).take 4 = [a, x, c, d] := rfl
  have htext := append_text results (.ip4 a x c d)
  rw [htake, addressToString_ip4] at hvalue
  refine ⟨_, .ip4 a x c d hshown, ?_⟩
  rw [hout, ← Except.ok.inj hvalue]
  exact (congrArg (· ++ text) htext).trans (List.append_assoc _ _ _)

theorem exists_shown_port (hrest : ShowsRest fuel out) (hport : p = tcp ∨ p = udp)
    (hp : protoWithDeccode b.toNat = some p)
    (h : bytesToStringLoop (fuel + 1) (varToHex (b :: bytes) ++ [0]) results = .ok (some out)) :
    ∃ text, Shown (b :: bytes) text ∧ out = results ++ text := by
  obtain ⟨hmem, rfl⟩ := eq_of_protoWithDeccode hp
  have hne : p ≠ ipfs := by
    rcases hport with rfl | rfl
    · decide
    · decide
  have hk : (p.size / 4).toNat = 2 * 2 := by
    rcases hport with rfl | rfl
    · rfl
    · rfl
  obtain ⟨value, hle, hvalue, hmore⟩ := exists_of_sized hp hne hk h
  obtain ⟨text, hshown, hout⟩ := hrest _ _ hmore
  have hlen : (bytes.take 2).length = 2 := by
    rw [List.length_take, Nat.min_eq_left hle]
  rw [addressToString_port hport _ hlen] at hvalue
  obtain ⟨hlt, rfl⟩ := strcpy_port.1 hvalue
  have hall := Shown.port hport hlen hlt hshown
  rw [List.take_append_drop] at hall
  refine ⟨_, hall, ?_⟩
  rw [hout]
  simp only [List.append_assoc, List.cons_append, List.nil_append]

theorem exists_shown_silent (hrest : ShowsRest fuel out) (hsilent : p = ip6 ∨ p = dccp ∨ p = sctp)
    (hp : protoWithDeccode b.toNat = some p)
    (h : bytesToStringLoop (fuel + 1) (varToHex (b :: bytes) ++ [0]) results = .ok (some out)) :
    ∃ text, Shown (b :: bytes) text ∧ out = results ++ text := by
  obtain ⟨hmem, rfl⟩ := eq_of_protoWithDeccode hp
  obtain ⟨k, hk0, hne, hk⟩ : ∃ k, 0 < k ∧ p ≠ ipfs ∧ (p.size / 4).toNat = 2 * k := by
    rcases hsilent with rfl | rfl | rfl
    · exact ⟨16, by decide, by decide, rfl⟩
    · exact ⟨2, by decide, by decide, rfl⟩
    · exact ⟨2, by decide, by decide, rfl⟩
  obtain ⟨value, hle, hvalue, hmore⟩ := exists_of_sized hp hne hk h
  obtain ⟨text, hshown, hout⟩ := hrest _ _ hmore
  rw [addressToString_silent hsilent] at hvalue
  have hsome : bytes.take k ≠ [] := by
    intro hnil
    have hlen := congrArg List.length hnil
    rw [List.length_take, Nat.min_eq_left hle, List.length_nil] at hlen
    omega
  have hall := Shown.silent hsilent hsome hshown
  rw [List.take_append_drop] at hall
  refine ⟨_, hall, ?_⟩
  rw [hout, ← Except.ok.inj hvalue]
  simp only [List.append_assoc, List.cons_append, List.nil_append]

theorem exists_shown_ipfs
    (h : bytesToStringLoop (fuel + 1) (varToHex (42 :: bytes) ++ [0]) results = .ok (some out)) :
    ∃ text, Shown (42 :: bytes) text ∧ out = results ++ text := by
  rw [bytesToStringLoop_ipfs] at h
  obtain ⟨size, payload, junk, id, rfl, hsize, hid, rfl⟩ := exists_of_ipfsToString h
  refine ⟨_, .ipfs hsize hid, ?_⟩
  rw [List.append_assoc]
  refine congrArg (results ++ ·) ?_
  rw [List.cons_append, List.cons_append, List.append_assoc]
  rfl

/-- **what the decoder shows** -/
theorem exists_shown
    (h : bytesToStringLoop fuel (varToHex bytes ++ [0]) results = .ok (some out)) :
    ∃ text, Shown bytes text ∧ out = results ++ text := by
  induction fuel generalizing bytes results with
  | zero => cases h
  | succ fuel ih =>
    have hdone : ∀ {results : List UInt8},
        (.ok (some results) : Exec (Option (List UInt8))) = .ok (some out) →
          out = results ++ [] := by
      intro results h
      rw [List.append_nil]
      exact (Option.some.inj (Except.ok.inj h)).symm
    have hrest : ShowsRest fuel out := by
      intro bytes results h
      unfold decodeRest at h
      split at h
      · next hnil =>
        rw [hnil]
        exact ⟨[], .done, hdone h⟩
      · exact ih h
    cases bytes with
    | nil => cases h
    | cons b bytes =>
      cases hp : protoWithDeccode b.toNat with
      | none =>
        rw [bytesToStringLoop_unknown hp] at h
        exact ⟨[], .unknown hp, hdone h⟩
      | some p =>
        obtain ⟨hmem, hb⟩ := eq_of_protoWithDeccode hp
        simp only [List.mem_cons, List.not_mem_nil, or_false] at hmem
        rcases hmem with rfl | rfl | rfl | rfl | rfl | rfl | rfl
        · exact exists_shown_ip4 hrest hp h
        · exact exists_shown_silent hrest (.inl rfl) hp h
        · exact exists_shown_port hrest (.inl rfl) hp h
        · exact exists_shown_port hrest (.inr rfl) hp h
        · exact exists_shown_silent hrest (.inr (.inl rfl)) hp h
        · exact exists_shown_silent hrest (.inr (.inr rfl)) hp h
        · obtain rfl : b = 42 := hb
          exact exists_shown_ipfs h

end

/-! ## reading what was shown -/

section
variable {bytes text processed out word hex address front back rest : List UInt8}
  {words : List (List UInt8)} {size : Nat} {p : Protocol}

/-- what a text that was shown for the bytes is read as: no more bytes, and the same ones only
when they are those of regular components, and the text theirs -/
def ReadBack (bytes text processed out : List UInt8) : Prop :=
  ∃ hex back, out = processed ++ hex ∧ Spells hex back ∧ out.length < 800 ∧
    back.length ≤ bytes.length ∧
    (back = bytes → ∃ cs, Regular cs ∧ bytes = multiaddrBinary cs ∧ text = multiaddrText cs)

theorem Shown.slashed (h : Shown bytes text) : Slashed text := by
  cases h with
  | done => exact .inl rfl
  | unknown hb => exact .inl rfl
  | ip4 a b c d hshown => exact .inr ⟨_, rfl⟩
  | port hp hlen hlt hshown => exact .inr ⟨_, rfl⟩
  | silent hp hne hshown => exact .inr ⟨_, rfl⟩
  | ipfs hsize hid => exact .inr ⟨_, rfl⟩

theorem mem_of_port (hp : p = tcp ∨ p = udp) :
    p ∈ [ip4, ip6, tcp, udp, dccp, sctp, ipfs] := by
  rcases hp with rfl | rfl
  · decide
  · decide

theorem mem_of_silent (hp : p = ip6 ∨ p = dccp ∨ p = sctp) :
    p ∈ [ip4, ip6, tcp, udp, dccp, sctp, ipfs] := by
  rcases hp with rfl | rfl | rfl
  · decide
  · decide
  · decide

/-- no more bytes in either part -/
theorem append_eq_append_of_le (h : front ++ back = address ++ rest)
    (hfront : front.length ≤ address.length) (hback : back.length ≤ rest.length) :
    front = address ∧ back = rest := by
  have hlen := congrArg List.length h
  rw [List.length_append, List.length_append] at hlen
  exact List.append_inj h (by omega)

/-- a protocol, and an address that has no more bytes than before -/
theorem readBack_cons (hp : p ∈ [ip4, ip6, tcp, udp, dccp, sctp, ipfs])
    (hroom : processed.length < 800)
    (hconv : addressStringToBytes p word = .ok (some (hex, size)))
    (hspells : Spells hex front) (hsize : hex.length ≤ size)
    (hfront : front.length ≤ address.length)
    (hc : front = address → ∃ c : Component, c.Plain ∧ (c.protocol = ipfs → bytes = []) ∧
      c.binary = UInt8.ofNat p.deccode :: address ∧ c.text = 47 :: (p.name ++ 47 :: word))
    (hmore : ∀ {processed : List UInt8}, processed.length < 800 →
      stringToBytesLoop words none processed false = .ok (some out) →
        ReadBack bytes text processed out)
    (h : stringToBytesLoop (p.name :: word :: words) none processed false = .ok (some out)) :
    ReadBack (UInt8.ofNat p.deccode :: (address ++ bytes))
      (47 :: (p.name ++ 47 :: word) ++ text) processed out := by
  obtain ⟨-, -, hfind, -⟩ := protocol_spec p hp
  rw [stringToBytesLoop_address hfind hconv] at h
  obtain ⟨coded, hcoded, h⟩ := bind_eq_ok.1 h
  obtain ⟨hlt, h⟩ := require_bind_eq_ok.1 h
  obtain ⟨more, back, hout, hmorespells, houtlen, hback, hregular⟩ :=
    hmore (by rw [List.length_append]; omega) h
  rw [← (strcat_eq_ok.1 hcoded).2] at hout
  refine ⟨intToHex p.deccode ++ hex ++ more, UInt8.ofNat p.deccode :: (front ++ back), ?_,
    ((spells_code hp).append hspells).append hmorespells, houtlen, ?_, ?_⟩
  · rw [hout, List.append_assoc, List.append_assoc, List.append_assoc]
  · rw [List.length_cons, List.length_cons, List.length_append, List.length_append]
    omega
  · intro heq
    obtain ⟨hfeq, hbeq⟩ := append_eq_append_of_le (List.cons.inj heq).2 hfront hback
    obtain ⟨cs, hcs, hbytes, htext⟩ := hregular hbeq
    obtain ⟨c, hplain, hid, hbinary, hctext⟩ := hc hfeq
    have hlast : c.protocol = ipfs → cs = [] := by
      intro hp
      rw [hid hp] at hbytes
      exact multiaddrBinary_eq_nil.1 hbytes.symm
    refine ⟨c :: cs, ⟨hplain, hlast, hcs⟩, ?_, ?_⟩
    · rw [multiaddrBinary_cons, hbinary, hbytes]
      rfl
    · rw [multiaddrText_cons, hctext, htext]

/-- four bytes, or fewer when the first of them is zero -/
theorem ne_zero_of_valueBytes_eq {a b c d : UInt8}
    (h : valueBytes (max 1 (byteSize (bytesValue [a, b, c, d]))) (bytesValue [a, b, c, d]) =
      [a, b, c, d]) : a ≠ 0 := by
  rintro rfl
  have hb := b.toNat_lt
  have hc := c.toNat_lt
  have hd := d.toNat_lt
  have hlen := congrArg List.length h
  have hfour : [0, b, c, d].length = 4 := rfl
  rw [valueBytes_length, hfour] at hlen
  have hlow : 256 ^ 3 ≤ bytesValue [0, b, c, d] := lt_byteSize_iff.1 (by omega)
  rw [bytesValue_four, UInt8.toNat_zero] at hlow
  omega

theorem readBack_ip4 (a b c d : UInt8) (hroom : processed.length < 800)
    (hmore : ∀ {processed : List UInt8}, processed.length < 800 →
      stringToBytesLoop words none processed false = .ok (some out) →
        ReadBack bytes text processed out)
    (h : stringToBytesLoop (ip4.name :: (Component.ip4 a b c d).address :: words) none processed
      false = .ok (some out)) :
    ReadBack ((Component.ip4 a b c d).binary ++ bytes) ((Component.ip4 a b c d).text ++ text)
      processed out := by
  have hmem : ip4 ∈ [ip4, ip6, tcp, udp, dccp, sctp, ipfs] := List.mem_cons_self
  have hsize : byteSize (bytesValue [a, b, c, d]) ≤ 4 :=
    byteSize_le_iff.2 (bytesValue_lt [a, b, c, d])
  have hfront : (valueBytes (max 1 (byteSize (bytesValue [a, b, c, d])))
      (bytesValue [a, b, c, d])).length ≤ [a, b, c, d].length := by
    rw [valueBytes_length]
    exact Nat.max_le.2 ⟨Nat.succ_pos 3, hsize⟩
  have hc : valueBytes (max 1 (byteSize (bytesValue [a, b, c, d]))) (bytesValue [a, b, c, d]) =
      [a, b, c, d] → ∃ c' : Component, c'.Plain ∧ (c'.protocol = ipfs → bytes = []) ∧
        c'.binary = UInt8.ofNat ip4.deccode :: [a, b, c, d] ∧
        c'.text = 47 :: (ip4.name ++ 47 :: (Component.ip4 a b c d).address) := fun heq =>
    ⟨.ip4 a b c d, ne_zero_of_valueBytes_eq heq,
      fun hp => (nomatch congrArg Protocol.deccode hp), rfl, rfl⟩
  exact readBack_cons hmem hroom (ip4StringToBytes_dotted a b c d) (spells_intToHex _)
    (Nat.le_refl _) hfront hc hmore h

/-- a port that is not zero has its two bytes -/
theorem readBack_port (hp : p = tcp ∨ p = udp) (hlen : address.length = 2)
    (hlt : bytesValue address < 10000) (hroom : processed.length < 800)
    (hmore : ∀ {processed : List UInt8}, processed.length < 800 →
      stringToBytesLoop words none processed false = .ok (some out) →
        ReadBack bytes text processed out)
    (h : stringToBytesLoop (p.name :: numeral 10 (bytesValue address) :: words) none processed
      false = .ok (some out)) :
    ReadBack (UInt8.ofNat p.deccode :: (address ++ bytes))
      (47 :: (p.name ++ 47 :: numeral 10 (bytesValue address)) ++ text) processed out := by
  have hmem := mem_of_port hp
  have hport : ∀ word, addressStringToBytes p word = portStringToBytes word := by
    rcases hp with rfl | rfl
    · exact fun word => rfl
    · exact fun word => rfl
  rcases Nat.eq_zero_or_pos (bytesValue address) with hzero | hpos
  · obtain ⟨-, -, hfind, -⟩ := protocol_spec p hmem
    have herr : addressStringToBytes p (numeral 10 (bytesValue address)) = .ok none := by
      rw [hport, hzero, portStringToBytes_zero]
    rw [stringToBytesLoop_err hfind herr] at h
    obtain ⟨coded, -, h⟩ := bind_eq_ok.1 h
    exact absurd h (stringToBytesLoop_malf _ _ _)
  · obtain ⟨hex, hconv, hspells⟩ := portStringToBytes_numeral hpos (by omega)
    have hbytes := valueBytes_bytesValue address
    have hhex := hspells.length
    rw [hlen] at hbytes
    rw [valueBytes_length] at hhex
    rw [← hport] at hconv
    rw [hbytes] at hspells
    have hc : ∃ c : Component, c.Plain ∧ (c.protocol = ipfs → bytes = []) ∧
        c.binary = UInt8.ofNat p.deccode :: address ∧
        c.text = 47 :: (p.name ++ 47 :: numeral 10 (bytesValue address)) := by
      rcases hp with rfl | rfl
      · exact ⟨.tcp ⟨bytesValue address, hpos, by omega⟩, hlt,
          fun hp => (nomatch congrArg Protocol.deccode hp), congrArg _ hbytes, rfl⟩
      · exact ⟨.udp ⟨bytesValue address, hpos, by omega⟩, hlt,
          fun hp => (nomatch congrArg Protocol.deccode hp), congrArg _ hbytes, rfl⟩
    exact readBack_cons hmem hroom hconv hspells (by omega) (Nat.le_refl _) (fun _ => hc) hmore h

/-- a protocol without an address takes the next word for it, or is the last byte -/
theorem readBack_silent (hp : p = ip6 ∨ p = dccp ∨ p = sctp) (hne : address ≠ [])
    (hroom : processed.length < 800)
    (h : stringToBytesLoop (p.name :: words) none processed false = .ok (some out)) :
    ReadBack (UInt8.ofNat p.deccode :: (address ++ bytes)) text processed out := by
  have hmem := mem_of_silent hp
  have herr : ∀ word, addressStringToBytes p word = .ok none := by
    rcases hp with rfl | rfl | rfl
    · exact fun word => rfl
    · exact fun word => rfl
    · exact fun word => rfl
  obtain ⟨-, -, hfind, -⟩ := protocol_spec p hmem
  cases words with
  | nil =>
    rw [stringToBytesLoop_last hfind] at h
    obtain ⟨coded, hcoded, h⟩ := bind_eq_ok.1 h
    obtain ⟨hlt, rfl⟩ := strcat_eq_ok.1 hcoded
    obtain rfl : processed ++ intToHex p.deccode = out := Option.some.inj (Except.ok.inj h)
    refine ⟨_, _, rfl, spells_code hmem, ?_, ?_, ?_⟩
    · rw [List.length_append]
      omega
    · exact Nat.succ_le_succ (Nat.zero_le _)
    · intro heq
      exact absurd (List.append_eq_nil_iff.1 (List.cons.inj heq).2.symm).1 hne
  | cons word words =>
    rw [stringToBytesLoop_err hfind (herr word)] at h
    obtain ⟨coded, -, h⟩ := bind_eq_ok.1 h
    exact absurd h (stringToBytesLoop_malf _ _ _)

theorem readBack_done (hroom : processed.length < 800)
    (h : stringToBytesLoop [] none processed false = .ok (some out)) :
    ReadBack [] [] processed out := by
  obtain rfl : processed = out := Option.some.inj (Except.ok.inj h)
  exact ⟨[], [], (List.append_nil _).symm, rfl, hroom, Nat.le_refl 0,
    fun _ => ⟨[], trivial, rfl, rfl⟩⟩

/-- an id has the same bytes only when it is plain, and its size is that of an id -/
theorem readBack_ipfs {sizeOfId : UInt8} {payload junk id : List UInt8}
    (hsize : 2 * payload.length ≤ sizeOfId.toNat % 128)
    (hid : multiaddrEncodingBase58Encode payload (2 * payload.length) = .ok (some id))
    (hroom : processed.length < 800)
    (h : stringToBytesLoop [ipfs.name, id] none processed false = .ok (some out)) :
    ReadBack (42 :: sizeOfId :: (payload ++ junk)) (47 :: (ipfs.name ++ 47 :: id)) processed
      out := by
  have hmem : ipfs ∈ [ip4, ip6, tcp, udp, dccp, sctp, ipfs] := by decide
  obtain ⟨read, hex, hconv, hlen, hspells, hplain⟩ :=
    ipfsStringToBytes_encoded (by omega : payload.length ≤ 63) hid
  have hhex := hspells.length
  rw [List.length_cons, hlen] at hhex
  have hfront : (sizeByte (2 * payload.length) :: read).length ≤
      (sizeOfId :: (payload ++ junk)).length := by
    rw [List.length_cons, List.length_cons, List.length_append]
    omega
  have hc : sizeByte (2 * payload.length) :: read = sizeOfId :: (payload ++ junk) →
      ∃ c : Component, c.Plain ∧ (c.protocol = ipfs → ([] : List UInt8) = []) ∧
        c.binary = UInt8.ofNat ipfs.deccode :: sizeOfId :: (payload ++ junk) ∧
        c.text = 47 :: (ipfs.name ++ 47 :: id) := by
    intro heq
    obtain ⟨hbyte, hread⟩ := List.cons.inj heq
    have hjunk : junk = [] := by
      have hlens := congrArg List.length hread
      rw [List.length_append] at hlens
      exact List.length_eq_zero_iff.1 (by omega)
    rw [hjunk, List.append_nil] at hread
    obtain ⟨plain, hp, htext, hbytes⟩ := hplain hread
    refine ⟨.ipfs plain, hp, fun _ => rfl, ?_, ?_⟩
    · show _ :: sizeByte (2 * plain.bytes.length) :: plain.bytes = _
      rw [hbytes, hbyte, hjunk, List.append_nil]
      rfl
    · rw [← htext]
      rfl
  have hback := readBack_cons hmem hroom hconv hspells (by omega) hfront hc readBack_done h
  rwa [List.append_nil, List.append_nil] at hback

/-- **a text that was shown is read as fewer bytes, unless they are those of regular
components** -/
theorem shown_encode (h : Shown bytes text) (hroom : processed.length < 800)
    (hread : stringToBytesLoop (strtok 47 text) none processed false = .ok (some out)) :
    ReadBack bytes text processed out := by
  induction h generalizing processed with
  | done => exact readBack_done hroom hread
  | unknown hb =>
    obtain ⟨hex, back, hout, hspells, hlen, hback, -⟩ := readBack_done hroom hread
    obtain rfl := List.length_eq_zero_iff.1 (Nat.le_zero.1 hback)
    exact ⟨hex, [], hout, hspells, hlen, Nat.zero_le _, fun heq => (nomatch heq)⟩
  | ip4 a b c d hshown ih =>
    rw [Component.text, strtok_named (protocol_mem _) (address_ne_nil _) (not_mem_address _)
      hshown.slashed] at hread
    exact readBack_ip4 a b c d hroom ih hread
  | port hp hlen hlt hshown ih =>
    rw [strtok_named (mem_of_port hp) (numeral_ne_nil _) (not_mem_numeral (by decide) _)
      hshown.slashed] at hread
    exact readBack_port hp hlen hlt hroom ih hread
  | silent hp hne hshown ih =>
    obtain ⟨hname, hslash, -⟩ := protocol_spec _ (mem_of_silent hp)
    rw [strtok_cons_self, strtok_word hname hslash] at hread
    exact readBack_silent hp hne hroom hread
  | ipfs hsize hid =>
    obtain ⟨hname, hslash, -⟩ := protocol_spec Libp2p.ipfs (by decide)
    obtain ⟨hne, hnot⟩ := word_of_base58Encode hid
    rw [strtok_cons_self, strtok_word hname hslash, strtok_of_not_mem hne hnot] at hread
    exact readBack_ipfs hsize hid hroom hread

end

/-! ## the round trip -/

section
variable {cs : List Component} {bytes text : List UInt8}

theorem Regular.forall_plain (h : Regular cs) : ∀ c ∈ cs, c.Plain := by
  induction cs with
  | nil => exact fun c hc => (nomatch hc)
  | cons c cs ih =>
    obtain ⟨hplain, -, hrest⟩ := h
    intro x hx
    rcases List.mem_cons.1 hx with rfl | hx
    · exact hplain
    · exact ih hrest x hx

/-- the text of bytes, without the slash behind it -/
theorem shown_of_bytesToString (h : bytesToString bytes = .ok (some text)) :
    ∃ shown, Shown bytes shown ∧ bytes ≠ [] ∧ text = shown ++ [47] ∧ shown.length < 799 := by
  unfold bytesToString at h
  obtain ⟨results, hloop, h⟩ := bind_eq_ok.1 h
  cases results with
  | none => cases h
  | some results =>
    obtain ⟨slashed, hslashed, h⟩ := bind_eq_ok.1 h
    obtain ⟨hlt, rfl⟩ := strcat_eq_ok.1 hslashed
    obtain ⟨shown, hshown, hresults⟩ := exists_shown hloop
    rw [List.nil_append] at hresults
    rw [List.length_singleton] at hlt
    refine ⟨results, by rwa [hresults], ?_, (Option.some.inj (Except.ok.inj h)).symm, by omega⟩
    rintro rfl
    cases hloop

/-- what the words of a text are read as -/
theorem loop_of_stringToBytes (h : stringToBytes text text.length = .ok (some bytes)) :
    ∃ processed, stringToBytesLoop (strtok 47 text) none [] false = .ok (some processed) ∧
      hexToVar processed = .ok bytes := by
  unfold stringToBytes at h
  split at h
  · cases h
  · rw [strcpy_pos (Nat.lt_succ_self _), ok_bind] at h
    obtain ⟨processed, hloop, h⟩ := bind_eq_ok.1 h
    cases processed with
    | none => cases h
    | some processed =>
      obtain ⟨read, hread, h⟩ := bind_eq_ok.1 h
      obtain rfl := Option.some.inj (Except.ok.inj h)
      exact ⟨processed, hloop, hread⟩

/-- **bytes that come back** are those of a plain multiaddress, which is what is shown for them -/
theorem exists_plain_of_bytesBack (htext : bytesToString bytes = .ok (some text))
    (hback : stringToBytes text text.length = .ok (some bytes)) :
    ∃ cs, cs ≠ [] ∧ (multiaddrBinary cs).length ≤ 399 ∧ Plain cs ∧ bytes = multiaddrBinary cs ∧
      text = multiaddrText cs ++ [47] := by
  obtain ⟨shown, hshown, hne, rfl, hshort⟩ := shown_of_bytesToString htext
  obtain ⟨processed, hloop, hread⟩ := loop_of_stringToBytes hback
  rw [strtok_concat_self] at hloop
  obtain ⟨hex, back, rfl, hspells, hlt, -, hregular⟩ :=
    shown_encode hshown (by decide : ([] : List UInt8).length < 800) hloop
  rw [hexToVar_of_spells hspells] at hread
  obtain ⟨cs, hcs, hbytes, rfl⟩ := hregular (Except.ok.inj hread)
  have hlen := hspells.length
  rw [Except.ok.inj hread, hbytes] at hlen
  refine ⟨cs, ?_, by omega, ⟨hcs, hshort⟩, hbytes, rfl⟩
  rintro rfl
  exact hne hbytes

/-- **the bytes** -/
theorem bytesBack_iff : BytesBack bytes ↔
    ∃ cs, cs ≠ [] ∧ (multiaddrBinary cs).length ≤ 399 ∧ Plain cs ∧ bytes = multiaddrBinary cs := by
  constructor
  · rintro ⟨text, htext, hback⟩
    obtain ⟨cs, hne, hfit, hplain, hbytes, -⟩ := exists_plain_of_bytesBack htext hback
    exact ⟨cs, hne, hfit, hplain, hbytes⟩
  · rintro ⟨cs, hne, hfit, hplain, rfl⟩
    exact ⟨_, bytesToString_plain hplain hne,
      stringToBytes_plain hne hplain.regular.forall_plain hfit (.inr rfl)⟩

/-- a slash at the end is passed over -/
theorem stringToBytes_concat (hne : cs ≠ []) :
    stringToBytes (multiaddrText cs ++ [47]) (multiaddrText cs ++ [47]).length =
      stringToBytes (multiaddrText cs) (multiaddrText cs).length := by
  have hhead : (multiaddrText cs).head? = some 47 := by
    cases cs with
    | nil => exact absurd rfl hne
    | cons c cs => rfl
  have hhead' : (multiaddrText cs ++ [47]).head? = some 47 := by
    rw [List.head?_append, hhead]
    rfl
  unfold stringToBytes
  rw [if_neg (not_not_intro hhead), if_neg (not_not_intro hhead'),
    strcpy_pos (Nat.lt_succ_self _), strcpy_pos (Nat.lt_succ_self _), ok_bind, ok_bind,
    strtok_concat_self]

/-- **the text** -/
theorem textBack_iff (hne : cs ≠ []) (hfit : (multiaddrBinary cs).length ≤ 399) :
    TextBack cs ↔ Plain cs := by
  constructor
  · rintro ⟨bytes, back, hread, hshown, hback⟩
    have hagain : stringToBytes back back.length = .ok (some bytes) := by
      rcases hback with rfl | rfl
      · exact hread
      · rw [stringToBytes_concat hne, hread]
    obtain ⟨cs', -, -, hplain, -, htext⟩ := exists_plain_of_bytesBack hshown hagain
    -- the same words, and so the same components
    have hwords : strtok 47 (multiaddrText cs) = strtok 47 (multiaddrText cs') := by
      rcases hback with rfl | hback
      · rw [htext, strtok_concat_self]
      · rw [List.append_cancel_right (hback.symm.trans htext)]
    rw [strtok_multiaddrText, strtok_multiaddrText] at hwords
    rwa [multiaddrWords_injective hwords]
  · intro hplain
    have hread := @stringToBytes_plain cs [] hne hplain.regular.forall_plain hfit (.inl rfl)
    rw [List.append_nil] at hread
    exact ⟨_, _, hread, bytesToString_plain hplain hne, .inr rfl⟩

/-- **the round trip of a multiaddress**: of a text whose bytes fit, and of bytes -/
theorem multiaddr_iff (cs : List Component) (hne : cs ≠ [])
    (hfit : (multiaddrBinary cs).length ≤ 399) (bytes : List UInt8) :
    (TextBack cs ↔ Plain cs) ∧ (BytesBack bytes ↔ ∃ cs', cs' ≠ [] ∧
      (multiaddrBinary cs').length ≤ 399 ∧ Plain cs' ∧ bytes = multiaddrBinary cs') :=
  ⟨textBack_iff hne hfit, bytesBack_iff⟩

end

/-- `/ip4/127.0.0.1/tcp/4001/ipfs/QmYw...` -/
def localPeer : List Component :=
  [.ip4 127 0 0 1, .tcp ⟨4001, by decide, by decide⟩,
    .ipfs ⟨asciiBytes "QmYwAPJzv5CZsnA625s3Xf2nemtYgPpHdWEz79ojWnPbdG", by decide +kernel,
      by decide +kernel⟩]

theorem multiaddr_iff_localPeer : TextBack localPeer ∧ BytesBack (multiaddrBinary localPeer) := by
  have hne : localPeer ≠ [] := List.cons_ne_nil _ _
  have hfit : (multiaddrBinary localPeer).length ≤ 399 := by decide +kernel
  have hid : (Component.ipfs ⟨asciiBytes "QmYwAPJzv5CZsnA625s3Xf2nemtYgPpHdWEz79ojWnPbdG",
      by decide +kernel, by decide +kernel⟩).Plain :=
    ⟨by decide +kernel, by decide +kernel, by decide +kernel⟩
  have hoctet : (127 : UInt8) ≠ 0 := by decide
  have hport : 4001 < 10000 := by decide
  have hplain : Plain localPeer :=
    ⟨⟨hoctet, fun h => (nomatch congrArg Protocol.deccode h), hport,
      fun h => (nomatch congrArg Protocol.deccode h), hid, fun _ => rfl, trivial⟩,
      by decide +kernel⟩
  obtain ⟨htext, hbytes⟩ := multiaddr_iff localPeer hne hfit (multiaddrBinary localPeer)
  exact ⟨htext.2 hplain, hbytes.2 ⟨localPeer, hne, hfit, hplain, rfl⟩⟩

/-- `/ip4/0.1.2.3/tcp/4001` -/
def zeroNetwork : List Component := [.ip4 0 1 2 3, .tcp ⟨4001, by decide, by decide⟩]

/-- the first octet is left out, and the next protocol is taken for the last one -/
theorem not_textBack_zeroNetwork : zeroNetwork ≠ [] ∧
    (multiaddrBinary zeroNetwork).length ≤ 399 ∧ ¬ TextBack zeroNetwork := by
  refine ⟨List.cons_ne_nil _ _, by decide +kernel, ?_⟩
  have hread : stringToBytes (multiaddrText zeroNetwork) (multiaddrText zeroNetwork).length =
      .ok (some [4, 1, 2, 3, 6, 15, 161]) := by decide +kernel
  have hshown : bytesToString [4, 1, 2, 3, 6, 15, 161] =
      .ok (some (asciiBytes "/ip4/1.2.3.6/")) := by decide +kernel
  rintro ⟨bytes, back, hbytes, hback, heq⟩
  rw [hread] at hbytes
  obtain rfl := Option.some.inj (Except.ok.inj hbytes)
  rw [hshown] at hback
  obtain rfl := Option.some.inj (Except.ok.inj hback)
  revert heq
  decide +kernel

end Libp2p
