import Libipfs.Multiaddr.Hex

/-!
# Multiaddresses in text and in bytes

`string_to_bytes` collects the hexadecimal text of the protocols and addresses between slashes;
`bytes_to_string` finds the protocols again by the sizes in the table.

* `stringToBytes`, `bytesToString`   the two functions, `none` where they return 0;
* `stringToBytesLoop_address`        a protocol and its address;
* `bytesToStringLoop_sized`          **a turn of the decoder on a protocol of fixed size**;
* `bytesToStringLoop_ipfs`           and on an id.
-/

namespace Libp2p
open CSem

/-! ## protocols -/

structure Protocol where
  deccode : Nat
  name : List UInt8
  /-- the bits of an address -/
  size : Int
  deriving DecidableEq

def ip4 : Protocol := ⟨4, asciiBytes "ip4", 32⟩
def ip6 : Protocol := ⟨41, asciiBytes "ip6", 128⟩
def tcp : Protocol := ⟨6, asciiBytes "tcp", 16⟩
def udp : Protocol := ⟨17, asciiBytes "udp", 16⟩
def dccp : Protocol := ⟨33, asciiBytes "dccp", 16⟩
def sctp : Protocol := ⟨132, asciiBytes "sctp", 16⟩
def ipfs : Protocol := ⟨42, asciiBytes "ipfs", -1⟩

def loadProtocols : List Protocol :=
  [ip4, ip6, tcp, udp, dccp, sctp, ⟨301, asciiBytes "udt", 0⟩, ⟨302, asciiBytes "utp", 0⟩, ipfs,
    ⟨480, asciiBytes "http", 0⟩, ⟨443, asciiBytes "https", 0⟩, ⟨477, asciiBytes "ws", 0⟩,
    ⟨444, asciiBytes "onion", 10⟩, ⟨275, asciiBytes "libp2p-webrtc-star", 0⟩]

def protoWithName (name : List UInt8) : Option Protocol :=
  loadProtocols.find? fun p => p.name == name

def protoWithDeccode (deccode : Nat) : Option Protocol :=
  loadProtocols.find? fun p => p.deccode == deccode

/-! ## addresses -/

def validDigit (ipStr : List UInt8) : Bool := ipStr.all fun c => 48 ≤ c ∧ c ≤ 57

/-- the words from the one that `ptr` is at on -/
structure Ipv4State where
  words : List (List UInt8)
  err : Bool
  dots : Nat
  deriving DecidableEq

/-- what is done at a word, with those behind it -/
def ipv4Pass (s : Ipv4State) (ptr : List UInt8) (rest : List (List UInt8)) : Exec Ipv4State := do
  let err := s.err || !validDigit ptr
  let num ← atoi ptr
  if 0 ≤ num ∧ num ≤ 255 then
    if rest ≠ [] then do
      require .overflow (s.dots + 1 < 2 ^ 31)
      .ok { words := rest, err := err, dots := s.dots + 1 }
    else .ok { words := rest, err := err, dots := s.dots }
  else .ok { s with err := true }

/-- so many passes at most -/
def ipv4Loop : Nat → Ipv4State → Exec Ipv4State
  | 0, _ => .error .diverges
  | fuel + 1, s =>
    match s.words with
    | [] => .ok s
    | ptr :: rest => do
      let s ← ipv4Pass s ptr rest
      ipv4Loop fuel s

def ipv4Start (ipStr : List UInt8) : Ipv4State where
  words := strtok 46 ipStr
  err := strtok 46 ipStr = []
  dots := 0

/-- the loop may take so many passes -/
def isValidIpv4 (fuel : Nat) (ipStr : List UInt8) : Exec Bool := do
  let s ← ipv4Loop fuel (ipv4Start ipStr)
  let err := if s.dots ≠ 3 then true else s.err
  .ok (err = false)

def ip2int (ipconvertint : List UInt8) : Exec Nat := do
  let ip ← strcpy 16 ipconvertint
  let words := strtok 46 ip
  let ipat1 ← deref words[0]? >>= atoi
  let ipat2 ← deref words[1]? >>= atoi
  let ipat3 ← deref words[2]? >>= atoi
  let ipat4 ← deref words[3]? >>= atoi
  .ok (toUInt64 (ipat1 * 2 ^ 24 + ipat2 * 2 ^ 16 + ipat3 * 2 ^ 8 + ipat4 * 1))

/-- four numbers with dots between them -/
def dotted (a b c d : Nat) : List UInt8 :=
  numeral 10 a ++ 46 :: (numeral 10 b ++ 46 :: (numeral 10 c ++ 46 :: numeral 10 d))

def int2ip (inputintip : Nat) : List UInt8 :=
  let ipint := inputintip % 2 ^ 32
  dotted (ipint / 2 ^ 24 % 256) (ipint / 2 ^ 16 % 256) (ipint / 2 ^ 8 % 256) (ipint % 256)

/-- the hexadecimal text of an address, and the size that goes with it; `none` for "ERR" -/
abbrev Converted : Type := Option (List UInt8 × Nat)

def ip4StringToBytes (incoming : List UInt8) : Exec Converted := do
  let testip ← strcpy 16 incoming
  -- a number out of range is looked at again and again, and any other once
  let valid ← isValidIpv4 (testip.length + 1) testip
  if valid then
    let iip ← ip2int incoming
    .ok (some (intToHex iip, (intToHex iip).length))
  else .ok none

/-- zeros in front up to four digits, and the size counts the zero byte -/
def portStringToBytes (incoming : List UInt8) : Exec Converted := do
  let port ← atoi incoming
  if port < 65536 ∧ port > 0 then
    let woot ← strcpy 5 (intToHex port.toNat)
    .ok (some (List.leftpad 4 48 woot, 5))
  else .ok none

/-- the size counts the zero byte -/
def ipfsStringToBytes (incoming : List UInt8) : Exec Converted := do
  let resultBufferLength := multiaddrEncodingBase58DecodeMaxSize incoming
  let decoded ← multiaddrEncodingBase58Decode incoming resultBufferLength
  match decoded with
  | none => .ok none
  | some (resultBuffer, length) => do
    require .outOfBounds (length ≤ resultBuffer.length)
    let addrEncoded ← strcpy 300 (varToHex (resultBuffer.take length))
    let ilen := addrEncoded.length
    .ok (some (numToHexVar32 ilen ++ addrEncoded, ilen + 3))

/-- "ERR" for all others -/
def addressStringToBytes (protocol : Protocol) (incoming : List UInt8) : Exec Converted :=
  match protocol.deccode with
  | 4 => ip4StringToBytes incoming
  | 6 => portStringToBytes incoming
  | 17 => portStringToBytes incoming
  | 42 => ipfsStringToBytes incoming
  | _ => .ok none

/-! ## text to bytes -/

/-- the words between slashes: a protocol, and then its address, what is collected, and whether
an address was malformed; `none` for a word that is no protocol -/
def stringToBytesLoop : List (List UInt8) → Option Protocol → List UInt8 → Bool →
    Exec (Option (List UInt8))
  | [], _, processed, malf => .ok (if malf then none else some processed)
  | wp :: words, none, processed, malf =>
    match protoWithName wp with
    | none => .ok none
    | some protx => do
      let processed ← strcat 800 processed (intToHex protx.deccode)
      stringToBytesLoop words (some protx) processed malf
  | wp :: words, some protx, processed, malf => do
    let converted ← addressStringToBytes protx wp
    match converted with
    | none => stringToBytesLoop words none processed true
    | some (sToB, sToBSize) => do
      require .overflow (processed.length + sToBSize < 800)
      stringToBytesLoop words none (processed ++ sToB) malf

def stringToBytes (strx : List UInt8) (strsize : Nat) : Exec (Option (List UInt8)) :=
  if strx.head? ≠ some 47 then .ok none
  else do
    let pstring ← strcpy (strsize + 1) strx
    let processed ← stringToBytesLoop (strtok 47 pstring) none [] false
    match processed with
    | none => .ok none
    | some processed => do
      let bytes ← hexToVar processed
      .ok (some bytes)

/-! ## bytes to text -/

/-- a port is written into a buffer of five bytes; nothing is written for other protocols -/
def addressToString (name address : List UInt8) : Exec (List UInt8) :=
  if name == asciiBytes "ip4" then .ok (int2ip (hexToInt address))
  else if name == asciiBytes "tcp" then strcpy 5 (numeral 10 (hexToInt address))
  else if name == asciiBytes "udp" then strcpy 5 (numeral 10 (hexToInt address))
  else .ok []

def appendId (results : List UInt8) : Option (List UInt8) → Exec (Option (List UInt8))
  | none => .ok none
  | some b58 => do
    let results ← strcat 800 results (47 :: asciiBytes "ipfs" ++ [47])
    let results ← strcat 800 results b58
    .ok (some results)

/-- the id behind the two digits of its size -/
def ipfsToString (rest results : List UInt8) : Exec (Option (List UInt8)) := do
  require .outOfBounds (2 ≤ rest.length)
  let addrsize ← hexVarToNum32 (rest.take 2)
  let rest := rest.drop 2
  require .outOfBounds (addrsize ≤ rest.length)
  let ipfsAddr := (cutAt 0 (rest.take addrsize)).1
  let addrbuf ← hexToVar ipfsAddr
  let b58 ← multiaddrEncodingBase58Encode addrbuf ipfsAddr.length
  appendId results b58

/-- what is left of the hexadecimal text, with the zero byte behind it, and the results so far -/
def bytesToStringLoop : Nat → List UInt8 → List UInt8 → Exec (Option (List UInt8))
  | 0, _, _ => .error .diverges
  | fuel + 1, hex, results => do
    require .outOfBounds (2 ≤ hex.length)
    let pid := hex.take 2
    let rest := hex.drop 2
    match protoWithDeccode (hexToInt pid) with
    | none => .ok (some results)
    | some protocol =>
      if protocol.name != asciiBytes "ipfs" then do
        let size := (protocol.size / 4).toNat
        require .outOfBounds (size ≤ rest.length)
        let address := rest.take size
        let results ← strcat 800 results (47 :: protocol.name ++ [47])
        let value ← addressToString protocol.name address
        let results ← strcat 800 results value
        if 1 < (rest.drop size).length then bytesToStringLoop fuel (rest.drop size) results
        else .ok (some results)
      else ipfsToString rest results

def bytesToString (inBytes : List UInt8) : Exec (Option (List UInt8)) := do
  let hex := varToHex inBytes ++ [0]
  let results ← bytesToStringLoop hex.length hex []
  match results with
  | none => .ok none
  | some results => do
    let results ← strcat 800 results [47]
    .ok (some results)

/-! ## the encoder -/

section
variable {p : Protocol} {address hex words processed results bytes : List UInt8}
  {size : Nat} {malf : Bool}

/-- a protocol and an address that can be converted -/
theorem stringToBytesLoop_address {words : List (List UInt8)}
    (hp : protoWithName p.name = some p)
    (h : addressStringToBytes p address = .ok (some (hex, size))) :
    stringToBytesLoop (p.name :: address :: words) none processed malf =
      strcat 800 processed (intToHex p.deccode) >>= fun processed =>
        require .overflow (processed.length + size < 800) >>= fun _ =>
          stringToBytesLoop words none (processed ++ hex) malf := by
  rw [stringToBytesLoop, hp]
  dsimp only
  refine congrArg _ (funext fun processed => ?_)
  rw [stringToBytesLoop, h, ok_bind]

/-- a protocol and an address that can not -/
theorem stringToBytesLoop_err {words : List (List UInt8)}
    (hp : protoWithName p.name = some p) (h : addressStringToBytes p address = .ok none) :
    stringToBytesLoop (p.name :: address :: words) none processed malf =
      strcat 800 processed (intToHex p.deccode) >>= fun processed =>
        stringToBytesLoop words none processed true := by
  rw [stringToBytesLoop, hp]
  dsimp only
  refine congrArg _ (funext fun processed => ?_)
  rw [stringToBytesLoop, h, ok_bind]

/-- a protocol without an address -/
theorem stringToBytesLoop_last (hp : protoWithName p.name = some p) :
    stringToBytesLoop [p.name] none processed malf =
      strcat 800 processed (intToHex p.deccode) >>= fun processed =>
        .ok (if malf then none else some processed) := by
  rw [stringToBytesLoop, hp]
  rfl

/-- once an address is malformed the text is -/
theorem stringToBytesLoop_malf (words : List (List UInt8)) (protx : Option Protocol)
    (processed : List UInt8) :
    stringToBytesLoop words protx processed true ≠ .ok (some bytes) := by
  intro h
  induction words generalizing protx processed with
  | nil => cases h
  | cons wp words ih =>
    cases protx with
    | none =>
      rw [stringToBytesLoop] at h
      cases hp : protoWithName wp with
      | none =>
        rw [hp] at h
        cases h
      | some p =>
        rw [hp] at h
        obtain ⟨processed', -, h⟩ := bind_eq_ok.1 h
        exact ih _ _ h
    | some p =>
      rw [stringToBytesLoop] at h
      obtain ⟨converted, -, h⟩ := bind_eq_ok.1 h
      cases converted with
      | none => exact ih _ _ h
      | some pair =>
        obtain ⟨-, h⟩ := require_bind_eq_ok.1 h
        exact ih _ _ h

end

/-! ## the decoder -/

section
variable {p : Protocol} {b : UInt8} {bytes results text : List UInt8} {fuel k : Nat}

theorem varToHex_length (bytes : List UInt8) : (varToHex bytes).length = 2 * bytes.length :=
  (spells_varToHex bytes).length

theorem varToHex_append (bytes more : List UInt8) :
    varToHex (bytes ++ more) = varToHex bytes ++ varToHex more := List.flatMap_append

theorem take_varToHex (k : Nat) (bytes : List UInt8) :
    (varToHex bytes).take (2 * k) = varToHex (bytes.take k) := by
  induction k generalizing bytes with
  | zero => rfl
  | succ k ih =>
    cases bytes with
    | nil => rfl
    | cons b bytes =>
      rw [Nat.mul_succ, List.take_succ_cons]
      exact congrArg (hexByte b ++ ·) (ih bytes)

theorem take_varToHex_append (hk : k ≤ bytes.length) :
    (varToHex bytes ++ [0]).take (2 * k) = varToHex (bytes.take k) := by
  rw [List.take_append_of_le_length (by rw [varToHex_length]; omega), take_varToHex]

theorem drop_varToHex_append (hk : k ≤ bytes.length) :
    (varToHex bytes ++ [0]).drop (2 * k) = varToHex (bytes.drop k) ++ [0] := by
  have hsplit : varToHex bytes = varToHex (bytes.take k) ++ varToHex (bytes.drop k) := by
    rw [← varToHex_append, List.take_append_drop]
  have hlen : (varToHex (bytes.take k)).length = 2 * k := by
    rw [varToHex_length, List.length_take, Nat.min_eq_left hk]
  rw [hsplit, List.append_assoc, ← hlen, List.drop_left]

theorem hexToInt_hexByte (b : UInt8) : hexToInt (hexByte b) = b.toNat := by
  rw [hexToInt_of_spells (spells_hexByte b) (by simp)]
  exact Nat.zero_add _

/-- the digits of a protocol, and the text behind them -/
theorem varToHex_cons (b : UInt8) (bytes : List UInt8) :
    2 ≤ (varToHex (b :: bytes) ++ [0]).length ∧
      (varToHex (b :: bytes) ++ [0]).take 2 = hexByte b ∧
      (varToHex (b :: bytes) ++ [0]).drop 2 = varToHex bytes ++ [0] := by
  refine ⟨?_, rfl, rfl⟩
  rw [List.length_append, varToHex_length, List.length_cons]
  omega

/-- nothing more is read once a protocol is unknown -/
theorem bytesToStringLoop_unknown (h : protoWithDeccode b.toNat = none) :
    bytesToStringLoop (fuel + 1) (varToHex (b :: bytes) ++ [0]) results = .ok (some results) := by
  obtain ⟨hlen, htake, hdrop⟩ := varToHex_cons b bytes
  rw [bytesToStringLoop, require_pos hlen, ok_bind]
  dsimp only
  rw [htake, hexToInt_hexByte, h]

/-- what is left to do, if anything -/
def decodeRest (fuel : Nat) (bytes results : List UInt8) : Exec (Option (List UInt8)) :=
  if bytes = [] then .ok (some results)
  else bytesToStringLoop fuel (varToHex bytes ++ [0]) results

/-- **a turn on a protocol whose addresses have `k` bytes** -/
theorem bytesToStringLoop_sized (hp : protoWithDeccode b.toNat = some p)
    (hname : p.name ≠ asciiBytes "ipfs") (hk : (p.size / 4).toNat = 2 * k) :
    bytesToStringLoop (fuel + 1) (varToHex (b :: bytes) ++ [0]) results =
      require .outOfBounds (k ≤ bytes.length) >>= fun _ =>
        strcat 800 results (47 :: p.name ++ [47]) >>= fun results =>
          addressToString p.name (varToHex (bytes.take k)) >>= fun value =>
            strcat 800 results value >>= fun results =>
              decodeRest fuel (bytes.drop k) results := by
  obtain ⟨hlen, htake, hdrop⟩ := varToHex_cons b bytes
  rw [bytesToStringLoop, require_pos hlen, ok_bind]
  dsimp only
  rw [htake, hexToInt_hexByte, hp, hdrop]
  dsimp only
  rw [if_pos (bne_iff_ne.2 hname), hk]
  by_cases hle : k ≤ bytes.length
  · have hroom : 2 * k ≤ (varToHex bytes ++ [0]).length := by
      rw [List.length_append, varToHex_length]
      omega
    rw [require_pos hroom, require_pos hle, ok_bind, ok_bind,
      take_varToHex_append hle, drop_varToHex_append hle]
    refine congrArg _ (funext fun results => congrArg _ (funext fun value =>
      congrArg _ (funext fun results => ?_)))
    unfold decodeRest
    cases bytes.drop k with
    | nil => rfl
    | cons c bytes =>
      have hmore : 1 < (varToHex (c :: bytes) ++ [0]).length := by
        rw [List.length_append, varToHex_length, List.length_cons]
        omega
      rw [if_pos hmore, if_neg (List.cons_ne_nil c bytes)]
  · have hroom : ¬ 2 * k ≤ (varToHex bytes ++ [0]).length := by
      rw [List.length_append, varToHex_length, List.length_singleton]
      omega
    rw [require_neg hroom, require_neg hle]
    rfl

/-- the digits of an id end at the zero byte -/
theorem cutAt_take_varToHex (m : Nat) (bytes : List UInt8) :
    (cutAt 0 ((varToHex bytes ++ [0]).take m)).1 = (varToHex bytes).take m := by
  have h0 := not_mem_of_spells (spells_varToHex bytes)
  by_cases hm : m ≤ (varToHex bytes).length
  · have h0' : 0 ∉ (varToHex bytes).take m := fun h => h0 (List.mem_of_mem_take h)
    rw [List.take_append_of_le_length hm, cutAt_of_not_mem h0']
  · have hall : (varToHex bytes ++ [0]).length ≤ m := by
      rw [List.length_append, List.length_singleton]
      omega
    rw [List.take_of_length_le hall, cutAt_append h0, List.take_of_length_le (by omega)]

/-- the size, and what is left behind it -/
theorem ipfsToString_cons (size : UInt8) (bytes results : List UInt8) :
    ipfsToString (varToHex (size :: bytes) ++ [0]) results =
      require .outOfBounds (size.toNat % 128 ≤ 2 * bytes.length + 1) >>= fun _ =>
        hexToVar ((varToHex bytes).take (size.toNat % 128)) >>= fun addrbuf =>
          multiaddrEncodingBase58Encode addrbuf ((varToHex bytes).take (size.toNat % 128)).length >>=
            appendId results := by
  obtain ⟨hlen, htake, hdrop⟩ := varToHex_cons size bytes
  unfold ipfsToString
  rw [require_pos hlen, ok_bind, htake, hexVarToNum32_hexByte, ok_bind]
  dsimp only
  rw [hdrop, cutAt_take_varToHex, List.length_append, varToHex_length, List.length_singleton]

/-- **an id that is read**: the bytes it is the text of, up to as many as the size says -/
theorem exists_of_ipfsToString (h : ipfsToString (varToHex bytes ++ [0]) results = .ok (some text)) :
    ∃ size payload junk id, bytes = size :: (payload ++ junk) ∧
      2 * payload.length ≤ size.toNat % 128 ∧
      multiaddrEncodingBase58Encode payload (2 * payload.length) = .ok (some id) ∧
      text = results ++ (47 :: asciiBytes "ipfs" ++ [47]) ++ id := by
  cases bytes with
  | nil => exact nomatch h
  | cons size bytes =>
    rw [ipfsToString_cons] at h
    obtain ⟨-, h⟩ := require_bind_eq_ok.1 h
    obtain ⟨addrbuf, hread, h⟩ := bind_eq_ok.1 h
    obtain ⟨b58, hb58, hid⟩ := bind_eq_ok.1 h
    -- the number of digits is even
    have heven := even_of_hexToVar hread
    rw [List.length_take, varToHex_length] at heven
    obtain ⟨k, hk⟩ : ∃ k, min (size.toNat % 128) (2 * bytes.length) = 2 * k :=
      ⟨_, (Nat.mul_div_cancel' (Nat.dvd_of_mod_eq_zero heven)).symm⟩
    have htake : (varToHex bytes).take (size.toNat % 128) = varToHex (bytes.take k) := by
      rw [← take_varToHex, ← hk, ← varToHex_length, ← List.take_eq_take_min]
    have hlen : (bytes.take k).length = k := by
      rw [List.length_take]
      omega
    rw [htake, hexToVar_of_spells (spells_varToHex _)] at hread
    rw [htake, varToHex_length, ← Except.ok.inj hread] at hb58
    cases b58 with
    | none => cases hid
    | some id =>
      obtain ⟨first, hfirst, hid⟩ := bind_eq_ok.1 hid
      obtain ⟨second, hsecond, hid⟩ := bind_eq_ok.1 hid
      refine ⟨size, bytes.take k, bytes.drop k, id, ?_, ?_, hb58, ?_⟩
      · rw [List.take_append_drop]
      · omega
      · rw [(strcat_eq_ok.1 hfirst).2, (strcat_eq_ok.1 hsecond).2]
        exact (Option.some.inj (Except.ok.inj hid)).symm

/-- **an id is read back** when the size says how many digits there are -/
theorem ipfsToString_eq {id : List UInt8} {size : UInt8} {payload : List UInt8}
    (hsize : size.toNat % 128 = 2 * payload.length)
    (hid : multiaddrEncodingBase58Encode payload (2 * payload.length) = .ok (some id))
    (hroom : (results ++ (47 :: asciiBytes "ipfs" ++ [47]) ++ id).length < 800) :
    ipfsToString (varToHex (size :: payload) ++ [0]) results =
      .ok (some (results ++ (47 :: asciiBytes "ipfs" ++ [47]) ++ id)) := by
  have hall : (varToHex payload).take (2 * payload.length) = varToHex payload := by
    rw [take_varToHex, List.take_length]
  rw [List.length_append, List.length_append] at hroom
  rw [ipfsToString_cons, hsize, require_pos (Nat.le_succ _), ok_bind, hall,
    hexToVar_of_spells (spells_varToHex payload), ok_bind, varToHex_length, hid, ok_bind, appendId]
  rw [strcat_pos (by omega), ok_bind, strcat_pos (by rw [List.length_append]; omega), ok_bind]

theorem bytesToStringLoop_ipfs (bytes results : List UInt8) :
    bytesToStringLoop (fuel + 1) (varToHex (42 :: bytes) ++ [0]) results =
      ipfsToString (varToHex bytes ++ [0]) results := by
  have hp : protoWithDeccode (42 : UInt8).toNat = some ipfs := by decide
  have hname : ¬ (ipfs.name != asciiBytes "ipfs") = true := by decide
  obtain ⟨hlen, htake, hdrop⟩ := varToHex_cons 42 bytes
  rw [bytesToStringLoop, require_pos hlen, ok_bind]
  dsimp only
  rw [htake, hexToInt_hexByte, hp, hdrop]
  exact if_neg hname

end

end Libp2p
