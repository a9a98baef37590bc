import Libipfs.Lib.CString

/-!
# The negotiation of a secure channel

Each side has the proposal of the other and its own, and runs the same code with the two
exchanged.  The order of two hashes says whose preferences lead; the keys are the two halves of
what the shared secret is stretched to.

* `secioDetermineOrder`   who leads, as a sign;
* `secioSelectBest`       the first entry of the leading list that is in the other;
* `secioStretchKeys`      two keys from a secret;
* `secioHandshake`        what a side comes to, from the two proposals and the shared secret;
* `Agreement`             the two sides come to the same, with their keys crossed;
* `agreement_of_fits`     **the two sides agree** when their hashes differ.
-/

set_option linter.unusedVariables false

namespace Libp2p
open CSem

structure Propose where
  rand : List UInt8
  publicKey : List UInt8
  exchanges : List UInt8
  ciphers : List UInt8
  hashes : List UInt8
  deriving DecidableEq, Repr

/-- a hash of SHA-256 -/
abbrev Digest : Type := { h : List UInt8 // h.length = 32 }

/-! ## who leads -/

/-- the key, and the nonce behind it -/
def secioHash (sha256 : List UInt8 → Digest) (key nonce : List UInt8) : Digest :=
  sha256 (key ++ nonce)

/-- -1, 0 or 1 -/
def secioBytesCompare : Nat → List UInt8 → List UInt8 → Exec Int
  | 0, _, _ => .ok 0
  | length + 1, a :: as, b :: bs =>
    if b > a then .ok (-1)
    else if a > b then .ok 1
    else secioBytesCompare length as bs
  | _ + 1, _, _ => .error .outOfBounds

/-- the key of one side is hashed with the nonce of the other -/
def secioDetermineOrder (sha256 : List UInt8 → Digest) (remote own : Propose) : Exec Int :=
  let hash1 := secioHash sha256 remote.publicKey own.rand
  let hash2 := secioHash sha256 own.publicKey remote.rand
  secioBytesCompare 32 hash1.1 hash2.1

/-! ## what is chosen -/

/-- the copy is an array of one byte more than the list has, counted by an `int` -/
def secioSplitList (list : List UInt8) (listSize : Int) : Exec (List (List UInt8)) := do
  require .overflow (0 ≤ listSize ∧ listSize < 2 ^ 31 - 1)
  require .outOfBounds (listSize.toNat ≤ list.length)
  .ok (strtok 44 (cutAt 0 (list.take listSize.toNat)).1)

/-- the first entry of the leading list that is in the other -/
def firstMatch (lead follower : List (List UInt8)) : Option (List UInt8) :=
  lead.find? fun s => follower.contains s

/-- `none` when the function returns 0 -/
def secioSelectBest (order : Int) (localList : List UInt8) (localListSize : Int)
    (remoteList : List UInt8) (remoteListSize : Int) : Exec (Option (List UInt8)) := do
  let leadHead ← secioSplitList localList localListSize
  if order = 0 then do
    let string ← deref leadHead.head?
    .ok (some string)
  else do
    let followerHead ← secioSplitList remoteList remoteListSize
    if 0 < order then .ok (firstMatch leadHead followerHead)
    else .ok (firstMatch followerHead leadHead)

/-- one of the three lists of a proposal; its size is passed as an `int` -/
def selectFrom (list : Propose → List UInt8) (order : Int) (own remote : Propose) :
    Exec (Option (List UInt8)) :=
  secioSelectBest order (list own) (toInt32 (list own).length)
    (list remote) (toInt32 (list remote).length)

/-! ## the keys -/

/-- `macSize` is set again when the hash is known -/
structure StretchedKey where
  iv : List UInt8
  cipherKey : List UInt8
  macKey : List UInt8
  macSize : Nat
  deriving DecidableEq, Repr

/-- the sizes of the IV and of the key of a cipher -/
def cipherSizes (cipherType : List UInt8) : Option (Nat × Nat) :=
  if cipherType = asciiBytes "AES-128" then some (16, 16)
  else if cipherType = asciiBytes "AES-256" then some (16, 32)
  else if cipherType = asciiBytes "Blowfish" then some (8, 32)
  else none

def hmacSize : Nat := 20

/-- as many hashes as are asked for, each made with the next of a chain of hashes -/
def stretchBlocks (mac : List UInt8 → Digest) (seed : List UInt8) : Nat → Digest → List UInt8
  | 0, _ => []
  | blocks + 1, aHash =>
    (mac (aHash.1 ++ seed)).1 ++ stretchBlocks mac seed blocks (mac aHash.1)

/-- a key is cut off the front -/
def cutKey (ivSize cipherSize : Nat) (temp : List UInt8) : StretchedKey × List UInt8 :=
  ({ iv := temp.take ivSize
     cipherKey := (temp.drop ivSize).take cipherSize
     macKey := (temp.drop (ivSize + cipherSize)).take hmacSize
     macSize := hmacSize },
    temp.drop (ivSize + cipherSize + hmacSize))

/-- the type of the hash is not looked at -/
def secioStretchKeys (hmac : List UInt8 → List UInt8 → Digest)
    (cipherType hashType secret : List UInt8) : Option (StretchedKey × StretchedKey) :=
  (cipherSizes cipherType).map fun (ivSize, cipherSize) =>
    let seed := asciiBytes "key expansion"
    let resultSize := 2 * (ivSize + cipherSize * hmacSize)
    let blocks := stretchBlocks (hmac secret) seed ((resultSize + 31) / 32) (hmac secret seed)
    let (k1, temp) := cutKey ivSize cipherSize (blocks.take resultSize)
    let (k2, _) := cutKey ivSize cipherSize temp
    (k1, k2)

/-- whether the function returns 1, and the key -/
def secioMakeMacAndCipher (chosenCipher chosenHash : List UInt8) (key : StretchedKey) :
    Bool × StretchedKey :=
  let cipherKnown : Bool :=
    chosenCipher ≠ asciiBytes "AES-128" ∨ chosenCipher = asciiBytes "AES-256"
  if chosenHash = asciiBytes "SHA1" then (cipherKnown, { key with macSize := 40 })
  else if chosenHash = asciiBytes "SHA512" then (cipherKnown, { key with macSize := 64 })
  else if chosenHash = asciiBytes "SHA256" then (cipherKnown, key)
  else (false, key)

/-! ## the handshake -/

/-- what a side comes to -/
structure Negotiated where
  chosenCurve : List UInt8
  chosenCipher : List UInt8
  chosenHash : List UInt8
  localStretchedKey : StretchedKey
  remoteStretchedKey : StretchedKey
  deriving DecidableEq, Repr

/-- the keys are given to the two directions by the order -/
def assignKeys (order : Int) (k1 k2 : StretchedKey) : StretchedKey × StretchedKey :=
  if 0 < order then (k1, k2) else (k2, k1)

/-- the part behind the exchange of the ephemeral keys, which leaves a shared secret -/
def finishHandshake (hmac : List UInt8 → List UInt8 → Digest) (order : Int)
    (curve cipher hash secret : List UInt8) : Option Negotiated :=
  match secioStretchKeys hmac cipher hash secret with
  | none => none
  | some (k1, k2) =>
    let (localKey, remoteKey) := assignKeys order k1 k2
    if hash = asciiBytes "SHA1" ∨ hash = asciiBytes "SHA512" ∨ hash = asciiBytes "SHA256" then
      some { chosenCurve := curve
             chosenCipher := cipher
             chosenHash := hash
             localStretchedKey := (secioMakeMacAndCipher cipher hash localKey).2
             remoteStretchedKey := (secioMakeMacAndCipher cipher hash remoteKey).2 }
    else none

/-- `none` when the handshake fails -/
def secioHandshake (sha256 : List UInt8 → Digest) (hmac : List UInt8 → List UInt8 → Digest)
    (secret : List UInt8) (proposeIn proposeOut : Propose) : Exec (Option Negotiated) := do
  let order ← secioDetermineOrder sha256 proposeIn proposeOut
  match ← selectFrom Propose.exchanges order proposeOut proposeIn with
  | none => .ok none
  | some curve => do
    match ← selectFrom Propose.ciphers order proposeOut proposeIn with
    | none => .ok none
    | some cipher => do
      match ← selectFrom Propose.hashes order proposeOut proposeIn with
      | none => .ok none
      | some hash => .ok (finishHandshake hmac order curve cipher hash secret)

/-! ## agreement -/

/-- the entries of a list, which is text up to its first zero byte -/
def entries (list : List UInt8) : List (List UInt8) := strtok 44 (cutAt 0 list).1

/-- the earliest entry of the leading list that is in the other; none when no entry is -/
def IsBest (lead follower : List (List UInt8)) : Option (List UInt8) → Prop
  | none => ∀ s ∈ lead, s ∉ follower
  | some s => s ∈ follower ∧ ∃ pre post, lead = pre ++ s :: post ∧ ∀ t ∈ pre, t ∉ follower

/-- the lists have sizes that can be passed -/
structure Propose.Fits (p : Propose) : Prop where
  exchanges : p.exchanges.length < 2 ^ 31 - 1
  ciphers : p.ciphers.length < 2 ^ 31 - 1
  hashes : p.hashes.length < 2 ^ 31 - 1

/-- the same for the other side -/
def Negotiated.crossed (side : Negotiated) : Negotiated :=
  { side with
    localStretchedKey := side.remoteStretchedKey
    remoteStretchedKey := side.localStretchedKey }

/-- both sides choose the same of a list -/
def SelectsAlike (list : Propose → List UInt8) (order : Int) (a b : Propose) : Prop :=
  ∃ best, selectFrom list order a b = .ok best ∧ selectFrom list (-order) b a = .ok best ∧
    if 0 < order then IsBest (entries (list a)) (entries (list b)) best
    else IsBest (entries (list b)) (entries (list a)) best

/-- the sides `a` and `b` come to the same, with their keys crossed -/
structure Agreement (sha256 : List UInt8 → Digest) (hmac : List UInt8 → List UInt8 → Digest)
    (secret : List UInt8) (a b : Propose) (order : Int) : Prop where
  sign : order = 1 ∨ order = -1
  orderA : secioDetermineOrder sha256 b a = .ok order
  orderB : secioDetermineOrder sha256 a b = .ok (-order)
  exchanges : SelectsAlike Propose.exchanges order a b
  ciphers : SelectsAlike Propose.ciphers order a b
  hashes : SelectsAlike Propose.hashes order a b
  keys : ∃ side, secioHandshake sha256 hmac secret b a = .ok side ∧
    secioHandshake sha256 hmac secret a b = .ok (side.map Negotiated.crossed)

section
variable {sha256 : List UInt8 → Digest} {hmac : List UInt8 → List UInt8 → Digest}
variable {list : Propose → List UInt8} {order : Int} {own remote a b : Propose}

/-- **comparing the other way round** -/
theorem secioBytesCompare_swap {x y : List UInt8} {n : Nat} (hx : n ≤ x.length)
    (hy : n ≤ y.length) :
    ∃ c, (c = 1 ∨ c = -1 ∨ c = 0 ∧ x.take n = y.take n) ∧
      secioBytesCompare n x y = .ok c ∧ secioBytesCompare n y x = .ok (-c) := by
  induction n generalizing x y with
  | zero => exact ⟨0, .inr (.inr ⟨rfl, rfl⟩), rfl, rfl⟩
  | succ n ih =>
    obtain ⟨b, x, rfl⟩ := List.exists_cons_of_length_pos (Nat.zero_lt_of_lt hx)
    obtain ⟨c, y, rfl⟩ := List.exists_cons_of_length_pos (Nat.zero_lt_of_lt hy)
    rw [secioBytesCompare, secioBytesCompare]
    rcases lt_trichotomy b.toNat c.toNat with h | h | h
    · have hlt : c > b := UInt8.lt_iff_toNat_lt.2 h
      have hnot : ¬ b > c := fun hbc => absurd (UInt8.lt_iff_toNat_lt.1 hbc) (by omega)
      refine ⟨-1, .inr (.inl rfl), if_pos hlt, ?_⟩
      rw [if_neg hnot, if_pos hlt]
      rfl
    · obtain rfl := UInt8.toNat_inj.1 h
      have hnot : ¬ b > b := fun hbb => absurd (UInt8.lt_iff_toNat_lt.1 hbb) (by omega)
      obtain ⟨order, hsign, hxy, hyx⟩ := ih (Nat.le_of_succ_le_succ hx) (Nat.le_of_succ_le_succ hy)
      refine ⟨order, ?_, ?_, ?_⟩
      · exact hsign.imp_right fun h => h.imp_right fun h => ⟨h.1, congrArg (List.cons b) h.2⟩
      · rw [if_neg hnot, if_neg hnot, hxy]
      · rw [if_neg hnot, if_neg hnot, hyx]
    · have hlt : b > c := UInt8.lt_iff_toNat_lt.2 h
      have hnot : ¬ c > b := fun hbc => absurd (UInt8.lt_iff_toNat_lt.1 hbc) (by omega)
      refine ⟨1, .inl rfl, ?_, if_pos hlt⟩
      rw [if_neg hnot, if_pos hlt]

/-- **the order** is the opposite for the other side -/
theorem secioDetermineOrder_swap
    (hne : secioHash sha256 b.publicKey a.rand ≠ secioHash sha256 a.publicKey b.rand) :
    ∃ order, (order = 1 ∨ order = -1) ∧ secioDetermineOrder sha256 b a = .ok order ∧
      secioDetermineOrder sha256 a b = .ok (-order) := by
  have hlen (h : Digest) : 32 ≤ h.1.length := Nat.le_of_eq h.2.symm
  obtain ⟨order, hsign, hab, hba⟩ := secioBytesCompare_swap
    (hlen (secioHash sha256 b.publicKey a.rand)) (hlen (secioHash sha256 a.publicKey b.rand))
  refine ⟨order, ?_, hab, hba⟩
  rcases hsign with h | h | ⟨-, h⟩
  · exact .inl h
  · exact .inr h
  · have htake (h : Digest) : h.1.take 32 = h.1 := List.take_of_length_le (Nat.le_of_eq h.2)
    rw [htake, htake] at h
    exact absurd (Subtype.ext h) hne

theorem secioSplitList_eq {text : List UInt8} (h : text.length < 2 ^ 31 - 1) :
    secioSplitList text (toInt32 text.length) = .ok (entries text) := by
  have hsize : toInt32 text.length = text.length := toInt32_natCast_of_lt (by omega)
  unfold secioSplitList
  rw [hsize, require_pos (by omega), ok_bind, Int.toNat_natCast, require_pos le_rfl, ok_bind,
    List.take_length]
  rfl

theorem selectFrom_eq (hown : (list own).length < 2 ^ 31 - 1)
    (hremote : (list remote).length < 2 ^ 31 - 1) (horder : order ≠ 0) :
    selectFrom list order own remote =
      .ok (if 0 < order then firstMatch (entries (list own)) (entries (list remote))
        else firstMatch (entries (list remote)) (entries (list own))) := by
  unfold selectFrom secioSelectBest
  rw [secioSplitList_eq hown, ok_bind, if_neg horder, secioSplitList_eq hremote, ok_bind]
  split
  · rfl
  · rfl

theorem isBest_firstMatch {lead follower : List (List UInt8)} :
    IsBest lead follower (firstMatch lead follower) := by
  unfold firstMatch
  cases hfind : lead.find? fun s => follower.contains s with
  | none =>
    intro s hs hmem
    exact absurd (List.contains_iff_mem.2 hmem) (List.find?_eq_none.1 hfind s hs)
  | some s =>
    obtain ⟨hmem, pre, post, hlead, hpre⟩ := List.find?_eq_some_iff_append.1 hfind
    refine ⟨List.contains_iff_mem.1 hmem, pre, post, hlead, fun t ht hmem => ?_⟩
    have hnot := hpre t ht
    rw [List.contains_iff_mem.2 hmem] at hnot
    cases hnot

/-- **a list**: both sides choose the same of it -/
theorem selectsAlike (ha : (list a).length < 2 ^ 31 - 1) (hb : (list b).length < 2 ^ 31 - 1)
    (hsign : order = 1 ∨ order = -1) : SelectsAlike list order a b := by
  rcases hsign with rfl | rfl
  · exact ⟨firstMatch (entries (list a)) (entries (list b)), selectFrom_eq ha hb (by decide),
      selectFrom_eq hb ha (by decide), isBest_firstMatch⟩
  · exact ⟨firstMatch (entries (list b)) (entries (list a)), selectFrom_eq ha hb (by decide),
      selectFrom_eq hb ha (by decide), isBest_firstMatch⟩

theorem finishHandshake_neg {curve cipher hash secret : List UInt8}
    (hsign : order = 1 ∨ order = -1) :
    finishHandshake hmac (-order) curve cipher hash secret =
      (finishHandshake hmac order curve cipher hash secret).map Negotiated.crossed := by
  unfold finishHandshake
  cases secioStretchKeys hmac cipher hash secret with
  | none => rfl
  | some pair =>
    obtain ⟨k1, k2⟩ := pair
    by_cases hknown : hash = asciiBytes "SHA1" ∨ hash = asciiBytes "SHA512" ∨
        hash = asciiBytes "SHA256"
    · rcases hsign with rfl | rfl
      · simp only [if_pos hknown]
        rfl
      · simp only [if_pos hknown]
        rfl
    · simp only [if_neg hknown]
      rfl

/-- **the handshake** of the other side -/
theorem secioHandshake_swap {secret : List UInt8} (ha : a.Fits) (hb : b.Fits)
    (hsign : order = 1 ∨ order = -1) (horderA : secioDetermineOrder sha256 b a = .ok order)
    (horderB : secioDetermineOrder sha256 a b = .ok (-order)) :
    ∃ side, secioHandshake sha256 hmac secret b a = .ok side ∧
      secioHandshake sha256 hmac secret a b = .ok (side.map Negotiated.crossed) := by
  obtain ⟨curve, hcurveA, hcurveB, -⟩ := selectsAlike ha.exchanges hb.exchanges hsign
  obtain ⟨cipher, hcipherA, hcipherB, -⟩ := selectsAlike ha.ciphers hb.ciphers hsign
  obtain ⟨hash, hhashA, hhashB, -⟩ := selectsAlike ha.hashes hb.hashes hsign
  unfold secioHandshake
  rw [horderA, ok_bind, hcurveA, ok_bind, horderB, ok_bind, hcurveB, ok_bind]
  cases curve with
  | none => exact ⟨none, rfl, rfl⟩
  | some curve =>
    dsimp only
    rw [hcipherA, ok_bind, hcipherB, ok_bind]
    cases cipher with
    | none => exact ⟨none, rfl, rfl⟩
    | some cipher =>
      dsimp only
      rw [hhashA, ok_bind, hhashB, ok_bind]
      cases hash with
      | none => exact ⟨none, rfl, rfl⟩
      | some hash => exact ⟨_, rfl, congrArg Except.ok (finishHandshake_neg hsign)⟩

end

/-- **the two sides agree** when their hashes differ -/
theorem agreement_of_fits (sha256 : List UInt8 → Digest)
    (hmac : List UInt8 → List UInt8 → Digest) (secret : List UInt8) {a b : Propose}
    (ha : a.Fits) (hb : b.Fits)
    (hne : secioHash sha256 b.publicKey a.rand ≠ secioHash sha256 a.publicKey b.rand) :
    ∃ order, Agreement sha256 hmac secret a b order := by
  obtain ⟨order, hsign, horderA, horderB⟩ := secioDetermineOrder_swap hne
  exact ⟨order,
    { sign := hsign
      orderA := horderA
      orderB := horderB
      exchanges := selectsAlike ha.exchanges hb.exchanges hsign
      ciphers := selectsAlike ha.ciphers hb.ciphers hsign
      hashes := selectsAlike ha.hashes hb.hashes hsign
      keys := secioHandshake_swap ha hb hsign horderA horderB }⟩

/-- the hashes of two texts -/
def twoHashes (text : List UInt8) : Digest :=
  if text = [1, 2] then
    ⟨[161, 40, 113, 254, 226, 16, 251, 134, 25, 41, 30, 174, 161, 148, 88, 28, 189, 37, 49, 228,
      178, 55, 89, 210, 37, 246, 128, 105, 35, 246, 50, 34], rfl⟩
  else
    ⟨[37, 223, 210, 156, 9, 97, 125, 204, 152, 82, 40, 28, 3, 14, 91, 48, 55, 163, 56, 164, 113,
      42, 66, 162, 28, 144, 127, 37, 156, 100, 18, 160], rfl⟩

/-- the side with the key and the nonce `n` -/
def sampleSide (n : UInt8) (exchanges : List UInt8) : Propose where
  rand := [n]
  publicKey := [n]
  exchanges := exchanges
  ciphers := asciiBytes "Blowfish,AES-128"
  hashes := asciiBytes "SHA256"

/-- the bytes of each hash are one more than the first byte of the text -/
def countingHmac (secret text : List UInt8) : Digest :=
  ⟨List.replicate 32 (text.headD 0 + 1), List.length_replicate⟩

/-- two sides that come to a cipher, whatever the hashes are, and to two keys that need not be the
same -/
theorem agreement_of_samples :
    (∀ hmac, ∃ order, Agreement twoHashes hmac []
      (sampleSide 1 (asciiBytes "P-256,P-384")) (sampleSide 2 (asciiBytes "P-384")) order) ∧
    ((secioHandshake twoHashes countingHmac [] (sampleSide 2 (asciiBytes "P-384"))
      (sampleSide 1 (asciiBytes "P-256,P-384"))).map (Option.map fun side =>
        decide (side.localStretchedKey = side.remoteStretchedKey))) = .ok (some false) := by
  have hfits (n : UInt8) {exchanges : List UInt8} (h : exchanges.length < 2 ^ 31 - 1) :
      (sampleSide n exchanges).Fits :=
    ⟨h, show (asciiBytes "Blowfish,AES-128").length < 2 ^ 31 - 1 by decide,
      show (asciiBytes "SHA256").length < 2 ^ 31 - 1 by decide⟩
  exact ⟨fun hmac => agreement_of_fits twoHashes hmac [] (hfits 1 (by decide))
    (hfits 2 (by decide +kernel)) (by decide +kernel), by decide +kernel⟩

/-- a list of 2^31 characters has a negative size -/
theorem not_agreement_of_large :
    secioHash twoHashes (sampleSide 2 []).publicKey (sampleSide 1 []).rand ≠
        secioHash twoHashes (sampleSide 1 []).publicKey (sampleSide 2 []).rand ∧
      ¬ ∃ order, Agreement twoHashes (fun _ text => twoHashes text) []
        (sampleSide 1 (List.replicate (2 ^ 31) 97)) (sampleSide 2 []) order := by
  refine ⟨by decide, ?_⟩
  rintro ⟨order, h⟩
  obtain ⟨best, hselect, -⟩ := h.exchanges
  have hsize : toInt32 (List.replicate (2 ^ 31) (97 : UInt8)).length = -2 ^ 31 := by
    rw [List.length_replicate]
    decide +kernel
  have hselect : secioSelectBest order (List.replicate (2 ^ 31) 97)
      (toInt32 (List.replicate (2 ^ 31) (97 : UInt8)).length) [] (toInt32 (0 : Nat)) =
        .ok best := hselect
  rw [hsize] at hselect
  cases hselect

end Libp2p
