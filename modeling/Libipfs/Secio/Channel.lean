import Libipfs.Secio.Negotiate
import Libipfs.Lib.CounterMode
import Libipfs.Lib.Run

/-!
# The encrypted channel

A message is encrypted in counter mode, and the MAC of what comes out is put behind it.  The
counter is the IV of the stretched key; it moves with every message, as do the block and the
offset of the session.

* `secioEncrypt`, `secioDecrypt`   a message, and what comes out of an incoming one;
* `channelStep`          one side writes and the other reads, in any order of the two;
* `ChannelLaw`           what is read is what was written, and the two sides are at one again when
                         nothing is on the way;
* `DecryptLaw`           what `secioDecrypt` promises of any bytes;
* `openMessage_seal`     **the other side** opens what is sealed, and keeps step;
* `readable_iff_of_finishHandshake`   the sides of a handshake can read their keys when they have
                         chosen AES and SHA-256;
* `channel_iff`          **both laws**, and when they hold.
-/

namespace Libp2p
open CSem

/-- the part of a session that the channel needs -/
structure SessionContext where
  localStretchedKey : StretchedKey
  remoteStretchedKey : StretchedKey
  aesEncode : StreamState 16
  aesDecode : StreamState 16

/-- nothing of a block is used yet -/
def freshStream : StreamState 16 := { offset := 0, block := Vector.replicate 16 0 }

def secioInitializeCrypto (session : SessionContext) : SessionContext :=
  { session with
    aesDecode := freshStream
    aesEncode := freshStream }

/-! ## the cipher -/

/-- from the last byte on, up to one that does not become zero -/
def incrementBack : List UInt8 → List UInt8
  | [] => []
  | c :: counter => if c + 1 ≠ 0 then (c + 1) :: counter else 0 :: incrementBack counter

/-- the counter is the first 16 bytes -/
def incrementCounter (counter : List UInt8) : List UInt8 :=
  (incrementBack (counter.take 16).reverse).reverse ++ counter.drop 16

/-- nothing for a key of another size than 128, 192 or 256 bits, counted by an `unsigned int` -/
def aesSetkeyEnc (cipherKey : List UInt8) : Option (List UInt8) :=
  let keybits := 8 * cipherKey.length % 2 ^ 32
  if keybits = 128 ∨ keybits = 192 ∨ keybits = 256 then some (cipherKey.take (keybits / 8))
  else none

section
variable (aes : List UInt8 → List UInt8 → Vector UInt8 16)
variable (hmac : List UInt8 → List UInt8 → Digest)

/-- counter mode with a key -/
def aesCtr (key counter : List UInt8) (stream : StreamState 16) (input : List UInt8) :
    List UInt8 × List UInt8 × StreamState 16 :=
  cryptCtr incrementCounter (fun counter => aes key (counter.take 16)) counter stream input

/-- the counter is an array of 16 bytes -/
def aesCryptCtr (key : List UInt8) (stretched : StretchedKey) (stream : StreamState 16)
    (input : List UInt8) : Exec (List UInt8 × StretchedKey × StreamState 16) := do
  require .outOfBounds (16 ≤ stretched.iv.length)
  let (output, iv, stream) := aesCtr aes key stretched.iv stream input
  .ok (output, { stretched with iv := iv }, stream)

/-- the MAC of `data`, with as much of the key as its size says -/
def macOf (stretched : StretchedKey) (data : List UInt8) : Exec Digest := do
  require .outOfBounds (stretched.macSize ≤ stretched.macKey.length)
  .ok (hmac (stretched.macKey.take stretched.macSize) data)

/-! ## messages -/

/-- nothing is written when the cipher does not take the key -/
def sealMessage (stretched : StretchedKey) (stream : StreamState 16) (incoming : List UInt8) :
    Exec (Option (List UInt8) × StretchedKey × StreamState 16) :=
  match aesSetkeyEnc stretched.cipherKey with
  | none => .ok (none, stretched, stream)
  | some key => do
    require .null (incoming.length + 32 ≤ ptrdiffMax)
    let (buffer, stretched, stream) ← aesCryptCtr aes key stretched stream incoming
    let mac ← macOf hmac stretched buffer
    .ok (some (buffer ++ mac.1), stretched, stream)

def secioEncrypt (session : SessionContext) (incoming : List UInt8) :
    Exec (Option (List UInt8) × SessionContext) := do
  let (outgoing, stretched, stream) ←
    sealMessage aes hmac session.localStretchedKey session.aesEncode incoming
  .ok (outgoing, { session with localStretchedKey := stretched, aesEncode := stream })

/-- the ways out of `secioDecrypt`, with what is stored for the caller -/
inductive Decrypted where
  | macFailed (raw : List UInt8)
  | keyFailed
  | message (data : List UInt8)
  deriving DecidableEq, Repr

/-- the number of bytes, which is returned as an `int` -/
def Decrypted.count : Decrypted → Int
  | .macFailed _ => 0
  | .keyFailed => 0
  | .message data => toInt32 data.length

/-- the size of the data is a `size_t` -/
def openMessage (stretched : StretchedKey) (stream : StreamState 16) (incoming : List UInt8) :
    Exec (Decrypted × StretchedKey × StreamState 16) := do
  let dataSectionSize := toUInt64 ((incoming.length : Int) - 32)
  require .outOfBounds (dataSectionSize ≤ incoming.length)
  let mac ← macOf hmac stretched (incoming.take dataSectionSize)
  require .outOfBounds (dataSectionSize + 32 ≤ incoming.length)
  if (incoming.drop dataSectionSize).take 32 ≠ mac.1 then
    .ok (.macFailed incoming, stretched, stream)
  else
    match aesSetkeyEnc stretched.cipherKey with
    | none => .ok (.keyFailed, stretched, stream)
    | some key => do
      let (buffer, stretched, stream) ←
        aesCryptCtr aes key stretched stream (incoming.take dataSectionSize)
      .ok (.message buffer, stretched, stream)

def secioDecrypt (session : SessionContext) (incoming : List UInt8) :
    Exec (Decrypted × SessionContext) := do
  let (outgoing, stretched, stream) ←
    openMessage aes hmac session.remoteStretchedKey session.aesDecode incoming
  .ok (outgoing, { session with remoteStretchedKey := stretched, aesDecode := stream })

/-! ## a channel -/

/-- one side writes to the other; a message on the way stands with what was written -/
structure Channel where
  sender : SessionContext
  receiver : SessionContext
  inFlight : List (List UInt8 × List UInt8) := []
  delivered : List (List UInt8 × Decrypted) := []

inductive ChannelOp where
  | write (message : List UInt8)
  | deliver

/-- messages are delivered in the order in which they are written -/
def channelStep : ChannelOp → Channel → Exec Channel
  | .write message, channel => do
    let (outgoing, sender) ← secioEncrypt aes hmac channel.sender message
    match outgoing with
    | none => .ok { channel with sender := sender }
    | some packet =>
      .ok { channel with
            sender := sender
            inFlight := channel.inFlight ++ [(packet, message)] }
  | .deliver, channel =>
    match channel.inFlight with
    | [] => .ok channel
    | (packet, message) :: inFlight => do
      let (result, receiver) ← secioDecrypt aes hmac channel.receiver packet
      .ok { channel with
            receiver := receiver
            inFlight := inFlight
            delivered := channel.delivered ++ [(message, result)] }

/-- the counter, the block and the offset of the two sides are the same -/
structure InStep (sender receiver : SessionContext) : Prop where
  key : receiver.remoteStretchedKey = sender.localStretchedKey
  stream : receiver.aesDecode = sender.aesEncode

structure ChannelLaw (channel : Channel) : Prop where
  delivered : ∀ message result, (message, result) ∈ channel.delivered →
    result = .message message ∧ result.count = message.length
  inStep : channel.inFlight = [] → InStep channel.sender channel.receiver

/-- the cipher does not take the key, or all that it and the MAC read of it is there -/
structure StretchedKey.Readable (stretched : StretchedKey) : Prop where
  iv : 16 ≤ stretched.iv.length
  mac : stretched.macSize ≤ stretched.macKey.length

instance StretchedKey.decidableReadable (stretched : StretchedKey) :
    Decidable stretched.Readable :=
  decidable_of_iff (16 ≤ stretched.iv.length ∧ stretched.macSize ≤ stretched.macKey.length)
    ⟨fun ⟨hiv, hmac⟩ => ⟨hiv, hmac⟩, fun h => ⟨h.iv, h.mac⟩⟩

def ChannelOp.Allowed : ChannelOp → Channel → Prop
  | .write message, channel => aesSetkeyEnc channel.sender.localStretchedKey.cipherKey ≠ none →
      channel.sender.localStretchedKey.Readable ∧ message.length + 32 ≤ ptrdiffMax
  | .deliver, channel => ∀ packet message, channel.inFlight.head? = some (packet, message) →
      message.length < 2 ^ 31

instance ChannelOp.decidableAllowed (op : ChannelOp) (channel : Channel) :
    Decidable (op.Allowed channel) :=
  match op with
  | .write _ => inferInstanceAs (Decidable (_ ≠ none → _ ∧ _))
  | .deliver => decidable_of_iff (∀ p ∈ channel.inFlight.head?, p.2.length < 2 ^ 31)
      ⟨fun h packet message hhead => h (packet, message) hhead, fun h p hhead => h p.1 p.2 hhead⟩

/-- what is taken has its MAC behind it, nothing outside is read, and what is not taken leaves the
session as it is -/
def DecryptLaw (session : SessionContext) (incoming : List UInt8) : Prop :=
  ∃ result session', secioDecrypt aes hmac session incoming = .ok (result, session') ∧
    (∀ message, result = .message message → ∃ data mac, incoming = data ++ mac.1 ∧
      macOf hmac session.remoteStretchedKey data = .ok mac) ∧
    ((∀ message, result ≠ .message message) → session' = session)

/-- the MAC of all but the last 32 bytes is there -/
def Authentic (stretched : StretchedKey) (incoming : List UInt8) : Prop :=
  ∃ data mac, incoming = data ++ mac.1 ∧ macOf hmac stretched data = .ok mac

/-- there is room for a MAC, and what is read of the key is there -/
structure Decryptable (stretched : StretchedKey) (incoming : List UInt8) : Prop where
  size : 32 ≤ incoming.length
  mac : stretched.macSize ≤ stretched.macKey.length
  iv : Authentic hmac stretched incoming → aesSetkeyEnc stretched.cipherKey ≠ none →
    16 ≤ stretched.iv.length

/-! ## sealing and opening -/

variable {aes : List UInt8 → List UInt8 → Vector UInt8 16}
variable {hmac : List UInt8 → List UInt8 → Digest}
variable {stretched stretched' : StretchedKey} {stream stream' : StreamState 16}
variable {incoming message packet key data : List UInt8}

theorem length_aesCtr {counter : List UInt8} :
    (aesCtr aes key counter stream data).1.length = data.length := length_cryptCtr _ _

theorem macOf_eq_ok {mac : Digest} :
    macOf hmac stretched data = .ok mac ↔ stretched.macSize ≤ stretched.macKey.length ∧
      mac = hmac (stretched.macKey.take stretched.macSize) data := by
  unfold macOf
  rw [require_bind_eq_ok]
  exact and_congr_right fun _ => ⟨fun h => (Except.ok.inj h).symm, fun h => congrArg _ h.symm⟩

/-- **sealing** with a key that the cipher takes -/
theorem sealMessage_eq_ok {r : Option (List UInt8) × StretchedKey × StreamState 16}
    (hkey : aesSetkeyEnc stretched.cipherKey = some key) :
    sealMessage aes hmac stretched stream message = .ok r ↔
      message.length + 32 ≤ ptrdiffMax ∧ stretched.Readable ∧
        r = (some ((aesCtr aes key stretched.iv stream message).1 ++
            (hmac (stretched.macKey.take stretched.macSize)
              (aesCtr aes key stretched.iv stream message).1).1),
          { stretched with iv := (aesCtr aes key stretched.iv stream message).2.1 },
          (aesCtr aes key stretched.iv stream message).2.2) := by
  unfold sealMessage aesCryptCtr macOf
  rw [hkey]
  dsimp only
  rw [require_bind_eq_ok]
  refine and_congr_right fun _ => ?_
  constructor
  · intro h
    obtain ⟨s, hs, h⟩ := bind_eq_ok.1 h
    obtain ⟨hiv, hs⟩ := require_bind_eq_ok.1 hs
    cases hs
    obtain ⟨mac, hmac', h⟩ := bind_eq_ok.1 h
    obtain ⟨hsize, hmac'⟩ := require_bind_eq_ok.1 hmac'
    cases hmac'
    cases h
    exact ⟨⟨hiv, hsize⟩, rfl⟩
  · rintro ⟨hread, rfl⟩
    rw [require_pos hread.iv, ok_bind, ok_bind]
    dsimp only
    rw [require_pos hread.mac, ok_bind, ok_bind]

theorem sealMessage_of_none (hkey : aesSetkeyEnc stretched.cipherKey = none) :
    sealMessage aes hmac stretched stream message = .ok (none, stretched, stream) := by
  unfold sealMessage
  rw [hkey]

/-- **opening** what is at least as long as a MAC -/
theorem openMessage_eq (hsize : 32 ≤ incoming.length) (hlen : incoming.length ≤ ptrdiffMax) :
    openMessage aes hmac stretched stream incoming =
      macOf hmac stretched (incoming.take (incoming.length - 32)) >>= fun mac =>
        if incoming.drop (incoming.length - 32) ≠ mac.1 then
          .ok (.macFailed incoming, stretched, stream)
        else
          match aesSetkeyEnc stretched.cipherKey with
          | none => .ok (.keyFailed, stretched, stream)
          | some key =>
            aesCryptCtr aes key stretched stream (incoming.take (incoming.length - 32)) >>=
              fun r => .ok (.message r.1, r.2.1, r.2.2) := by
  have hmax : ptrdiffMax = 2 ^ 63 - 1 := rfl
  have hsection : toUInt64 ((incoming.length : Int) - 32) = incoming.length - 32 := by
    rw [show (incoming.length : Int) - 32 = (incoming.length - 32 : Nat) by omega]
    exact toUInt64_natCast_of_lt (by omega)
  have htake : (incoming.drop (incoming.length - 32)).take 32 =
      incoming.drop (incoming.length - 32) := by
    apply List.take_of_length_le
    rw [List.length_drop]
    omega
  unfold openMessage
  rw [hsection]
  dsimp only
  rw [require_pos (by omega), ok_bind, htake]
  congr 1
  funext mac
  rw [require_pos (by omega), ok_bind]

/-- **a size below that of a MAC** becomes a very large one -/
theorem openMessage_of_short (h : incoming.length < 32) :
    openMessage aes hmac stretched stream incoming = .error .outOfBounds := by
  have hlarge : ¬ toUInt64 ((incoming.length : Int) - 32) ≤ incoming.length := by
    unfold toUInt64
    omega
  unfold openMessage
  dsimp only
  rw [require_neg hlarge, error_bind]

/-- **the other side** opens what is sealed, and keeps step -/
theorem openMessage_seal
    (h : sealMessage aes hmac stretched stream message = .ok (some packet, stretched', stream')) :
    openMessage aes hmac stretched stream packet = .ok (.message message, stretched', stream') := by
  have hmax : ptrdiffMax = 2 ^ 63 - 1 := rfl
  cases hkey : aesSetkeyEnc stretched.cipherKey with
  | none =>
    rw [sealMessage_of_none hkey] at h
    cases h
  | some key =>
    obtain ⟨hlen, hread, hr⟩ := (sealMessage_eq_ok hkey).1 h
    obtain ⟨hpacket, hstretched, hstream⟩ : _ ∧ _ ∧ _ := by
      obtain ⟨hp, hr⟩ := Prod.mk.inj hr
      exact ⟨Option.some.inj hp, Prod.mk.inj hr⟩
    set mac := hmac (stretched.macKey.take stretched.macSize)
      (aesCtr aes key stretched.iv stream message).1 with hmacDef
    have houtput : (aesCtr aes key stretched.iv stream message).1.length = message.length :=
      length_aesCtr
    have hplen : packet.length = message.length + 32 := by
      rw [hpacket, List.length_append, houtput, mac.2]
    have hsub : packet.length - 32 =
        (aesCtr aes key stretched.iv stream message).1.length := by omega
    have htake : packet.take (packet.length - 32) =
        (aesCtr aes key stretched.iv stream message).1 := by
      rw [hsub, hpacket]
      exact List.take_left
    have hdrop : packet.drop (packet.length - 32) = mac.1 := by
      rw [hsub, hpacket]
      exact List.drop_left
    have hmacOk : macOf hmac stretched (packet.take (packet.length - 32)) = .ok mac := by
      rw [macOf_eq_ok, htake]
      exact ⟨hread.mac, hmacDef⟩
    rw [openMessage_eq (by omega) (by omega), hmacOk, ok_bind, hdrop, if_neg (not_not_intro rfl),
      hkey, htake]
    dsimp only
    unfold aesCryptCtr
    rw [require_pos hread.iv, ok_bind]
    dsimp only
    rw [ok_bind]
    have hback : aesCtr aes key stretched.iv stream
        (aesCtr aes key stretched.iv stream message).1 =
          (message, (aesCtr aes key stretched.iv stream message).2) := cryptCtr_cryptCtr _ _
    rw [hback, hstretched, hstream]

/-! ## any bytes -/

variable {session : SessionContext}

theorem authentic_iff (hsize : 32 ≤ incoming.length) {mac : Digest}
    (hmacOk : macOf hmac stretched (incoming.take (incoming.length - 32)) = .ok mac) :
    Authentic hmac stretched incoming ↔ incoming.drop (incoming.length - 32) = mac.1 := by
  constructor
  · rintro ⟨data, mac', rfl, hdata⟩
    have hsub : (data ++ mac'.1).length - 32 = data.length := by
      rw [List.length_append, mac'.2, Nat.add_sub_cancel]
    rw [hsub, List.take_left, hdata] at hmacOk
    rw [hsub, List.drop_left, Except.ok.inj hmacOk]
  · intro h
    exact ⟨_, mac, by rw [← h, List.take_append_drop], hmacOk⟩

/-- **what `secioDecrypt` promises** holds iff there is room for a MAC and a key to read -/
theorem decryptLaw_iff (hlen : incoming.length ≤ ptrdiffMax) :
    DecryptLaw aes hmac session incoming ↔
      Decryptable hmac session.remoteStretchedKey incoming := by
  constructor
  · rintro ⟨result, session', hrun, -, -⟩
    obtain ⟨r, hopen, -⟩ := bind_eq_ok.1 hrun
    have hsize : 32 ≤ incoming.length := by
      by_contra hshort
      rw [openMessage_of_short (Nat.lt_of_not_le hshort)] at hopen
      cases hopen
    rw [openMessage_eq hsize hlen] at hopen
    obtain ⟨mac, hmacOk, hopen⟩ := bind_eq_ok.1 hopen
    refine ⟨hsize, (macOf_eq_ok.1 hmacOk).1, fun hauth hkey => ?_⟩
    rw [if_neg (not_not_intro ((authentic_iff hsize hmacOk).1 hauth))] at hopen
    obtain ⟨key, hkey⟩ := Option.ne_none_iff_exists'.1 hkey
    rw [hkey] at hopen
    obtain ⟨s, hcrypt, -⟩ := bind_eq_ok.1 hopen
    exact (require_bind_eq_ok.1 hcrypt).1
  · rintro ⟨hsize, hmacSize, hiv⟩
    obtain ⟨mac, hmacOk⟩ : ∃ mac, macOf hmac session.remoteStretchedKey
        (incoming.take (incoming.length - 32)) = .ok mac := ⟨_, macOf_eq_ok.2 ⟨hmacSize, rfl⟩⟩
    have hauth := authentic_iff hsize hmacOk
    have hopen := @openMessage_eq aes hmac session.remoteStretchedKey session.aesDecode incoming
      hsize hlen
    rw [hmacOk, ok_bind] at hopen
    unfold DecryptLaw secioDecrypt
    rw [hopen]
    by_cases hmac' : incoming.drop (incoming.length - 32) = mac.1
    · rw [if_neg (not_not_intro hmac')]
      cases hkey : aesSetkeyEnc session.remoteStretchedKey.cipherKey with
      | none => exact ⟨_, _, rfl, fun message h => (nomatch h), fun _ => rfl⟩
      | some key =>
        have hiv := hiv (hauth.2 hmac') (by rw [hkey]; exact Option.some_ne_none key)
        dsimp only
        unfold aesCryptCtr
        rw [require_pos hiv, ok_bind]
        exact ⟨_, _, rfl, fun message _ => hauth.2 hmac', fun h => absurd rfl (h _)⟩
    · rw [if_pos hmac']
      exact ⟨_, _, rfl, fun message h => (nomatch h), fun _ => rfl⟩

/-! ## runs -/

/-- what is on the way leads from one state of a direction to another -/
def Chain (aes : List UInt8 → List UInt8 → Vector UInt8 16)
    (hmac : List UInt8 → List UInt8 → Digest) :
    List (List UInt8 × List UInt8) → StretchedKey → StreamState 16 → StretchedKey →
      StreamState 16 → Prop
  | [], stretched, stream, last, lastStream => stretched = last ∧ stream = lastStream
  | (packet, message) :: inFlight, stretched, stream, last, lastStream =>
    ∃ next nextStream,
      sealMessage aes hmac stretched stream message = .ok (some packet, next, nextStream) ∧
        Chain aes hmac inFlight next nextStream last lastStream

theorem Chain.append {inFlight : List (List UInt8 × List UInt8)} {last last' : StretchedKey}
    {lastStream lastStream' : StreamState 16}
    (h : Chain aes hmac inFlight stretched stream last lastStream)
    (hseal : sealMessage aes hmac last lastStream message =
      .ok (some packet, last', lastStream')) :
    Chain aes hmac (inFlight ++ [(packet, message)]) stretched stream last' lastStream' := by
  induction inFlight generalizing stretched stream with
  | nil =>
    obtain ⟨rfl, rfl⟩ := h
    exact ⟨last', lastStream', hseal, rfl, rfl⟩
  | cons first inFlight ih =>
    obtain ⟨next, nextStream, hfirst, hrest⟩ := h
    exact ⟨next, nextStream, hfirst, ih hrest⟩

/-- the receiver comes to the state of the sender by what is on the way -/
structure Consistent (aes : List UInt8 → List UInt8 → Vector UInt8 16)
    (hmac : List UInt8 → List UInt8 → Digest) (channel : Channel) : Prop where
  chain : Chain aes hmac channel.inFlight channel.receiver.remoteStretchedKey
    channel.receiver.aesDecode channel.sender.localStretchedKey channel.sender.aesEncode
  delivered : ∀ message result, (message, result) ∈ channel.delivered →
    result = .message message ∧ result.count = message.length

theorem Consistent.law {channel : Channel} (h : Consistent aes hmac channel) :
    ChannelLaw channel where
  delivered := h.delivered
  inStep hnil := by
    have hchain := h.chain
    rw [hnil] at hchain
    exact ⟨hchain.1, hchain.2⟩

theorem channelStep_deliver_nil {channel : Channel} (h : channel.inFlight = []) :
    channelStep aes hmac .deliver channel = .ok channel := by
  unfold channelStep
  dsimp only
  rw [h]

/-- what is delivered is opened by the receiver -/
theorem channelStep_deliver_cons {channel : Channel} {inFlight : List (List UInt8 × List UInt8)}
    (h : channel.inFlight = (packet, message) :: inFlight) {next : StretchedKey}
    {nextStream : StreamState 16}
    (hopen : openMessage aes hmac channel.receiver.remoteStretchedKey channel.receiver.aesDecode
      packet = .ok (.message message, next, nextStream)) :
    channelStep aes hmac .deliver channel =
      .ok { channel with
            receiver := { channel.receiver with
                          remoteStretchedKey := next
                          aesDecode := nextStream }
            inFlight := inFlight
            delivered := channel.delivered ++ [(message, .message message)] } := by
  unfold channelStep secioDecrypt
  dsimp only
  rw [h]
  dsimp only
  rw [hopen]
  rfl

/-- **one step**: what is allowed keeps the two sides together -/
theorem channelStep_consistent (op : ChannelOp) (channel : Channel)
    (h : Consistent aes hmac channel) (hallowed : op.Allowed channel) :
    ∃ channel', channelStep aes hmac op channel = .ok channel' ∧
      Consistent aes hmac channel' := by
  cases op with
  | write message =>
    unfold channelStep secioEncrypt
    dsimp only
    cases hkey : aesSetkeyEnc channel.sender.localStretchedKey.cipherKey with
    | none =>
      rw [sealMessage_of_none hkey]
      exact ⟨_, rfl, h.chain, h.delivered⟩
    | some key =>
      obtain ⟨hread, hlen⟩ := hallowed (by rw [hkey]; exact Option.some_ne_none key)
      have hseal := (@sealMessage_eq_ok aes hmac _ channel.sender.aesEncode message _ _ hkey).2
        ⟨hlen, hread, rfl⟩
      rw [hseal]
      exact ⟨_, rfl, h.chain.append hseal, h.delivered⟩
  | deliver =>
    cases hflight : channel.inFlight with
    | nil => exact ⟨channel, channelStep_deliver_nil hflight, h⟩
    | cons first inFlight =>
      obtain ⟨packet, message⟩ := first
      have hchain := h.chain
      rw [hflight] at hchain
      obtain ⟨next, nextStream, hseal, hrest⟩ := hchain
      have hshort : message.length < 2 ^ 31 := hallowed packet message (by rw [hflight]; rfl)
      refine ⟨_, channelStep_deliver_cons hflight (openMessage_seal hseal), hrest,
        fun m result hmem => ?_⟩
      rcases List.mem_append.1 hmem with hmem | hmem
      · exact h.delivered m result hmem
      · obtain ⟨rfl, rfl⟩ := Prod.mk.inj (List.mem_singleton.1 hmem)
        exact ⟨rfl, toInt32_natCast_of_lt hshort⟩

/-- **a step that is not allowed** faults, or gives a wrong count -/
theorem not_law_of_not_allowed (op : ChannelOp) (channel channel' : Channel)
    (h : Consistent aes hmac channel) (hnot : ¬ op.Allowed channel)
    (hstep : channelStep aes hmac op channel = .ok channel') : ¬ ChannelLaw channel' := by
  cases op with
  | write message =>
    exfalso
    apply hnot
    intro hkey
    obtain ⟨key, hkey⟩ := Option.ne_none_iff_exists'.1 hkey
    obtain ⟨r, hencrypt, -⟩ := bind_eq_ok.1 hstep
    obtain ⟨r', hseal, -⟩ := bind_eq_ok.1 hencrypt
    obtain ⟨hlen, hread, -⟩ := (sealMessage_eq_ok hkey).1 hseal
    exact ⟨hread, hlen⟩
  | deliver =>
    intro hlaw
    apply hnot
    intro packet message hhead
    obtain ⟨inFlight, hflight⟩ := List.head?_eq_some_iff.1 hhead
    have hchain := h.chain
    rw [hflight] at hchain
    obtain ⟨next, nextStream, hseal, -⟩ := hchain
    rw [channelStep_deliver_cons hflight (openMessage_seal hseal)] at hstep
    cases hstep
    have hcount := (hlaw.delivered message (.message message)
      (List.mem_append_right _ List.mem_cons_self)).2
    have hcount : toInt32 message.length = message.length := hcount
    have hbound := (toInt32_bounds message.length).2
    omega

/-- **a session** -/
theorem channel_holdsAlong_iff {channel : Channel} {ops : List ChannelOp}
    (h : Consistent aes hmac channel) :
    HoldsAlong (channelStep aes hmac) ChannelLaw ops channel ↔
      Guarded (channelStep aes hmac) ChannelOp.Allowed ops channel :=
  holdsAlong_iff_guarded (fun _ h => h.law) channelStep_consistent not_law_of_not_allowed h

end

/-- **both laws**: of a session whose sides start with the same key, and of any bytes -/
theorem channel_iff (aes : List UInt8 → List UInt8 → Vector UInt8 16)
    (hmac : List UInt8 → List UInt8 → Digest) {sender receiver : SessionContext}
    (hkey : receiver.remoteStretchedKey = sender.localStretchedKey) (ops : List ChannelOp)
    (session : SessionContext) {incoming : List UInt8} (hlen : incoming.length ≤ ptrdiffMax) :
    let channel : Channel :=
      { sender := secioInitializeCrypto sender, receiver := secioInitializeCrypto receiver }
    (HoldsAlong (channelStep aes hmac) ChannelLaw ops channel ↔
        Guarded (channelStep aes hmac) ChannelOp.Allowed ops channel) ∧
      (DecryptLaw aes hmac session incoming ↔
        Decryptable hmac session.remoteStretchedKey incoming) := by
  refine ⟨channel_holdsAlong_iff ⟨⟨hkey, rfl⟩, fun m result hmem => ?_⟩, decryptLaw_iff hlen⟩
  cases hmem

/-! ## negotiated keys -/

section
variable {hmac : List UInt8 → List UInt8 → Digest}
variable {curve cipher hash secret temp : List UInt8} {ivSize cipherSize : Nat} {order : Int}

theorem length_stretchBlocks {mac : List UInt8 → Digest} {seed : List UInt8} {blocks : Nat}
    {aHash : Digest} : (stretchBlocks mac seed blocks aHash).length = 32 * blocks := by
  induction blocks generalizing aHash with
  | zero => rfl
  | succ blocks ih =>
    rw [stretchBlocks, List.length_append, ih, (mac (aHash.1 ++ seed)).2]
    omega

theorem cutKey_sizes (h : ivSize + cipherSize + hmacSize ≤ temp.length) :
    (cutKey ivSize cipherSize temp).1.iv.length = ivSize ∧
      (cutKey ivSize cipherSize temp).1.macKey.length = hmacSize := by
  unfold cutKey
  constructor
  · rw [List.length_take]
    omega
  · rw [List.length_take, List.length_drop]
    omega

theorem cipherSizes_eq_some (h : cipherSizes cipher = some (ivSize, cipherSize)) :
    (cipher ≠ asciiBytes "Blowfish" ∧ ivSize = 16 ∨ cipher = asciiBytes "Blowfish" ∧ ivSize = 8) ∧
      (cipherSize = 16 ∨ cipherSize = 32) := by
  unfold cipherSizes at h
  split at h
  · next haes =>
    cases h
    exact ⟨.inl ⟨by rw [haes]; decide, rfl⟩, .inl rfl⟩
  split at h
  · next haes =>
    cases h
    exact ⟨.inl ⟨by rw [haes]; decide, rfl⟩, .inr rfl⟩
  split at h
  · next hblowfish =>
    cases h
    exact ⟨.inr ⟨hblowfish, rfl⟩, .inr rfl⟩
  · cases h

/-- both keys have the IV of the cipher and 20 bytes for the MAC -/
theorem secioStretchKeys_sizes {hashType : List UInt8} {k1 k2 : StretchedKey}
    (h : secioStretchKeys hmac cipher hashType secret = some (k1, k2)) :
    ∃ ivSize cipherSize, cipherSizes cipher = some (ivSize, cipherSize) ∧
      ∀ key, key = k1 ∨ key = k2 →
        key.iv.length = ivSize ∧ key.macKey.length = 20 ∧ key.macSize = 20 := by
  obtain ⟨⟨ivSize, cipherSize⟩, hsizes, hkeys⟩ := Option.map_eq_some_iff.1 h
  refine ⟨ivSize, cipherSize, hsizes, ?_⟩
  obtain ⟨hiv, hcipher⟩ := cipherSizes_eq_some hsizes
  have h20 : hmacSize = 20 := rfl
  set resultSize := 2 * (ivSize + cipherSize * hmacSize) with hresult
  set result := (stretchBlocks (hmac secret) (asciiBytes "key expansion")
    ((resultSize + 31) / 32) (hmac secret (asciiBytes "key expansion"))).take resultSize
    with hresultDef
  have hlen : result.length = resultSize := by
    rw [hresultDef, List.length_take, length_stretchBlocks]
    omega
  have hroom : 2 * (ivSize + cipherSize + 20) ≤ result.length := by
    rw [hlen, hresult, h20]
    omega
  have hsecond : ivSize + cipherSize + hmacSize ≤
      (cutKey ivSize cipherSize result).2.length := by
    unfold cutKey
    rw [List.length_drop, h20]
    omega
  obtain ⟨rfl, rfl⟩ := Prod.mk.inj hkeys
  rintro key (rfl | rfl)
  · obtain ⟨h1, h2⟩ := @cutKey_sizes result ivSize cipherSize (by omega)
    exact ⟨h1, h2, rfl⟩
  · obtain ⟨h1, h2⟩ := cutKey_sizes hsecond
    exact ⟨h1, h2, rfl⟩

/-- a key whose MAC key has 20 bytes -/
theorem readable_secioMakeMacAndCipher {key : StretchedKey} (hmacKey : key.macKey.length = 20)
    (hmacSize : key.macSize = 20)
    (hknown : hash = asciiBytes "SHA1" ∨ hash = asciiBytes "SHA512" ∨ hash = asciiBytes "SHA256") :
    (secioMakeMacAndCipher cipher hash key).2.Readable ↔
      16 ≤ key.iv.length ∧ hash = asciiBytes "SHA256" := by
  have h1 : asciiBytes "SHA1" ≠ asciiBytes "SHA256" := by decide
  have h2 : asciiBytes "SHA512" ≠ asciiBytes "SHA256" := by decide
  have h3 : asciiBytes "SHA512" ≠ asciiBytes "SHA1" := by decide
  unfold secioMakeMacAndCipher
  rcases hknown with rfl | rfl | rfl
  · -- 40 bytes are read of 20
    rw [if_pos rfl]
    constructor
    · rintro ⟨-, hmac⟩
      have hmac : 40 ≤ key.macKey.length := hmac
      omega
    · exact fun h => absurd h.2 h1
  · rw [if_neg h3, if_pos rfl]
    constructor
    · rintro ⟨-, hmac⟩
      have hmac : 64 ≤ key.macKey.length := hmac
      omega
    · exact fun h => absurd h.2 h2
  · rw [if_neg h1.symm, if_neg h2.symm, if_pos rfl]
    exact ⟨fun h => ⟨h.iv, rfl⟩, fun h => ⟨h.1, by rw [hmacSize, hmacKey]⟩⟩

/-- **a side can read its keys** iff it has chosen AES and SHA-256 -/
theorem readable_iff_of_finishHandshake {side : Negotiated}
    (h : finishHandshake hmac order curve cipher hash secret = some side) :
    side.localStretchedKey.Readable ∧ side.remoteStretchedKey.Readable ↔
      cipher ≠ asciiBytes "Blowfish" ∧ hash = asciiBytes "SHA256" := by
  unfold finishHandshake at h
  cases hstretch : secioStretchKeys hmac cipher hash secret with
  | none =>
    rw [hstretch] at h
    cases h
  | some pair =>
    obtain ⟨k1, k2⟩ := pair
    rw [hstretch] at h
    dsimp only at h
    split at h
    · next hknown =>
      cases h
      obtain ⟨ivSize, cipherSize, hsizes, hkeys⟩ := secioStretchKeys_sizes hstretch
      obtain ⟨hiv, -⟩ := cipherSizes_eq_some hsizes
      have hkey (key : StretchedKey) (hmem : key = k1 ∨ key = k2) :
          (secioMakeMacAndCipher cipher hash key).2.Readable ↔
            cipher ≠ asciiBytes "Blowfish" ∧ hash = asciiBytes "SHA256" := by
        obtain ⟨hlen, hmacKey, hmacSize⟩ := hkeys key hmem
        rw [readable_secioMakeMacAndCipher hmacKey hmacSize hknown, hlen]
        refine and_congr_left fun _ => ?_
        rcases hiv with ⟨hcipher, rfl⟩ | ⟨hcipher, rfl⟩
        · exact ⟨fun _ => hcipher, fun _ => le_rfl⟩
        · exact ⟨fun h => absurd h (by omega), fun h => absurd hcipher h⟩
      have hassign : ((assignKeys order k1 k2).1 = k1 ∨ (assignKeys order k1 k2).1 = k2) ∧
          ((assignKeys order k1 k2).2 = k1 ∨ (assignKeys order k1 k2).2 = k2) := by
        unfold assignKeys
        split
        · exact ⟨.inl rfl, .inr rfl⟩
        · exact ⟨.inr rfl, .inl rfl⟩
      have hlocal := hkey _ hassign.1
      have hremote := hkey _ hassign.2
      exact ⟨fun h => hlocal.1 h.1, fun h => ⟨hlocal.2 h, hremote.2 h⟩⟩
    · cases h

end

/-- AES with a hash that is not SHA-256 -/
theorem readable_iff_of_finishHandshake_aes : ∃ side,
    finishHandshake (fun _ _ => ⟨List.replicate 32 0, rfl⟩) 1 (asciiBytes "P-256")
        (asciiBytes "AES-128") (asciiBytes "SHA1") [1] = some side ∧
      (side.localStretchedKey.Readable ∧ side.remoteStretchedKey.Readable ↔
        asciiBytes "AES-128" ≠ asciiBytes "Blowfish" ∧ asciiBytes "SHA1" = asciiBytes "SHA256") := by
  have hsome : (finishHandshake (fun _ _ => ⟨List.replicate 32 0, rfl⟩) 1 (asciiBytes "P-256")
      (asciiBytes "AES-128") (asciiBytes "SHA1") [1]).isSome := by decide
  obtain ⟨side, h⟩ := Option.isSome_iff_exists.1 hsome
  exact ⟨side, h, readable_iff_of_finishHandshake h⟩

/-- a key of zeros -/
def zeroKey : StretchedKey where
  iv := List.replicate 16 0
  cipherKey := List.replicate 16 0
  macKey := List.replicate 20 0
  macSize := 20

def zeroSession : SessionContext :=
  secioInitializeCrypto
    { localStretchedKey := zeroKey
      remoteStretchedKey := zeroKey
      aesEncode := { offset := 0, block := Vector.replicate 16 0 }
      aesDecode := { offset := 0, block := Vector.replicate 16 0 } }

/-- what AES makes of the first counter with that key -/
def zeroBlock : Vector UInt8 16 :=
  #v[102, 233, 75, 212, 239, 138, 44, 59, 136, 76, 250, 89, 202, 52, 43, 46]

/-- and of the second -/
def oneBlock : Vector UInt8 16 :=
  #v[88, 226, 252, 206, 250, 126, 48, 97, 54, 127, 29, 87, 164, 231, 69, 90]

def zeroAes (_ counter : List UInt8) : Vector UInt8 16 :=
  if counter = List.replicate 16 0 then zeroBlock else oneBlock

/-- the MACs with that key of the first five bytes of these blocks, and of the 14 behind them -/
def zeroHmac (_ data : List UInt8) : Digest :=
  if data.length = 5 then
    ⟨[213, 45, 61, 137, 235, 83, 195, 112, 241, 243, 115, 24, 164, 230, 109, 125, 175, 249, 122, 216,
      142, 212, 70, 2, 220, 67, 193, 22, 125, 177, 9, 198], rfl⟩
  else
    ⟨[140, 9, 236, 19, 48, 120, 222, 136, 47, 76, 146, 89, 15, 143, 169, 16, 49, 16, 237, 141, 101,
      165, 217, 37, 26, 165, 173, 219, 187, 189, 5, 178], rfl⟩

/-- the first message ends inside a block, and the second goes on into the next -/
theorem channel_iff_zero :
    HoldsAlong (channelStep zeroAes zeroHmac) ChannelLaw
        [.write (List.replicate 5 0), .write (List.replicate 14 0), .deliver, .deliver]
        { sender := zeroSession, receiver := zeroSession } ∧
      DecryptLaw zeroAes zeroHmac zeroSession
        ([102, 233, 75, 212, 239] ++ (zeroHmac [] [102, 233, 75, 212, 239]).1) := by
  obtain ⟨hchannel, hdecrypt⟩ := @channel_iff zeroAes zeroHmac zeroSession zeroSession rfl
    [.write (List.replicate 5 0), .write (List.replicate 14 0), .deliver, .deliver] zeroSession
    ([102, 233, 75, 212, 239] ++ (zeroHmac [] [102, 233, 75, 212, 239]).1) (by decide)
  exact ⟨hchannel.2 (by decide +kernel),
    hdecrypt.2 ⟨by decide, by decide, fun _ _ => by decide⟩⟩

/-- a message of no bytes at all -/
theorem not_decryptLaw_nil : ¬ DecryptLaw zeroAes zeroHmac zeroSession [] := by
  rintro ⟨result, session', hrun, -, -⟩
  obtain ⟨r, hopen, -⟩ := bind_eq_ok.1 hrun
  rw [openMessage_of_short (by decide)] at hopen
  cases hopen

end Libp2p
