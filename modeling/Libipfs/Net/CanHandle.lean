import Libipfs.Journal.Journal
import Libipfs.Lib.CString
import Libipfs.Protobuf.Varint

/-!
# Who handles a message

Each protocol has a function that says whether a message is for it.  Three skip a varint in front
of the protocol, where the message does not begin like the protocol; three search for the
protocol with `strnstr`.

* `multistreamCanHandle`, `yamuxCanHandle`, `identifyCanHandle`   skip a varint;
* `bitswapCanHandle`, `dhtCanHandle`, `journalCanHandle`          search;
* `DispatchExact`    each says yes to the messages that begin with its protocol, and to no other;
* `varintCanHandle_eq_iff`, `searchCanHandle_eq_iff`   when one of them is right;
* `dispatchExact_iff`   **when all are**.
-/

namespace Ipfs
open CSem Libp2p

/-! ## the functions -/

/-- `/multistream/1.0.0` and a line feed -/
def multistreamProtocol : List UInt8 :=
  [47, 109, 117, 108, 116, 105, 115, 116, 114, 101, 97, 109, 47, 49, 46, 48, 46, 48, 10]

/-- `/yamux/1.0.0` and a line feed -/
def yamuxProtocol : List UInt8 :=
  [47, 121, 97, 109, 117, 120, 47, 49, 46, 48, 46, 48, 10]

/-- `/ipfs/id/1.0.0` and a line feed -/
def identifyProtocol : List UInt8 :=
  [47, 105, 112, 102, 115, 47, 105, 100, 47, 49, 46, 48, 46, 48, 10]

/-- `/ipfs/bitswap` -/
def bitswapProtocol : List UInt8 :=
  [47, 105, 112, 102, 115, 47, 98, 105, 116, 115, 119, 97, 112]

/-- `/ipfs/kad` -/
def kademliaProtocol : List UInt8 :=
  [47, 105, 112, 102, 115, 47, 107, 97, 100]

/-- the number of bytes in front of the protocol: the second byte is looked at when the first is not
that of the protocol -/
def varintInFront (protocol data : List UInt8) : Exec Nat :=
  match data with
  | [] => .error .outOfBounds
  | b0 :: rest =>
    if b0 ≠ protocol.getD 0 0 then
      match rest with
      | [] => .error .outOfBounds
      | b1 :: _ =>
        if b1 ≠ protocol.getD 1 0 then do
          let (_, numBytes) ← varintDecode (toInt32 data.length) data
          .ok numBytes
        else .ok 0
    else .ok 0

/-- the size is compared with that of the protocol LESS the bytes in front of it -/
def varintCanHandle (protocol data : List UInt8) : Exec Bool :=
  if data.length = 0 then .ok false
  else do
    let numBytes ← varintInFront protocol data
    if toUInt64 (protocol.length - numBytes) ≤ data.length then
      strncmpZero protocol.length protocol (data.drop numBytes)
    else .ok false

def multistreamCanHandle : List UInt8 → Exec Bool := varintCanHandle multistreamProtocol

def yamuxCanHandle : List UInt8 → Exec Bool := varintCanHandle yamuxProtocol

def identifyCanHandle : List UInt8 → Exec Bool := varintCanHandle identifyProtocol

/-- the size is compared with a number that need not be that of the protocol -/
def searchCanHandle (atLeast : Nat) (protocol data : List UInt8) : Exec Bool :=
  if data.length < atLeast then .ok false
  else do
    let result ← strnstr data protocol
    .ok (result = some 0)

def bitswapCanHandle : List UInt8 → Exec Bool := searchCanHandle 1 bitswapProtocol

def dhtCanHandle : List UInt8 → Exec Bool := searchCanHandle 8 kademliaProtocol

def journalCanHandle : List UInt8 → Exec Bool := searchCanHandle 21 journalProtocol

/-! ## what they are for -/

inductive Handler where
  | multistream
  | yamux
  | identify
  | bitswap
  | kademlia
  | journal
  deriving DecidableEq, Repr

namespace Handler

def canHandle : Handler → List UInt8 → Exec Bool
  | multistream => multistreamCanHandle
  | yamux => yamuxCanHandle
  | identify => identifyCanHandle
  | bitswap => bitswapCanHandle
  | kademlia => dhtCanHandle
  | journal => journalCanHandle

def protocol : Handler → List UInt8
  | multistream => multistreamProtocol
  | yamux => yamuxProtocol
  | identify => identifyProtocol
  | bitswap => bitswapProtocol
  | kademlia => kademliaProtocol
  | journal => journalProtocol

/-- how many bytes there must be -/
def atLeast : Handler → Nat
  | kademlia => 8
  | journal => 21
  | _ => 1

/-- the handlers that take a varint in front of the protocol -/
def skipsVarint : Handler → Bool
  | multistream | yamux | identify => true
  | _ => false

/-- what follows the varint, where the message does not begin like the protocol -/
def behindVarint (protocol data : List UInt8) : Option (List UInt8) :=
  match data with
  | b0 :: b1 :: _ =>
    if b0 ≠ protocol.getD 0 0 ∧ b1 ≠ protocol.getD 1 0 then
      (varintLength data).map fun n => data.drop n
    else some data
  | _ => some data

/-- where the handler looks for its protocol -/
def behind (handler : Handler) (data : List UInt8) : Option (List UInt8) :=
  if handler.skipsVarint then behindVarint handler.protocol data else some data

/-- the message is for the handler: its protocol is there, and whole -/
def claims (handler : Handler) (data : List UInt8) : Bool :=
  match handler.behind data with
  | none => false
  | some rest => decide (handler.protocol <+: rest)

end Handler

structure DispatchExact (data : List UInt8) : Prop where
  exact : ∀ handler : Handler, handler.canHandle data = .ok (handler.claims data)
  one : ∀ handler handler' : Handler, handler.canHandle data = .ok true →
    handler'.canHandle data = .ok true → handler = handler'
  truncated : ∀ (handler : Handler) (rest : List UInt8), handler.behind data = some rest →
    rest <+: handler.protocol → rest ≠ handler.protocol →
    ∀ handler' : Handler, handler'.canHandle data ≠ .ok true

/-! ## when they are right -/

/-- there is a second byte to look at, and a varint that can be read; and behind it the message
does not break off within the protocol, if it is so long that the two are compared -/
def VarintHandles (protocol data : List UInt8) : Prop :=
  ∀ b0 rest, data = b0 :: rest → b0 ≠ protocol.getD 0 0 →
    ∃ b1 rest', rest = b1 :: rest' ∧ (b1 ≠ protocol.getD 1 0 →
      ∃ n, varintLength data = some n ∧ n ≤ 10 ∧ varintFits n (toInt32 data.length) ∧
        ¬ (protocol.length ≤ data.length + n ∧ data.drop n <+: protocol ∧
          data.drop n ≠ protocol))

/-- the message does not break off within the protocol; the loop of `strnstr` runs if it has to,
and is not run for ever -/
def SearchHandles (atLeast : Nat) (protocol data : List UInt8) : Prop :=
  atLeast ≤ data.length →
    ¬ (data <+: protocol ∧ data ≠ protocol) ∧
    (protocol <+: data → 0 ≤ strnstrLast data protocol) ∧
    (strnstrLast data protocol = 2 ^ 31 - 1 →
      ∃ j : Nat, (j : Int) ≤ strnstrLast data protocol ∧
        protocol.take data.length <+: data.drop j)

def Handler.Handles (handler : Handler) (data : List UInt8) : Prop :=
  if handler.skipsVarint then VarintHandles handler.protocol data
  else SearchHandles handler.atLeast handler.protocol data

section
variable {protocol data : List UInt8} {atLeast : Nat}

/-- comparing goes beyond the end of what breaks off within the protocol -/
theorem strncmpZero_eq_decide_iff (h0 : 0 ∉ protocol) {rest : List UInt8} :
    strncmpZero protocol.length protocol rest = .ok (decide (protocol <+: rest)) ↔
      ¬ (rest <+: protocol ∧ rest ≠ protocol) := by
  rw [strncmpZero_eq h0 (Nat.le_refl _), List.take_length]
  by_cases hp : protocol <+: rest
  · rw [if_pos hp, decide_eq_true hp]
    refine ⟨fun _ h => h.2 ?_, fun _ => rfl⟩
    exact h.1.eq_of_length_le hp.length_le
  · rw [if_neg hp, decide_eq_false hp]
    by_cases hr : rest <+: protocol
    · rw [if_pos hr]
      refine ⟨fun h => ?_, fun h => absurd ⟨hr, ?_⟩ h⟩
      · cases h
      · rintro rfl
        exact hp List.prefix_rfl
    · rw [if_neg hr]
      exact ⟨fun _ h => hr h.1, fun _ => rfl⟩

theorem not_prefix_of_length_lt {rest : List UInt8} (h : rest.length < protocol.length) :
    ¬ protocol <+: rest := fun hp => absurd hp.length_le (Nat.not_le.2 h)

/-- the comparison of the sizes, for the few bytes a varint has -/
theorem room_iff (hlong : 10 < protocol.length) (hsize : protocol.length < 2 ^ 31) {n : Nat}
    (hn : n ≤ 10) :
    toUInt64 ((protocol.length : Int) - n) ≤ data.length ↔ protocol.length ≤ data.length + n := by
  have h : (protocol.length : Int) - n = (protocol.length - n : Nat) := by omega
  rw [h, toUInt64_natCast_of_lt (by omega)]
  omega

theorem varintInFront_skip {b0 b1 : UInt8} {rest : List UInt8} (h : b0 ≠ protocol.getD 0 0)
    (h' : b1 ≠ protocol.getD 1 0) :
    varintInFront protocol (b0 :: b1 :: rest) =
      varintDecode (toInt32 (b0 :: b1 :: rest).length) (b0 :: b1 :: rest) >>= fun x => .ok x.2 := by
  show (if b0 ≠ _ then if b1 ≠ _ then _ else _ else _) = _
  rw [if_pos h, if_pos h']

theorem varintInFront_none {b0 b1 : UInt8} {rest : List UInt8}
    (h : ¬ (b0 ≠ protocol.getD 0 0 ∧ b1 ≠ protocol.getD 1 0)) :
    varintInFront protocol (b0 :: b1 :: rest) = .ok 0 := by
  show (if b0 ≠ _ then if b1 ≠ _ then _ else _ else _) = _
  split
  · next h0 => rw [if_neg fun h1 => h ⟨h0, h1⟩]
  · rfl

/-- a message of one byte -/
theorem varintCanHandle_singleton_iff (hlong : 10 < protocol.length)
    (hsize : protocol.length < 2 ^ 31) (b0 : UInt8) :
    varintCanHandle protocol [b0] = .ok false ↔ VarintHandles protocol [b0] := by
  have hfit := @room_iff protocol [b0] hlong hsize 0 (Nat.zero_le _)
  unfold varintCanHandle varintInFront
  rw [if_neg (by rw [List.length_singleton]; exact Nat.one_ne_zero)]
  by_cases hb : b0 = protocol.getD 0 0
  · have hroom : ¬ toUInt64 ((protocol.length : Int) - (0 : Nat)) ≤ [b0].length := by
      rw [hfit, List.length_singleton]
      omega
    simp only [ne_eq, hb, not_true, if_false, ok_bind]
    rw [← hb, if_neg hroom]
    refine ⟨fun _ c rest h hc => ?_, fun _ => rfl⟩
    cases h
    exact absurd hb hc
  · simp only [ne_eq, hb, not_false_eq_true, if_true, error_bind]
    refine ⟨fun h => ?_, fun h => ?_⟩
    · cases h
    · obtain ⟨b1, rest', hr, -⟩ := h b0 [] rfl hb
      cases hr

/-- a message whose varint is skipped -/
theorem varintCanHandle_skip_iff (h0 : 0 ∉ protocol) (hlong : 10 < protocol.length)
    (hsize : protocol.length < 2 ^ 31) {b0 b1 : UInt8} {rest : List UInt8}
    (hdata : data = b0 :: b1 :: rest) (hskip : b0 ≠ protocol.getD 0 0 ∧ b1 ≠ protocol.getD 1 0) :
    varintCanHandle protocol data = .ok (((varintLength data).map fun n => data.drop n).elim false
      fun rest => decide (protocol <+: rest)) ↔ VarintHandles protocol data := by
  have hiff : VarintHandles protocol data ↔ ∃ n, varintLength data = some n ∧ n ≤ 10 ∧
      varintFits n (toInt32 data.length) ∧ ¬ (protocol.length ≤ data.length + n ∧
        data.drop n <+: protocol ∧ data.drop n ≠ protocol) := by
    subst hdata
    constructor
    · intro h
      obtain ⟨c1, rest', hr, hn⟩ := h b0 _ rfl hskip.1
      cases hr
      exact hn hskip.2
    · rintro hn c0 rest' hr -
      cases hr
      exact ⟨b1, rest, rfl, fun _ => hn⟩
  have hne : data.length ≠ 0 := by
    rw [hdata]
    exact Nat.succ_ne_zero _
  have hfront : varintInFront protocol data =
      varintDecode (toInt32 data.length) data >>= fun x => .ok x.2 := by
    rw [hdata]
    exact varintInFront_skip hskip.1 hskip.2
  rw [hiff]
  unfold varintCanHandle
  rw [if_neg hne, hfront]
  constructor
  · intro h
    obtain ⟨numBytes, hnum, h⟩ := bind_eq_ok.1 h
    obtain ⟨⟨v, n⟩, hv, hnum⟩ := bind_eq_ok.1 hnum
    cases hnum
    obtain ⟨hlen, hten, hfits, -⟩ := varintDecode_eq_ok.1 hv
    rw [hlen] at h
    refine ⟨n, hlen, hten, hfits, fun hbad => ?_⟩
    rw [if_pos ((room_iff hlong hsize hten).2 hbad.1)] at h
    exact (strncmpZero_eq_decide_iff h0).1 h hbad.2
  · rintro ⟨n, hlen, hten, hfits, hgood⟩
    rw [varintDecode_eq_ok.2 ⟨hlen, hten, hfits, rfl⟩, hlen, ok_bind, ok_bind]
    by_cases hroom : protocol.length ≤ data.length + n
    · rw [if_pos ((room_iff hlong hsize hten).2 hroom)]
      exact (strncmpZero_eq_decide_iff h0).2 fun hbad => hgood ⟨hroom, hbad⟩
    · have hnot : ¬ protocol <+: data.drop n :=
        not_prefix_of_length_lt (by rw [List.length_drop]; omega)
      rw [if_neg fun hr => hroom ((room_iff hlong hsize hten).1 hr)]
      exact congrArg Except.ok (decide_eq_false hnot).symm

/-- a message that begins like the protocol, or has a byte of it, is compared as it is -/
theorem varintCanHandle_whole (h0 : 0 ∉ protocol) (hlong : 10 < protocol.length)
    (hsize : protocol.length < 2 ^ 31) {b0 b1 : UInt8} {rest : List UInt8}
    (hskip : ¬ (b0 ≠ protocol.getD 0 0 ∧ b1 ≠ protocol.getD 1 0)) :
    varintCanHandle protocol (b0 :: b1 :: rest) =
        .ok (decide (protocol <+: b0 :: b1 :: rest)) ∧
      VarintHandles protocol (b0 :: b1 :: rest) := by
  have hne : (b0 :: b1 :: rest).length ≠ 0 := Nat.succ_ne_zero _
  have hroom := @room_iff protocol (b0 :: b1 :: rest) hlong hsize 0 (Nat.zero_le _)
  rw [Nat.add_zero] at hroom
  constructor
  · unfold varintCanHandle
    rw [if_neg hne, varintInFront_none hskip, ok_bind]
    simp only [List.drop_zero]
    by_cases hle : protocol.length ≤ (b0 :: b1 :: rest).length
    · rw [if_pos (hroom.2 hle)]
      refine (strncmpZero_eq_decide_iff h0).2 fun hbad => hbad.2 ?_
      exact hbad.1.eq_of_length_le hle
    · rw [if_neg fun hr => hle (hroom.1 hr),
        decide_eq_false (not_prefix_of_length_lt (Nat.not_le.1 hle))]
  · intro c0 rest' hr hc0
    cases hr
    exact ⟨b1, rest, rfl, fun hb1 => absurd ⟨hc0, hb1⟩ hskip⟩

/-- **the handlers that skip a varint** -/
theorem varintCanHandle_eq_iff (h0 : 0 ∉ protocol) (hlong : 10 < protocol.length)
    (hsize : protocol.length < 2 ^ 31) :
    varintCanHandle protocol data = .ok (match Handler.behindVarint protocol data with
      | none => false
      | some rest => decide (protocol <+: rest)) ↔ VarintHandles protocol data := by
  match data with
  | [] =>
    have hnot : ¬ protocol <+: [] := not_prefix_of_length_lt (by rw [List.length_nil]; omega)
    show Except.ok false = Except.ok (decide (protocol <+: [])) ↔ _
    rw [decide_eq_false hnot]
    refine ⟨fun _ b0 rest h => ?_, fun _ => rfl⟩
    cases h
  | [b0] =>
    have hnot : ¬ protocol <+: [b0] :=
      not_prefix_of_length_lt (by rw [List.length_singleton]; omega)
    show _ = Except.ok (decide (protocol <+: [b0])) ↔ _
    rw [decide_eq_false hnot]
    exact varintCanHandle_singleton_iff hlong hsize b0
  | b0 :: b1 :: rest =>
    by_cases hskip : b0 ≠ protocol.getD 0 0 ∧ b1 ≠ protocol.getD 1 0
    · have hbehind : Handler.behindVarint protocol (b0 :: b1 :: rest) =
          (varintLength (b0 :: b1 :: rest)).map fun n => (b0 :: b1 :: rest).drop n := if_pos hskip
      have hiff := @varintCanHandle_skip_iff protocol (b0 :: b1 :: rest) h0 hlong hsize b0 b1 rest
        rfl hskip
      rw [hbehind, ← hiff]
      cases varintLength (b0 :: b1 :: rest) with
      | none => exact Iff.rfl
      | some n => exact Iff.rfl
    · have hbehind : Handler.behindVarint protocol (b0 :: b1 :: rest) = some (b0 :: b1 :: rest) :=
        if_neg hskip
      obtain ⟨hcan, hhandles⟩ := varintCanHandle_whole h0 hlong hsize hskip
      rw [hbehind, hcan]
      exact iff_of_true rfl hhandles

/-- the beginning that `strnstr` compares is the protocol, unless the message is shorter -/
theorem search_front : ((0 ≤ strnstrLast data protocol ∧ protocol.take data.length <+: data) ↔
    protocol <+: data) ↔ ¬ (data <+: protocol ∧ data ≠ protocol) ∧
      (protocol <+: data → 0 ≤ strnstrLast data protocol) := by
  by_cases hlen : protocol.length ≤ data.length
  · have hwhole : ¬ (data <+: protocol ∧ data ≠ protocol) := fun h =>
      h.2 (h.1.eq_of_length_le hlen)
    rw [List.take_of_length_le hlen]
    constructor
    · intro h
      exact ⟨hwhole, fun hp => (h.2 hp).1⟩
    · rintro ⟨-, h⟩
      exact ⟨fun hp => hp.2, fun hp => ⟨h hp, hp⟩⟩
  · have hlt : data.length < protocol.length := Nat.not_le.1 hlen
    have hnot : ¬ protocol <+: data := not_prefix_of_length_lt hlt
    have hne : data ≠ protocol := fun h => absurd (by rw [h]) hlen
    have hlast : strnstrLast data protocol = 0 := by
      unfold strnstrLast
      rw [Nat.min_eq_right (Nat.le_of_lt hlt), Nat.sub_self]
      exact toInt32_natCast_of_lt (by norm_num)
    have hfront : protocol.take data.length <+: data ↔ data <+: protocol := by
      have htake : (protocol.take data.length).length = data.length := by
        rw [List.length_take, Nat.min_eq_left (Nat.le_of_lt hlt)]
      constructor
      · intro h
        rw [← h.eq_of_length htake]
        exact List.take_prefix _ _
      · intro h
        rw [List.prefix_iff_eq_take.1 h, List.length_take, Nat.min_eq_left (Nat.le_of_lt hlt)]
    rw [hfront, hlast]
    constructor
    · intro h
      exact ⟨fun hp => hnot (h.1 ⟨Int.le_refl 0, hp.1⟩), fun hp => absurd hp hnot⟩
    · rintro ⟨h, -⟩
      exact ⟨fun hp => absurd ⟨hp.2, hne⟩ h, fun hp => absurd hp hnot⟩

/-- **the handlers that search** -/
theorem searchCanHandle_eq_iff (h0 : 0 ∉ protocol) (hpos : 0 < atLeast)
    (hle : atLeast ≤ protocol.length) :
    searchCanHandle atLeast protocol data = .ok (decide (protocol <+: data)) ↔
      SearchHandles atLeast protocol data := by
  unfold searchCanHandle SearchHandles
  by_cases hshort : data.length < atLeast
  · rw [if_pos hshort, decide_eq_false (not_prefix_of_length_lt (by omega))]
    exact iff_of_true rfl fun h => absurd h (Nat.not_le.2 hshort)
  · have hprotocol : protocol ≠ [] := List.length_pos_iff.1 (by omega)
    have hdata : data ≠ [] := List.length_pos_iff.1 (by omega)
    have hsafe := safe_strnstr h0 hprotocol hdata
    have hzero := strnstr_eq_some_zero h0 hprotocol hdata
    rw [if_neg hshort]
    -- what `strnstr` says of the beginning
    have hresult : (∃ result, strnstr data protocol = .ok result ∧
        (decide (result = some 0) = decide (protocol <+: data))) ↔
        Safe (strnstr data protocol) ∧
          (strnstr data protocol = .ok (some 0) ↔ protocol <+: data) := by
      constructor
      · rintro ⟨result, hr, hd⟩
        refine ⟨⟨result, hr⟩, ?_⟩
        rw [hr, ← decide_eq_decide.1 hd]
        exact ⟨fun h => Except.ok.inj h, fun h => by rw [h]⟩
      · rintro ⟨⟨result, hr⟩, hiff⟩
        refine ⟨result, hr, decide_eq_decide.2 ?_⟩
        rw [← hiff, hr]
        exact ⟨fun h => by rw [h], fun h => Except.ok.inj h⟩
    have hleft : (strnstr data protocol >>= fun result =>
          (.ok (decide (result = some 0)) : Exec Bool)) = .ok (decide (protocol <+: data)) ↔
        ∃ result, strnstr data protocol = .ok result ∧
          (decide (result = some 0) = decide (protocol <+: data)) := by
      rw [bind_eq_ok]
      exact exists_congr fun result => and_congr_right fun _ =>
        ⟨fun h => Except.ok.inj h, fun h => by rw [h]⟩
    rw [hleft, hresult, hsafe, hzero, search_front, and_comm, and_assoc]
    exact ⟨fun h _ => h, fun h => h (Nat.not_lt.1 hshort)⟩

/-! ## all of them -/

/-- **one handler** -/
theorem Handler.canHandle_eq_iff (handler : Handler) :
    handler.canHandle data = .ok (handler.claims data) ↔ handler.Handles data := by
  cases handler with
  | multistream => exact varintCanHandle_eq_iff (by decide) (by decide) (by decide)
  | yamux => exact varintCanHandle_eq_iff (by decide) (by decide) (by decide)
  | identify => exact varintCanHandle_eq_iff (by decide) (by decide) (by decide)
  | bitswap => exact searchCanHandle_eq_iff (by decide) (by decide) (by decide)
  | kademlia => exact searchCanHandle_eq_iff (by decide) (by decide) (by decide)
  | journal => exact searchCanHandle_eq_iff (by decide) (by decide) (by decide)

/-- no protocol is the beginning of another -/
theorem Handler.eq_of_prefix {handler handler' : Handler}
    (h : handler.protocol <+: handler'.protocol) : handler = handler' := by
  revert h
  cases handler <;> cases handler' <;> decide

theorem Handler.protocol_head (handler : Handler) : handler.protocol.head? = some 47 := by
  cases handler <;> rfl

/-- what is no protocol's beginning is looked at behind its varint, by those that skip one -/
theorem Handler.behind_cases {handler : Handler} {rest : List UInt8}
    (h : handler.behind data = some rest) :
    rest = data ∨ data.head? ≠ some 47 ∧ ∃ n, varintLength data = some n ∧ rest = data.drop n := by
  unfold Handler.behind at h
  split at h
  · have hhead : handler.protocol.getD 0 0 = 47 := by cases handler <;> rfl
    unfold Handler.behindVarint at h
    split at h
    · next b0 b1 t =>
      split at h
      · next hskip =>
        obtain ⟨n, hn, rfl⟩ := Option.map_eq_some_iff.1 h
        refine .inr ⟨fun hb => hskip.1 ?_, n, hn, rfl⟩
        rw [hhead]
        exact Option.some.inj hb
      · exact .inl (Option.some.inj h).symm
    · exact .inl (Option.some.inj h).symm
  · exact .inl (Option.some.inj h).symm

theorem Handler.behind_of_head {handler : Handler} (h : data.head? = some 47) {rest : List UInt8}
    (hbehind : handler.behind data = some rest) : rest = data := by
  rcases Handler.behind_cases hbehind with rfl | ⟨hne, -⟩
  · rfl
  · exact absurd h hne

theorem head_of_isPrefix {text rest : List UInt8} {b : UInt8} (h : text <+: rest)
    (hb : text.head? = some b) : rest.head? = some b := by
  obtain ⟨t, rfl⟩ := h
  cases text with
  | nil => cases hb
  | cons c cs => exact hb

/-- two handlers look at the same place, if what is there begins like a protocol -/
theorem Handler.behind_eq {handler handler' : Handler} {rest rest' : List UInt8}
    (h : handler.behind data = some rest) (h' : handler'.behind data = some rest')
    (hhead' : rest'.head? = some 47) (hrest : rest = [] ∨ rest.head? = some 47) : rest = rest' := by
  rcases Handler.behind_cases h' with rfl | ⟨hne, n', hn', rfl⟩
  · exact Handler.behind_of_head hhead' h
  · rcases Handler.behind_cases h with rfl | ⟨-, n, hn, rfl⟩
    · rcases hrest with rfl | hrest
      · cases hn'
      · exact absurd hrest hne
    · rw [Option.some.inj (hn.symm.trans hn')]

theorem Handler.claims_eq_true {handler : Handler} :
    handler.claims data = true ↔ ∃ rest, handler.behind data = some rest ∧
      handler.protocol <+: rest := by
  unfold Handler.claims
  cases handler.behind data with
  | none =>
    refine ⟨fun h => ?_, fun h => ?_⟩
    · cases h
    · obtain ⟨rest, hr, -⟩ := h
      cases hr
  | some rest =>
    rw [decide_eq_true_iff]
    refine ⟨fun h => ⟨rest, rfl, h⟩, fun h => ?_⟩
    obtain ⟨rest', hr, hp⟩ := h
    obtain rfl := Option.some.inj hr
    exact hp

theorem Handler.eq_of_claims {handler handler' : Handler} (h : handler.claims data = true)
    (h' : handler'.claims data = true) : handler = handler' := by
  obtain ⟨rest, hbehind, hp⟩ := Handler.claims_eq_true.1 h
  obtain ⟨rest', hbehind', hp'⟩ := Handler.claims_eq_true.1 h'
  have hhead := head_of_isPrefix hp handler.protocol_head
  obtain rfl := Handler.behind_eq hbehind hbehind' (head_of_isPrefix hp' handler'.protocol_head)
    (.inr hhead)
  rcases List.prefix_or_prefix_of_prefix hp hp' with hle | hle
  · exact Handler.eq_of_prefix hle
  · exact (Handler.eq_of_prefix hle).symm

theorem Handler.not_claims_of_truncated {handler handler' : Handler} {rest : List UInt8}
    (hbehind : handler.behind data = some rest) (hp : rest <+: handler.protocol)
    (hne : rest ≠ handler.protocol) : handler'.claims data ≠ true := by
  intro h'
  obtain ⟨rest', hbehind', hp'⟩ := Handler.claims_eq_true.1 h'
  have hhead : rest = [] ∨ rest.head? = some 47 := by
    cases rest with
    | nil => exact .inl rfl
    | cons b t =>
      have hb := head_of_isPrefix hp (show (b :: t).head? = some b from rfl)
      rw [handler.protocol_head] at hb
      exact .inr (by rw [hb]; rfl)
  have hhead' := head_of_isPrefix hp' handler'.protocol_head
  obtain rfl := Handler.behind_eq hbehind hbehind' hhead' hhead
  have heq := Handler.eq_of_prefix (hp'.trans hp)
  subst heq
  exact hne (hp.eq_of_length_le hp'.length_le)

/-- **the dispatch** is exact iff each handler is right -/
theorem dispatchExact_iff (data : List UInt8) :
    DispatchExact data ↔ ∀ handler : Handler, handler.Handles data := by
  constructor
  · intro h handler
    exact handler.canHandle_eq_iff.1 (h.exact handler)
  · intro h
    have hexact (handler : Handler) : handler.canHandle data = .ok (handler.claims data) :=
      handler.canHandle_eq_iff.2 (h handler)
    refine ⟨hexact, fun handler handler' hc hc' => ?_, fun handler rest hb hp hne handler' hc => ?_⟩
    · rw [hexact] at hc hc'
      exact Handler.eq_of_claims (Except.ok.inj hc) (Except.ok.inj hc')
    · rw [hexact] at hc
      exact Handler.not_claims_of_truncated hb hp hne (Except.ok.inj hc)

end

/-- a slash alone is said to be for bitswap -/
theorem not_forall_dispatchExact : ¬ ∀ data, DispatchExact data := by
  intro h
  have hexact := (h [47]).exact .bitswap
  have hyes : Handler.bitswap.canHandle [47] = .ok true := by decide +kernel
  have hno : Handler.bitswap.claims [47] = false := by decide
  rw [hyes, hno] at hexact
  cases hexact

end Ipfs
