import Libipfs.Lib.Exec

/-!
# Reading from a connection

A message is what the socket gives until a read comes back with something else than 4096 bytes.
The first two bytes are read by themselves: when the second one is a slash, the first one may be a
length.  What comes of the second read then decides what is done with them.  A longer message is
written where it was before `realloc`, which may have moved it.

* `connectionRead`         `libp2p_net_connection_read`, with the bytes that it was given;
* `returns_laterReads`, `safe_laterReads`   what the loop comes to, and when;
* `initialRead_cases`      what comes of the first two reads;
* `DropsNothing`           the message is what was given, and without one nothing was;
* `dropsNothing_iff`       **when nothing is dropped**.
-/

set_option linter.unusedVariables false

namespace Libp2p
open CSem

/-- what `socket_read` is about to give: bytes, of which it gives as many as are asked for, or -1;
no bytes for 0 -/
inductive SocketRead where
  | bytes (data : List UInt8)
  | error
  deriving DecidableEq

/-- what is returned, the message if there is one, all bytes that the socket gave, and whether it
reported an error -/
structure ReadOutcome where
  ret : Nat
  msg : Option (List UInt8)
  delivered : List UInt8
  failed : Bool
  deriving DecidableEq

/-! ## the function -/

/-- so many bytes at most, `none` for an error; behind the last result the stream has ended -/
def socketRead (size : Nat) : List SocketRead → Option (List UInt8) × List SocketRead
  | [] => (some [], [])
  | .bytes data :: results => (some (data.take size), results)
  | .error :: results => (none, results)

/-- the first byte may be a length, without the second one, when that is a slash -/
def secondSize (first : List UInt8) : Nat :=
  if 0 < first.getD 0 0 ∧ first.getD 1 0 = 47 then (first.getD 0 0).toNat - 1 else 4096 - 2

/-- two bytes, and what goes with them: the result, the bytes that were given, and the rest; the two
bytes are not counted when nothing is behind them -/
def initialRead (results : List SocketRead) :
    Option (List UInt8) × List UInt8 × List SocketRead :=
  match socketRead 2 results with
  | (none, results) => (none, [], results)
  | (some first, results) =>
    if first.length = 2 then
      match socketRead (secondSize first) results with
      | (none, results) => (none, first, results)
      | (some second, results) =>
        if second = [] then (some [], first, results)
        else (some (first ++ second), first ++ second, results)
    else (some first, first, results)

/-- the result when there is some message -/
def builtMessage (message delivered : List UInt8) : ReadOutcome where
  ret := message.length
  msg := some message
  delivered := delivered
  failed := false

section

-- `moves`: `realloc` to so many bytes gives another block, and the one that was there is freed
variable (moves : Nat → Bool)

/-- more of the message, after 4096 bytes; the size is an `int` -/
def laterReads (message delivered : List UInt8) : List SocketRead → Exec ReadOutcome
  | [] => .ok (builtMessage message delivered)
  | .error :: results => .ok { ret := 0, msg := none, delivered := delivered, failed := true }
  | .bytes data :: results =>
    let buffer := data.take 4096
    if buffer = [] then .ok (builtMessage message delivered)
    else do
      require .overflow (message.length + buffer.length < 2 ^ 31)
      -- `result_buffer` is the block that was there
      require .freed (moves (message.length + buffer.length) = false)
      if buffer.length ≠ 4096 then .ok (builtMessage (message ++ buffer) (delivered ++ buffer))
      else laterReads (message ++ buffer) (delivered ++ buffer) results

def connectionRead (results : List SocketRead) : Exec ReadOutcome :=
  match initialRead results with
  | (none, delivered, _) => .ok { ret := 0, msg := none, delivered := delivered, failed := true }
  | (some buffer, delivered, results) =>
    if buffer = [] then .ok { ret := 0, msg := none, delivered := delivered, failed := false }
    else if buffer.length ≠ 4096 then .ok (builtMessage buffer delivered)
    else laterReads moves buffer delivered results

end

/-! ## what it promises -/

/-- the message is all that was given, and without one nothing was given, but for an error -/
def DropsNothing (moves : Nat → Bool) (results : List SocketRead) : Prop :=
  ∃ outcome, connectionRead moves results = .ok outcome ∧
    (∀ message, outcome.msg = some message →
      message = outcome.delivered ∧ outcome.ret = message.length) ∧
    (outcome.msg = none → outcome.failed = false → outcome.delivered = [])

/-- two bytes, and then none: the stream ends, or none are asked for -/
def EndsBehindTwo (results : List SocketRead) : Prop :=
  ∃ first rest, socketRead 2 results = (some first, rest) ∧ first.length = 2 ∧
    (socketRead (secondSize first) rest).1 = some []

/-- what is given after a read of 4096 bytes, up to the first read of fewer -/
def givenAfter : List SocketRead → List UInt8
  | [] => []
  | .error :: _ => []
  | .bytes data :: results =>
    data.take 4096 ++ if (data.take 4096).length = 4096 then givenAfter results else []

/-- all that is given -/
def given (results : List SocketRead) : List UInt8 :=
  (initialRead results).2.1 ++
    if (initialRead results).2.1.length = 4096 then givenAfter (initialRead results).2.2 else []

/-- the sizes the block is grown to, from `size` bytes on -/
def grownAfter (size : Nat) : List SocketRead → List Nat
  | [] => []
  | .error :: _ => []
  | .bytes data :: results =>
    let n := (data.take 4096).length
    if n = 0 then [] else (size + n) :: if n = 4096 then grownAfter (size + n) results else []

/-- all of them: none for a message of one read -/
def grown (results : List SocketRead) : List Nat :=
  if (initialRead results).2.1.length = 4096 then grownAfter 4096 (initialRead results).2.2 else []

/-! ## the loop -/

section
variable {moves : Nat → Bool} {message delivered : List UInt8} {results : List SocketRead} {outcome : ReadOutcome}

/-- the loop has given back what it had and what was given, or there was an error -/
def Returns (message delivered : List UInt8) (outcome : ReadOutcome) : Prop :=
  outcome.delivered = delivered ∧
    (outcome = builtMessage message delivered ∨ outcome.failed = true ∧ outcome.msg = none)

theorem givenAfter_short {data : List UInt8} (h : (data.take 4096).length ≠ 4096) :
    givenAfter (.bytes data :: results) = data.take 4096 := by
  rw [givenAfter, if_neg h, List.append_nil]

theorem givenAfter_full {data : List UInt8} (h : (data.take 4096).length = 4096) :
    givenAfter (.bytes data :: results) = data.take 4096 ++ givenAfter results := by
  rw [givenAfter, if_pos h]

theorem grownAfter_empty {data : List UInt8} {size : Nat} (h : data.take 4096 = []) :
    grownAfter size (.bytes data :: results) = [] := by
  rw [grownAfter, h]
  exact if_pos rfl

theorem grownAfter_cons {data : List UInt8} {size : Nat} (h : data.take 4096 ≠ []) :
    grownAfter size (.bytes data :: results) = (size + (data.take 4096).length) ::
      if (data.take 4096).length = 4096 then grownAfter (size + (data.take 4096).length) results
      else [] := by
  rw [grownAfter]
  exact if_neg fun hzero => h (List.eq_nil_of_length_eq_zero hzero)

/-- **the loop** gives back what it had and what was given -/
theorem returns_laterReads (h : laterReads moves message delivered results = .ok outcome) :
    Returns (message ++ givenAfter results) (delivered ++ givenAfter results) outcome := by
  induction results generalizing message delivered with
  | nil =>
    cases h
    rw [givenAfter, List.append_nil, List.append_nil]
    exact ⟨rfl, .inl rfl⟩
  | cons result results ih =>
    cases result with
    | error =>
      cases h
      rw [givenAfter, List.append_nil, List.append_nil]
      exact ⟨rfl, .inr ⟨rfl, rfl⟩⟩
    | bytes data =>
      rw [laterReads] at h
      by_cases hnil : data.take 4096 = []
      · have hshort : (data.take 4096).length ≠ 4096 := by
          rw [hnil]
          decide
        rw [if_pos hnil] at h
        cases h
        rw [givenAfter_short hshort, hnil, List.append_nil, List.append_nil]
        exact ⟨rfl, .inl rfl⟩
      rw [if_neg hnil] at h
      obtain ⟨-, h⟩ := require_bind_eq_ok.1 h
      obtain ⟨-, h⟩ := require_bind_eq_ok.1 h
      by_cases hfull : (data.take 4096).length = 4096
      · rw [if_neg (not_not_intro hfull)] at h
        rw [givenAfter_full hfull, ← List.append_assoc, ← List.append_assoc]
        exact ih h
      · rw [if_pos hfull] at h
        cases h
        rw [givenAfter_short hfull]
        exact ⟨rfl, .inl rfl⟩

/-- **it comes to an end** as long as an `int` can count what there is and the block stays where it
is -/
theorem safe_laterReads (hmessage : message.length < 2 ^ 31) :
    Safe (laterReads moves message delivered results) ↔
      (message ++ givenAfter results).length < 2 ^ 31 ∧
        ∀ n ∈ grownAfter message.length results, moves n = false := by
  induction results generalizing message delivered with
  | nil =>
    rw [givenAfter, List.append_nil]
    exact iff_of_true (safe_ok _) ⟨hmessage, fun n hn => (nomatch hn)⟩
  | cons result results ih =>
    cases result with
    | error =>
      rw [givenAfter, List.append_nil]
      exact iff_of_true (safe_ok _) ⟨hmessage, fun n hn => (nomatch hn)⟩
    | bytes data =>
      rw [laterReads]
      by_cases hnil : data.take 4096 = []
      · have hshort : (data.take 4096).length ≠ 4096 := by
          rw [hnil]
          decide
        rw [if_pos hnil, givenAfter_short hshort, grownAfter_empty hnil, hnil, List.append_nil]
        exact iff_of_true (safe_ok _) ⟨hmessage, fun n hn => (nomatch hn)⟩
      rw [if_neg hnil]
      by_cases hroom : message.length + (data.take 4096).length < 2 ^ 31
      swap
      · rw [require_neg hroom]
        refine iff_of_false (not_safe_error _) fun h => hroom ?_
        have hlt := h.1
        rw [givenAfter, List.length_append, List.length_append] at hlt
        omega
      rw [require_pos hroom, ok_bind, grownAfter_cons hnil, List.forall_mem_cons]
      by_cases hstays : moves (message.length + (data.take 4096).length) = false
      swap
      · rw [require_neg hstays]
        exact iff_of_false (not_safe_error _) fun h => hstays h.2.1
      rw [require_pos hstays, ok_bind, and_iff_right hstays]
      rw [← List.length_append] at hroom ⊢
      by_cases hfull : (data.take 4096).length = 4096
      · rw [if_neg (not_not_intro hfull), if_pos hfull, givenAfter_full hfull, ← List.append_assoc]
        exact ih hroom
      · rw [if_pos hfull, if_neg hfull, givenAfter_short hfull]
        exact iff_of_true (safe_ok _) ⟨hroom, fun n hn => (nomatch hn)⟩

end

/-! ## the first reads -/

section
variable {results rest : List SocketRead} {size : Nat} {data : List UInt8}

theorem length_socketRead (h : socketRead size results = (some data, rest)) : data.length ≤ size := by
  cases results with
  | nil =>
    cases h
    exact Nat.zero_le _
  | cons result results =>
    cases result with
    | error => cases h
    | bytes given =>
      cases h
      exact List.length_take_le _ _

theorem secondSize_le (first : List UInt8) : secondSize first ≤ 4094 := by
  unfold secondSize
  split
  · have hlt := (first.getD 0 0).toNat_lt
    omega
  · exact Nat.le_refl _

/-- **what comes of the first reads**: an error, nothing, two bytes that are not counted, or as many
as were given -/
inductive InitialCase (results : List SocketRead) : Prop
  | error (delivered : List UInt8) (rest : List SocketRead)
      (h : initialRead results = (none, delivered, rest)) (hlen : delivered.length ≤ 2)
      (hends : ¬ EndsBehindTwo results)
  | nothing (rest : List SocketRead) (h : initialRead results = (some [], [], rest))
      (hends : ¬ EndsBehindTwo results)
  | lost (first : List UInt8) (rest : List SocketRead)
      (h : initialRead results = (some [], first, rest)) (hlen : first.length = 2)
      (hends : EndsBehindTwo results)
  | some (buffer : List UInt8) (rest : List SocketRead)
      (h : initialRead results = (some buffer, buffer, rest)) (hne : buffer ≠ [])
      (hlen : buffer.length ≤ 4096) (hends : ¬ EndsBehindTwo results)

theorem endsBehindTwo_iff {first : Option (List UInt8)} (h : socketRead 2 results = (first, rest)) :
    EndsBehindTwo results ↔ ∃ two, first = some two ∧ two.length = 2 ∧
      (socketRead (secondSize two) rest).1 = some [] := by
  constructor
  · rintro ⟨two, rest', hread, htwo, hnone⟩
    rw [h] at hread
    obtain ⟨rfl, rfl⟩ := Prod.mk.inj hread
    exact ⟨two, rfl, htwo, hnone⟩
  · rintro ⟨two, rfl, htwo, hnone⟩
    exact ⟨two, rest, h, htwo, hnone⟩

/-- two bytes, and what is read behind them -/
theorem initialRead_two {first : List UInt8} (hread : socketRead 2 results = (some first, rest))
    (htwo : first.length = 2) :
    initialRead results = match socketRead (secondSize first) rest with
      | (none, results) => (none, first, results)
      | (some second, results) =>
        if second = [] then (some [], first, results)
        else (some (first ++ second), first ++ second, results) := by
  unfold initialRead
  rw [hread]
  exact if_pos htwo

theorem initialCase_two {first : List UInt8} (hread : socketRead 2 results = (some first, rest))
    (htwo : first.length = 2) : InitialCase results := by
  obtain ⟨second, rest', hsecond⟩ :
      ∃ second rest', socketRead (secondSize first) rest = (second, rest') := ⟨_, _, rfl⟩
  have hinitial := initialRead_two hread htwo
  rw [hsecond] at hinitial
  have hends : EndsBehindTwo results ↔ second = some [] := by
    rw [endsBehindTwo_iff hread]
    constructor
    · rintro ⟨two, htwo, -, hnone⟩
      cases htwo
      rwa [hsecond] at hnone
    · exact fun h => ⟨first, rfl, htwo, by rw [hsecond]; exact h⟩
  cases second with
  | none => exact .error first rest' hinitial (Nat.le_of_eq htwo) fun h => (nomatch hends.1 h)
  | some second =>
    dsimp only at hinitial
    by_cases hnil : second = []
    · rw [if_pos hnil] at hinitial
      exact .lost first rest' hinitial htwo (hends.2 (congrArg some hnil))
    · rw [if_neg hnil] at hinitial
      have hle := length_socketRead hsecond
      have hsize := secondSize_le first
      have hlen : (first ++ second).length ≤ 4096 := by
        rw [List.length_append]
        omega
      exact .some (first ++ second) rest' hinitial (List.append_ne_nil_of_right_ne_nil _ hnil) hlen
        fun h => hnil (Option.some.inj (hends.1 h))

theorem initialRead_cases (results : List SocketRead) : InitialCase results := by
  obtain ⟨first, rest, hread⟩ : ∃ first rest, socketRead 2 results = (first, rest) := ⟨_, _, rfl⟩
  have hends := endsBehindTwo_iff hread
  cases first with
  | none =>
    refine .error [] rest ?_ (Nat.zero_le 2) fun h => ?_
    · unfold initialRead
      rw [hread]
    · obtain ⟨two, htwo, -⟩ := hends.1 h
      cases htwo
  | some first =>
    by_cases htwo : first.length = 2
    · exact initialCase_two hread htwo
    have hinitial : initialRead results = (some first, first, rest) := by
      unfold initialRead
      rw [hread]
      exact if_neg htwo
    have hnot : ¬ EndsBehindTwo results := fun h => by
      obtain ⟨two, hfirst, hlen, -⟩ := hends.1 h
      cases hfirst
      exact htwo hlen
    by_cases hnil : first = []
    · subst hnil
      exact .nothing rest hinitial hnot
    · have hle := length_socketRead hread
      exact .some first rest hinitial hnil (by omega) hnot

end

/-! ## when nothing is dropped -/

/-- **when nothing is dropped**: the stream does not end behind the first two bytes, an `int` can
count what there is, and the block of a message that grows stays where it is -/
theorem dropsNothing_iff (moves : Nat → Bool) (results : List SocketRead) :
    DropsNothing moves results ↔ ¬ EndsBehindTwo results ∧ (given results).length < 2 ^ 31 ∧
      ∀ n ∈ grown results, moves n = false := by
  unfold DropsNothing connectionRead given grown
  cases initialRead_cases results with
  | error delivered rest h hlen hends =>
    rw [h]
    dsimp only
    rw [if_neg (by omega), if_neg (by omega), List.append_nil]
    exact iff_of_true ⟨_, rfl, fun message hmsg => (nomatch hmsg), fun _ hf => (nomatch hf)⟩
      ⟨hends, by omega, fun n hn => (nomatch hn)⟩
  | nothing rest h hends =>
    rw [h]
    exact iff_of_true ⟨_, rfl, fun message hmsg => (nomatch hmsg), fun _ _ => rfl⟩
      ⟨hends, show ([] : List UInt8).length < 2 ^ 31 by decide, fun n hn => (nomatch hn)⟩
  | lost first rest h hlen hends =>
    rw [h]
    refine iff_of_false ?_ fun hright => hright.1 hends
    rintro ⟨outcome, houtcome, -, hnone⟩
    cases houtcome
    have hnil : first = [] := hnone rfl rfl
    rw [hnil] at hlen
    cases hlen
  | some buffer rest h hne hlen hends =>
    rw [h]
    dsimp only
    rw [if_neg hne]
    by_cases hfull : buffer.length = 4096
    · have hsafe := @safe_laterReads moves buffer buffer rest (by omega)
      rw [hfull] at hsafe
      rw [if_neg (not_not_intro hfull), if_pos hfull, if_pos hfull, ← hsafe]
      constructor
      · rintro ⟨outcome, houtcome, -⟩
        exact ⟨hends, outcome, houtcome⟩
      · rintro ⟨-, outcome, houtcome⟩
        obtain ⟨hdelivered, hout⟩ := returns_laterReads houtcome
        refine ⟨outcome, houtcome, fun message hmsg => ?_, fun hmsg hfailed => ?_⟩
        · rcases hout with rfl | ⟨-, hnone⟩
          · cases hmsg
            exact ⟨rfl, rfl⟩
          · rw [hnone] at hmsg
            cases hmsg
        · rcases hout with rfl | ⟨htrue, -⟩
          · cases hmsg
          · rw [hfailed] at htrue
            cases htrue
    · rw [if_pos hfull, if_neg hfull, if_neg hfull, List.append_nil]
      refine iff_of_true ⟨_, rfl, fun message hmsg => ?_, fun hmsg => (nomatch hmsg)⟩
        ⟨hends, by omega, fun n hn => (nomatch hn)⟩
      cases hmsg
      exact ⟨rfl, rfl⟩

/-- the first byte is a length, and one byte of it is the slash -/
example (moves : Nat → Bool) :
    connectionRead moves [.bytes [7, 47], .bytes [105, 112, 102, 115, 10, 0, 0]] =
      .ok (builtMessage [7, 47, 105, 112, 102, 115, 10, 0] [7, 47, 105, 112, 102, 115, 10, 0]) := rfl

/-- **two bytes and the end of the stream**; a length of one, behind which none are asked for; and
4097 bytes, for which the block is moved -/
theorem not_dropsNothing :
    connectionRead (fun _ => false) [.bytes [104, 105]] =
      .ok { ret := 0, msg := none, delivered := [104, 105], failed := false } ∧
    ¬ DropsNothing (fun _ => false) [.bytes [104, 105]] ∧
    ¬ DropsNothing (fun _ => false) [.bytes [1, 47], .bytes [104, 105]] ∧
    ¬ DropsNothing (fun _ => true)
      [.bytes [104, 105], .bytes (List.replicate 4094 0), .bytes [0]] := by
  have hnot : ∀ moves results delivered, connectionRead moves results =
      .ok { ret := 0, msg := none, delivered := delivered, failed := false } → delivered ≠ [] →
      ¬ DropsNothing moves results := by
    rintro moves results delivered h hne ⟨outcome, houtcome, -, hnone⟩
    rw [h] at houtcome
    cases houtcome
    exact hne (hnone rfl rfl)
  have h1 : connectionRead (fun _ => false) [.bytes [104, 105]] =
      .ok { ret := 0, msg := none, delivered := [104, 105], failed := false } := by decide
  have h2 : connectionRead (fun _ => false) [.bytes [1, 47], .bytes [104, 105]] =
      .ok { ret := 0, msg := none, delivered := [1, 47], failed := false } := by decide
  have h3 : connectionRead (fun _ => true)
      [.bytes [104, 105], .bytes (List.replicate 4094 0), .bytes [0]] = .error .freed := by
    decide +kernel
  refine ⟨h1, hnot _ _ _ h1 (by decide), hnot _ _ _ h2 (by decide), ?_⟩
  rintro ⟨outcome, houtcome, -⟩
  rw [h3] at houtcome
  cases houtcome

end Libp2p
