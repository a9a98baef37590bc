import Libipfs.Lib.CString
import Mathlib.Algebra.BigOperators.Group.List.Basic

/-!
# Requests to the API

The client writes a request into a URL; the server reads one from the path and the query of the
URL.  The client writes parameters into the path and begins each argument with a question mark;
the server takes both from the query.

* `coreHttpRequestAddCommands`, `coreHttpRequestAddParameters`   the client;
* `utilsUrlDecode`, `apiBuildHttpRequest`                        the server;
* `HttpRequest.Agree`     the server reads the request that the client wrote;
* `HttpRequest.Plain`     no parameters, one argument at most, and no character in the way;
* `agree_iff`             **client and server agree** on those requests, and on no other.
-/

set_option linter.unusedVariables false

namespace Ipfs
open CSem

structure HttpParam where
  name : List UInt8
  value : List UInt8
  deriving DecidableEq, Repr

structure HttpRequest where
  command : List UInt8
  subCommand : Option (List UInt8) := none
  params : List HttpParam := []
  arguments : List (List UInt8) := []
  deriving DecidableEq, Repr

/-! ## the client -/

/-- the room there is, if there is so much memory -/
@[irreducible] def malloc (size : Nat) : Option Nat := if size ≤ ptrdiffMax then some size else none

/-- nothing when there is no room -/
def withRoom (room : Option Nat) (write : Nat → Exec (Option (List UInt8))) :
    Exec (Option (List UInt8)) :=
  match room with
  | none => .ok none
  | some room => write room

/-- the text and its zero byte go into the room, and its length is an `int` -/
def sprintf (room : Nat) (text : List UInt8) : Exec (List UInt8) := do
  require .overflow (text.length < room ∧ text.length < 2 ^ 31)
  .ok text

/-- `none` when the function returns 0; the room for the sub command is not checked -/
def coreHttpRequestAddCommands (request : HttpRequest) (url : List UInt8) :
    Exec (Option (List UInt8)) :=
  withRoom (malloc (toUInt64 (url.length + toInt32 (request.command.length + 2 : Nat))))
    fun room => do
      let url ← sprintf room (url ++ 47 :: request.command)
      match request.subCommand with
      | none => .ok (some url)
      | some subCommand => do
        let room ← deref (malloc (toUInt64 (url.length + toInt32 (subCommand.length + 2 : Nat))))
        let url ← sprintf room (url ++ 47 :: subCommand)
        .ok (some url)

/-- a slash, the name, an equals sign, the value and a zero byte are one more than there is room
for -/
def addParams : List HttpParam → List UInt8 → Exec (Option (List UInt8))
  | [], url => .ok (some url)
  | param :: params, url =>
    let len := toInt32 (param.name.length + param.value.length + 2 : Nat)
    withRoom (malloc (toUInt64 (url.length + len))) fun room => do
      let url ← sprintf room (url ++ 47 :: (param.name ++ 61 :: param.value))
      addParams params url

/-- `?arg=`, or `&arg=`; `isFirst` is never cleared -/
def argPrefix (isFirst : Bool) : List UInt8 :=
  (if isFirst then 63 else 38) :: [97, 114, 103, 61]

def addArguments (isFirst : Bool) : List (List UInt8) → List UInt8 → Exec (Option (List UInt8))
  | [], url => .ok (some url)
  | arg :: args, url =>
    withRoom (malloc (toUInt64 (toInt32 (arg.length + url.length + 6 : Nat)))) fun room => do
      let url ← sprintf room (url ++ (argPrefix isFirst ++ arg))
      addArguments isFirst args url

def coreHttpRequestAddParameters (request : HttpRequest) (url : List UInt8) :
    Exec (Option (List UInt8)) := do
  match ← addParams request.params url with
  | none => .ok none
  | some url => addArguments true request.arguments url

/-- `/api/v0` -/
def apiBase : List UInt8 := [47, 97, 112, 105, 47, 118, 48]

/-- the URL of a request to the server at `origin` -/
def coreHttpRequestUrl (origin : List UInt8) (request : HttpRequest) :
    Exec (Option (List UInt8)) := do
  match ← coreHttpRequestAddCommands request (origin ++ apiBase) with
  | none => .ok none
  | some url => coreHttpRequestAddParameters request url

/-! ## the server -/

def h2b (c : UInt8) : UInt8 :=
  if 48 ≤ c ∧ c ≤ 57 then c - 48
  else if 97 ≤ c ∧ c ≤ 102 then c - 97 + 10
  else if 65 ≤ c ∧ c ≤ 70 then c - 65 + 10
  else 0

/-- two characters are read behind a percent sign, also where the string ends before -/
def utilsUrlDecode : List UInt8 → Exec (List UInt8)
  | [] => .ok []
  | c :: src =>
    if c ≠ 37 then do
      let dst ← utilsUrlDecode src
      .ok (c :: dst)
    else
      match src with
      | high :: low :: src => do
        let dst ← utilsUrlDecode src
        .ok ((h2b high <<< 4 ||| h2b low &&& 15) :: dst)
      | _ => .error .outOfBounds

/-- `arg` -/
def argName : List UInt8 := [97, 114, 103]

/-- a name, and a value, which is copied whether there is one or not -/
def apiAddToken (token : List UInt8) (request : HttpRequest) : Exec HttpRequest :=
  match cutAt 61 token with
  | (name, some value) =>
    if name = argName then .ok { request with arguments := request.arguments ++ [value] }
    else .ok { request with params := request.params ++ [{ name := name, value := value }] }
  | (name, none) => .error .null

def apiAddTokens : List (List UInt8) → HttpRequest → Exec HttpRequest
  | [], request => .ok request
  | token :: tokens, request => do
    let request ← apiAddToken token request
    apiAddTokens tokens request

/-- the decoded query is a C string that is cut at each `&` -/
def apiBuildHttpRequest (path : List UInt8) (query : Option (List UInt8)) : Exec HttpRequest := do
  let (command, subCommand) := cutAt 47 path
  let request : HttpRequest := { command := command, subCommand := subCommand }
  match query with
  | none => .ok request
  | some query => do
    let segs ← utilsUrlDecode query
    apiAddTokens ((cutAt 0 segs).1.splitOn 38) request

/-- the target of the request, without the base and the slash behind it -/
def apiRequestOf (target : List UInt8) : Exec HttpRequest :=
  let (path, query) := cutAt 63 target
  apiBuildHttpRequest (path.drop (apiBase.length + 1)) query

/-! ## what they agree on -/

/-- the command has no slash in it, and the strings no zero byte -/
structure HttpRequest.Proper (request : HttpRequest) : Prop where
  slash : 47 ∉ request.command
  command : 0 ∉ request.command
  subCommand : ∀ subCommand, request.subCommand = some subCommand → 0 ∉ subCommand
  params : ∀ param ∈ request.params, 0 ∉ param.name ∧ 0 ∉ param.value
  arguments : ∀ arg ∈ request.arguments, 0 ∉ arg

/-- the server reads the request that the client wrote -/
def HttpRequest.Agree (request : HttpRequest) (origin : List UInt8) : Prop :=
  ∃ url, coreHttpRequestUrl origin request = .ok (some url) ∧
    apiRequestOf (url.drop origin.length) = .ok request

/-- the command and the sub command, as they are written -/
def HttpRequest.path (request : HttpRequest) : List UInt8 :=
  joinAt 47 request.command request.subCommand

/-- the arguments, as they are written -/
def argsText (args : List (List UInt8)) : List UInt8 :=
  args.flatMap fun arg => argPrefix true ++ arg

def HttpRequest.url (request : HttpRequest) (origin : List UInt8) : List UInt8 :=
  origin ++ apiBase ++ 47 :: request.path ++ argsText request.arguments

structure HttpRequest.Plain (request : HttpRequest) (origin : List UInt8) : Prop where
  params : request.params = []
  arguments : request.arguments.length ≤ 1
  path : 63 ∉ request.path
  argument : ∀ arg ∈ request.arguments, 37 ∉ arg ∧ 38 ∉ arg
  size : (request.url origin).length + request.arguments.length < 2 ^ 31

section
variable {request : HttpRequest} {url out : List UInt8} {room : Nat}

/-! ### what the client writes -/

theorem sprintf_eq_ok {text : List UInt8} : sprintf room text = .ok out ↔
    out = text ∧ text.length < room ∧ text.length < 2 ^ 31 := by
  unfold sprintf
  rw [require_bind_eq_ok]
  constructor
  · rintro ⟨h, ht⟩
    cases ht
    exact ⟨rfl, h⟩
  · rintro ⟨rfl, h⟩
    exact ⟨h, rfl⟩

theorem malloc_eq_some {size : Nat} :
    malloc size = some room ↔ room = size ∧ size ≤ ptrdiffMax := by
  unfold malloc
  split
  · next h => exact ⟨fun hr => ⟨(Option.some.inj hr).symm, h⟩, fun hr => by rw [hr.1]⟩
  · next h =>
    refine ⟨fun hr => ?_, fun hr => absurd hr.2 h⟩
    cases hr

theorem withRoom_eq_some {fit : Option Nat} {write : Nat → Exec (Option (List UInt8))} :
    withRoom fit write = .ok (some out) ↔
      ∃ room, fit = some room ∧ write room = .ok (some out) := by
  cases fit with
  | none =>
    refine ⟨fun h => ?_, fun ⟨_, hroom, _⟩ => nomatch hroom⟩
    cases h
  | some room =>
    refine ⟨fun h => ⟨room, rfl, h⟩, ?_⟩
    rintro ⟨room, hroom, h⟩
    cases hroom
    exact h

/-- the length of a text, added as an `int`, gives no more room than it says -/
theorem room_le {length more : Nat} (h : malloc (toUInt64 (length + toInt32 more)) = some room) :
    room ≤ length + more := by
  obtain ⟨rfl, hle⟩ := malloc_eq_some.1 h
  have hmore := toInt32_le_natCast more
  have hlow := (toInt32_bounds more).1
  unfold toUInt64 at hle ⊢
  norm_num [ptrdiffMax] at hle hlow
  omega

theorem room_of_lt {length more : Nat} (h : length + more < 2 ^ 32) (hmore : more < 2 ^ 31) :
    malloc (toUInt64 (length + toInt32 more)) = some (length + more) := by
  refine malloc_eq_some.2 ⟨?_, ?_⟩
  · rw [toInt32_natCast_of_lt hmore, ← Nat.cast_add, toUInt64_natCast_of_lt (by omega)]
  · rw [toInt32_natCast_of_lt hmore, ← Nat.cast_add, toUInt64_natCast_of_lt (by omega)]
    norm_num [ptrdiffMax]
    omega

theorem room_of_int {length : Nat} (h : length < 2 ^ 31) :
    malloc (toUInt64 (toInt32 (length : Nat))) = some length := by
  refine malloc_eq_some.2 ⟨?_, ?_⟩
  · rw [toInt32_natCast_of_lt h, toUInt64_natCast_of_lt (by omega)]
  · rw [toInt32_natCast_of_lt h, toUInt64_natCast_of_lt (by omega)]
    norm_num [ptrdiffMax]
    omega

theorem malloc_minInt : malloc (toUInt64 (toInt32 (2 ^ 31 : Nat))) ≠ some room := by
  intro h
  have hle := (malloc_eq_some.1 h).2
  have hbig : ¬ toUInt64 (toInt32 (2 ^ 31 : Nat)) ≤ ptrdiffMax := by
    unfold toUInt64 toInt32
    decide
  exact hbig hle

/-- **a parameter** never fits -/
theorem addParams_eq_some {params : List HttpParam} :
    addParams params url = .ok (some out) ↔ params = [] ∧ out = url := by
  cases params with
  | nil =>
    refine ⟨fun h => ?_, fun h => by rw [h.2]; rfl⟩
    cases h
    exact ⟨rfl, rfl⟩
  | cons param params =>
    refine ⟨fun h => ?_, fun h => nomatch h.1⟩
    obtain ⟨room, hroom, h⟩ := withRoom_eq_some.1 h
    obtain ⟨text, htext, -⟩ := bind_eq_ok.1 h
    obtain ⟨-, hlt, -⟩ := sprintf_eq_ok.1 htext
    have hle := room_le hroom
    simp only [List.length_append, List.length_cons] at hlt
    omega

theorem argPrefix_length (isFirst : Bool) : (argPrefix isFirst).length = 5 := rfl

/-- an argument is written if the whole URL and one character fit an `int` -/
theorem addArguments_eq_some {args : List (List UInt8)} :
    addArguments true args url = .ok (some out) ↔
      out = url ++ argsText args ∧ (args ≠ [] → out.length + 1 < 2 ^ 31) := by
  induction args generalizing url with
  | nil =>
    rw [argsText, List.flatMap_nil, List.append_nil]
    refine ⟨fun h => ?_, fun h => by rw [h.1]; rfl⟩
    cases h
    exact ⟨rfl, fun hne => absurd rfl hne⟩
  | cons arg args ih =>
    have hsplit : url ++ argsText (arg :: args) =
        (url ++ (argPrefix true ++ arg)) ++ argsText args := by
      rw [argsText, List.flatMap_cons, ← List.append_assoc, ← List.append_assoc]
      rfl
    have hlen : (url ++ (argPrefix true ++ arg)).length + 1 = arg.length + url.length + 6 := by
      simp only [List.length_append, argPrefix_length]
      omega
    rw [hsplit]
    constructor
    · intro h
      obtain ⟨room, hroom, h⟩ := withRoom_eq_some.1 h
      obtain ⟨text, htext, h⟩ := bind_eq_ok.1 h
      obtain ⟨rfl, hlt, hint⟩ := sprintf_eq_ok.1 htext
      obtain ⟨hout, hmore⟩ := ih.1 h
      refine ⟨hout, fun _ => ?_⟩
      by_cases hargs : args = []
      · -- the room is an `int` too
        rw [hout, hargs, argsText, List.flatMap_nil, List.append_nil]
        by_contra hge
        have h31 : arg.length + url.length + 6 = 2 ^ 31 := by omega
        rw [h31] at hroom
        exact malloc_minInt hroom
      · exact hmore hargs
    · rintro ⟨hout, hint⟩
      have hint := hint (List.cons_ne_nil _ _)
      have hle := congrArg List.length hout
      rw [List.length_append] at hle
      have hroom := @room_of_int (arg.length + url.length + 6) (by omega)
      refine withRoom_eq_some.2 ⟨_, hroom, ?_⟩
      refine bind_eq_ok.2 ⟨_, sprintf_eq_ok.2 ⟨rfl, by omega, by omega⟩, ?_⟩
      exact ih.2 ⟨hout, fun _ => hint⟩

/-- a slash and more behind a URL -/
theorem sprintf_command {more : List UInt8} (h0 : 0 < url.length) :
    (∃ room, malloc (toUInt64 (url.length + toInt32 (more.length + 2 : Nat))) = some room ∧
      sprintf room (url ++ 47 :: more) = .ok out) ↔
    out = url ++ 47 :: more ∧ out.length < 2 ^ 31 := by
  have hlen : (url ++ 47 :: more).length = url.length + more.length + 1 := by
    rw [List.length_append, List.length_cons]
    omega
  constructor
  · rintro ⟨room, -, h⟩
    obtain ⟨rfl, -, hint⟩ := sprintf_eq_ok.1 h
    exact ⟨rfl, hint⟩
  · rintro ⟨rfl, hint⟩
    have hroom := @room_of_lt url.length (more.length + 2) (by omega) (by omega)
    exact ⟨_, hroom, sprintf_eq_ok.2 ⟨rfl, by omega, hint⟩⟩

theorem coreHttpRequestAddCommands_eq_some (h0 : 0 < url.length) :
    coreHttpRequestAddCommands request url = .ok (some out) ↔
      out = url ++ 47 :: request.path ∧ out.length < 2 ^ 31 := by
  unfold HttpRequest.path
  cases hsub : request.subCommand with
  | none =>
    have hstep : coreHttpRequestAddCommands request url =
        withRoom (malloc (toUInt64 (url.length + toInt32 (request.command.length + 2 : Nat))))
          fun room => sprintf room (url ++ 47 :: request.command) >>= fun url =>
            .ok (some url) := by
      unfold coreHttpRequestAddCommands
      rw [hsub]
    rw [hstep, withRoom_eq_some, joinAt, ← sprintf_command h0]
    refine exists_congr fun room => and_congr_right fun _ => ?_
    constructor
    · intro h
      obtain ⟨text, htext, h⟩ := bind_eq_ok.1 h
      cases h
      exact htext
    · intro h
      exact bind_eq_ok.2 ⟨_, h, rfl⟩
  | some subCommand =>
    have hstep : coreHttpRequestAddCommands request url =
        withRoom (malloc (toUInt64 (url.length + toInt32 (request.command.length + 2 : Nat))))
          fun room => sprintf room (url ++ 47 :: request.command) >>= fun url =>
            deref (malloc (toUInt64 (url.length + toInt32 (subCommand.length + 2 : Nat)))) >>=
              fun room => sprintf room (url ++ 47 :: subCommand) >>= fun url =>
                .ok (some url) := by
      unfold coreHttpRequestAddCommands
      rw [hsub]
    have hassoc : url ++ 47 :: (request.command ++ 47 :: subCommand) =
        (url ++ 47 :: request.command) ++ 47 :: subCommand := by
      rw [List.append_assoc, List.cons_append]
    rw [hstep, withRoom_eq_some, joinAt, hassoc]
    constructor
    · rintro ⟨room, hroom, h⟩
      obtain ⟨text, htext, h⟩ := bind_eq_ok.1 h
      obtain ⟨rfl, -⟩ := (sprintf_command h0).1 ⟨room, hroom, htext⟩
      obtain ⟨room', hroom', h⟩ := bind_eq_ok.1 h
      obtain ⟨text', htext', h⟩ := bind_eq_ok.1 h
      cases h
      have hpos : 0 < (url ++ 47 :: request.command).length := by
        rw [List.length_append]
        omega
      exact (sprintf_command hpos).1 ⟨room', deref_eq_ok.1 hroom', htext'⟩
    · rintro ⟨rfl, hint⟩
      have hpos : 0 < (url ++ 47 :: request.command).length := by
        rw [List.length_append]
        omega
      have hshort : (url ++ 47 :: request.command).length < 2 ^ 31 := by
        rw [List.length_append] at hint
        omega
      obtain ⟨room, hroom, htext⟩ := (sprintf_command h0).2 ⟨rfl, hshort⟩
      obtain ⟨room', hroom', htext'⟩ := (sprintf_command hpos).2 ⟨rfl, hint⟩
      refine ⟨room, hroom, bind_eq_ok.2 ⟨_, htext, ?_⟩⟩
      exact bind_eq_ok.2 ⟨_, deref_eq_ok.2 hroom', bind_eq_ok.2 ⟨_, htext', rfl⟩⟩

/-- **the client** writes a URL when there are no parameters and the URL fits -/
theorem coreHttpRequestUrl_eq_some {origin : List UInt8} :
    coreHttpRequestUrl origin request = .ok (some out) ↔
      request.params = [] ∧ out = request.url origin ∧ out.length < 2 ^ 31 ∧
        (request.arguments ≠ [] → out.length + 1 < 2 ^ 31) := by
  have h0 : 0 < (origin ++ apiBase).length := by
    rw [List.length_append]
    exact Nat.add_pos_right _ (by decide)
  constructor
  · intro h
    obtain ⟨url?, hurl, h⟩ := bind_eq_ok.1 h
    cases url? with
    | none => cases h
    | some url =>
      obtain ⟨rfl, hshort⟩ := (coreHttpRequestAddCommands_eq_some h0).1 hurl
      obtain ⟨more?, hmore, h⟩ := bind_eq_ok.1 h
      cases more? with
      | none => cases h
      | some more =>
        obtain ⟨hparams, rfl⟩ := addParams_eq_some.1 hmore
        obtain ⟨rfl, hint⟩ := addArguments_eq_some.1 h
        refine ⟨hparams, rfl, ?_, hint⟩
        by_cases hargs : request.arguments = []
        · rw [hargs, argsText, List.flatMap_nil, List.append_nil]
          exact hshort
        · exact Nat.lt_of_succ_lt (hint hargs)
  · rintro ⟨hparams, rfl, hlt, hint⟩
    have hshort : (origin ++ apiBase ++ 47 :: request.path).length < 2 ^ 31 := by
      unfold HttpRequest.url at hlt
      rw [List.length_append] at hlt
      exact Nat.lt_of_le_of_lt (Nat.le_add_right _ _) hlt
    have hcommands := (coreHttpRequestAddCommands_eq_some h0).2 ⟨rfl, hshort⟩
    refine bind_eq_ok.2 ⟨_, hcommands, bind_eq_ok.2 ⟨_, addParams_eq_some.2 ⟨hparams, rfl⟩, ?_⟩⟩
    exact addArguments_eq_some.2 ⟨rfl, hint⟩

/-! ### what the server reads -/

theorem utilsUrlDecode_length {query segs : List UInt8} (h : utilsUrlDecode query = .ok segs) :
    segs.length ≤ query.length ∧ (segs.length = query.length → segs = query ∧ 37 ∉ query) := by
  induction query using utilsUrlDecode.induct generalizing segs with
  | case1 =>
    cases h
    exact ⟨Nat.le_refl _, fun _ => ⟨rfl, List.not_mem_nil⟩⟩
  | case2 c src hc ih =>
    unfold utilsUrlDecode at h
    rw [if_pos hc] at h
    obtain ⟨dst, hdst, h⟩ := bind_eq_ok.1 h
    cases h
    obtain ⟨hle, hsame⟩ := ih hdst
    refine ⟨Nat.succ_le_succ hle, fun heq => ?_⟩
    obtain ⟨rfl, hmem⟩ := hsame (Nat.succ.inj heq)
    exact ⟨rfl, List.not_mem_cons_of_ne_of_not_mem hc.symm hmem⟩
  | case3 c hc high low src ih =>
    unfold utilsUrlDecode at h
    rw [if_neg hc] at h
    obtain ⟨dst, hdst, h⟩ := bind_eq_ok.1 h
    cases h
    have hle := (ih hdst).1
    simp only [List.length_cons]
    exact ⟨by omega, fun _ => by omega⟩
  | case4 c src hc hsrc =>
    unfold utilsUrlDecode at h
    rw [if_neg hc] at h
    cases src with
    | nil => cases h
    | cons high src =>
      cases src with
      | nil => cases h
      | cons low src => exact absurd rfl (hsrc high low src)

/-- what has no escape in it is read as it is -/
theorem utilsUrlDecode_of_not_mem {query : List UInt8} (h : 37 ∉ query) :
    utilsUrlDecode query = .ok query := by
  induction query with
  | nil => rfl
  | cons c query ih =>
    have hc : c ≠ 37 := Ne.symm (List.ne_of_not_mem_cons h)
    unfold utilsUrlDecode
    rw [if_pos hc, ih (List.not_mem_of_not_mem_cons h)]
    rfl

/-- an argument, as the server cuts it off -/
def argToken (arg : List UInt8) : List UInt8 := argName ++ 61 :: arg

theorem apiAddToken_argToken (arg : List UInt8) :
    apiAddToken (argToken arg) request =
      .ok { request with arguments := request.arguments ++ [arg] } := by
  have hcut : cutAt 61 (argToken arg) = (argName, some arg) := cutAt_append (by decide)
  unfold apiAddToken
  rw [hcut]
  exact if_pos rfl

/-- a token is an argument, or one more parameter -/
theorem apiAddToken_eq_ok {token : List UInt8} {request' : HttpRequest}
    (h : apiAddToken token request = .ok request') :
    (∃ arg, token = argToken arg ∧
      request' = { request with arguments := request.arguments ++ [arg] }) ∨
    ∃ param, request' = { request with params := request.params ++ [param] } := by
  have hjoin := joinAt_cutAt 61 token
  unfold apiAddToken at h
  split at h
  · next name value hcut =>
    rw [hcut] at hjoin
    split at h
    · next harg =>
      cases h
      exact .inl ⟨value, by rw [← hjoin, harg]; rfl, rfl⟩
    · cases h
      exact .inr ⟨_, rfl⟩
  · cases h

/-- **the tokens** of a request without parameters are its arguments -/
theorem apiAddTokens_eq_ok {tokens : List (List UInt8)} {request' : HttpRequest}
    (h : apiAddTokens tokens request = .ok request') :
    request'.path = request.path ∧ request.params.length ≤ request'.params.length ∧
      (request'.params.length = request.params.length →
        ∃ args, tokens = args.map argToken ∧ request'.arguments = request.arguments ++ args) := by
  induction tokens generalizing request with
  | nil =>
    cases h
    exact ⟨rfl, Nat.le_refl _, fun _ => ⟨[], rfl, (List.append_nil _).symm⟩⟩
  | cons token tokens ih =>
    obtain ⟨request1, h1, h⟩ := bind_eq_ok.1 h
    obtain ⟨hpath, hle, hargs⟩ := ih h
    rcases apiAddToken_eq_ok h1 with ⟨arg, rfl, rfl⟩ | ⟨param, rfl⟩
    · refine ⟨hpath, hle, fun heq => ?_⟩
      obtain ⟨args, rfl, hmore⟩ := hargs heq
      refine ⟨arg :: args, rfl, ?_⟩
      rw [hmore, List.append_assoc]
      rfl
    · -- a parameter stays
      simp only [List.length_append, List.length_singleton] at hle
      exact ⟨hpath, by omega, fun heq => by omega⟩

theorem apiAddTokens_argTokens (args : List (List UInt8)) :
    apiAddTokens (args.map argToken) request =
      .ok { request with arguments := request.arguments ++ args } := by
  induction args generalizing request with
  | nil => rw [List.append_nil]; rfl
  | cons arg args ih =>
    rw [List.map_cons, apiAddTokens, apiAddToken_argToken, ok_bind, ih, List.append_assoc]
    rfl

/-- what the server makes of the path is the path -/
theorem apiBuildHttpRequest_path {path : List UInt8} {query : Option (List UInt8)}
    (h : apiBuildHttpRequest path query = .ok request) : request.path = path := by
  unfold apiBuildHttpRequest at h
  cases query with
  | none =>
    cases h
    exact joinAt_cutAt 47 path
  | some query =>
    obtain ⟨segs, -, h⟩ := bind_eq_ok.1 h
    exact (apiAddTokens_eq_ok h).1.trans (joinAt_cutAt 47 path)

/-- what the server makes of a query without parameters -/
theorem apiBuildHttpRequest_query {path query : List UInt8}
    (h : apiBuildHttpRequest path (some query) = .ok request) (hparams : request.params = []) :
    ∃ segs, utilsUrlDecode query = .ok segs ∧
      (cutAt 0 segs).1.splitOn 38 = request.arguments.map argToken := by
  obtain ⟨segs, hsegs, h⟩ := bind_eq_ok.1 h
  obtain ⟨-, -, hargs⟩ := apiAddTokens_eq_ok h
  obtain ⟨args, htokens, harguments⟩ := hargs (by rw [hparams])
  refine ⟨segs, hsegs, htokens.trans ?_⟩
  rw [harguments]
  rfl

/-- the query of one argument and more -/
def argQuery (arg : List UInt8) (args : List (List UInt8)) : List UInt8 :=
  argToken arg ++ argsText args

theorem argsText_cons (arg : List UInt8) (args : List (List UInt8)) :
    argsText (arg :: args) = 63 :: argQuery arg args := by
  rw [argsText, List.flatMap_cons]
  rfl

/-- the characters of the tokens are those of the text -/
theorem argsText_length (args : List (List UInt8)) :
    ((args.map argToken).map fun token => token.length + 1).sum = (argsText args).length := by
  induction args with
  | nil => rfl
  | cons arg args ih =>
    rw [argsText_cons, argQuery, List.map_cons, List.map_cons, List.sum_cons, ih,
      List.length_cons, List.length_append]
    omega

/-- **the server** looks for the question mark in the commands and the arguments -/
theorem apiRequestOf_url {origin : List UInt8} :
    apiRequestOf ((request.url origin).drop origin.length) =
      apiBuildHttpRequest (cutAt 63 (request.path ++ argsText request.arguments)).1
        (cutAt 63 (request.path ++ argsText request.arguments)).2 := by
  have htarget : (request.url origin).drop origin.length =
      (apiBase ++ [47]) ++ (request.path ++ argsText request.arguments) := by
    unfold HttpRequest.url
    rw [List.append_assoc, List.append_assoc, List.drop_left, List.append_assoc]
    rfl
  have hbase : (63 : UInt8) ∉ apiBase ++ [47] := by decide
  have hcut := @cutAt_append_left 63 _ (request.path ++ argsText request.arguments) hbase
  unfold apiRequestOf
  rw [htarget, hcut]
  show apiBuildHttpRequest (((apiBase ++ [47]) ++ _).drop (apiBase ++ [47]).length) _ = _
  rw [List.drop_left]

/-- without a question mark in the path -/
theorem cutAt_path (h : 63 ∉ request.path) :
    cutAt 63 (request.path ++ argsText request.arguments) = (request.path,
      match request.arguments with
      | [] => none
      | arg :: args => some (argQuery arg args)) := by
  cases request.arguments with
  | nil =>
    rw [argsText, List.flatMap_nil, List.append_nil]
    exact cutAt_of_not_mem h
  | cons arg args =>
    rw [argsText_cons]
    exact cutAt_append h

/-- a query whose tokens are the arguments has no escape in it, and one token -/
theorem single_of_tokens {query segs arg : List UInt8} {args : List (List UInt8)}
    (hquery : query = argQuery arg args) (hsegs : utilsUrlDecode query = .ok segs)
    (htokens : (cutAt 0 segs).1.splitOn 38 = (arg :: args).map argToken) :
    args = [] ∧ 37 ∉ arg ∧ 38 ∉ arg := by
  have hcount := length_splitOn 38 (cutAt 0 segs).1
  rw [htokens, argsText_length, argsText_cons, ← hquery, List.length_cons] at hcount
  -- nothing is lost on the way
  have hcstr := cutAt_fst_length_le 0 segs
  obtain ⟨hle, hsame⟩ := utilsUrlDecode_length hsegs
  obtain ⟨rfl, hescape⟩ := hsame (by omega)
  have hwhole : (cutAt 0 segs).1 = segs := by
    have hjoin := joinAt_cutAt 0 segs
    cases hback : (cutAt 0 segs).2 with
    | none => rwa [hback] at hjoin
    | some back =>
      rw [hback] at hjoin
      have hlen := congrArg List.length hjoin
      rw [joinAt, List.length_append, List.length_cons] at hlen
      omega
  have hhead := head_splitOn 38 (cutAt 0 segs).1
  rw [htokens, hwhole] at hhead
  have hfront : (cutAt 38 segs).1 = argToken arg := (Option.some.inj hhead).symm
  have hamp : 38 ∉ argToken arg := by
    rw [← hfront]
    exact not_mem_cutAt 38 segs
  have hmem : ∀ c ∈ arg, c ∈ argToken arg := fun c hc =>
    List.mem_append_right _ (List.mem_cons_of_mem _ hc)
  have hsingle : args = [] := by
    cases args with
    | nil => rfl
    | cons more args =>
      -- the first token ends at a `&`, and the first argument before a `?`
      have hjoin := joinAt_cutAt 38 segs
      rw [hfront] at hjoin
      rw [hquery, argQuery, argsText_cons] at hjoin
      cases hback : (cutAt 38 (argToken arg ++ 63 :: argQuery more args)).2 with
      | none =>
        rw [hback] at hjoin
        have hnil := List.self_eq_append_right.1 hjoin
        cases hnil
      | some back =>
        rw [hback] at hjoin
        have hcons := List.append_cancel_left hjoin
        cases hcons
  refine ⟨hsingle, fun h => hescape ?_, fun h => hamp (hmem _ h)⟩
  rw [hquery]
  exact List.mem_append_left _ (hmem _ h)

end

/-! ## client and server -/

section
variable {request : HttpRequest}

private theorem eq_of_params (h : request.params = []) :
    { command := request.command
      subCommand := request.subCommand
      params := []
      arguments := request.arguments : HttpRequest } = request := by
  rw [← h]

/-- what the server makes of a path alone -/
theorem apiBuildHttpRequest_none (h : request.Proper) (hparams : request.params = [])
    (hargs : request.arguments = []) : apiBuildHttpRequest request.path none = .ok request := by
  have hcommand : cutAt 47 request.path = (request.command, request.subCommand) :=
    cutAt_joinAt h.slash
  have hsame := eq_of_params hparams
  rw [hargs] at hsame
  unfold apiBuildHttpRequest
  rw [hcommand]
  exact congrArg Except.ok hsame

/-- and of a path with one argument -/
theorem apiBuildHttpRequest_single {arg : List UInt8} (h : request.Proper)
    (hparams : request.params = []) (hargs : request.arguments = [arg]) (hescape : 37 ∉ arg)
    (hamp : 38 ∉ arg) :
    apiBuildHttpRequest request.path (some (argQuery arg [])) = .ok request := by
  have hcommand : cutAt 47 request.path = (request.command, request.subCommand) :=
    cutAt_joinAt h.slash
  have hmem : arg ∈ request.arguments := by
    rw [hargs]
    exact List.mem_cons_self
  have hquery : argQuery arg [] = argToken arg := List.append_nil _
  have hnot : ∀ c, c ∉ arg → c ∉ argName → c ≠ 61 → c ∉ argToken arg := by
    intro c harg hname hne hc
    rcases List.mem_append.1 hc with hc | hc
    · exact hname hc
    · rcases List.mem_cons.1 hc with hc | hc
      · exact hne hc
      · exact harg hc
  have hzero := hnot 0 (h.arguments arg hmem) (by decide) (by decide)
  have hsplit : (cutAt 0 (argToken arg)).1.splitOn 38 = [arg].map argToken := by
    rw [cutAt_of_not_mem hzero,
      List.splitOn_eq_singleton (hnot 38 hamp (by decide) (by decide))]
    rfl
  unfold apiBuildHttpRequest
  rw [hcommand]
  refine bind_eq_ok.2 ⟨argToken arg, ?_, ?_⟩
  · rw [hquery]
    exact utilsUrlDecode_of_not_mem (hnot 37 hescape (by decide) (by decide))
  · rw [hsplit, apiAddTokens_argTokens]
    have hsame := eq_of_params hparams
    rw [hargs] at hsame
    exact congrArg Except.ok hsame

theorem agree_of_plain {origin : List UInt8} (h : request.Proper) (hplain : request.Plain origin) :
    request.Agree origin := by
  obtain ⟨hparams, hcount, hpath, hargument, hsize⟩ := hplain
  refine ⟨request.url origin, ?_, ?_⟩
  · refine coreHttpRequestUrl_eq_some.2 ⟨hparams, rfl, by omega, fun hne => ?_⟩
    have hpos := List.length_pos_iff.2 hne
    omega
  · rw [apiRequestOf_url, cutAt_path hpath]
    cases hargs : request.arguments with
    | nil => exact apiBuildHttpRequest_none h hparams hargs
    | cons arg args =>
      have hnil : args = [] := by
        rw [hargs, List.length_cons] at hcount
        exact List.length_eq_zero_iff.1 (by omega)
      subst hnil
      have hmem : arg ∈ request.arguments := by
        rw [hargs]
        exact List.mem_cons_self
      obtain ⟨hescape, hamp⟩ := hargument arg hmem
      exact apiBuildHttpRequest_single h hparams hargs hescape hamp

theorem plain_of_agree {origin : List UInt8} (hagree : request.Agree origin) :
    request.Plain origin := by
  obtain ⟨url, hurl, hread⟩ := hagree
  obtain ⟨hparams, rfl, hlt, hint⟩ := coreHttpRequestUrl_eq_some.1 hurl
  rw [apiRequestOf_url] at hread
  have hpath : 63 ∉ request.path := by
    intro hmem
    have hcut := @cutAt_append_of_mem 63 _ (argsText request.arguments) hmem
    have hsame := apiBuildHttpRequest_path hread
    rw [hcut.1] at hsame
    have hlen := congrArg List.length hsame
    omega
  rw [cutAt_path hpath] at hread
  cases hargs : request.arguments with
  | nil =>
    refine ⟨hparams, ?_, hpath, ?_, ?_⟩
    · rw [hargs]
      exact Nat.zero_le _
    · intro arg harg
      rw [hargs] at harg
      cases harg
    · rwa [hargs]
  | cons arg args =>
    rw [hargs] at hread
    obtain ⟨segs, hsegs, htokens⟩ := apiBuildHttpRequest_query hread hparams
    rw [hargs] at htokens
    obtain ⟨rfl, hescape, hamp⟩ := single_of_tokens rfl hsegs htokens
    refine ⟨hparams, ?_, hpath, ?_, ?_⟩
    · rw [hargs]
      exact Nat.le_refl _
    · intro other hother
      rw [hargs] at hother
      obtain rfl := List.mem_singleton.1 hother
      exact ⟨hescape, hamp⟩
    · rw [hargs]
      exact hint (by rw [hargs]; exact List.cons_ne_nil _ _)

/-- **client and server agree** on a request without parameters and with one argument at most,
that has none of the characters between its parts in them, and on no other -/
theorem agree_iff (origin : List UInt8) (h : request.Proper) :
    request.Agree origin ↔ request.Plain origin :=
  ⟨plain_of_agree, agree_of_plain h⟩

/-- `block/get` with the arguments `a` and `b` -/
def twoArguments : HttpRequest where
  command := [98, 108, 111, 99, 107]
  subCommand := some [103, 101, 116]
  arguments := [[97], [98]]

/-- `block/get` with the argument `a` -/
def oneArgument : HttpRequest := { twoArguments with arguments := [[97]] }

theorem oneArgument_agree : oneArgument.Agree [] :=
  (agree_iff [] {
    slash := by decide
    command := by decide
    subCommand := fun _ h => by cases h; decide
    params := by decide
    arguments := by decide }).2
  { params := rfl
    arguments := by decide
    path := by decide
    argument := by decide
    size := by decide }

/-- **two arguments** come back as one -/
theorem not_forall_agree :
    ¬ ∀ (request : HttpRequest) (origin : List UInt8), request.Proper → request.Agree origin := by
  intro h
  obtain ⟨url, hurl, hread⟩ := h twoArguments [] {
    slash := by decide
    command := by decide
    subCommand := fun _ h => by cases h; decide
    params := by decide
    arguments := by decide }
  obtain ⟨-, rfl, -⟩ := coreHttpRequestUrl_eq_some.1 hurl
  have hone : apiRequestOf ((twoArguments.url []).drop ([] : List UInt8).length) =
      .ok { twoArguments with arguments := [[97, 63, 97, 114, 103, 61, 98]] } := by
    decide
  rw [hone] at hread
  exact absurd hread (by decide)

end

end Ipfs
