import Libipfs.Core.UrlEncode
import Libipfs.Namesys.Resolver
import Libipfs.Repo.ConfigReplication

/-!
# Answering requests to the API

A request has a command, a sub command if there is a slash in the path, and the arguments of the
query.  The handlers of the commands take for granted that there is a sub command, and each one
makes its own of the arguments.

* `LocalNode`              what the handlers ask: names, blocks, routing, the network;
* `coreHttpRequestProcess` the answer, by the handler of the command;
* `QueryComplete`          every item of the query has a value;
* `Answerable`             what the handlers take for granted;
* `safe_apiBuildHttpRequest_iff`, `safe_coreHttpRequestProcess_iff`   the two steps;
* `handled_iff`            **when a request is handled**.
-/

set_option linter.unusedVariables false

namespace Ipfs
open CSem Libp2p

/-- `bytes` is what is written into the buffer; neither it nor the content type has to be there -/
structure HttpResponse where
  contentType : Option (List UInt8) := none
  bytes : Option (List UInt8) := none
  bytesSize : Nat := 0
  deriving DecidableEq

/-- the names are looked up in the datastore; the blocks, the routing and the network may answer
anything, the routing something else at each call -/
structure LocalNode where
  peerId : List UInt8
  context : LmdbContext
  putEnv : PutEnv
  objectCatToFile : List UInt8 → Exec (List UInt8 × Bool)
  provide : Nat → List UInt8 → Exec Bool
  getValue : List UInt8 → Exec (Option (List UInt8))
  joinSwarm : List UInt8 → Bool

/-! ## what is answered -/

def applicationJson : List UInt8 := asciiBytes "application/json"

/-- the answer of `resolve` -/
def pathText (result : List UInt8) : List UInt8 :=
  asciiBytes "\x7b \"Path\": \"" ++ (result ++ asciiBytes "\" \x7d")

/-- the answer of `publish` -/
def nameText (id path : List UInt8) : List UInt8 :=
  asciiBytes "\x7b \"Name\": \"" ++ (id ++ (asciiBytes "\"\n \"Value\": \"" ++
    (path ++ asciiBytes "\" \x7d")))

/-- the answer of `connect` -/
def stringsText (address : List UInt8) : List UInt8 :=
  asciiBytes "\x7b \"Strings\": [ \"" ++ (address ++ asciiBytes "\"] \x7d")

/-- the answer of `provide`; the lines are separated when some of it failed -/
def provideText (separator : List UInt8) : List UInt8 :=
  asciiBytes "\x7b\n\t\"ID\": \"<string>\"" ++ separator ++
  asciiBytes "\n\t\"Type\": \"<int>\"" ++ separator ++
  asciiBytes "\n\t\"Responses\": [\n\t\t\x7b\n\t\t\t\"ID\": \"<string>\"" ++ separator ++
  asciiBytes "\n\t\t\t\"Addrs\": [\n\t\t\t\t\"<object>\"\n\t\t\t]\n\t\t\x7d\n\t]" ++ separator ++
  asciiBytes "\n\t\"Extra\": \"<string>\"\n\x7d\n"

/-- what there is room for in front of a zero byte -/
def snprintf (room : Nat) (text : List UInt8) : List UInt8 := text.take (room - 1)

/-- 0, and a response without bytes, when there is no room -/
def jsonResponse (room : Option Nat) (text : List UInt8) : Exec (Bool × Option HttpResponse) :=
  match room with
  | none => .ok (false, some { contentType := some applicationJson })
  | some room => do
    let bytes ← sprintf room text
    .ok (true, some
      { contentType := some applicationJson, bytes := some bytes, bytesSize := bytes.length })

/-! ## the handlers -/

section
variable (node : LocalNode)

/-- the room is for the id and the path, whatever the path is resolved to -/
def coreHttpProcessName (request : HttpRequest) : Exec (Bool × Option HttpResponse) :=
  match request.arguments with
  | [] => .ok (false, none)
  | path :: _ => do
    let subCommand ← deref request.subCommand
    let room := malloc (toUInt64 (node.peerId.length + path.length + 30 : Nat))
    if subCommand = asciiBytes "resolve" then do
      let (_, result) ← resolverResolve node.context path true
      match result with
      | none => .ok (false, none)
      | some result => jsonResponse room (pathText result)
    else if subCommand = asciiBytes "publish" then do
      let (retVal, _) ← publisherPublish node.putEnv node.peerId path node.context
      if retVal then jsonResponse room (nameText node.peerId path)
      else .ok (false, none)
    else .ok (false, none)

/-- the pointer to the CID begins as a null pointer -/
def coreHttpProcessObject (request : HttpRequest) : Exec (Bool × Option HttpResponse) := do
  let subCommand ← deref request.subCommand
  if subCommand = asciiBytes "get" then
    match request.arguments with
    | [hash] =>
      match cidDecodeHashFromBase58 hash with
      | none => .ok (false, none)
      | some cid => do
        let (bytes, retVal) ← node.objectCatToFile cid.hash
        .ok (retVal, some
          { contentType := some applicationJson, bytes := some bytes, bytesSize := bytes.length })
    | _ => .ok (false, none)
  else .ok (false, none)

/-- how many failed; the pointer to the CID is freed where there is none -/
def dhtProvideLoop : Nat → List (List UInt8) → Nat → Exec Nat
  | _, [], failedCount => .ok failedCount
  | i, hash :: arguments, failedCount =>
    match cidDecodeHashFromBase58 hash with
    | none => .error .uninitialized
    | some cid => do
      let provided ← node.provide i cid.hash
      dhtProvideLoop (i + 1) arguments (if provided then failedCount else failedCount + 1)

def coreHttpProcessDhtProvide (request : HttpRequest) : Exec (Bool × Option HttpResponse) := do
  let failedCount ← dhtProvideLoop node 0 request.arguments 0
  let bytes := snprintf 1024 (provideText (if failedCount = 0 then [] else [44]))
  .ok (failedCount < request.arguments.length, some
    { contentType := some applicationJson, bytes := some bytes, bytesSize := bytes.length })

/-- one argument, whose CID is freed where there is none -/
def coreHttpProcessDhtGet (request : HttpRequest) : Exec (Bool × Option HttpResponse) :=
  match request.arguments with
  | [hash] =>
    match cidDecodeHashFromBase58 hash with
    | none => .error .uninitialized
    | some cid => do
      let bytes ← node.getValue cid.hash
      .ok (bytes.isSome, some
        { contentType := some (asciiBytes "application/octet-stream"), bytes := bytes
          bytesSize := (bytes.getD []).length })
  | _ => .ok (false, none)

def coreHttpProcessDht (request : HttpRequest) : Exec (Bool × Option HttpResponse) := do
  let subCommand ← deref request.subCommand
  if subCommand = asciiBytes "provide" then coreHttpProcessDhtProvide node request
  else if subCommand = asciiBytes "get" then coreHttpProcessDhtGet node request
  else .ok (false, none)

/-- the id of the peer is written into a string of 100 characters for the log, and the size of the
response counts its zero byte and the `%s` -/
def coreHttpProcessSwarmConnect (request : HttpRequest) : Exec (Bool × Option HttpResponse) :=
  match request.arguments.head? with
  | none => .ok (false, none)
  | some address => do
    match ← multiaddressNewFromString address with
    | none => .ok (false, none)
    | some ma => do
      require .outOfBounds (((multiaddressGetPeerId address).getD []).length < 100)
      if node.joinSwarm ma.1 then
        match malloc (toUInt64 (22 + address.length + 1 : Nat)) with
        | none => .ok (false, some {})
        | some bytesSize => do
          let bytes ← sprintf bytesSize (stringsText address)
          .ok (true, some
            { contentType := some applicationJson, bytes := some bytes, bytesSize := bytesSize })
      else .ok (false, none)

def coreHttpProcessSwarm (request : HttpRequest) : Exec (Bool × Option HttpResponse) := do
  let subCommand ← deref request.subCommand
  if subCommand = asciiBytes "connect" then coreHttpProcessSwarmConnect node request
  else .ok (false, none)

/-- what is returned, and the response -/
def coreHttpRequestProcess (request : HttpRequest) : Exec (Bool × Option HttpResponse) :=
  if request.command = asciiBytes "name" then coreHttpProcessName node request
  else if request.command = asciiBytes "object" then coreHttpProcessObject node request
  else if request.command = asciiBytes "dht" then coreHttpProcessDht node request
  else if request.command = asciiBytes "swarm" then coreHttpProcessSwarm node request
  else .ok (false, none)

end

/-! ## what is taken for granted -/

/-- the items of the decoded query -/
def queryItems (query : Option (List UInt8)) : List (List UInt8) :=
  match query.map utilsUrlDecode with
  | some (.ok segs) => (cutAt 0 segs).1.splitOn 38
  | _ => []

/-- the value of an item that is called `arg` -/
def itemArgument (item : List UInt8) : Option (List UInt8) :=
  if (cutAt 61 item).1 = argName then (cutAt 61 item).2 else none

def queryArguments (query : Option (List UInt8)) : List (List UInt8) :=
  (queryItems query).filterMap itemArgument

/-- each escape has its two digits, and each item an equals sign -/
def QueryComplete (query : Option (List UInt8)) : Prop :=
  (∀ text, query = some text → EscapesComplete text) ∧ ∀ item ∈ queryItems query, 61 ∈ item

/-- a text that is written at all has room, and its length is an `int` -/
def Prints (room : Option Nat) (text : List UInt8) : Prop :=
  ∀ size, room = some size → text.length < size ∧ text.length < 2 ^ 31

/-- the room for what `name` answers -/
def nameRoom (node : LocalNode) (path : List UInt8) : Option Nat :=
  malloc (toUInt64 (node.peerId.length + path.length + 30 : Nat))

/-- there is a sub command; what is resolved or published has room -/
def NameAnswerable (node : LocalNode) (subCommand : Option (List UInt8)) (path : List UInt8) :
    Prop :=
  ∃ sub, subCommand = some sub ∧
    (sub = asciiBytes "resolve" → ∃ incoming result,
      resolverResolve node.context path true = .ok (incoming, result) ∧
      ∀ text, result = some text → Prints (nameRoom node path) (pathText text)) ∧
    (sub = asciiBytes "publish" → ∃ published context,
      publisherPublish node.putEnv node.peerId path node.context = .ok (published, context) ∧
      (published = true → Prints (nameRoom node path) (nameText node.peerId path)))

/-- what connecting to an address takes for granted -/
def ConnectAnswerable (node : LocalNode) (address : List UInt8) : Prop :=
  ∃ ma, multiaddressNewFromString address = .ok ma ∧
    ∀ addr, ma = some addr → ((multiaddressGetPeerId address).getD []).length < 100 ∧
      (node.joinSwarm addr.1 = true →
        Prints (malloc (toUInt64 (22 + address.length + 1 : Nat))) (stringsText address))

/-- what each command takes for granted -/
structure Answerable (node : LocalNode) (command : List UInt8) (subCommand : Option (List UInt8))
    (arguments : List (List UInt8)) : Prop where
  name : command = asciiBytes "name" → ∀ path, arguments.head? = some path →
    NameAnswerable node subCommand path
  object : command = asciiBytes "object" → ∃ sub, subCommand = some sub ∧
    (sub = asciiBytes "get" → ∀ hash cid, arguments = [hash] →
      cidDecodeHashFromBase58 hash = some cid → Safe (node.objectCatToFile cid.hash))
  dht : command = asciiBytes "dht" → ∃ sub, subCommand = some sub ∧
    (sub = asciiBytes "provide" → ∀ i hash, arguments[i]? = some hash →
      ∃ cid, cidDecodeHashFromBase58 hash = some cid ∧ Safe (node.provide i cid.hash)) ∧
    (sub = asciiBytes "get" → ∀ hash, arguments = [hash] →
      ∃ cid, cidDecodeHashFromBase58 hash = some cid ∧ Safe (node.getValue cid.hash))
  swarm : command = asciiBytes "swarm" → ∃ sub, subCommand = some sub ∧
    (sub = asciiBytes "connect" → ∀ address, arguments.head? = some address →
      ConnectAnswerable node address)

/-- the request is built and answered, or there is an error -/
def Handled (node : LocalNode) (path : List UInt8) (query : Option (List UInt8)) : Prop :=
  ∃ request retVal response, apiBuildHttpRequest path query = .ok request ∧
    coreHttpRequestProcess node request = .ok (retVal, response) ∧
    (retVal = true → response.isSome = true)

/-! ## building the request -/

section
variable {path item : List UInt8} {query : Option (List UInt8)} {items : List (List UInt8)}
  {request request' : HttpRequest}

theorem mem_iff_cutAt {c : UInt8} {text : List UInt8} : c ∈ text ↔ (cutAt c text).2 ≠ none := by
  constructor
  · intro h hnone
    have hjoin := joinAt_cutAt c text
    rw [hnone, joinAt] at hjoin
    exact not_mem_cutAt c text (hjoin.symm ▸ h)
  · intro h
    by_contra hnot
    rw [cutAt_of_not_mem hnot] at h
    exact h rfl

/-- **an item with an equals sign** is an argument or a parameter -/
theorem apiAddToken_eq_ok_iff : (∃ request', apiAddToken item request = .ok request') ↔ 61 ∈ item := by
  rw [mem_iff_cutAt]
  unfold apiAddToken
  obtain ⟨name, value⟩ := cutAt 61 item
  cases value with
  | none => exact iff_of_false (fun ⟨_, h⟩ => nomatch h) fun h => h rfl
  | some value =>
    refine iff_of_true ?_ (Option.some_ne_none _)
    dsimp only
    split
    · exact ⟨_, rfl⟩
    · exact ⟨_, rfl⟩

theorem apiAddToken_arguments (h : apiAddToken item request = .ok request') :
    request'.command = request.command ∧ request'.subCommand = request.subCommand ∧
      request'.arguments = request.arguments ++ (itemArgument item).toList := by
  unfold itemArgument
  unfold apiAddToken at h
  generalize cutAt 61 item = cut at h ⊢
  obtain ⟨name, _ | value⟩ := cut
  · cases h
  · dsimp only at h ⊢
    split at h
    · next hname =>
      cases h
      rw [if_pos hname]
      exact ⟨rfl, rfl, rfl⟩
    · next hname =>
      cases h
      rw [if_neg hname]
      exact ⟨rfl, rfl, (List.append_nil _).symm⟩

theorem safe_apiAddTokens : Safe (apiAddTokens items request) ↔ ∀ item ∈ items, 61 ∈ item := by
  induction items generalizing request with
  | nil => exact iff_of_true (safe_ok _) fun item h => absurd h List.not_mem_nil
  | cons item items ih =>
    rw [List.forall_mem_cons, ← @apiAddToken_eq_ok_iff item request, apiAddTokens, safe_bind]
    constructor
    · rintro ⟨request', h, hsafe⟩
      exact ⟨⟨request', h⟩, ih.1 hsafe⟩
    · rintro ⟨⟨request', h⟩, hall⟩
      exact ⟨request', h, ih.2 hall⟩

theorem apiAddTokens_arguments (h : apiAddTokens items request = .ok request') :
    request'.command = request.command ∧ request'.subCommand = request.subCommand ∧
      request'.arguments = request.arguments ++ items.filterMap itemArgument := by
  induction items generalizing request with
  | nil =>
    cases h
    exact ⟨rfl, rfl, (List.append_nil _).symm⟩
  | cons item items ih =>
    obtain ⟨request1, h1, h⟩ := bind_eq_ok.1 h
    obtain ⟨hcommand, hsub, hargs⟩ := apiAddToken_arguments h1
    obtain ⟨hcommand', hsub', hargs'⟩ := ih h
    refine ⟨hcommand'.trans hcommand, hsub'.trans hsub, ?_⟩
    rw [hargs', hargs, List.append_assoc]
    cases harg : itemArgument item with
    | none => rw [List.filterMap_cons_none harg]; rfl
    | some arg => rw [List.filterMap_cons_some harg]; rfl

/-- **the request is built** if the query is complete -/
theorem safe_apiBuildHttpRequest_iff : Safe (apiBuildHttpRequest path query) ↔
    QueryComplete query := by
  unfold apiBuildHttpRequest QueryComplete queryItems
  cases query with
  | none => exact iff_of_true (safe_ok _) ⟨fun text h => (nomatch h), fun item h => (nomatch h)⟩
  | some query =>
    have hescapes : (∀ text, some query = some text → EscapesComplete text) ↔
        Safe (utilsUrlDecode query) := by
      rw [safe_utilsUrlDecode]
      exact ⟨fun h => h query rfl, fun h text ht => Option.some.inj ht ▸ h⟩
    rw [hescapes, Option.map_some]
    dsimp only
    rw [safe_bind]
    constructor
    · rintro ⟨segs, hsegs, h⟩
      rw [hsegs]
      exact ⟨safe_ok _, safe_apiAddTokens.1 h⟩
    · rintro ⟨⟨segs, hsegs⟩, h⟩
      rw [hsegs] at h
      exact ⟨segs, hsegs, safe_apiAddTokens.2 h⟩

/-- the parts of the request are those of the path and the query -/
theorem apiBuildHttpRequest_parts (h : apiBuildHttpRequest path query = .ok request) :
    request.command = (cutAt 47 path).1 ∧ request.subCommand = (cutAt 47 path).2 ∧
      request.arguments = queryArguments query := by
  unfold queryArguments queryItems
  unfold apiBuildHttpRequest at h
  cases query with
  | none =>
    cases h
    exact ⟨rfl, rfl, rfl⟩
  | some query =>
    obtain ⟨segs, hsegs, h⟩ := bind_eq_ok.1 h
    rw [Option.map_some, hsegs]
    exact apiAddTokens_arguments h

end

/-! ## the handlers -/

section
variable {node : LocalNode} {request : HttpRequest} {room : Option Nat} {text sub : List UInt8}
  {response : Option HttpResponse} {α : Type}

/-- what is printed, when there is room for it -/
theorem safe_printed {a : α} {f : Nat → List UInt8 → α} :
    Safe (match room with
      | none => .ok a
      | some size => do
        let bytes ← sprintf size text
        .ok (f size bytes) : Exec α) ↔ Prints room text := by
  unfold Prints sprintf
  cases room with
  | none => exact iff_of_true (safe_ok _) fun size h => (nomatch h)
  | some room =>
    dsimp only
    constructor
    · rintro ⟨out, h⟩ size hsize
      cases hsize
      obtain ⟨bytes, hbytes, -⟩ := bind_eq_ok.1 h
      exact (require_bind_eq_ok.1 hbytes).1
    · intro h
      rw [require_pos (h room rfl), ok_bind, ok_bind]
      exact safe_ok _

theorem safe_jsonResponse : Safe (jsonResponse room text) ↔ Prints room text := safe_printed

/-- the one that there is -/
theorem forall_some_iff {β : Type} {b : β} {P : β → Prop} :
    (∀ x, some b = some x → P x) ↔ P b :=
  ⟨fun h => h b rfl, fun h x hx => Option.some.inj hx ▸ h⟩

/-- without a sub command it is compared all the same -/
theorem safe_deref_bind {p : Option (List UInt8)} {f : List UInt8 → Exec α} :
    Safe (deref p >>= f) ↔ ∃ sub, p = some sub ∧ Safe (f sub) := by
  rw [safe_bind]
  exact ⟨fun ⟨sub, hsub, h⟩ => ⟨sub, deref_eq_ok.1 hsub, h⟩,
    fun ⟨sub, hsub, h⟩ => ⟨sub, deref_eq_ok.2 hsub, h⟩⟩

/-- a sub command that does something, and no other -/
theorem safe_ite {p : Prop} [Decidable p] {x y : Exec α} (hy : ¬ p → Safe y) :
    Safe (if p then x else y) ↔ (p → Safe x) := by
  split
  · next h => exact ⟨fun hx _ => hx, fun hx => hx h⟩
  · next h => exact ⟨fun _ hp => absurd hp h, fun _ => hy h⟩

theorem safe_processName : Safe (coreHttpProcessName node request) ↔
    ∀ path, request.arguments.head? = some path → NameAnswerable node request.subCommand path := by
  have hne : asciiBytes "resolve" ≠ asciiBytes "publish" := by decide
  unfold coreHttpProcessName NameAnswerable
  cases request.arguments with
  | nil => exact iff_of_true (safe_ok _) fun path h => (nomatch h)
  | cons path arguments =>
    rw [List.head?_cons, forall_some_iff]
    dsimp only
    rw [safe_deref_bind]
    refine exists_congr fun sub => and_congr_right fun _ => ?_
    have hresolve : Safe (resolverResolve node.context path true >>= fun p =>
        match p.2 with
        | none => .ok (false, none)
        | some result => jsonResponse (nameRoom node path) (pathText result)) ↔
        ∃ incoming result, resolverResolve node.context path true = .ok (incoming, result) ∧
          ∀ text, result = some text → Prints (nameRoom node path) (pathText text) := by
      rw [safe_bind, Prod.exists]
      refine exists_congr fun incoming => exists_congr fun result => and_congr_right fun _ => ?_
      cases result with
      | none => exact iff_of_true (safe_ok _) fun text h => (nomatch h)
      | some result =>
        rw [forall_some_iff]
        exact safe_jsonResponse
    have hpublish : Safe (publisherPublish node.putEnv node.peerId path node.context >>= fun p =>
        if p.1 then jsonResponse (nameRoom node path) (nameText node.peerId path)
        else .ok (false, none)) ↔
        ∃ published context,
          publisherPublish node.putEnv node.peerId path node.context = .ok (published, context) ∧
          (published = true → Prints (nameRoom node path) (nameText node.peerId path)) := by
      rw [safe_bind, Prod.exists]
      refine exists_congr fun published => exists_congr fun context => and_congr_right fun _ => ?_
      rw [safe_ite fun _ => safe_ok _, safe_jsonResponse]
    by_cases hsub : sub = asciiBytes "resolve"
    · rw [if_pos hsub]
      refine hresolve.trans ⟨fun h => ⟨fun _ => h, fun h' => absurd (hsub.symm.trans h') hne⟩,
        fun h => h.1 hsub⟩
    · rw [if_neg hsub, safe_ite fun _ => safe_ok _]
      exact ⟨fun h => ⟨fun h' => absurd h' hsub, fun h' => hpublish.1 (h h')⟩,
        fun h h' => hpublish.2 (h.2 h')⟩

theorem safe_processObject : Safe (coreHttpProcessObject node request) ↔
    ∃ sub, request.subCommand = some sub ∧ (sub = asciiBytes "get" → ∀ hash cid,
      request.arguments = [hash] → cidDecodeHashFromBase58 hash = some cid →
        Safe (node.objectCatToFile cid.hash)) := by
  unfold coreHttpProcessObject
  rw [safe_deref_bind]
  refine exists_congr fun sub => and_congr_right fun _ => ?_
  rw [safe_ite fun _ => safe_ok _]
  refine imp_congr_right fun _ => ?_
  match request.arguments with
  | [] => exact iff_of_true (safe_ok _) fun hash cid h => (nomatch h)
  | hash :: hash' :: arguments => exact iff_of_true (safe_ok _) fun hash cid h => (nomatch h)
  | [hash] =>
    dsimp only
    cases hcid : cidDecodeHashFromBase58 hash with
    | none =>
      refine iff_of_true (safe_ok _) fun hash' cid h hcid' => ?_
      cases h
      rw [hcid] at hcid'
      cases hcid'
    | some cid =>
      constructor
      · intro h hash' cid' harg hcid'
        cases harg
        rw [hcid] at hcid'
        cases hcid'
        exact h.of_bind
      · intro h
        obtain ⟨out, hout⟩ := h hash cid rfl hcid
        exact safe_bind.2 ⟨out, hout, safe_ok _⟩

/-- **each argument is decoded**, and provided under its own number -/
theorem safe_dhtProvideLoop {i failedCount : Nat} {arguments : List (List UInt8)} :
    Safe (dhtProvideLoop node i arguments failedCount) ↔ ∀ k hash, arguments[k]? = some hash →
      ∃ cid, cidDecodeHashFromBase58 hash = some cid ∧ Safe (node.provide (i + k) cid.hash) := by
  induction arguments generalizing i failedCount with
  | nil => exact iff_of_true (safe_ok _) fun k hash h => (nomatch h)
  | cons hash arguments ih =>
    -- the first argument, and those behind it
    have hsplit : (∀ k other, (hash :: arguments)[k]? = some other →
          ∃ cid, cidDecodeHashFromBase58 other = some cid ∧ Safe (node.provide (i + k) cid.hash)) ↔
        (∃ cid, cidDecodeHashFromBase58 hash = some cid ∧ Safe (node.provide i cid.hash)) ∧
        ∀ k other, arguments[k]? = some other →
          ∃ cid, cidDecodeHashFromBase58 other = some cid ∧
            Safe (node.provide (i + 1 + k) cid.hash) := by
      constructor
      · intro h
        refine ⟨h 0 hash rfl, fun k other hk => ?_⟩
        obtain ⟨cid, hcid, hsafe⟩ := h (k + 1) other (by rwa [List.getElem?_cons_succ])
        exact ⟨cid, hcid, by rwa [Nat.add_assoc, Nat.add_comm 1 k]⟩
      · rintro ⟨hfirst, hrest⟩ k other hk
        cases k with
        | zero =>
          cases hk
          exact hfirst
        | succ k =>
          rw [List.getElem?_cons_succ] at hk
          obtain ⟨cid, hcid, hsafe⟩ := hrest k other hk
          exact ⟨cid, hcid, by rwa [Nat.add_assoc, Nat.add_comm 1 k] at hsafe⟩
    rw [hsplit, dhtProvideLoop]
    cases hcid : cidDecodeHashFromBase58 hash with
    | none => exact iff_of_false (not_safe_error _) fun ⟨⟨cid, h, _⟩, _⟩ => nomatch h
    | some cid =>
      dsimp only
      rw [safe_bind]
      constructor
      · rintro ⟨provided, hprovided, h⟩
        exact ⟨⟨cid, rfl, provided, hprovided⟩, ih.1 h⟩
      · rintro ⟨⟨cid', hcid', provided, hprovided⟩, h⟩
        cases hcid'
        exact ⟨provided, hprovided, ih.2 h⟩

theorem safe_processDhtGet : Safe (coreHttpProcessDhtGet node request) ↔
    ∀ hash, request.arguments = [hash] →
      ∃ cid, cidDecodeHashFromBase58 hash = some cid ∧ Safe (node.getValue cid.hash) := by
  unfold coreHttpProcessDhtGet
  match request.arguments with
  | [] => exact iff_of_true (safe_ok _) fun hash h => (nomatch h)
  | hash :: hash' :: arguments => exact iff_of_true (safe_ok _) fun hash h => (nomatch h)
  | [hash] =>
    have harg : ∀ P : List UInt8 → Prop, (∀ other, [hash] = [other] → P other) ↔ P hash :=
      fun P => ⟨fun h => h hash rfl, fun h other hother => List.singleton_inj.1 hother ▸ h⟩
    rw [harg]
    dsimp only
    cases hcid : cidDecodeHashFromBase58 hash with
    | none => exact iff_of_false (not_safe_error _) fun ⟨cid, h, _⟩ => nomatch h
    | some cid =>
      constructor
      · exact fun h => ⟨cid, rfl, h.of_bind⟩
      · rintro ⟨cid', hcid', bytes, hbytes⟩
        cases hcid'
        exact safe_bind.2 ⟨bytes, hbytes, safe_ok _⟩

theorem safe_processDht : Safe (coreHttpProcessDht node request) ↔
    ∃ sub, request.subCommand = some sub ∧
      (sub = asciiBytes "provide" → ∀ i hash, request.arguments[i]? = some hash →
        ∃ cid, cidDecodeHashFromBase58 hash = some cid ∧ Safe (node.provide i cid.hash)) ∧
      (sub = asciiBytes "get" → ∀ hash, request.arguments = [hash] →
        ∃ cid, cidDecodeHashFromBase58 hash = some cid ∧ Safe (node.getValue cid.hash)) := by
  have hne : asciiBytes "provide" ≠ asciiBytes "get" := by decide
  have hprovide : Safe (coreHttpProcessDhtProvide node request) ↔
      ∀ i hash, request.arguments[i]? = some hash →
        ∃ cid, cidDecodeHashFromBase58 hash = some cid ∧ Safe (node.provide i cid.hash) := by
    have hloop := @safe_dhtProvideLoop node 0 0 request.arguments
    simp only [Nat.zero_add] at hloop
    rw [← hloop]
    constructor
    · exact Safe.of_bind
    · exact fun ⟨failedCount, h⟩ => safe_bind.2 ⟨failedCount, h, safe_ok _⟩
  unfold coreHttpProcessDht
  rw [safe_deref_bind]
  refine exists_congr fun sub => and_congr_right fun _ => ?_
  by_cases hsub : sub = asciiBytes "provide"
  · rw [if_pos hsub, hprovide]
    exact ⟨fun h => ⟨fun _ => h, fun h' => absurd (hsub.symm.trans h') hne⟩, fun h => h.1 hsub⟩
  · rw [if_neg hsub, safe_ite fun _ => safe_ok _, safe_processDhtGet]
    exact ⟨fun h => ⟨fun h' => absurd h' hsub, h⟩, fun h => h.2⟩

theorem safe_processSwarm : Safe (coreHttpProcessSwarm node request) ↔
    ∃ sub, request.subCommand = some sub ∧ (sub = asciiBytes "connect" →
      ∀ address, request.arguments.head? = some address → ConnectAnswerable node address) := by
  unfold coreHttpProcessSwarm ConnectAnswerable
  rw [safe_deref_bind]
  refine exists_congr fun sub => and_congr_right fun _ => ?_
  rw [safe_ite fun _ => safe_ok _]
  refine imp_congr_right fun _ => ?_
  unfold coreHttpProcessSwarmConnect
  cases request.arguments.head? with
  | none => exact iff_of_true (safe_ok _) fun address h => (nomatch h)
  | some address =>
    rw [forall_some_iff]
    dsimp only
    rw [safe_bind]
    refine exists_congr fun ma => and_congr_right fun _ => ?_
    cases ma with
    | none => exact iff_of_true (safe_ok _) fun addr h => (nomatch h)
    | some addr =>
      rw [forall_some_iff]
      dsimp only
      rw [safe_bind]
      constructor
      · rintro ⟨u, hid, h⟩
        rw [safe_ite fun _ => safe_ok _] at h
        exact ⟨require_eq_ok.1 hid, fun hjoin => safe_printed.1 (h hjoin)⟩
      · rintro ⟨hid, h⟩
        refine ⟨(), require_pos hid, ?_⟩
        rw [safe_ite fun _ => safe_ok _]
        exact fun hjoin => safe_printed.2 (h hjoin)

/-- **the answer** is safe if the handler of the command has what it takes for granted -/
theorem safe_coreHttpRequestProcess_iff : Safe (coreHttpRequestProcess node request) ↔
    Answerable node request.command request.subCommand request.arguments := by
  have hname : asciiBytes "name" ≠ asciiBytes "object" ∧ asciiBytes "name" ≠ asciiBytes "dht" ∧
    asciiBytes "name" ≠ asciiBytes "swarm" := by decide
  have hobject : asciiBytes "object" ≠ asciiBytes "dht" ∧
    asciiBytes "object" ≠ asciiBytes "swarm" := by decide
  have hdht : asciiBytes "dht" ≠ asciiBytes "swarm" := by decide
  unfold coreHttpRequestProcess
  by_cases h1 : request.command = asciiBytes "name"
  · rw [if_pos h1, safe_processName, h1]
    exact ⟨fun h => ⟨fun _ => h, fun e => absurd e hname.1, fun e => absurd e hname.2.1,
      fun e => absurd e hname.2.2⟩, fun h => h.name rfl⟩
  by_cases h2 : request.command = asciiBytes "object"
  · rw [if_neg h1, if_pos h2, safe_processObject, h2]
    exact ⟨fun h => ⟨fun e => absurd e hname.1.symm, fun _ => h, fun e => absurd e hobject.1,
      fun e => absurd e hobject.2⟩, fun h => h.object rfl⟩
  by_cases h3 : request.command = asciiBytes "dht"
  · rw [if_neg h1, if_neg h2, if_pos h3, safe_processDht, h3]
    exact ⟨fun h => ⟨fun e => absurd e hname.2.1.symm, fun e => absurd e hobject.1.symm,
      fun _ => h, fun e => absurd e hdht⟩, fun h => h.dht rfl⟩
  by_cases h4 : request.command = asciiBytes "swarm"
  · rw [if_neg h1, if_neg h2, if_neg h3, if_pos h4, safe_processSwarm, h4]
    exact ⟨fun h => ⟨fun e => absurd e hname.2.2.symm, fun e => absurd e hobject.2.symm,
      fun e => absurd e hdht.symm, fun _ => h⟩, fun h => h.swarm rfl⟩
  · rw [if_neg h1, if_neg h2, if_neg h3, if_neg h4]
    exact iff_of_true (safe_ok _)
      ⟨fun e => absurd e h1, fun e => absurd e h2, fun e => absurd e h3, fun e => absurd e h4⟩

end

/-! ## a response for every success -/

/-- what succeeds has a response -/
def Responds (x : Exec (Bool × Option HttpResponse)) : Prop :=
  ∀ retVal response, x = .ok (retVal, response) → retVal = true → response.isSome = true

section
variable {node : LocalNode} {request : HttpRequest} {α : Type}

theorem responds_false (response : Option HttpResponse) : Responds (.ok (false, response)) := by
  intro retVal response' h htrue
  cases h
  cases htrue

theorem responds_some (retVal : Bool) (response : HttpResponse) :
    Responds (.ok (retVal, some response)) := by
  intro retVal' response' h _
  cases h
  rfl

theorem responds_error (e : Fault) : Responds (.error e) := fun retVal response h => nomatch h

theorem responds_bind {x : Exec α} {f : α → Exec (Bool × Option HttpResponse)}
    (h : ∀ a, Responds (f a)) : Responds (x >>= f) := by
  intro retVal response hbind
  obtain ⟨a, -, ha⟩ := bind_eq_ok.1 hbind
  exact h a retVal response ha

theorem responds_ite {p : Prop} [Decidable p] {x y : Exec (Bool × Option HttpResponse)}
    (hx : Responds x) (hy : Responds y) : Responds (if p then x else y) := by
  split
  · exact hx
  · exact hy

theorem responds_jsonResponse (room : Option Nat) (text : List UInt8) :
    Responds (jsonResponse room text) := by
  cases room with
  | none => exact responds_false _
  | some room => exact responds_bind fun bytes => responds_some _ _

theorem responds_processName : Responds (coreHttpProcessName node request) := by
  unfold coreHttpProcessName
  split
  · exact responds_false none
  · refine responds_bind fun sub => responds_ite (responds_bind fun out => ?_)
      (responds_ite (responds_bind fun out => ?_) (responds_false none))
    · split
      split
      · exact responds_false none
      · exact responds_jsonResponse _ _
    · exact responds_ite (responds_jsonResponse _ _) (responds_false none)

theorem responds_processObject : Responds (coreHttpProcessObject node request) := by
  refine responds_bind fun sub => responds_ite ?_ (responds_false none)
  split
  · split
    · exact responds_false none
    · exact responds_bind fun out => responds_some _ _
  · exact responds_false none

theorem responds_processDht : Responds (coreHttpProcessDht node request) := by
  refine responds_bind fun sub => responds_ite ?_ (responds_ite ?_ (responds_false none))
  · exact responds_bind fun failedCount => responds_some _ _
  · unfold coreHttpProcessDhtGet
    split
    · split
      · exact responds_error _
      · exact responds_bind fun bytes => responds_some _ _
    · exact responds_false none

theorem responds_processSwarm : Responds (coreHttpProcessSwarm node request) := by
  refine responds_bind fun sub => responds_ite ?_ (responds_false none)
  unfold coreHttpProcessSwarmConnect
  split
  · exact responds_false none
  · refine responds_bind fun ma => ?_
    split
    · exact responds_false none
    · refine responds_bind fun u => responds_ite ?_ (responds_false none)
      split
      · exact responds_false _
      · exact responds_bind fun bytes => responds_some _ _

theorem responds_coreHttpRequestProcess : Responds (coreHttpRequestProcess node request) :=
  responds_ite responds_processName (responds_ite responds_processObject
    (responds_ite responds_processDht (responds_ite responds_processSwarm (responds_false none))))

end

/-! ## requests that are handled -/

/-- **when a request is handled**: the items of the query have values, and the handler of the
command has what it takes for granted -/
theorem handled_iff (node : LocalNode) (path : CString) (query : Option CString) :
    Handled node path.text (query.map CString.text) ↔
      QueryComplete (query.map CString.text) ∧
        Answerable node (cutAt 47 path.text).1 (cutAt 47 path.text).2
          (queryArguments (query.map CString.text)) := by
  rw [← @safe_apiBuildHttpRequest_iff path.text]
  constructor
  · rintro ⟨request, retVal, response, hbuild, hprocess, -⟩
    obtain ⟨hcommand, hsub, hargs⟩ := apiBuildHttpRequest_parts hbuild
    have hanswer := safe_coreHttpRequestProcess_iff.1 ⟨_, hprocess⟩
    rw [hcommand, hsub, hargs] at hanswer
    exact ⟨⟨request, hbuild⟩, hanswer⟩
  · rintro ⟨⟨request, hbuild⟩, hanswer⟩
    obtain ⟨hcommand, hsub, hargs⟩ := apiBuildHttpRequest_parts hbuild
    rw [← hcommand, ← hsub, ← hargs] at hanswer
    obtain ⟨⟨retVal, response⟩, hprocess⟩ := safe_coreHttpRequestProcess_iff.2 hanswer
    exact ⟨request, retVal, response, hbuild, hprocess,
      responds_coreHttpRequestProcess retVal response hprocess⟩

/-- the path of one peer is a long one -/
def longNode : LocalNode where
  peerId := peerText
  context :=
    { datastore := Multimap.empty.insert peerRecord.key
        (recordBytes { peerRecord with value := asciiBytes "/ipfs/" ++ List.replicate 120 97 })
      journal := .empty }
  putEnv := putAtEight
  objectCatToFile := fun _ => .ok ([], false)
  provide := fun _ _ => .ok true
  getValue := fun _ => .ok none
  joinSwarm := fun _ => true

example : (apiBuildHttpRequest (asciiBytes "object/get") (some (asciiBytes "arg=a")) >>=
    coreHttpRequestProcess longNode) = .ok (false, none) := by decide +kernel

/-- **an item without a value, no sub command, no CID**, and a path that is longer than the name -/
theorem not_handled :
    ¬ Handled longNode (asciiBytes "id") (some (asciiBytes "verbose")) ∧
      ¬ Handled longNode (asciiBytes "name") (some (asciiBytes "arg=a")) ∧
      ¬ Handled longNode (asciiBytes "dht/provide") (some (asciiBytes "arg=a")) ∧
      ¬ Handled longNode (asciiBytes "name/resolve")
        (some (asciiBytes "arg=" ++ (ipnsName ++ peerText))) := by
  have hnot : ∀ path query e, (apiBuildHttpRequest path query >>= coreHttpRequestProcess longNode) =
      .error e → ¬ Handled longNode path query := by
    rintro path query e h ⟨request, retVal, response, hbuild, hprocess, -⟩
    rw [hbuild, ok_bind, hprocess] at h
    cases h
  refine ⟨hnot _ _ .null ?_, hnot _ _ .null ?_, hnot _ _ .uninitialized ?_, hnot _ _ .overflow ?_⟩
  · decide +kernel
  · decide +kernel
  · decide +kernel
  · decide +kernel

end Ipfs
