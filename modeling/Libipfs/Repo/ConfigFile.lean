import Libipfs.Repo.Config
import Libipfs.Repo.JsonTokens

/-!
# The config file as tokens

The text of the file in the pieces that the tokeniser takes it in, and the tokens it is read as.

* `configLexemes`         the pieces, line by line;
* `repoConfigWriteConfigFile_eq`   the file is written in them;
* `configMembers`         the members of the object in it, if there is a header;
* `jsmnParse_config`      **the tokens of the file**.
-/

namespace Ipfs
open CSem Libp2p

/-! ## lines -/

def keyLexemes (indent : Nat) (key : String) : List Lexeme :=
  List.replicate indent (.space 32) ++ [.string (asciiBytes key), .colon, .space 32]

/-- the end of a line, behind a comma if there is one -/
def lineEnd (comma : Bool) : List Lexeme := if comma then [.comma, .space 10] else [.space 10]

def stringLine (indent : Nat) (key : String) (text : List UInt8) (comma : Bool) : List Lexeme :=
  keyLexemes indent key ++ .string text :: lineEnd comma

def primitiveLine (indent : Nat) (key : String) (text : List UInt8) (comma : Bool) : List Lexeme :=
  keyLexemes indent key ++
    if comma then [.primitive text 44, .space 10] else [.primitive text 10]

def openingLine (indent : Nat) (key : String) (type : JsmnType) : List Lexeme :=
  keyLexemes indent key ++ [.opening type, .space 10]

def closingLine (indent : Nat) (type : JsmnType) (comma : Bool) : List Lexeme :=
  List.replicate indent (.space 32) ++ .closing type :: lineEnd comma

/-! ## the file -/

def identityLexemes (id key : List UInt8) : List Lexeme :=
  List.flatten
    [[.opening .object, .space 10],
     openingLine 1 "Identity" .object,
     stringLine 2 "PeerID" id true,
     stringLine 2 "PrivKey" key false,
     closingLine 1 .object true]

def datastoreLexemes (path : List UInt8) : List Lexeme :=
  List.flatten
    [openingLine 1 "Datastore" .object,
     stringLine 2 "Type" (asciiBytes "lmdb") true,
     stringLine 2 "Path" path true,
     stringLine 2 "StorageMax" (asciiBytes "10GB") true,
     primitiveLine 2 "StorageGCWatermark" (intText 90) true,
     stringLine 2 "GCPeriod" (asciiBytes "1h") true,
     primitiveLine 2 "Params" (asciiBytes "null") true,
     primitiveLine 2 "NoSync" (asciiBytes "false") true,
     primitiveLine 2 "HashOnRead" (asciiBytes "false") true,
     primitiveLine 2 "BloomFilterSize" (intText 0) false]

/-- up to the first address -/
def swarmLexemes : List Lexeme :=
  List.flatten
    [closingLine 1 .object true,
     openingLine 1 "Addresses" .object,
     openingLine 2 "Swarm" .array]

def stringsLexemes : List (List UInt8) → List Lexeme
  | [] => []
  | [text] => [.space 32, .space 32, .string text] ++ lineEnd false
  | text :: next :: texts =>
    [.space 32, .space 32, .string text] ++ (lineEnd true ++ stringsLexemes (next :: texts))

def addressesLexemes (api gateway : List UInt8) : List Lexeme :=
  List.flatten
    [closingLine 2 .array true,
     stringLine 2 "API" api true,
     stringLine 2 "Gateway" gateway false]

def servicesLexemes : List Lexeme :=
  List.flatten
    [closingLine 1 .object true,
     openingLine 2 "Mounts" .object,
     stringLine 2 "IPFS" (asciiBytes "/ipfs") true,
     stringLine 2 "IPNS" (asciiBytes "/ipns") true,
     primitiveLine 2 "FuseAllowOther" (asciiBytes "false") false,
     closingLine 1 .object true,
     openingLine 2 "Discovery" .object,
     openingLine 3 "MDNS" .object,
     primitiveLine 3 "Enabled" (asciiBytes "true") true,
     primitiveLine 3 "Interval" (intText 10) false,
     closingLine 2 .object false,
     closingLine 1 .object true,
     openingLine 1 "Ipns" .object,
     stringLine 2 "RepublishedPeriod" [] true,
     stringLine 2 "RecordLifetime" [] true,
     primitiveLine 2 "ResolveCacheSize" (intText 128) false]

/-- up to the first bootstrap peer -/
def bootstrapLexemes : List Lexeme :=
  List.flatten [closingLine 1 .object true, openingLine 1 "Bootstrap" .array]

def tourLexemes : List Lexeme :=
  List.flatten
    [closingLine 1 .array true,
     openingLine 1 "Tour" .object,
     stringLine 2 "Last" [] false,
     closingLine 1 .object true]

/-- up to the first header -/
def gatewayLexemes : List Lexeme :=
  List.flatten [openingLine 1 "Gateway" .object, openingLine 2 "HTTPHeaders" .object]

def headerLexemes (h : HttpHeader) : List Lexeme :=
  List.flatten
    [List.replicate 3 (.space 32),
     [.string h.header, .colon, .space 32, .opening .array, .space 10],
     List.replicate 4 (.space 32),
     [.string h.value, .space 10, .space 32, .space 32, .closing .array]]

def headersLexemes : List HttpHeader → List Lexeme
  | [] => []
  | [h] => headerLexemes h ++ .space 10 :: closingLine 1 .object true
  | h :: next :: headers => headerLexemes h ++ (lineEnd true ++ headersLexemes (next :: headers))

/-- from the headers on -/
def endLexemes : List Lexeme :=
  List.flatten
    [stringLine 2 "RootRedirect" [] false,
     primitiveLine 2 "Writable" (asciiBytes "false") false,
     keyLexemes 2 "PathPrefixes",
     [.opening .array, .closing .array, .space 10],
     closingLine 1 .object true,
     openingLine 1 "SupernodeRouting" .object,
     primitiveLine 2 "Servers" (asciiBytes "null") false,
     [.space 32, .closing .object, .comma],
     openingLine 1 "API" .object,
     primitiveLine 2 "HTTPHeaders" (asciiBytes "null") false,
     closingLine 1 .object true,
     openingLine 1 "Swarm" .object,
     primitiveLine 2 "AddrFilters" (asciiBytes "null") false,
     closingLine 1 .object false,
     [.closing .object]]

/-- what differs between two files -/
structure ConfigTexts where
  id : List UInt8
  key : List UInt8
  path : List UInt8
  swarm : List (List UInt8)
  api : List UInt8
  gateway : List UInt8
  bootstrap : List (List UInt8)
  headers : List HttpHeader

def configLexemes (c : ConfigTexts) : List Lexeme :=
  identityLexemes c.id c.key ++ (datastoreLexemes c.path ++ (swarmLexemes ++
    (stringsLexemes c.swarm ++ (addressesLexemes c.api c.gateway ++ (servicesLexemes ++
      (bootstrapLexemes ++ (stringsLexemes c.bootstrap ++ (tourLexemes ++ (gatewayLexemes ++
        (headersLexemes c.headers ++ endLexemes))))))))))

section
variable {rest : List UInt8}

theorem printIdentity_eq (id key : List UInt8) :
    printIdentity id key rest = writeLexemes (identityLexemes id key) rest := rfl

set_option maxRecDepth 2000 in
theorem printDatastore_eq (path : List UInt8) :
    printDatastore (asciiBytes "lmdb") path (asciiBytes "10GB") (asciiBytes "1h")
      (initialDatastore path) rest = writeLexemes (datastoreLexemes path) rest := by rfl

theorem printStrings_eq (texts : List (List UInt8)) :
    printStrings texts rest = writeLexemes (stringsLexemes texts) rest := by
  induction texts, rest using printStrings.induct with
  | case1 => rfl
  | case2 text => rfl
  | case3 rest text next texts ih =>
    unfold printStrings stringsLexemes
    rw [ih, writeLexemes_append, writeLexemes_append]
    rfl

theorem printAddresses_eq (swarm : List (List UInt8)) (api gateway : List UInt8) :
    printAddresses swarm api gateway rest =
      writeLexemes (swarmLexemes ++ (stringsLexemes swarm ++ addressesLexemes api gateway)) rest := by
  unfold printAddresses
  rw [printStrings_eq, writeLexemes_append, writeLexemes_append]
  rfl

set_option maxRecDepth 2000 in
theorem printServices_eq :
    printServices (asciiBytes "/ipfs") (asciiBytes "/ipns") 1 10 128 rest =
      writeLexemes servicesLexemes rest := by rfl

theorem printBootstrap_eq (peers : List ConfigAddress) :
    printBootstrap peers rest =
      writeLexemes (bootstrapLexemes ++ (stringsLexemes (peers.map ConfigAddress.string) ++
        tourLexemes)) rest := by
  unfold printBootstrap
  rw [printStrings_eq, writeLexemes_append, writeLexemes_append]
  rfl

theorem printHeaders_eq (headers : List HttpHeader) :
    printHeaders headers rest = writeLexemes (headersLexemes headers) rest := by
  induction headers, rest using printHeaders.induct with
  | case1 => rfl
  | case2 h => rfl
  | case3 rest h next headers ih =>
    unfold printHeaders headersLexemes
    rw [ih, writeLexemes_append, writeLexemes_append]
    rfl

set_option maxRecDepth 2000 in
theorem printGateway_eq {gateway : GatewayConfig} (h : gateway.writable = 0) :
    printGateway [] gateway printEnd =
      writeLexemes (gatewayLexemes ++ (headersLexemes gateway.httpHeaders ++ endLexemes)) [] := by
  unfold printGateway
  rw [printHeaders_eq, writeLexemes_append, writeLexemes_append, h]
  rfl

end

/-! ## no piece is out of place -/

def ValidLexemes (ls : List Lexeme) : Prop := ∀ l ∈ ls, l.Valid

instance (c : UInt8) : Decidable (PrimitiveChar c) := by
  unfold PrimitiveChar
  infer_instance

instance (text : List UInt8) : Decidable (PrimitiveText text) :=
  @instDecidableAnd (text ≠ []) _ _ (List.decidableBAll PrimitiveChar text)

section
variable {ls ms : List Lexeme} {l : Lexeme} {indent : Nat} {key : String} {text : List UInt8}
  {comma : Bool} {type : JsmnType}

@[simp] theorem validLexemes_append :
    ValidLexemes (ls ++ ms) ↔ ValidLexemes ls ∧ ValidLexemes ms := List.forall_mem_append

@[simp] theorem validLexemes_cons : ValidLexemes (l :: ls) ↔ l.Valid ∧ ValidLexemes ls :=
  List.forall_mem_cons

@[simp] theorem validLexemes_nil : ValidLexemes [] := List.forall_mem_nil _

@[simp] theorem validLexemes_indent (indent : Nat) :
    ValidLexemes (List.replicate indent (.space 32)) := by
  intro l hl
  rw [List.eq_of_mem_replicate hl]
  exact .inl rfl

@[simp] theorem validLexemes_lineEnd (comma : Bool) : ValidLexemes (lineEnd comma) := by
  cases comma with
  | false => exact validLexemes_cons.2 ⟨.inr rfl, validLexemes_nil⟩
  | true => exact validLexemes_cons.2 ⟨trivial, validLexemes_cons.2 ⟨.inr rfl, validLexemes_nil⟩⟩

@[simp] theorem validLexemes_keyLexemes (hkey : ∀ c ∈ asciiBytes key, c ≠ 0 ∧ c ≠ 34 ∧ c ≠ 92) :
    ValidLexemes (keyLexemes indent key) :=
  validLexemes_append.2 ⟨validLexemes_indent indent, validLexemes_cons.2 ⟨jsonText_of_plain hkey,
    validLexemes_cons.2 ⟨trivial, validLexemes_cons.2 ⟨.inl rfl, validLexemes_nil⟩⟩⟩⟩

@[simp] theorem validLexemes_stringLine
    (hkey : ∀ c ∈ asciiBytes key, c ≠ 0 ∧ c ≠ 34 ∧ c ≠ 92) :
    ValidLexemes (stringLine indent key text comma) ↔ JsonText text := by
  unfold stringLine
  rw [validLexemes_append, validLexemes_cons]
  exact ⟨fun h => h.2.1, fun h => ⟨validLexemes_keyLexemes hkey, h, validLexemes_lineEnd comma⟩⟩

@[simp] theorem validLexemes_primitiveLine
    (hkey : ∀ c ∈ asciiBytes key, c ≠ 0 ∧ c ≠ 34 ∧ c ≠ 92) (htext : PrimitiveText text) :
    ValidLexemes (primitiveLine indent key text comma) := by
  refine validLexemes_append.2 ⟨validLexemes_keyLexemes hkey, ?_⟩
  cases comma with
  | false => exact validLexemes_cons.2 ⟨⟨htext, .inl rfl⟩, validLexemes_nil⟩
  | true =>
    exact validLexemes_cons.2 ⟨⟨htext, .inr rfl⟩, validLexemes_cons.2 ⟨.inr rfl, validLexemes_nil⟩⟩

@[simp] theorem validLexemes_openingLine
    (hkey : ∀ c ∈ asciiBytes key, c ≠ 0 ∧ c ≠ 34 ∧ c ≠ 92)
    (htype : type = .object ∨ type = .array) : ValidLexemes (openingLine indent key type) :=
  validLexemes_append.2 ⟨validLexemes_keyLexemes hkey,
    validLexemes_cons.2 ⟨htype, validLexemes_cons.2 ⟨.inr rfl, validLexemes_nil⟩⟩⟩

@[simp] theorem validLexemes_closingLine (htype : type = .object ∨ type = .array) :
    ValidLexemes (closingLine indent type comma) :=
  validLexemes_append.2 ⟨validLexemes_indent indent,
    validLexemes_cons.2 ⟨htype, validLexemes_lineEnd comma⟩⟩

@[simp] theorem jsonText_asciiBytes (h : ∀ c ∈ asciiBytes key, c ≠ 0 ∧ c ≠ 34 ∧ c ≠ 92) :
    JsonText (asciiBytes key) := jsonText_of_plain h

end

theorem validLexemes_strings {texts : List (List UInt8)} (h : ∀ text ∈ texts, JsonText text) :
    ValidLexemes (stringsLexemes texts) := by
  induction texts using stringsLexemes.induct with
  | case1 => exact validLexemes_nil
  | case2 text =>
    have htext := h text List.mem_cons_self
    simp [stringsLexemes, Lexeme.Valid, htext]
  | case3 text next texts ih =>
    have htext := h text List.mem_cons_self
    have hrest := ih fun text ht => h text (List.mem_cons_of_mem _ ht)
    simp [stringsLexemes, Lexeme.Valid, htext, hrest]

theorem validLexemes_headers {headers : List HttpHeader}
    (h : ∀ h ∈ headers, JsonText h.header ∧ JsonText h.value) :
    ValidLexemes (headersLexemes headers) := by
  have hheader : ∀ h : HttpHeader, JsonText h.header ∧ JsonText h.value →
      ValidLexemes (headerLexemes h) := by
    intro h ⟨hh, hv⟩
    simp [headerLexemes, Lexeme.Valid, hh, hv]
  induction headers using headersLexemes.induct with
  | case1 => exact validLexemes_nil
  | case2 first =>
    have hfirst := hheader first (h first List.mem_cons_self)
    simp [headersLexemes, Lexeme.Valid, hfirst]
  | case3 first next headers ih =>
    have hfirst := hheader first (h first List.mem_cons_self)
    have hrest := ih fun h' ht => h h' (List.mem_cons_of_mem _ ht)
    simp [headersLexemes, hfirst, hrest]

/-- the texts that are written as strings -/
structure ConfigTexts.Json (c : ConfigTexts) : Prop where
  id : JsonText c.id
  key : JsonText c.key
  path : JsonText c.path
  swarm : ∀ text ∈ c.swarm, JsonText text
  api : JsonText c.api
  gateway : JsonText c.gateway
  bootstrap : ∀ text ∈ c.bootstrap, JsonText text
  headers : ∀ h ∈ c.headers, JsonText h.header ∧ JsonText h.value

theorem validLexemes_config {c : ConfigTexts} (h : c.Json) : ValidLexemes (configLexemes c) := by
  have hidentity : ValidLexemes (identityLexemes c.id c.key) := by
    simp (disch := decide) [identityLexemes, Lexeme.Valid, h.id, h.key]
  have hdatastore : ValidLexemes (datastoreLexemes c.path) := by
    simp (disch := decide) [datastoreLexemes, h.path]
  have haddresses : ValidLexemes (addressesLexemes c.api c.gateway) := by
    simp (disch := decide) [addressesLexemes, h.api, h.gateway]
  have hswarm : ValidLexemes swarmLexemes := by
    simp (disch := decide) [swarmLexemes]
  have hservices : ValidLexemes servicesLexemes := by
    simp (disch := decide) [servicesLexemes, JsonText.nil]
  have hbootstrap : ValidLexemes (bootstrapLexemes ++ tourLexemes ++ gatewayLexemes) := by
    simp (disch := decide) [bootstrapLexemes, tourLexemes, gatewayLexemes, JsonText.nil]
  have hend : ValidLexemes endLexemes := by
    simp (disch := decide) [endLexemes, Lexeme.Valid, JsonText.nil]
  obtain ⟨⟨hboot, htour⟩, hgateway⟩ := (validLexemes_append.trans
    (and_congr_left' validLexemes_append)).1 hbootstrap
  unfold configLexemes
  simp only [validLexemes_append]
  exact ⟨hidentity, hdatastore, hswarm, validLexemes_strings h.swarm, haddresses, hservices, hboot,
    validLexemes_strings h.bootstrap, htour, hgateway, validLexemes_headers h.headers, hend⟩

/-! ## the members of the object -/

def stringMember (key : String) (text : List UInt8) : Members → Members :=
  .member [] (asciiBytes key) (.leaf (.string text))

def primitiveMember (key : String) (text : List UInt8) : Members → Members :=
  .member [] (asciiBytes key) (.leaf (.primitive text))

def stringsMember (key : String) (texts : List (List UInt8)) : Members → Members :=
  .member [] (asciiBytes key) (.strings texts)

def objectMember (key : String) (members : Members) : Members → Members :=
  .member [] (asciiBytes key) (.object members)

def identityMember (id key : List UInt8) : Members → Members :=
  objectMember "Identity" (stringMember "PeerID" id (stringMember "PrivKey" key .nil))

def datastoreMember (path : List UInt8) : Members → Members :=
  objectMember "Datastore"
    (stringMember "Type" (asciiBytes "lmdb")
      (stringMember "Path" path
        (stringMember "StorageMax" (asciiBytes "10GB")
          (primitiveMember "StorageGCWatermark" (intText 90)
            (stringMember "GCPeriod" (asciiBytes "1h")
              (primitiveMember "Params" (asciiBytes "null")
                (primitiveMember "NoSync" (asciiBytes "false")
                  (primitiveMember "HashOnRead" (asciiBytes "false")
                    (primitiveMember "BloomFilterSize" (intText 0) .nil)))))))))

def addressesMember (swarm : List (List UInt8)) (api gateway : List UInt8) : Members → Members :=
  objectMember "Addresses"
    (stringsMember "Swarm" swarm (stringMember "API" api (stringMember "Gateway" gateway .nil)))

def servicesMembers (rest : Members) : Members :=
  objectMember "Mounts"
    (stringMember "IPFS" (asciiBytes "/ipfs")
      (stringMember "IPNS" (asciiBytes "/ipns")
        (primitiveMember "FuseAllowOther" (asciiBytes "false") .nil)))
    (objectMember "Discovery"
      (objectMember "MDNS"
        (primitiveMember "Enabled" (asciiBytes "true")
          (primitiveMember "Interval" (intText 10) .nil)) .nil)
      (objectMember "Ipns"
        (stringMember "RepublishedPeriod" []
          (stringMember "RecordLifetime" []
            (primitiveMember "ResolveCacheSize" (intText 128) .nil))) rest))

def headersMembers : List HttpHeader → Members
  | [] => .nil
  | h :: headers => .member [] h.header (.strings [h.value]) (headersMembers headers)

/-- two members of the gateway lack their comma -/
def gatewayMember (headers : List HttpHeader) : Members → Members :=
  objectMember "Gateway"
    (objectMember "HTTPHeaders" (headersMembers headers)
      (.member
        [(asciiBytes "RootRedirect", .string []),
         (asciiBytes "Writable", .primitive (asciiBytes "false"))]
        (asciiBytes "PathPrefixes") (.strings []) .nil))

def endMembers : Members :=
  objectMember "SupernodeRouting" (primitiveMember "Servers" (asciiBytes "null") .nil)
    (objectMember "API" (primitiveMember "HTTPHeaders" (asciiBytes "null") .nil)
      (objectMember "Swarm" (primitiveMember "AddrFilters" (asciiBytes "null") .nil) .nil))

def configMembers (c : ConfigTexts) : Members :=
  identityMember c.id c.key (datastoreMember c.path (addressesMember c.swarm c.api c.gateway
    (servicesMembers (stringsMember "Bootstrap" c.bootstrap
      (objectMember "Tour" (stringMember "Last" [] .nil) (gatewayMember c.headers endMembers))))))

theorem dense_strings (texts : List (List UInt8)) :
    dense (stringsLexemes texts) = stringLexemes false texts := by
  induction texts using stringsLexemes.induct with
  | case1 => rfl
  | case2 text => rfl
  | case3 text next texts ih =>
    unfold stringsLexemes
    rw [dense_append, dense_append, ih]
    rfl

/-- behind the last header, the object of them is closed -/
theorem dense_headers {headers : List HttpHeader} (h : headers ≠ []) :
    dense (headersLexemes headers) =
      (headersMembers headers).lexemes false ++ [.closing .object, .comma] := by
  induction headers using headersLexemes.induct with
  | case1 => exact absurd rfl h
  | case2 h => rfl
  | case3 h next headers ih =>
    unfold headersLexemes
    rw [dense_append, dense_append, ih (List.cons_ne_nil _ _)]
    rfl

set_option maxRecDepth 2000 in
theorem dense_config {c : ConfigTexts} (h : c.headers ≠ []) :
    dense (configLexemes c) = (Json.object (configMembers c)).lexemes := by
  unfold configLexemes
  rw [dense_append, dense_append, dense_append, dense_append, dense_append, dense_append,
    dense_append, dense_append, dense_append, dense_append, dense_append, dense_strings,
    dense_strings, dense_headers h]
  simp only [configMembers, identityMember, datastoreMember, addressesMember, servicesMembers,
    gatewayMember, endMembers, objectMember, stringMember, stringsMember, primitiveMember,
    Json.lexemes, Members.lexemes, looseLexemes, List.append_assoc, List.cons_append,
    List.nil_append]
  rfl

/-! ## counts -/

section
variable {ls ms : List Lexeme} {c : ConfigTexts}

def lexemeSum (f : Lexeme → Nat) (ls : List Lexeme) : Nat := (ls.map f).sum

theorem lexemeSum_append (f : Lexeme → Nat) (ls ms : List Lexeme) :
    lexemeSum f (ls ++ ms) = lexemeSum f ls + lexemeSum f ms := by
  unfold lexemeSum
  rw [List.map_append, List.sum_append]

/-- every string of a list counts the same -/
theorem lexemeSum_strings {f : Lexeme → Nat} {k : Nat} (hstring : ∀ text, f (.string text) = k)
    (hspace : ∀ c, f (.space c) = 0) (hcomma : f .comma = 0) (texts : List (List UInt8)) :
    lexemeSum f (stringsLexemes texts) = k * texts.length := by
  induction texts using stringsLexemes.induct with
  | case1 => rfl
  | case2 text => simp [lexemeSum, stringsLexemes, lineEnd, hstring, hspace]
  | case3 text next texts ih =>
    unfold stringsLexemes
    rw [lexemeSum_append, lexemeSum_append, ih, List.length_cons (a := text), Nat.mul_succ]
    simp [lexemeSum, lineEnd, hstring, hspace, hcomma]
    omega

/-- a header is a key, an array and a string in it -/
theorem tokens_headers (headers : List HttpHeader) :
    lexemeSum Lexeme.tokens (headersLexemes headers) = 3 * headers.length := by
  induction headers using headersLexemes.induct with
  | case1 => rfl
  | case2 h =>
    simp [lexemeSum, headersLexemes, headerLexemes, closingLine, lineEnd, Lexeme.tokens]
  | case3 h next headers ih =>
    have hheader : lexemeSum Lexeme.tokens (headerLexemes h) = 3 := by
      simp [lexemeSum, headerLexemes, Lexeme.tokens]
    have hend : lexemeSum Lexeme.tokens (lineEnd true) = 0 := rfl
    unfold headersLexemes
    rw [lexemeSum_append, lexemeSum_append, ih, hheader, hend, List.length_cons (a := h)]
    omega

theorem lexemeSum_config (f : Lexeme → Nat) (c : ConfigTexts) :
    lexemeSum f (configLexemes c) =
      lexemeSum f (identityLexemes c.id c.key) + (lexemeSum f (datastoreLexemes c.path) +
        (lexemeSum f swarmLexemes + (lexemeSum f (stringsLexemes c.swarm) +
          (lexemeSum f (addressesLexemes c.api c.gateway) + (lexemeSum f servicesLexemes +
            (lexemeSum f bootstrapLexemes + (lexemeSum f (stringsLexemes c.bootstrap) +
              (lexemeSum f tourLexemes + (lexemeSum f gatewayLexemes +
                (lexemeSum f (headersLexemes c.headers) + lexemeSum f endLexemes)))))))))) := by
  unfold configLexemes
  simp only [lexemeSum_append]

/-- the tokens of a file -/
def ConfigTexts.tokens (c : ConfigTexts) : Nat :=
  87 + c.swarm.length + c.bootstrap.length + 3 * c.headers.length

theorem tokens_config (c : ConfigTexts) :
    lexemeSum Lexeme.tokens (configLexemes c) = c.tokens := by
  have hstrings : ∀ texts, lexemeSum Lexeme.tokens (stringsLexemes texts) = 1 * texts.length :=
    lexemeSum_strings (fun _ => rfl) (fun _ => rfl) rfl
  rw [lexemeSum_config, hstrings, hstrings, tokens_headers]
  simp only [lexemeSum, identityLexemes, datastoreLexemes, swarmLexemes, addressesLexemes,
    servicesLexemes, bootstrapLexemes, tourLexemes, gatewayLexemes, endLexemes, keyLexemes,
    stringLine, primitiveLine, openingLine, closingLine, lineEnd, Lexeme.tokens,
    List.flatten_cons, List.flatten_nil, List.map_append, List.map_cons, List.map_nil,
    List.map_replicate, List.sum_append, List.sum_cons, List.sum_nil, List.sum_replicate_nat,
    if_true, if_false, Bool.false_eq_true]
  unfold ConfigTexts.tokens
  omega

/-- **without a header** one bracket is not closed -/
theorem openings_config (h : c.headers = []) :
    lexemeSum Lexeme.openings (configLexemes c) =
      lexemeSum Lexeme.closings (configLexemes c) + 1 := by
  have hopen : ∀ texts, lexemeSum Lexeme.openings (stringsLexemes texts) = 0 * texts.length :=
    lexemeSum_strings (fun _ => rfl) (fun _ => rfl) rfl
  have hclose : ∀ texts, lexemeSum Lexeme.closings (stringsLexemes texts) = 0 * texts.length :=
    lexemeSum_strings (fun _ => rfl) (fun _ => rfl) rfl
  rw [lexemeSum_config, lexemeSum_config, hopen, hopen, hclose, hclose, h]
  simp [lexemeSum, identityLexemes, datastoreLexemes, swarmLexemes, addressesLexemes,
    servicesLexemes, bootstrapLexemes, tourLexemes, gatewayLexemes, headersLexemes, endLexemes,
    keyLexemes, stringLine, primitiveLine, openingLine, closingLine, lineEnd, Lexeme.openings,
    Lexeme.closings]

end

/-! ## the size -/

section
variable {ls : List Lexeme}

theorem lexemeSum_flatten (f : Lexeme → Nat) (lines : List (List Lexeme)) :
    lexemeSum f lines.flatten = (lines.map (lexemeSum f)).sum := by
  induction lines with
  | nil => rfl
  | cons line lines ih => rw [List.flatten_cons, lexemeSum_append, ih, List.map_cons, List.sum_cons]

def Lexeme.size (l : Lexeme) : Nat := (l.write []).length

theorem Lexeme.length_write (l : Lexeme) (rest : List UInt8) :
    (l.write rest).length = l.size + rest.length := by
  cases l with
  | string text =>
    simp [Lexeme.size, Lexeme.write]
    omega
  | primitive text behind =>
    simp [Lexeme.size, Lexeme.write]
    omega
  | space c => exact Nat.add_comm _ _
  | opening type => exact Nat.add_comm _ _
  | closing type => exact Nat.add_comm _ _
  | colon => exact Nat.add_comm _ _
  | comma => exact Nat.add_comm _ _

theorem length_writeLexemes (ls : List Lexeme) :
    (writeLexemes ls []).length = lexemeSum Lexeme.size ls := by
  induction ls with
  | nil => rfl
  | cons l ls ih =>
    show (l.write (writeLexemes ls [])).length = l.size + lexemeSum Lexeme.size ls
    rw [l.length_write, ih]

theorem size_strings (texts : List (List UInt8)) :
    lexemeSum Lexeme.size (stringsLexemes texts) =
      (texts.map fun text => text.length + 6).sum - 1 := by
  induction texts using stringsLexemes.induct with
  | case1 => rfl
  | case2 text =>
    simp [lexemeSum, stringsLexemes, lineEnd, Lexeme.size, Lexeme.write]
    omega
  | case3 text next texts ih =>
    unfold stringsLexemes
    rw [lexemeSum_append, lexemeSum_append, ih, List.map_cons (a := text), List.sum_cons,
      List.map_cons, List.sum_cons]
    simp [lexemeSum, lineEnd, Lexeme.size, Lexeme.write]
    omega

/-- with the comma behind every header but the last, and the bracket behind that -/
theorem size_headers (headers : List HttpHeader) :
    lexemeSum Lexeme.size (headersLexemes headers) =
      (headers.map fun h => h.header.length + h.value.length + 21).sum +
        if headers = [] then 0 else 3 := by
  have hheader : ∀ h, lexemeSum Lexeme.size (headerLexemes h) =
      h.header.length + h.value.length + 19 := by
    intro h
    simp [lexemeSum, headerLexemes, Lexeme.size, Lexeme.write]
    omega
  induction headers using headersLexemes.induct with
  | case1 => rfl
  | case2 h =>
    unfold headersLexemes
    rw [lexemeSum_append, hheader]
    simp [lexemeSum, closingLine, lineEnd, Lexeme.size, Lexeme.write]
  | case3 h next headers ih =>
    unfold headersLexemes
    rw [lexemeSum_append, lexemeSum_append, ih, hheader]
    simp [lexemeSum, lineEnd, Lexeme.size, Lexeme.write]
    omega

theorem size_stringLine (indent : Nat) (key : String) (text : List UInt8) (comma : Bool) :
    lexemeSum Lexeme.size (stringLine indent key text comma) =
      lexemeSum Lexeme.size (stringLine indent key [] comma) + text.length := by
  unfold stringLine
  rw [lexemeSum_append, lexemeSum_append]
  simp [lexemeSum, Lexeme.size, Lexeme.write]
  omega

theorem size_identity (id key : List UInt8) :
    lexemeSum Lexeme.size (identityLexemes id key) = 53 + id.length + key.length := by
  have hempty : lexemeSum Lexeme.size (identityLexemes [] []) = 53 := by decide
  rw [← hempty]
  unfold identityLexemes
  simp only [lexemeSum_flatten, List.map_cons, List.sum_cons, List.map_nil, List.sum_nil,
    size_stringLine 2 "PeerID" id, size_stringLine 2 "PrivKey" key]
  omega

theorem size_datastore (path : List UInt8) :
    lexemeSum Lexeme.size (datastoreLexemes path) = 203 + path.length := by
  have hempty : lexemeSum Lexeme.size (datastoreLexemes []) = 203 := by decide
  rw [← hempty]
  unfold datastoreLexemes
  simp only [lexemeSum_flatten, List.map_cons, List.sum_cons, List.map_nil, List.sum_nil,
    size_stringLine 2 "Path" path]
  omega

theorem size_addresses (api gateway : List UInt8) :
    lexemeSum Lexeme.size (addressesLexemes api gateway) = 34 + api.length + gateway.length := by
  have hempty : lexemeSum Lexeme.size (addressesLexemes [] []) = 34 := by decide
  rw [← hempty]
  unfold addressesLexemes
  simp only [lexemeSum_flatten, List.map_cons, List.sum_cons, List.map_nil, List.sum_nil,
    size_stringLine 2 "API" api, size_stringLine 2 "Gateway" gateway]
  omega

/-- the bytes of a file -/
def ConfigTexts.fileSize (c : ConfigTexts) : Nat :=
  842 + (c.id.length + c.key.length) + c.path.length + (c.api.length + c.gateway.length) +
    ((c.swarm.map fun text => text.length + 6).sum - 1) +
    ((c.bootstrap.map fun text => text.length + 6).sum - 1) +
    ((c.headers.map fun h => h.header.length + h.value.length + 21).sum +
      if c.headers = [] then 0 else 3)

/-- **the bytes of a file** -/
theorem length_config (c : ConfigTexts) :
    (writeLexemes (configLexemes c) []).length = c.fileSize := by
  have hfixed : lexemeSum Lexeme.size swarmLexemes + (lexemeSum Lexeme.size servicesLexemes +
      (lexemeSum Lexeme.size bootstrapLexemes + (lexemeSum Lexeme.size tourLexemes +
        (lexemeSum Lexeme.size gatewayLexemes + lexemeSum Lexeme.size endLexemes)))) = 552 := by
    decide +kernel
  rw [length_writeLexemes, lexemeSum_config, size_strings, size_strings, size_headers,
    size_identity, size_datastore, size_addresses]
  unfold ConfigTexts.fileSize
  omega

end

/-! ## the tokens -/

section
variable {c : ConfigTexts} {ls : List Lexeme}

/-- there is no zero byte in the file -/
theorem writeLexemes_ne_zero (h : ValidLexemes ls) : 0 ∉ writeLexemes ls [] := by
  induction ls with
  | nil => exact List.not_mem_nil
  | cons l ls ih =>
    obtain ⟨hl, hls⟩ := validLexemes_cons.1 h
    have hrest := ih hls
    show 0 ∉ l.write (writeLexemes ls [])
    cases l with
    | space c =>
      obtain rfl | rfl : c = 32 ∨ c = 10 := hl
      · simpa [Lexeme.write] using hrest
      · simpa [Lexeme.write] using hrest
    | opening type =>
      obtain rfl | rfl : type = .object ∨ type = .array := hl
      · simpa [Lexeme.write] using hrest
      · simpa [Lexeme.write] using hrest
    | closing type =>
      obtain rfl | rfl : type = .object ∨ type = .array := hl
      · simpa [Lexeme.write] using hrest
      · simpa [Lexeme.write] using hrest
    | string text =>
      have htext : 0 ∉ text := JsonText.ne_zero hl
      simpa [Lexeme.write, htext] using hrest
    | primitive text behind =>
      obtain ⟨⟨-, htext⟩, hbehind⟩ : PrimitiveText text ∧ (behind = 10 ∨ behind = 44) := hl
      have hzero : 0 ∉ text := fun hmem => absurd (htext 0 hmem) (by decide)
      obtain rfl | rfl := hbehind
      · simpa [Lexeme.write, hzero] using hrest
      · simpa [Lexeme.write, hzero] using hrest
    | colon => simpa [Lexeme.write] using hrest
    | comma => simpa [Lexeme.write] using hrest

theorem length_headersMembers (headers : List HttpHeader) :
    (headersMembers headers).tokens.length = 3 * headers.length := by
  induction headers with
  | nil => rfl
  | cons h headers ih =>
    have htokens : (headersMembers (h :: headers)).tokens =
        [stringTok h.header 1, { type := .array, size := 1 }, stringTok h.value 0] ++
          (headersMembers headers).tokens := rfl
    rw [htokens, List.length_append, ih, List.length_cons (a := h), Nat.mul_succ, Nat.add_comm]
    rfl

theorem length_configMembers (c : ConfigTexts) :
    (Json.object (configMembers c)).tokens.length = c.tokens := by
  simp only [configMembers, identityMember, datastoreMember, addressesMember, servicesMembers,
    gatewayMember, endMembers, objectMember, stringMember, stringsMember, primitiveMember,
    Json.tokens, Members.tokens, List.length_append, List.length_cons, List.length_nil,
    List.length_map, length_headersMembers, length_looseTokens, ConfigTexts.tokens]
  omega

/-- **the tokens of the file** -/
theorem jsmnParse_config (h : c.Json) (hheaders : c.headers ≠ []) (hroom : c.tokens ≤ 256) :
    jsmnParse 256 (writeLexemes (configLexemes c) []) =
      .ok (Json.object (configMembers c)).tokens :=
  jsmnParse_object (validLexemes_config h) (dense_config hheaders)
    (by rw [length_configMembers]; exact hroom)

/-- what a file that is tokenised comes down to -/
theorem config_of_jsmnParse {tokens : List JsmnTok} (h : c.Json)
    (hparse : jsmnParse 256 (writeLexemes (configLexemes c) []) = .ok tokens) :
    c.headers ≠ [] ∧ c.tokens ≤ 256 := by
  obtain ⟨hroom, hclosed⟩ := jsmnParse_counts (validLexemes_config h) hparse
  refine ⟨fun hnone => ?_, ?_⟩
  · have hopen := openings_config hnone
    unfold lexemeSum at hopen
    omega
  · rw [← tokens_config]
    exact hroom

/-! ### a file that is cut off -/

theorem staysOpen_strings {depth : Nat} (hpos : 0 < depth) (texts : List (List UInt8)) :
    staysOpen depth (stringsLexemes texts) = some depth := by
  obtain ⟨depth, rfl⟩ := Nat.exists_eq_add_of_lt hpos
  rw [Nat.zero_add]
  induction texts using stringsLexemes.induct with
  | case1 => rfl
  | case2 text => rfl
  | case3 text next texts ih =>
    unfold stringsLexemes
    rw [staysOpen_append]
    exact ih

theorem staysOpen_headers (headers : List HttpHeader) :
    staysOpen 3 (headersLexemes headers) = some (if headers = [] then 3 else 2) := by
  induction headers using headersLexemes.induct with
  | case1 => rfl
  | case2 h => rfl
  | case3 h next headers ih =>
    unfold headersLexemes
    rw [staysOpen_append]
    exact ih

set_option maxRecDepth 2000 in
/-- the brace of the first line is closed by the last one -/
theorem staysOpen_config (c : ConfigTexts) : ∃ ls depth,
    configLexemes c = .opening .object :: (ls ++ [.closing .object]) ∧
      staysOpen 1 ls = some depth := by
  refine ⟨(identityLexemes c.id c.key).tail ++ (datastoreLexemes c.path ++ (swarmLexemes ++
    (stringsLexemes c.swarm ++ (addressesLexemes c.api c.gateway ++ (servicesLexemes ++
      (bootstrapLexemes ++ (stringsLexemes c.bootstrap ++ (tourLexemes ++ (gatewayLexemes ++
        (headersLexemes c.headers ++ endLexemes.dropLast)))))))))),
    (if c.headers = [] then 3 else 2) - 1, ?_, ?_⟩
  · have hend : endLexemes = endLexemes.dropLast ++ [.closing .object] := rfl
    unfold configLexemes
    rw [hend]
    simp only [List.append_assoc]
    rfl
  · have hidentity : staysOpen 1 (identityLexemes c.id c.key).tail = some 1 := rfl
    have hdatastore : staysOpen 1 (datastoreLexemes c.path) = some 2 := rfl
    have hswarm : staysOpen 2 swarmLexemes = some 3 := rfl
    have haddresses : staysOpen 3 (addressesLexemes c.api c.gateway) = some 2 := rfl
    have hservices : staysOpen 2 servicesLexemes = some 2 := rfl
    have hbootstrap : staysOpen 2 bootstrapLexemes = some 2 := rfl
    have htour : staysOpen 2 tourLexemes = some 1 := rfl
    have hgateway : staysOpen 1 gatewayLexemes = some 3 := rfl
    have hend : ∀ depth, 2 ≤ depth → staysOpen depth endLexemes.dropLast = some (depth - 1) := by
      intro depth hdepth
      obtain ⟨depth, rfl⟩ := Nat.exists_eq_add_of_le' hdepth
      rfl
    simp only [staysOpen_append, Option.bind_some, hidentity, hdatastore, hswarm,
      staysOpen_strings (Nat.succ_pos _), haddresses, hservices, hbootstrap, htour, hgateway,
      staysOpen_headers]
    exact hend _ (by split <;> decide)

/-- **a file that is cut off** is not tokenised -/
theorem config_of_cut {tokens : List JsmnTok} {cut : List UInt8} (h : c.Json)
    (hcut : cut <+: writeLexemes (configLexemes c) [])
    (hparse : jsmnParse 256 cut = .ok tokens) (htokens : tokens ≠ []) :
    cut = writeLexemes (configLexemes c) [] := by
  have hvalid := validLexemes_config h
  obtain ⟨ls, depth, hls, hopen⟩ := staysOpen_config c
  have hwrite : writeLexemes (configLexemes c) [] =
      writeLexemes (.opening .object :: ls) [] ++ [125] := by
    rw [hls, ← List.cons_append, writeLexemes_append]
    exact writeLexemes_eq _ _
  rw [hls, ← List.cons_append] at hvalid
  rw [hwrite] at hcut ⊢
  obtain hwhole | hfront := List.prefix_concat_iff.1 hcut
  · exact hwhole
  · exact absurd (jsmnParse_cut (validLexemes_append.1 hvalid).1 hopen hfront hparse) htokens

end

end Ipfs
