import Libipfs.Repo.Jsmn

/-!
# The tokens of an object

What `jsmn_parse` makes of a text that has the shape of an object, however it is laid out.  It is
not strict: a member that lacks its comma is still found, and counted below the key before it.

* `dense`               the pieces of a text without white space;
* `Json`, `Members`     leaves, arrays of strings, and objects of these;
* `Members.reads`       the members of an object, one after the other;
* `jsmnParse_object`    **the tokens of an object**.
-/

set_option linter.unusedVariables false

namespace Ipfs
open CSem

/-! ## white space -/

/-- without the spaces, the comma behind a primitive for itself -/
def dense : List Lexeme → List Lexeme
  | [] => []
  | .space _ :: ls => dense ls
  | .primitive text behind :: ls =>
    .primitive text 10 :: if behind = 44 then .comma :: dense ls else dense ls
  | l :: ls => l :: dense ls

section
variable {n : Nat} {p : JsmnParser} {ls ms : List Lexeme}

theorem readLexemes_dense (ls : List Lexeme) (p : JsmnParser) :
    readLexemes n (dense ls) p = readLexemes n ls p := by
  induction ls generalizing p with
  | nil => rfl
  | cons l ls ih =>
    have hcons : ∀ l : Lexeme, readLexemes n (l :: dense ls) p = readLexemes n (l :: ls) p := by
      intro l
      show l.read n p >>= readLexemes n (dense ls) = l.read n p >>= readLexemes n ls
      rw [show readLexemes n (dense ls) = readLexemes n ls from funext ih]
    cases l with
    | space c => exact ih p
    | primitive text behind =>
      show readLexemes n (.primitive text 10 :: if behind = 44 then .comma :: dense ls
        else dense ls) p = readLexemes n (.primitive text behind :: ls) p
      show (jsmnAllocToken n { type := .primitive, text := text } p).map _ >>= _ =
        (jsmnAllocToken n { type := .primitive, text := text } p).map _ >>= readLexemes n ls
      cases jsmnAllocToken n { type := .primitive, text := text } p with
      | error e => rfl
      | ok q =>
        by_cases hb : behind = 44
        · show readLexemes n (if behind = 44 then .comma :: dense ls else dense ls) q =
            readLexemes n ls (if behind = 44 then jsmnComma q else q)
          rw [if_pos hb, if_pos hb]
          exact ih (jsmnComma q)
        · show readLexemes n (if behind = 44 then .comma :: dense ls else dense ls) q =
            readLexemes n ls (if behind = 44 then jsmnComma q else q)
          rw [if_neg hb, if_neg hb]
          exact ih q
    | opening type => exact hcons _
    | closing type => exact hcons _
    | string text => exact hcons _
    | colon => exact hcons _
    | comma => exact hcons _

theorem dense_append (ls ms : List Lexeme) : dense (ls ++ ms) = dense ls ++ dense ms := by
  induction ls with
  | nil => rfl
  | cons l ls ih =>
    cases l with
    | space c => exact ih
    | primitive text behind =>
      show Lexeme.primitive text 10 :: (if behind = 44 then .comma :: dense (ls ++ ms)
        else dense (ls ++ ms)) =
        .primitive text 10 :: ((if behind = 44 then .comma :: dense ls else dense ls) ++ dense ms)
      rw [ih]
      split
      · rfl
      · rfl
    | opening type => exact congrArg (Lexeme.opening type :: ·) ih
    | closing type => exact congrArg (Lexeme.closing type :: ·) ih
    | string text => exact congrArg (Lexeme.string text :: ·) ih
    | colon => exact congrArg (Lexeme.colon :: ·) ih
    | comma => exact congrArg (Lexeme.comma :: ·) ih

end

/-! ## objects -/

/-- a value without brackets -/
inductive Leaf where
  | string (text : List UInt8)
  | primitive (text : List UInt8)

def stringTok (text : List UInt8) (size : Nat) : JsmnTok :=
  { type := .string, text := text, size := size }

def primitiveTok (text : List UInt8) : JsmnTok := { type := .primitive, text := text }

def Leaf.lexeme : Leaf → Lexeme
  | .string text => .string text
  | .primitive text => .primitive text 10

def Leaf.tok : Leaf → JsmnTok
  | .string text => stringTok text 0
  | .primitive text => primitiveTok text

mutual
inductive Json where
  | leaf (value : Leaf)
  | strings (texts : List (List UInt8))
  | object (members : Members)

/-- a member, with those in front of it that lack the comma behind them -/
inductive Members where
  | nil
  | member (loose : List (List UInt8 × Leaf)) (key : List UInt8) (value : Json) (rest : Members)
end

/-- a comma in front of every string but the first -/
def stringLexemes : Bool → List (List UInt8) → List Lexeme
  | _, [] => []
  | true, text :: texts => .comma :: .string text :: stringLexemes true texts
  | false, text :: texts => .string text :: stringLexemes true texts

/-- the members that lack their comma, and the key behind them -/
def looseLexemes : List (List UInt8 × Leaf) → List UInt8 → List Lexeme
  | [], key => [.string key, .colon]
  | (k, value) :: loose, key => .string k :: .colon :: value.lexeme :: looseLexemes loose key

mutual
def Json.lexemes : Json → List Lexeme
  | .leaf value => [value.lexeme]
  | .strings texts => .opening .array :: (stringLexemes false texts ++ [.closing .array])
  | .object members => .opening .object :: (members.lexemes false ++ [.closing .object])

/-- a comma in front of every member but the first -/
def Members.lexemes : Members → Bool → List Lexeme
  | .nil, _ => []
  | .member loose key value rest, comma =>
    (if comma then [.comma] else []) ++
      (looseLexemes loose key ++ (value.lexemes ++ rest.lexemes true))
end

/-- the key behind a value is counted below the key of it -/
def looseTokens (loose : List (List UInt8 × Leaf)) : List JsmnTok :=
  loose.flatMap fun (k, value) => [stringTok k 2, value.tok]

/-- the members that are counted below the object -/
def Members.size : Members → Nat
  | .nil => 0
  | .member _ _ _ rest => rest.size + 1

mutual
def Json.tokens : Json → List JsmnTok
  | .leaf value => [value.tok]
  | .strings texts =>
    { type := .array, size := texts.length } :: texts.map fun text => stringTok text 0
  | .object members => { type := .object, size := members.size } :: members.tokens

def Members.tokens : Members → List JsmnTok
  | .nil => []
  | .member loose key value rest =>
    looseTokens loose ++ stringTok key 1 :: (value.tokens ++ rest.tokens)
end

/-! ## the last token that is open -/

section
variable {n : Nat} {before tokens us : List JsmnTok} {t : JsmnTok} {super : Option Nat}

theorem lastOpened_closed (h : ∀ t ∈ us, t.opened = false) : lastOpened us = none := by
  induction us with
  | nil => rfl
  | cons t us ih =>
    unfold lastOpened
    rw [ih fun t ht => h t (List.mem_cons_of_mem _ ht), h t List.mem_cons_self]
    rfl

theorem lastOpened_append_closed (h : ∀ t ∈ us, t.opened = false) :
    lastOpened (tokens ++ us) = lastOpened tokens := by
  induction tokens with
  | nil => exact lastOpened_closed h
  | cons t tokens ih =>
    rw [List.cons_append, lastOpened, lastOpened, ih]

theorem lastOpened_concat (ht : t.opened = true) : lastOpened (before ++ [t]) = some before.length := by
  induction before with
  | nil =>
    show (if t.opened = true then some 0 else none) = _
    rw [if_pos ht]
    rfl
  | cons b before ih =>
    rw [List.cons_append, lastOpened, ih]
    rfl

/-- behind an open token there are only closed ones -/
theorem lastOpened_inside (ht : t.opened = true) (h : ∀ t ∈ us, t.opened = false) :
    lastOpened (before ++ t :: us) = some before.length := by
  rw [List.append_cons, lastOpened_append_closed h, lastOpened_concat ht]

theorem modify_length (f : JsmnTok → JsmnTok) :
    (before ++ t :: us).modify before.length f = before ++ f t :: us := by
  induction before with
  | nil => rfl
  | cons b before ih => exact congrArg (b :: ·) ih

theorem lastToken_concat (tokens : List JsmnTok) (t : JsmnTok) :
    lastToken (tokens ++ [t]) = some tokens.length := by
  unfold lastToken
  rw [if_neg (by simp), List.length_append, List.length_singleton, Nat.add_sub_cancel]

theorem jsmnAllocToken_pos (tok : JsmnTok) (h : tokens.length < n) :
    jsmnAllocToken n tok ⟨tokens, super⟩ =
      .ok ⟨countBelow super (tokens ++ [tok]), super⟩ := if_neg (Nat.not_le_of_lt h)

/-- a token below an open one, or below a key -/
theorem jsmnAllocToken_below (tok : JsmnTok) (h : before.length + 1 + us.length < n) :
    jsmnAllocToken n tok ⟨before ++ t :: us, some before.length⟩ =
      .ok ⟨before ++ { t with size := t.size + 1 } :: (us ++ [tok]), some before.length⟩ := by
  have hlen : (before ++ t :: us).length < n := by
    rw [List.length_append, List.length_cons]
    omega
  rw [jsmnAllocToken_pos tok hlen]
  show Except.ok (JsmnParser.mk (((before ++ t :: us) ++ [tok]).modify before.length _) _) = _
  rw [List.append_assoc, List.cons_append, modify_length]

end

/-! ## reading -/

theorem Leaf.tok_closed (value : Leaf) : value.tok.opened = false := by
  cases value with
  | string text => rfl
  | primitive text => rfl

theorem looseTokens_closed {loose : List (List UInt8 × Leaf)} {t : JsmnTok}
    (ht : t ∈ looseTokens loose) : t.opened = false := by
  obtain ⟨⟨k, value⟩, -, ht⟩ := List.mem_flatMap.1 ht
  obtain rfl | ht := List.mem_cons.1 ht
  · rfl
  · rw [List.mem_singleton.1 ht]
    exact value.tok_closed

mutual
theorem Json.tokens_closed : ∀ (v : Json), ∀ t ∈ v.tokens, t.opened = false
  | .leaf value, t, ht => by
    rw [List.mem_singleton.1 ht]
    exact value.tok_closed
  | .strings texts, t, ht => by
    obtain rfl | ht := List.mem_cons.1 ht
    · rfl
    · obtain ⟨text, -, rfl⟩ := List.mem_map.1 ht
      rfl
  | .object members, t, ht => by
    obtain rfl | ht := List.mem_cons.1 ht
    · rfl
    · exact members.tokens_closed t ht

theorem Members.tokens_closed : ∀ (ms : Members), ∀ t ∈ ms.tokens, t.opened = false
  | .nil, t, ht => by cases ht
  | .member loose key value rest, t, ht => by
    obtain ht | ht := List.mem_append.1 ht
    · exact looseTokens_closed ht
    obtain rfl | ht := List.mem_cons.1 ht
    · rfl
    obtain ht | ht := List.mem_append.1 ht
    · exact value.tokens_closed t ht
    · exact rest.tokens_closed t ht
end

/-- an object or an array that is open, and what is in it -/
def inside (type : JsmnType) (before : List JsmnTok) (size : Nat) (tokens : List JsmnTok) :
    List JsmnTok := before ++ { type := type, opened := true, size := size } :: tokens

/-- behind its key, a value leaves `toksuper` at the key or at what the key is in -/
def ReadsValue (n : Nat) (ls : List Lexeme) (tokens : List JsmnTok) : Prop :=
  ∀ (before : List JsmnTok) (key : List UInt8) (size : Nat), before.length + 1 + tokens.length ≤ n →
    ∃ super, readLexemes n ls ⟨before ++ [stringTok key size], some before.length⟩ =
        .ok ⟨before ++ stringTok key (size + 1) :: tokens, super⟩ ∧
      (super = some before.length ∨ super = lastOpened before)

section
variable {n size : Nat} {before us : List JsmnTok} {type : JsmnType} {texts : List (List UInt8)}
  {ls : List Lexeme} {super : Option Nat} {tokens : List JsmnTok}

/-- a comma in an array changes nothing -/
theorem jsmnComma_inside (htype : type = .array ∨ type = .object) :
    jsmnComma ⟨inside type before size us, some before.length⟩ =
      ⟨inside type before size us, some before.length⟩ := by
  have hget : (before ++ JsmnTok.mk type [] true size :: us)[before.length]? =
      some { type := type, opened := true, size := size } := by
    rw [List.getElem?_append_right (Nat.le_refl _), Nat.sub_self]
    rfl
  unfold jsmnComma inside
  dsimp only
  rw [Option.bind_some, hget]
  exact if_pos htype

/-- one comma more or less in front of a string -/
theorem readLexemes_comma (comma : Bool) (htype : type = .array ∨ type = .object) :
    readLexemes n ((if comma then [.comma] else []) ++ ls)
        ⟨inside type before size us, some before.length⟩ =
      readLexemes n ls ⟨inside type before size us, some before.length⟩ := by
  cases comma with
  | false => rfl
  | true =>
    show readLexemes n ls (jsmnComma _) = _
    rw [jsmnComma_inside htype]

theorem readLexemes_strings (comma : Bool) (h : before.length + 1 + us.length + texts.length ≤ n) :
    readLexemes n (stringLexemes comma texts) ⟨inside .array before size us, some before.length⟩ =
      .ok ⟨inside .array before (size + texts.length)
        (us ++ texts.map fun text => stringTok text 0), some before.length⟩ := by
  induction texts generalizing comma size us with
  | nil =>
    rw [List.map_nil, List.append_nil]
    cases comma with
    | false => rfl
    | true => rfl
  | cons text texts ih =>
    rw [List.length_cons] at h
    have hlexemes : stringLexemes comma (text :: texts) =
        (if comma then [.comma] else []) ++ .string text :: stringLexemes true texts := by
      cases comma with
      | false => rfl
      | true => rfl
    have halloc := @jsmnAllocToken_below n before us
      { type := .array, opened := true, size := size } (stringTok text 0) (by omega)
    have hrest := @ih (size + 1) (us ++ [stringTok text 0]) true
      (by rw [List.length_append, List.length_singleton]; omega)
    rw [hlexemes, readLexemes_comma comma (.inl rfl)]
    show jsmnAllocToken n (stringTok text 0) _ >>= _ = _
    unfold inside at hrest ⊢
    rw [halloc]
    show readLexemes n (stringLexemes true texts) _ = _
    rw [hrest, List.append_assoc, List.length_cons, Nat.add_right_comm]
    rfl

/-- what is read between two brackets is read behind a key -/
theorem ReadsValue.brackets (htype : type = .array ∨ type = .object)
    (hclosed : ∀ t ∈ tokens, t.opened = false)
    (h : ∀ before : List JsmnTok, before.length + 1 + tokens.length ≤ n → ∃ super,
      readLexemes n ls ⟨inside type before 0 [], some before.length⟩ =
        .ok ⟨inside type before size tokens, super⟩) :
    ReadsValue n (.opening type :: (ls ++ [.closing type]))
      ({ type := type, size := size } :: tokens) := by
  intro before key k hroom
  rw [List.length_cons] at hroom
  obtain ⟨super, hls⟩ := h (before ++ [stringTok key (k + 1)])
    (by rw [List.length_append, List.length_singleton]; omega)
  have hopen : jsmnOpen n type ⟨before ++ [stringTok key k], some before.length⟩ =
      .ok ⟨inside type (before ++ [stringTok key (k + 1)]) 0 [],
        some (before ++ [stringTok key (k + 1)]).length⟩ := by
    unfold jsmnOpen inside
    rw [@jsmnAllocToken_below n before [] (stringTok key k) _ (by rw [List.length_nil]; omega)]
    have hlast := lastToken_concat (before ++ [stringTok key (k + 1)])
      { type := type, opened := true }
    rw [← List.append_cons] at hlast
    show Except.ok (JsmnParser.mk (before ++ (stringTok key (k + 1) :: [_])) (lastToken
      (before ++ stringTok key (k + 1) :: [{ type := type, opened := true }]))) = _
    rw [hlast, List.append_cons]
  have hlast := @lastOpened_inside (before ++ [stringTok key (k + 1)]) tokens
    { type := type, opened := true, size := size } rfl hclosed
  have hclose : jsmnClose type ⟨inside type (before ++ [stringTok key (k + 1)]) size tokens, super⟩ =
      .ok ⟨before ++ stringTok key (k + 1) :: ({ type := type, size := size } :: tokens),
        lastOpened before⟩ := by
    unfold jsmnClose inside
    dsimp only
    rw [hlast]
    dsimp only
    rw [List.getElem?_append_right (Nat.le_refl _), Nat.sub_self, modify_length]
    have hrest : lastOpened ((before ++ [stringTok key (k + 1)]) ++
        ({ type := type, size := size } :: tokens)) = lastOpened before := by
      rw [List.append_assoc]
      refine lastOpened_append_closed fun t ht => ?_
      obtain rfl | ht := List.mem_cons.1 ht
      · rfl
      obtain rfl | ht := List.mem_cons.1 ht
      · rfl
      · exact hclosed t ht
    show (if some type = some type then _ else _) = _
    rw [if_pos rfl, hrest, ← List.append_cons]
  refine ⟨lastOpened before, ?_, .inr rfl⟩
  show jsmnOpen n type _ >>= readLexemes n (ls ++ [.closing type]) = _
  rw [hopen]
  show readLexemes n (ls ++ [.closing type]) _ = _
  rw [readLexemes_append, hls]
  show jsmnClose type _ >>= readLexemes n [] = _
  rw [hclose]
  rfl

/-- a key, with the value counted below it from then on -/
theorem readLexemes_key (key : List UInt8) (ls : List Lexeme)
    (h : before.length + 1 + us.length < n) :
    readLexemes n (.string key :: .colon :: ls) ⟨inside .object before size us, some before.length⟩ =
      readLexemes n ls ⟨inside .object before (size + 1) us ++ [stringTok key 0],
        some (inside .object before (size + 1) us).length⟩ := by
  have halloc := @jsmnAllocToken_below n before us
    { type := .object, opened := true, size := size } (stringTok key 0) h
  have hassoc : before ++ JsmnTok.mk .object [] true (size + 1) :: (us ++ [stringTok key 0]) =
      inside .object before (size + 1) us ++ [stringTok key 0] := by
    unfold inside
    rw [List.append_assoc]
    rfl
  show jsmnAllocToken n (stringTok key 0) _ >>= _ = _
  unfold inside at halloc ⊢
  rw [halloc]
  show readLexemes n ls ⟨_, lastToken _⟩ = _
  rw [hassoc, lastToken_concat]
  rfl

/-- a comma behind a value goes back to the object -/
theorem jsmnComma_key {key : List UInt8} {k : Nat} (hus : ∀ t ∈ us, t.opened = false)
    (htokens : ∀ t ∈ tokens, t.opened = false)
    (h : super = some (inside .object before size us).length ∨
      super = lastOpened (inside .object before size us)) :
    jsmnComma ⟨inside .object before size us ++ stringTok key k :: tokens, super⟩ =
      ⟨inside .object before size us ++ stringTok key k :: tokens, some before.length⟩ := by
  have hclosed : ∀ t ∈ us ++ stringTok key k :: tokens, t.opened = false := by
    intro t ht
    obtain ht | ht := List.mem_append.1 ht
    · exact hus t ht
    obtain rfl | ht := List.mem_cons.1 ht
    · rfl
    · exact htokens t ht
  have hall : inside .object before size us ++ stringTok key k :: tokens =
      inside .object before size (us ++ stringTok key k :: tokens) := by
    unfold inside
    rw [List.append_assoc]
    rfl
  obtain rfl | rfl := h
  · have hlast : lastOpened (inside .object before size (us ++ stringTok key k :: tokens)) =
        some before.length := lastOpened_inside rfl hclosed
    have hget : (inside .object before size us ++ stringTok key k :: tokens)[
        (inside .object before size us).length]? = some (stringTok key k) := by
      rw [List.getElem?_append_right (Nat.le_refl _), Nat.sub_self]
      rfl
    have hstring : ¬ ((stringTok key k).type = .array ∨ (stringTok key k).type = .object) := by
      rintro (h | h)
      · cases h
      · cases h
    unfold jsmnComma
    dsimp only
    rw [Option.bind_some, hget]
    dsimp only
    rw [if_neg hstring, hall, hlast]
  · have hlast : lastOpened (inside .object before size us) = some before.length :=
      lastOpened_inside rfl hus
    rw [hlast, hall]
    exact jsmnComma_inside (.inr rfl)

theorem readLexemes_ready {comma : Bool} {p : JsmnParser}
    (hready : jsmnComma p = ⟨p.tokens, some before.length⟩)
    (hfirst : comma = false → p.toksuper = some before.length) :
    readLexemes n ((if comma then [.comma] else []) ++ ls) p =
      readLexemes n ls ⟨p.tokens, some before.length⟩ := by
  cases comma with
  | true =>
    show readLexemes n ls (jsmnComma p) = _
    rw [hready]
  | false =>
    show readLexemes n ls p = _
    rw [← hfirst rfl]

end

/-- behind one comma more, the members are counted below their object -/
def ReadsMembers (n : Nat) (ms : Members) : Prop :=
  ∀ (before us : List JsmnTok) (size : Nat) (super : Option Nat) (comma : Bool),
    (∀ t ∈ us, t.opened = false) → before.length + 1 + us.length + ms.tokens.length ≤ n →
    jsmnComma ⟨inside .object before size us, super⟩ =
      ⟨inside .object before size us, some before.length⟩ →
    (comma = false → super = some before.length) →
    ∃ super', readLexemes n (ms.lexemes comma) ⟨inside .object before size us, super⟩ =
      .ok ⟨inside .object before (size + ms.size) (us ++ ms.tokens), super'⟩

/-- a value and the members behind it -/
theorem ReadsMembers.value {n size k : Nat} {before us : List JsmnTok} {key : List UInt8}
    {value : Json} {rest : Members} (hvalue : ReadsValue n value.lexemes value.tokens)
    (hrest : ReadsMembers n rest) (hus : ∀ t ∈ us, t.opened = false)
    (hroom : before.length + 1 + us.length + 1 + value.tokens.length + rest.tokens.length ≤ n) :
    ∃ super', readLexemes n (value.lexemes ++ rest.lexemes true)
        ⟨inside .object before size us ++ [stringTok key k],
          some (inside .object before size us).length⟩ =
      .ok ⟨inside .object before (size + rest.size)
        (us ++ stringTok key (k + 1) :: (value.tokens ++ rest.tokens)), super'⟩ := by
  have hlen : (inside .object before size us).length = before.length + 1 + us.length := by
    unfold inside
    rw [List.length_append, List.length_cons]
    omega
  obtain ⟨super, hread, hsuper⟩ := hvalue (inside .object before size us) key k (by omega)
  have hclosed : ∀ t ∈ us ++ stringTok key (k + 1) :: value.tokens, t.opened = false := by
    intro t ht
    obtain ht | ht := List.mem_append.1 ht
    · exact hus t ht
    obtain rfl | ht := List.mem_cons.1 ht
    · rfl
    · exact value.tokens_closed t ht
  have hcomma := @jsmnComma_key size before us super value.tokens key (k + 1) hus
    value.tokens_closed hsuper
  have hall : inside .object before size us ++ stringTok key (k + 1) :: value.tokens =
      inside .object before size (us ++ stringTok key (k + 1) :: value.tokens) := by
    unfold inside
    rw [List.append_assoc]
    rfl
  rw [hall] at hcomma hread
  obtain ⟨super', hread'⟩ := hrest before _ size super true hclosed
    (by rw [List.length_append, List.length_cons]; omega) hcomma (fun h => (nomatch h))
  refine ⟨super', ?_⟩
  rw [readLexemes_append, hread]
  show readLexemes n (rest.lexemes true) _ = _
  rw [hread', List.append_assoc, List.cons_append]

theorem Leaf.read (value : Leaf) (n : Nat) (p : JsmnParser) :
    value.lexeme.read n p = jsmnAllocToken n value.tok p := by
  cases value with
  | string text => rfl
  | primitive text =>
    show (jsmnAllocToken n (primitiveTok text) p).map _ = jsmnAllocToken n (primitiveTok text) p
    cases jsmnAllocToken n (primitiveTok text) p with
    | error e => rfl
    | ok q => rfl

/-- a value without a comma behind it, and the key that comes next -/
theorem readLexemes_loose_next {n size : Nat} {before us : List JsmnTok} (key : List UInt8)
    (value : Leaf) (next : List UInt8) (ls : List Lexeme)
    (h : before.length + 1 + us.length + 3 ≤ n) :
    readLexemes n (value.lexeme :: .string next :: .colon :: ls)
        ⟨inside .object before size us ++ [stringTok key 0],
          some (inside .object before size us).length⟩ =
      readLexemes n ls
        ⟨inside .object before size (us ++ [stringTok key 2, value.tok]) ++ [stringTok next 0],
          some (inside .object before size (us ++ [stringTok key 2, value.tok])).length⟩ := by
  have hlen : (inside .object before size us).length = before.length + 1 + us.length := by
    unfold inside
    rw [List.length_append, List.length_cons]
    omega
  have hvalue := @jsmnAllocToken_below n (inside .object before size us) [] (stringTok key 0)
    value.tok (by rw [List.length_nil]; omega)
  have hnext := @jsmnAllocToken_below n (inside .object before size us) [value.tok]
    (stringTok key 1) (stringTok next 0) (by rw [List.length_singleton]; omega)
  have hall : inside .object before size us ++
        stringTok key 2 :: ([value.tok] ++ [stringTok next 0]) =
      inside .object before size (us ++ [stringTok key 2, value.tok]) ++ [stringTok next 0] := by
    unfold inside
    simp only [List.append_assoc, List.cons_append, List.nil_append]
  show value.lexeme.read n _ >>= _ = _
  rw [value.read, hvalue]
  show jsmnAllocToken n (stringTok next 0) ⟨inside .object before size us ++
    stringTok key 1 :: [value.tok], some (inside .object before size us).length⟩ >>= _ = _
  rw [hnext]
  show readLexemes n ls ⟨inside .object before size us ++
    stringTok key 2 :: ([value.tok] ++ [stringTok next 0]), lastToken (inside .object before
      size us ++ stringTok key 2 :: ([value.tok] ++ [stringTok next 0]))⟩ = _
  rw [hall, lastToken_concat]

theorem length_looseTokens (loose : List (List UInt8 × Leaf)) :
    (looseTokens loose).length = 2 * loose.length := by
  induction loose with
  | nil => rfl
  | cons m loose ih =>
    show (looseTokens loose).length + 2 = 2 * (loose.length + 1)
    omega

/-- behind the first key, the members that lack their comma up to the last key -/
theorem readLexemes_loose_value {n size : Nat} {before us : List JsmnTok} (key : List UInt8)
    (value : Leaf) (loose : List (List UInt8 × Leaf)) (last : List UInt8) (ls : List Lexeme)
    (h : before.length + 1 + us.length + 3 + 2 * loose.length ≤ n) :
    readLexemes n (value.lexeme :: (looseLexemes loose last ++ ls))
        ⟨inside .object before size us ++ [stringTok key 0],
          some (inside .object before size us).length⟩ =
      readLexemes n ls
        ⟨inside .object before size (us ++ looseTokens ((key, value) :: loose)) ++
            [stringTok last 0],
          some (inside .object before size (us ++ looseTokens ((key, value) :: loose))).length⟩ := by
  induction loose generalizing us key value with
  | nil => exact readLexemes_loose_next key value last ls h
  | cons m loose ih =>
    obtain ⟨next, more⟩ := m
    rw [List.length_cons] at h
    have hrest := @ih (us ++ [stringTok key 2, value.tok]) next more
      (by rw [List.length_append, List.length_cons, List.length_singleton]; omega)
    show readLexemes n (value.lexeme :: .string next :: .colon ::
      (more.lexeme :: (looseLexemes loose last ++ ls))) _ = _
    rw [readLexemes_loose_next key value next _ (by omega), hrest, List.append_assoc]
    rfl

/-- the members that lack their comma, up to the key of the one behind them -/
theorem readLexemes_loose {n size : Nat} {before us : List JsmnTok}
    (loose : List (List UInt8 × Leaf)) (key : List UInt8) (ls : List Lexeme)
    (h : before.length + 1 + us.length + 1 + (looseTokens loose).length ≤ n) :
    readLexemes n (looseLexemes loose key ++ ls)
        ⟨inside .object before size us, some before.length⟩ =
      readLexemes n ls
        ⟨inside .object before (size + 1) (us ++ looseTokens loose) ++ [stringTok key 0],
          some (inside .object before (size + 1) (us ++ looseTokens loose)).length⟩ := by
  rw [length_looseTokens] at h
  cases loose with
  | nil =>
    rw [show looseTokens [] = [] from rfl, List.append_nil]
    exact readLexemes_key key ls (by omega)
  | cons m loose =>
    obtain ⟨k, value⟩ := m
    rw [List.length_cons] at h
    show readLexemes n (.string k :: .colon :: (value.lexeme :: (looseLexemes loose key ++ ls))) _ =
      _
    rw [readLexemes_key k _ (by omega)]
    exact readLexemes_loose_value k value loose key ls (by omega)

mutual
theorem Json.reads (n : Nat) : ∀ v : Json, ReadsValue n v.lexemes v.tokens
  | .leaf value => by
    intro before key size h
    have halloc := @jsmnAllocToken_below n before [] (stringTok key size) value.tok
      (by rw [List.length_nil]; exact h)
    refine ⟨some before.length, ?_, .inl rfl⟩
    show value.lexeme.read n _ >>= _ = _
    rw [value.read, halloc]
    rfl
  | .strings texts => by
    refine ReadsValue.brackets (.inl rfl) (fun t ht => ?_) (fun before h => ?_)
    · obtain ⟨text, -, rfl⟩ := List.mem_map.1 ht
      rfl
    · rw [List.length_map] at h
      have hread := @readLexemes_strings n 0 before [] texts false (by rw [List.length_nil]; omega)
      rw [Nat.zero_add, List.nil_append] at hread
      exact ⟨_, hread⟩
  | .object members => by
    refine ReadsValue.brackets (.inr rfl) members.tokens_closed (fun before h => ?_)
    obtain ⟨super, hread⟩ := members.reads n before [] 0 (some before.length) false
      (fun t ht => absurd ht List.not_mem_nil) (by rw [List.length_nil]; omega)
      (jsmnComma_inside (.inr rfl)) (fun _ => rfl)
    rw [Nat.zero_add, List.nil_append] at hread
    exact ⟨super, hread⟩

theorem Members.reads (n : Nat) : ∀ ms : Members, ReadsMembers n ms
  | .nil => by
    intro before us size super comma hus hroom hready hfirst
    refine ⟨super, ?_⟩
    show Except.ok _ = Except.ok (JsmnParser.mk (inside .object before size (us ++ [])) super)
    rw [List.append_nil]
  | .member loose key value rest => by
    intro before us size super comma hus hroom hready hfirst
    have htokens : (Members.member loose key value rest).tokens =
      looseTokens loose ++ stringTok key 1 :: (value.tokens ++ rest.tokens) := rfl
    rw [htokens, List.length_append, List.length_cons, List.length_append] at hroom
    have hclosed : ∀ t ∈ us ++ looseTokens loose, t.opened = false := fun t ht =>
      (List.mem_append.1 ht).elim (hus t) looseTokens_closed
    obtain ⟨super', hread⟩ := @ReadsMembers.value n (size + 1) 0 before
      (us ++ looseTokens loose) key value rest (value.reads n) (rest.reads n) hclosed
      (by rw [List.length_append]; omega)
    refine ⟨super', ?_⟩
    show readLexemes n ((if comma = true then [.comma] else []) ++
      (looseLexemes loose key ++ (value.lexemes ++ rest.lexemes true))) _ = _
    rw [readLexemes_ready hready hfirst]
    show readLexemes n (looseLexemes loose key ++ (value.lexemes ++ rest.lexemes true))
      ⟨inside .object before size us, some before.length⟩ = _
    rw [readLexemes_loose loose key _ (by omega), hread, htokens, List.append_assoc, Nat.add_assoc,
      Nat.add_comm 1]
    rfl
end

/-- **the tokens of an object**: itself, and those of its members -/
theorem jsmnParse_object {n : Nat} {ls : List Lexeme} {ms : Members} (hvalid : ∀ l ∈ ls, l.Valid)
    (hls : dense ls = (Json.object ms).lexemes) (hroom : (Json.object ms).tokens.length ≤ n) :
    jsmnParse n (writeLexemes ls []) = .ok (Json.object ms).tokens := by
  have htokens : (Json.object ms).tokens = { type := .object, size := ms.size } :: ms.tokens := rfl
  rw [htokens, List.length_cons] at hroom
  obtain ⟨super, hread⟩ := ms.reads n [] [] 0 (some 0) false
    (fun t ht => absurd ht List.not_mem_nil) (by rw [List.length_nil]; omega)
    (jsmnComma_inside (.inr rfl)) (fun _ => rfl)
  rw [Nat.zero_add, List.nil_append] at hread
  have hopen : jsmnOpen n .object {} = .ok ⟨inside .object [] 0 [], some 0⟩ := by
    unfold jsmnOpen
    rw [jsmnAllocToken_pos _ (by rw [List.length_nil]; omega)]
    rfl
  have hlast : lastOpened (inside .object [] ms.size ms.tokens) = some 0 :=
    lastOpened_inside rfl ms.tokens_closed
  have hclose : jsmnClose .object ⟨inside .object [] ms.size ms.tokens, super⟩ =
      .ok ⟨(Json.object ms).tokens, lastOpened (Json.object ms).tokens⟩ := by
    unfold jsmnClose
    dsimp only
    rw [hlast]
    rfl
  have hall : readLexemes n ls {} =
      .ok ⟨(Json.object ms).tokens, lastOpened (Json.object ms).tokens⟩ := by
    rw [← readLexemes_dense, hls]
    show jsmnOpen n .object {} >>= readLexemes n (ms.lexemes false ++ [.closing .object]) = _
    rw [hopen]
    show readLexemes n (ms.lexemes false ++ [.closing .object]) _ = _
    rw [readLexemes_append]
    rw [hread]
    show jsmnClose .object _ >>= readLexemes n [] = _
    rw [hclose]
    rfl
  have hclosed : (Json.object ms).tokens.any JsmnTok.opened = false :=
    List.any_eq_false.2 fun t ht => by
      rw [(Json.object ms).tokens_closed t ht]
      exact Bool.false_ne_true
  unfold jsmnParse
  rw [jsmnLoop_writeLexemes hvalid, hall]
  show (if (Json.object ms).tokens.any JsmnTok.opened = true then _ else _) = _
  rw [hclosed]
  rfl

end Ipfs
