import Libipfs.Lib.Exec
import Mathlib.Data.List.Basic

/-!
# The tokeniser of the config file

`jsmn_parse` goes over the text once and puts a token for every object, array, string and
primitive into an array of a fixed size.  A token counts the tokens directly below it; what comes
next counts below `toksuper`.

* `jsmnParseString`, `jsmnParsePrimitive`   the text of a token;
* `jsmnParse`             the loop, for a text up to its zero byte;
* `JsonText`              what a string can hold;
* `Lexeme`                the pieces that a text is written in, `jsmnLoop_writeLexemes` reads them;
* `jsmnParse_strings`     every string that is read is one that can be written;
* `jsmnParse_counts`      there is room for all tokens, and every bracket is closed;
* `jsmnParse_cut`         **nothing is found** in an object that is cut off.
-/

namespace Ipfs
open CSem

/-! ## tokens -/

inductive JsmnType where
  | object
  | array
  | string
  | primitive
  deriving DecidableEq, Repr

/-- the text from its start to its end stands for the two, and `opened` says that there is no end
yet; nobody reads the text of an object or an array -/
structure JsmnTok where
  type : JsmnType
  text : List UInt8 := []
  opened : Bool := false
  size : Nat := 0
  deriving DecidableEq, Repr

inductive JsmnErr where
  | nomem
  | inval
  | part
  deriving DecidableEq, Repr

/-- the tokens so far; `toksuper` is `none` for -1 -/
structure JsmnParser where
  tokens : List JsmnTok := []
  toksuper : Option Nat := none
  deriving DecidableEq, Repr

/-! ## the text of a token -/

def isHex (c : UInt8) : Bool :=
  (48 ≤ c ∧ c ≤ 57) ∨ (65 ≤ c ∧ c ≤ 70) ∨ (97 ≤ c ∧ c ≤ 102)

/-- a quote, a slash, a backslash, and b, f, r, n and t -/
def jsmnEscapes : List UInt8 := [34, 47, 92, 98, 102, 114, 110, 116]

/-- behind the quote: the text up to the next one, and what is behind that; escapes stay as they
are written -/
def jsmnParseString : List UInt8 → Except JsmnErr (List UInt8 × List UInt8)
  | [] => .error .part
  | c :: js =>
    if c = 34 then .ok ([], js)
    else if c = 92 then
      match js with
      | [] => .error .part
      | e :: js =>
        if e ∈ jsmnEscapes then
          (jsmnParseString js).map fun (text, rest) => (c :: e :: text, rest)
        else if e = 117 then
          match js with
          | h0 :: h1 :: h2 :: h3 :: js =>
            if [h0, h1, h2, h3].all isHex then
              (jsmnParseString js).map fun (text, rest) =>
                (c :: e :: h0 :: h1 :: h2 :: h3 :: text, rest)
            else .error .inval
          | short => if short.all isHex then .error .part else .error .inval
        else .error .inval
    else (jsmnParseString js).map fun (text, rest) => (c :: text, rest)

/-- a colon, white space, a comma or a closing bracket -/
def jsmnEnds (c : UInt8) : Bool :=
  c = 58 ∨ c = 9 ∨ c = 13 ∨ c = 10 ∨ c = 32 ∨ c = 44 ∨ c = 93 ∨ c = 125

def jsmnParsePrimitive : List UInt8 → Except JsmnErr (List UInt8)
  | [] => .ok []
  | c :: js =>
    if jsmnEnds c then .ok []
    else if c < 32 ∨ 127 ≤ c then .error .inval
    else (jsmnParsePrimitive js).map fun text => c :: text

/-! ## the loop -/

/-- one more token below `toksuper` -/
def countBelow (super : Option Nat) (tokens : List JsmnTok) : List JsmnTok :=
  match super with
  | none => tokens
  | some i => tokens.modify i fun t => { t with size := t.size + 1 }

def jsmnAllocToken (numTokens : Nat) (tok : JsmnTok) (p : JsmnParser) :
    Except JsmnErr JsmnParser :=
  if numTokens ≤ p.tokens.length then .error .nomem
  else .ok { p with tokens := countBelow p.toksuper (p.tokens ++ [tok]) }

/-- the index of the last token, -1 when there is none -/
def lastToken (tokens : List JsmnTok) : Option Nat :=
  if tokens = [] then none else some (tokens.length - 1)

/-- the last object or array that has no end yet -/
def lastOpened : List JsmnTok → Option Nat
  | [] => none
  | t :: tokens =>
    match lastOpened tokens with
    | some i => some (i + 1)
    | none => if t.opened then some 0 else none

def jsmnOpen (numTokens : Nat) (type : JsmnType) (p : JsmnParser) : Except JsmnErr JsmnParser :=
  (jsmnAllocToken numTokens { type := type, opened := true } p).map fun p =>
    { p with toksuper := lastToken p.tokens }

def jsmnClose (type : JsmnType) (p : JsmnParser) : Except JsmnErr JsmnParser :=
  match lastOpened p.tokens with
  | none => .error .inval
  | some i =>
    if (p.tokens[i]?).map JsmnTok.type = some type then
      let tokens := p.tokens.modify i fun t => { t with opened := false }
      .ok { tokens := tokens, toksuper := lastOpened tokens }
    else .error .inval

def jsmnColon (p : JsmnParser) : JsmnParser := { p with toksuper := lastToken p.tokens }

/-- back from a key to its object -/
def jsmnComma (p : JsmnParser) : JsmnParser :=
  match p.toksuper.bind fun i => p.tokens[i]? with
  | none => p
  | some t =>
    if t.type = .array ∨ t.type = .object then p
    else
      match lastOpened p.tokens with
      | none => p
      | some i => { p with toksuper := some i }

/-- what is done at a character, with how many of those behind it are skipped -/
def jsmnChar (numTokens : Nat) (c : UInt8) (js : List UInt8) (p : JsmnParser) :
    Except JsmnErr (Nat × JsmnParser) :=
  if c = 123 then (jsmnOpen numTokens .object p).map fun p => (0, p)
  else if c = 91 then (jsmnOpen numTokens .array p).map fun p => (0, p)
  else if c = 125 then (jsmnClose .object p).map fun p => (0, p)
  else if c = 93 then (jsmnClose .array p).map fun p => (0, p)
  else if c = 34 then do
    let (text, _) ← jsmnParseString js
    let p ← jsmnAllocToken numTokens { type := .string, text := text } p
    .ok (text.length + 1, p)
  else if c = 9 ∨ c = 13 ∨ c = 10 ∨ c = 32 then .ok (0, p)
  else if c = 58 then .ok (0, jsmnColon p)
  else if c = 44 then .ok (0, jsmnComma p)
  else do
    let text ← jsmnParsePrimitive (c :: js)
    let p ← jsmnAllocToken numTokens { type := .primitive, text := text } p
    .ok (text.length - 1, p)

def jsmnLoop (numTokens : Nat) : Nat → List UInt8 → JsmnParser → Except JsmnErr JsmnParser
  | _, [], p => .ok p
  | skip + 1, _ :: js, p => jsmnLoop numTokens skip js p
  | 0, c :: js, p => do
    let (skip, p) ← jsmnChar numTokens c js p
    jsmnLoop numTokens skip js p

/-- the tokens, as many as the count that is returned -/
def jsmnParse (numTokens : Nat) (js : List UInt8) : Except JsmnErr (List JsmnTok) := do
  let p ← jsmnLoop numTokens 0 js {}
  if p.tokens.any JsmnTok.opened then .error .part else .ok p.tokens

/-! ## strings -/

/-- no zero byte, no quote that ends it, and nothing behind a backslash but what belongs there -/
inductive JsonText : List UInt8 → Prop
  | nil : JsonText []
  | char {c : UInt8} {text : List UInt8} :
      c ≠ 0 → c ≠ 34 → c ≠ 92 → JsonText text → JsonText (c :: text)
  | escape {e : UInt8} {text : List UInt8} :
      e ∈ jsmnEscapes → JsonText text → JsonText (92 :: e :: text)
  | unicode {h0 h1 h2 h3 : UInt8} {text : List UInt8} :
      [h0, h1, h2, h3].all isHex → JsonText text → JsonText (92 :: 117 :: h0 :: h1 :: h2 :: h3 :: text)

section
variable {js text rest : List UInt8} {c : UInt8}

theorem jsonText_of_plain (h : ∀ c ∈ text, c ≠ 0 ∧ c ≠ 34 ∧ c ≠ 92) : JsonText text := by
  induction text with
  | nil => exact .nil
  | cons c text ih =>
    obtain ⟨h0, h34, h92⟩ := h c List.mem_cons_self
    exact .char h0 h34 h92 (ih fun c hc => h c (List.mem_cons_of_mem _ hc))

theorem JsonText.ne_zero (h : JsonText text) : 0 ∉ text := by
  induction h with
  | nil => exact List.not_mem_nil
  | char h0 h34 h92 _ ih => exact fun hmem => (List.mem_cons.1 hmem).elim (fun h => h0 h.symm) ih
  | @escape e text he _ ih =>
    intro hmem
    obtain h | hmem := List.mem_cons.1 hmem
    · cases h
    obtain rfl | hmem := List.mem_cons.1 hmem
    · revert he
      decide
    · exact ih hmem
  | @unicode h0 h1 h2 h3 text hx _ ih =>
    have hhex : ∀ c ∈ [h0, h1, h2, h3], (0 : UInt8) ≠ c := by
      rintro c hc rfl
      have hzero := List.all_eq_true.1 hx 0 hc
      revert hzero
      decide
    intro hmem
    obtain h | hmem := List.mem_cons.1 hmem
    · cases h
    obtain h | hmem := List.mem_cons.1 hmem
    · cases h
    obtain hmem | hmem := List.mem_append.1 (show 0 ∈ [h0, h1, h2, h3] ++ text from hmem)
    · exact hhex 0 hmem rfl
    · exact ih hmem

theorem JsonText.append {more : List UInt8} (h : JsonText text) (hmore : JsonText more) :
    JsonText (text ++ more) := by
  induction h with
  | nil => exact hmore
  | char h0 h34 h92 _ ih => exact .char h0 h34 h92 ih
  | escape he _ ih => exact .escape he ih
  | unicode hx _ ih => exact .unicode hx ih

/-- the text of a string goes on with these characters -/
def consText (front : List UInt8) (read : Except JsmnErr (List UInt8 × List UInt8)) :
    Except JsmnErr (List UInt8 × List UInt8) :=
  read.map fun (text, rest) => (front ++ text, rest)

theorem jsmnParseString_quote (rest : List UInt8) :
    jsmnParseString (34 :: rest) = .ok ([], rest) := by
  unfold jsmnParseString
  rfl

theorem jsmnParseString_char (h34 : c ≠ 34) (h92 : c ≠ 92) :
    jsmnParseString (c :: js) = consText [c] (jsmnParseString js) := by
  rw [jsmnParseString.eq_def]
  dsimp only
  rw [if_neg h34, if_neg h92]
  rfl

theorem jsmnParseString_escape {e : UInt8} (he : e ∈ jsmnEscapes) :
    jsmnParseString (92 :: e :: js) = consText [92, e] (jsmnParseString js) := by
  rw [jsmnParseString.eq_def]
  dsimp only
  rw [if_neg (by decide), if_pos rfl, if_pos he]
  rfl

theorem jsmnParseString_unicode {h0 h1 h2 h3 : UInt8} (hx : [h0, h1, h2, h3].all isHex) :
    jsmnParseString (92 :: 117 :: h0 :: h1 :: h2 :: h3 :: js) =
      consText [92, 117, h0, h1, h2, h3] (jsmnParseString js) := by
  have h117 : (117 : UInt8) ∉ jsmnEscapes := by decide
  rw [jsmnParseString.eq_def]
  dsimp only
  rw [if_neg (by decide), if_pos rfl, if_neg h117, if_pos rfl, if_pos hx]
  rfl

theorem consText_eq_ok {front : List UInt8} {read : Except JsmnErr (List UInt8 × List UInt8)} :
    consText front read = .ok (text, rest) ↔
      ∃ back, read = .ok (back, rest) ∧ text = front ++ back := by
  unfold consText
  cases read with
  | error e => exact ⟨fun h => (nomatch h), fun ⟨_, h, _⟩ => (nomatch h)⟩
  | ok r =>
    obtain ⟨back, rest'⟩ := r
    constructor
    · intro h
      obtain ⟨rfl, rfl⟩ := Prod.mk.inj (Except.ok.inj h)
      exact ⟨back, rfl, rfl⟩
    · rintro ⟨back', h, rfl⟩
      obtain ⟨rfl, rfl⟩ := Prod.mk.inj (Except.ok.inj h)
      rfl

/-- a string is read up to the quote behind it -/
theorem JsonText.parse (h : JsonText text) (rest : List UInt8) :
    jsmnParseString (text ++ 34 :: rest) = .ok (text, rest) := by
  induction h with
  | nil => exact jsmnParseString_quote rest
  | char h0 h34 h92 _ ih =>
    rw [List.cons_append, jsmnParseString_char h34 h92, consText_eq_ok]
    exact ⟨_, ih, rfl⟩
  | escape he _ ih =>
    rw [List.cons_append, List.cons_append, jsmnParseString_escape he, consText_eq_ok]
    exact ⟨_, ih, rfl⟩
  | @unicode h0 h1 h2 h3 text hx _ ih =>
    show jsmnParseString (92 :: 117 :: h0 :: h1 :: h2 :: h3 :: (text ++ 34 :: rest)) = _
    rw [jsmnParseString_unicode hx, consText_eq_ok]
    exact ⟨_, ih, rfl⟩

/-- **what is read as a string can be written as one** -/
theorem jsmnParseString_eq_ok (h0 : 0 ∉ js) (h : jsmnParseString js = .ok (text, rest)) :
    JsonText text ∧ js = text ++ 34 :: rest := by
  induction js using jsmnParseString.induct generalizing text with
  | case1 =>
    unfold jsmnParseString at h
    cases h
  | case2 js =>
    rw [jsmnParseString_quote] at h
    cases h
    exact ⟨.nil, rfl⟩
  | case3 h34 =>
    unfold jsmnParseString at h
    cases h
  | case4 e js he h34 ih =>
    rw [jsmnParseString_escape he] at h
    obtain ⟨back, hback, rfl⟩ := consText_eq_ok.1 h
    obtain ⟨htext, rfl⟩ := ih (fun hmem => h0 (by simp [hmem])) hback
    exact ⟨.escape he htext, rfl⟩
  | case5 x0 x1 x2 x3 js hx h34 h117 ih =>
    rw [jsmnParseString_unicode hx] at h
    obtain ⟨back, hback, rfl⟩ := consText_eq_ok.1 h
    obtain ⟨htext, rfl⟩ := ih (fun hmem => h0 (by simp [hmem])) hback
    exact ⟨.unicode hx htext, rfl⟩
  | case6 x0 x1 x2 x3 js hx h34 h117 =>
    rw [jsmnParseString.eq_def] at h
    dsimp only at h
    rw [if_neg h34, if_pos rfl, if_neg h117, if_pos rfl, if_neg hx] at h
    cases h
  | case7 short hshort hx h34 h117 =>
    rw [jsmnParseString.eq_def] at h
    dsimp only at h
    rw [if_neg h34, if_pos rfl, if_neg h117, if_pos rfl] at h
    split at h
    · exact (hshort _ _ _ _ _ rfl).elim
    · rw [if_pos hx] at h
      cases h
  | case8 short hshort hx h34 h117 =>
    rw [jsmnParseString.eq_def] at h
    dsimp only at h
    rw [if_neg h34, if_pos rfl, if_neg h117, if_pos rfl] at h
    split at h
    · exact (hshort _ _ _ _ _ rfl).elim
    · rw [if_neg hx] at h
      cases h
  | case9 e js he h117 h34 =>
    rw [jsmnParseString.eq_def] at h
    dsimp only at h
    rw [if_neg h34, if_pos rfl, if_neg he, if_neg h117] at h
    cases h
  | case10 c js h34 h92 ih =>
    rw [jsmnParseString_char h34 h92] at h
    obtain ⟨back, hback, rfl⟩ := consText_eq_ok.1 h
    obtain ⟨htext, rfl⟩ := ih (fun hmem => h0 (List.mem_cons_of_mem _ hmem)) hback
    exact ⟨.char (fun hc => h0 (hc ▸ List.mem_cons_self)) h34 h92 htext, rfl⟩

end

/-! ## the pieces of a text -/

/-- a primitive with the line end or the comma behind it -/
inductive Lexeme where
  | space (c : UInt8)
  | opening (type : JsmnType)
  | closing (type : JsmnType)
  | string (text : List UInt8)
  | primitive (text : List UInt8) (behind : UInt8)
  | colon
  | comma

/-- a digit, a small letter or a minus sign -/
def PrimitiveChar (c : UInt8) : Prop :=
  (48 ≤ c.toNat ∧ c.toNat ≤ 57) ∨ (97 ≤ c.toNat ∧ c.toNat ≤ 122) ∨ c.toNat = 45

/-- a number, or a word -/
def PrimitiveText (text : List UInt8) : Prop := text ≠ [] ∧ ∀ c ∈ text, PrimitiveChar c

def Lexeme.Valid : Lexeme → Prop
  | .space c => c = 32 ∨ c = 10
  | .opening type | .closing type => type = .object ∨ type = .array
  | .string text => JsonText text
  | .primitive text behind => PrimitiveText text ∧ (behind = 10 ∨ behind = 44)
  | .colon | .comma => True

/-- written in front of what follows -/
def Lexeme.write : Lexeme → List UInt8 → List UInt8
  | .space c, rest => c :: rest
  | .opening type, rest => (if type = .object then 123 else 91) :: rest
  | .closing type, rest => (if type = .object then 125 else 93) :: rest
  | .string text, rest => 34 :: (text ++ 34 :: rest)
  | .primitive text behind, rest => text ++ behind :: rest
  | .colon, rest => 58 :: rest
  | .comma, rest => 44 :: rest

def writeLexemes (ls : List Lexeme) (rest : List UInt8) : List UInt8 := ls.foldr Lexeme.write rest

def Lexeme.read (numTokens : Nat) : Lexeme → JsmnParser → Except JsmnErr JsmnParser
  | .space _, p => .ok p
  | .opening type, p => jsmnOpen numTokens type p
  | .closing type, p => jsmnClose type p
  | .string text, p => jsmnAllocToken numTokens { type := .string, text := text } p
  | .primitive text behind, p =>
    (jsmnAllocToken numTokens { type := .primitive, text := text } p).map fun p =>
      if behind = 44 then jsmnComma p else p
  | .colon, p => .ok (jsmnColon p)
  | .comma, p => .ok (jsmnComma p)

def readLexemes (numTokens : Nat) : List Lexeme → JsmnParser → Except JsmnErr JsmnParser
  | [], p => .ok p
  | l :: ls, p => l.read numTokens p >>= readLexemes numTokens ls

section
variable {n : Nat} {p q : JsmnParser} {text rest js : List UInt8} {c : UInt8} {l : Lexeme}
  {ls ms : List Lexeme}

theorem writeLexemes_append (ls ms : List Lexeme) (rest : List UInt8) :
    writeLexemes (ls ++ ms) rest = writeLexemes ls (writeLexemes ms rest) := List.foldr_append

theorem readLexemes_append (ls ms : List Lexeme) (p : JsmnParser) :
    readLexemes n (ls ++ ms) p = readLexemes n ls p >>= readLexemes n ms := by
  induction ls generalizing p with
  | nil => rfl
  | cons l ls ih =>
    show l.read n p >>= readLexemes n (ls ++ ms) = _
    rw [show readLexemes n (ls ++ ms) = fun p => readLexemes n ls p >>= readLexemes n ms from
      funext ih]
    show _ = (l.read n p >>= readLexemes n ls) >>= readLexemes n ms
    cases l.read n p with
    | error e => rfl
    | ok p' => rfl

theorem jsmnLoop_skip (js rest : List UInt8) (p : JsmnParser) :
    jsmnLoop n js.length (js ++ rest) p = jsmnLoop n 0 rest p := by
  induction js with
  | nil =>
    show jsmnLoop n 0 rest p = _
    rfl
  | cons c js ih => exact ih

theorem jsmnLoop_cons (c : UInt8) (js : List UInt8) (p : JsmnParser) :
    jsmnLoop n 0 (c :: js) p = jsmnChar n c js p >>= fun r => jsmnLoop n r.1 js r.2 := rfl

/-- a character that nothing is skipped at -/
theorem jsmnLoop_char {d : Except JsmnErr JsmnParser}
    (h : jsmnChar n c rest p = d.map fun p => (0, p)) :
    jsmnLoop n 0 (c :: rest) p = d >>= jsmnLoop n 0 rest := by
  rw [jsmnLoop_cons, h]
  cases d with
  | error e => rfl
  | ok q => rfl

/-- the character of a primitive is none that stands for something else -/
theorem PrimitiveChar.ne (hc : PrimitiveChar c) {b : UInt8} (hb : ¬ PrimitiveChar b) : c ≠ b :=
  fun h => hb (h ▸ hc)

theorem PrimitiveChar.not_ends (hc : PrimitiveChar c) : jsmnEnds c = false := by
  have hne : ∀ b ∈ [(58 : UInt8), 9, 13, 10, 32, 44, 93, 125], c ≠ b := by
    intro b hb
    have hnone : ∀ b ∈ [(58 : UInt8), 9, 13, 10, 32, 44, 93, 125], ¬ PrimitiveChar b := by
      unfold PrimitiveChar
      decide +kernel
    exact hc.ne (hnone b hb)
  simpa [jsmnEnds] using hne

theorem PrimitiveChar.printable (hc : PrimitiveChar c) : ¬ (c < 32 ∨ 127 ≤ c) := by
  rw [UInt8.lt_iff_toNat_lt, UInt8.le_iff_toNat_le]
  show ¬ (c.toNat < 32 ∨ 127 ≤ c.toNat)
  unfold PrimitiveChar at hc
  omega

theorem jsmnParsePrimitive_append (h : ∀ c ∈ text, PrimitiveChar c) (hc : jsmnEnds c = true) : jsmnParsePrimitive (text ++ c :: rest) = .ok text := by
  induction text with
  | nil =>
    show (if jsmnEnds c = true then _ else _) = _
    rw [if_pos hc]
  | cons b text ih =>
    have hb := h b List.mem_cons_self
    rw [List.cons_append, jsmnParsePrimitive, hb.not_ends, if_neg Bool.false_ne_true,
      if_neg hb.printable, ih fun c hc => h c (List.mem_cons_of_mem _ hc)]
    rfl

/-- at a character that stands for nothing else a primitive is read -/
theorem jsmnChar_primitive (hc : PrimitiveChar c) (htext : jsmnParsePrimitive (c :: js) = .ok text) :
    jsmnChar n c js p = (jsmnAllocToken n { type := .primitive, text := text } p).map fun p =>
      (text.length - 1, p) := by
  have hne : ∀ b ∈ [(123 : UInt8), 91, 125, 93, 34, 9, 13, 10, 32, 58, 44], c ≠ b := by
    intro b hb
    have hnone : ∀ b ∈ [(123 : UInt8), 91, 125, 93, 34, 9, 13, 10, 32, 58, 44],
        ¬ PrimitiveChar b := by
      unfold PrimitiveChar
      decide +kernel
    exact hc.ne (hnone b hb)
  simp only [List.mem_cons, List.not_mem_nil, forall_eq_or_imp, or_false, forall_eq] at hne
  obtain ⟨h123, h91, h125, h93, h34, h9, h13, h10, h32, h58, h44⟩ := hne
  have hspace : ¬ (c = 9 ∨ c = 13 ∨ c = 10 ∨ c = 32) := by
    rintro (h | h | h | h)
    · exact h9 h
    · exact h13 h
    · exact h10 h
    · exact h32 h
  unfold jsmnChar
  rw [if_neg h123, if_neg h91, if_neg h125, if_neg h93, if_neg h34, if_neg hspace, if_neg h58,
    if_neg h44, htext]
  rfl

/-- **one piece** of the text is read -/
theorem jsmnLoop_lexeme (h : l.Valid) (rest : List UInt8) (p : JsmnParser) :
    jsmnLoop n 0 (l.write rest) p = l.read n p >>= jsmnLoop n 0 rest := by
  cases l with
  | space c =>
    obtain rfl | rfl := h
    · exact jsmnLoop_char (d := .ok p) rfl
    · exact jsmnLoop_char (d := .ok p) rfl
  | opening type =>
    obtain rfl | rfl := h
    · exact jsmnLoop_char rfl
    · exact jsmnLoop_char rfl
  | closing type =>
    obtain rfl | rfl := h
    · exact jsmnLoop_char rfl
    · exact jsmnLoop_char rfl
  | string text =>
    have hskip : text.length + 1 = (text ++ [34]).length := by
      rw [List.length_append, List.length_singleton]
    have hchar : jsmnChar n 34 (text ++ 34 :: rest) p =
        (jsmnAllocToken n { type := .string, text := text } p).map fun p =>
          (text.length + 1, p) := by
      show (jsmnParseString (text ++ 34 :: rest) >>= _) = _
      rw [h.parse rest]
      rfl
    show jsmnLoop n 0 (34 :: (text ++ 34 :: rest)) p =
      jsmnAllocToken n { type := .string, text := text } p >>= jsmnLoop n 0 rest
    rw [jsmnLoop_cons, hchar, hskip]
    cases jsmnAllocToken n { type := .string, text := text } p with
    | error e => rfl
    | ok q =>
      show jsmnLoop n (text ++ [34]).length (text ++ 34 :: rest) q = jsmnLoop n 0 rest q
      have hsplit : text ++ 34 :: rest = (text ++ [34]) ++ rest := List.append_cons text 34 rest
      rw [hsplit, jsmnLoop_skip]
  | primitive text behind =>
    obtain ⟨⟨hne, htext⟩, hbehind⟩ := h
    obtain ⟨c, text, rfl⟩ := List.exists_cons_of_ne_nil hne
    have hends : jsmnEnds behind = true := by
      obtain rfl | rfl := hbehind
      · rfl
      · rfl
    have hchar := @jsmnChar_primitive n p (c :: text) (text ++ behind :: rest) c
      (htext c List.mem_cons_self) (jsmnParsePrimitive_append htext hends)
    show jsmnLoop n 0 (c :: (text ++ behind :: rest)) p = _
    rw [jsmnLoop_cons, hchar]
    show _ = (jsmnAllocToken n { type := .primitive, text := c :: text } p).map _ >>= _
    cases jsmnAllocToken n { type := .primitive, text := c :: text } p with
    | error e => rfl
    | ok q =>
      show jsmnLoop n text.length (text ++ behind :: rest) q =
        jsmnLoop n 0 rest (if behind = 44 then jsmnComma q else q)
      rw [jsmnLoop_skip]
      obtain rfl | rfl := hbehind
      · exact jsmnLoop_char (d := .ok q) rfl
      · exact jsmnLoop_char (d := .ok (jsmnComma q)) rfl
  | colon => exact jsmnLoop_char (d := .ok (jsmnColon p)) rfl
  | comma => exact jsmnLoop_char (d := .ok (jsmnComma p)) rfl

/-- **a text is read piece by piece** -/
theorem jsmnLoop_writeLexemes (h : ∀ l ∈ ls, l.Valid) (rest : List UInt8) (p : JsmnParser) :
    jsmnLoop n 0 (writeLexemes ls rest) p = readLexemes n ls p >>= jsmnLoop n 0 rest := by
  induction ls generalizing p with
  | nil => rfl
  | cons l ls ih =>
    have hl := jsmnLoop_lexeme (n := n) (h l List.mem_cons_self) (writeLexemes ls rest) p
    show jsmnLoop n 0 (l.write (writeLexemes ls rest)) p =
      (l.read n p >>= readLexemes n ls) >>= jsmnLoop n 0 rest
    rw [hl]
    cases l.read n p with
    | error e => rfl
    | ok q => exact ih (fun l hl => h l (List.mem_cons_of_mem _ hl)) q

end

/-! ## what every step keeps -/

/-- what is in a token for good -/
def JsmnTok.kind (t : JsmnTok) : JsmnType × List UInt8 := (t.type, t.text)

def openedCount (tokens : List JsmnTok) : Nat := tokens.countP JsmnTok.opened

section
variable {n i : Nat} {p q : JsmnParser} {tokens : List JsmnTok} {tok : JsmnTok}
  {js : List UInt8} {c : UInt8} {type : JsmnType}

theorem map_countBelow {β : Type} (f : JsmnTok → β)
    (hf : ∀ t : JsmnTok, f { t with size := t.size + 1 } = f t) (super : Option Nat)
    (tokens : List JsmnTok) : (countBelow super tokens).map f = tokens.map f := by
  cases super with
  | none => rfl
  | some i =>
    show (tokens.modify i _).map f = _
    apply List.ext_getElem?
    intro k
    rw [List.getElem?_map, List.getElem?_map, List.getElem?_modify]
    cases tokens[k]? with
    | none => rfl
    | some t =>
      show some (f (if i = k then _ else t)) = some (f t)
      split
      · rw [hf]
      · rfl

theorem openedCount_eq_of_map {other : List JsmnTok}
    (h : tokens.map JsmnTok.opened = other.map JsmnTok.opened) :
    openedCount tokens = openedCount other := by
  have hcount := congrArg (List.countP fun b => b) h
  rwa [List.countP_map, List.countP_map] at hcount

/-- **a token** comes when there is room for it -/
theorem jsmnAllocToken_eq_ok (h : jsmnAllocToken n tok p = .ok q) :
    q.tokens.length = p.tokens.length + 1 ∧ p.tokens.length < n ∧
      q.tokens.map JsmnTok.kind = p.tokens.map JsmnTok.kind ++ [tok.kind] ∧
      openedCount q.tokens = openedCount p.tokens + if tok.opened then 1 else 0 := by
  unfold jsmnAllocToken at h
  by_cases hfull : n ≤ p.tokens.length
  · rw [if_pos hfull] at h
    cases h
  · rw [if_neg hfull] at h
    cases h
    have hkind := map_countBelow JsmnTok.kind (fun _ => rfl) p.toksuper (p.tokens ++ [tok])
    have hopened := map_countBelow JsmnTok.opened (fun _ => rfl) p.toksuper (p.tokens ++ [tok])
    have hlen := congrArg List.length hkind
    rw [List.length_map, List.length_map, List.length_append, List.length_singleton] at hlen
    rw [List.map_append] at hkind
    refine ⟨hlen, Nat.lt_of_not_le hfull, hkind, ?_⟩
    rw [openedCount_eq_of_map hopened]
    unfold openedCount
    rw [List.countP_append, List.countP_singleton]

theorem lastOpened_spec (h : lastOpened tokens = some i) :
    openedCount (tokens.modify i fun t => { t with opened := false }) + 1 =
      openedCount tokens := by
  induction tokens generalizing i with
  | nil => cases h
  | cons t tokens ih =>
    unfold lastOpened at h
    cases hl : lastOpened tokens with
    | some k =>
      rw [hl] at h
      obtain rfl := Option.some.inj h
      have hk := ih hl
      unfold openedCount at hk ⊢
      rw [List.modify_succ_cons, List.countP_cons, List.countP_cons]
      omega
    | none =>
      rw [hl] at h
      dsimp only at h
      by_cases ht : t.opened = true
      · rw [if_pos ht] at h
        obtain rfl := Option.some.inj h
        unfold openedCount
        rw [List.modify_zero_cons, List.countP_cons, List.countP_cons, if_pos ht]
        rfl
      · rw [if_neg ht] at h
        cases h

/-- **a bracket** closes what was opened last -/
theorem jsmnClose_eq_ok (h : jsmnClose type p = .ok q) :
    q.tokens.map JsmnTok.kind = p.tokens.map JsmnTok.kind ∧
      openedCount q.tokens + 1 = openedCount p.tokens := by
  unfold jsmnClose at h
  cases hl : lastOpened p.tokens with
  | none =>
    rw [hl] at h
    cases h
  | some i =>
    rw [hl] at h
    dsimp only at h
    split at h
    · cases h
      refine ⟨?_, lastOpened_spec hl⟩
      apply List.ext_getElem?
      intro k
      rw [List.getElem?_map, List.getElem?_map, List.getElem?_modify]
      cases p.tokens[k]? with
      | none => rfl
      | some t =>
        show some (JsmnTok.kind (if i = k then _ else t)) = some t.kind
        split
        · rfl
        · rfl
    · cases h

theorem jsmnComma_tokens (p : JsmnParser) : (jsmnComma p).tokens = p.tokens := by
  unfold jsmnComma
  split
  · rfl
  · split
    · rfl
    · split
      · rfl
      · rfl

theorem jsmnOpen_eq_ok (h : jsmnOpen n type p = .ok q) : ∃ q',
    jsmnAllocToken n { type := type, opened := true } p = .ok q' ∧ q.tokens = q'.tokens := by
  obtain ⟨q', ha, rfl⟩ := except_map_eq_ok h
  exact ⟨q', ha, rfl⟩

/-! ### strings -/

/-- the strings among the tokens can be written as such -/
def StringsWritable (tokens : List JsmnTok) : Prop :=
  ∀ x ∈ tokens.map JsmnTok.kind, x.1 = .string → JsonText x.2

theorem StringsWritable.alloc (hp : StringsWritable p.tokens)
    (htok : tok.type = .string → JsonText tok.text) (h : jsmnAllocToken n tok p = .ok q) :
    StringsWritable q.tokens := by
  obtain ⟨-, -, hkind, -⟩ := jsmnAllocToken_eq_ok h
  unfold StringsWritable
  rw [hkind]
  intro x hx
  obtain hx | hx := List.mem_append.1 hx
  · exact hp x hx
  · rw [List.mem_singleton.1 hx]
    exact htok

theorem StringsWritable.char {k : Nat} (hp : StringsWritable p.tokens) (h0 : 0 ∉ js)
    (h : jsmnChar n c js p = .ok (k, q)) : StringsWritable q.tokens := by
  have hopen : ∀ type, type ≠ .string →
      (jsmnOpen n type p).map (fun p => (0, p)) = .ok (k, q) → StringsWritable q.tokens := by
    intro type htype h
    obtain ⟨q', ho, heq⟩ := except_map_eq_ok h
    cases heq
    obtain ⟨q'', halloc, htokens⟩ := jsmnOpen_eq_ok ho
    rw [htokens]
    exact hp.alloc (fun htype' => (htype htype').elim) halloc
  have hclose : ∀ type, (jsmnClose type p).map (fun p => (0, p)) = .ok (k, q) →
      StringsWritable q.tokens := by
    intro type h
    obtain ⟨q', hc, heq⟩ := except_map_eq_ok h
    cases heq
    unfold StringsWritable
    rw [(jsmnClose_eq_ok hc).1]
    exact hp
  unfold jsmnChar at h
  split at h
  · exact hopen .object (by decide) h
  split at h
  · exact hopen .array (by decide) h
  split at h
  · exact hclose .object h
  split at h
  · exact hclose .array h
  split at h
  · obtain ⟨⟨text, rest⟩, hs, h⟩ := except_bind_eq_ok.1 h
    obtain ⟨q', ha, h⟩ := except_bind_eq_ok.1 h
    cases h
    exact hp.alloc (fun _ => (jsmnParseString_eq_ok h0 hs).1) ha
  split at h
  · cases h
    exact hp
  split at h
  · cases h
    exact hp
  split at h
  · cases h
    rw [jsmnComma_tokens]
    exact hp
  · obtain ⟨text, -, h⟩ := except_bind_eq_ok.1 h
    obtain ⟨q', ha, h⟩ := except_bind_eq_ok.1 h
    cases h
    exact hp.alloc (fun htype => JsmnType.noConfusion htype) ha

theorem StringsWritable.loop {k : Nat} (hp : StringsWritable p.tokens) (h0 : 0 ∉ js)
    (h : jsmnLoop n k js p = .ok q) : StringsWritable q.tokens := by
  induction js generalizing k p with
  | nil =>
    unfold jsmnLoop at h
    cases h
    exact hp
  | cons c js ih =>
    have hjs : 0 ∉ js := fun hmem => h0 (List.mem_cons_of_mem _ hmem)
    cases k with
    | succ k => exact ih hp hjs h
    | zero =>
      rw [jsmnLoop_cons] at h
      obtain ⟨r, hc, h⟩ := except_bind_eq_ok.1 h
      exact ih (hp.char hjs hc) hjs h

/-- **every string that is read** is one that can be written -/
theorem jsmnParse_strings (h0 : 0 ∉ js) (h : jsmnParse n js = .ok tokens)
    (htok : tok ∈ tokens) (htype : tok.type = .string) : JsonText tok.text := by
  obtain ⟨q, hl, h⟩ := except_bind_eq_ok.1 h
  split at h
  · cases h
  · cases h
    have hq : StringsWritable q.tokens :=
      StringsWritable.loop (fun x hx => absurd hx List.not_mem_nil) h0 hl
    exact hq tok.kind (List.mem_map_of_mem htok) htype

end

/-! ### counts -/

def Lexeme.tokens : Lexeme → Nat
  | .opening _ | .string _ | .primitive _ _ => 1
  | _ => 0

def Lexeme.openings : Lexeme → Nat
  | .opening _ => 1
  | _ => 0

def Lexeme.closings : Lexeme → Nat
  | .closing _ => 1
  | _ => 0

section
variable {n : Nat} {p q : JsmnParser} {tokens : List JsmnTok} {l : Lexeme} {ls : List Lexeme}

theorem Lexeme.read_eq_ok (h : l.read n p = .ok q) (hp : p.tokens.length ≤ n) :
    q.tokens.length = p.tokens.length + l.tokens ∧ q.tokens.length ≤ n ∧
      openedCount q.tokens + l.closings = openedCount p.tokens + l.openings := by
  cases l with
  | space c =>
    cases h
    exact ⟨rfl, hp, rfl⟩
  | opening type =>
    obtain ⟨q', halloc, htokens⟩ := jsmnOpen_eq_ok h
    obtain ⟨hlen, hroom, -, hopened⟩ := jsmnAllocToken_eq_ok halloc
    rw [htokens]
    exact ⟨hlen, by omega, hopened⟩
  | closing type =>
    obtain ⟨hkind, hopened⟩ := jsmnClose_eq_ok h
    have hlen := congrArg List.length hkind
    rw [List.length_map, List.length_map] at hlen
    exact ⟨hlen, by omega, hopened⟩
  | string text =>
    obtain ⟨hlen, hroom, -, hopened⟩ := jsmnAllocToken_eq_ok h
    exact ⟨hlen, by omega, hopened⟩
  | primitive text behind =>
    obtain ⟨q', ha, rfl⟩ := except_map_eq_ok h
    obtain ⟨hlen, hroom, -, hopened⟩ := jsmnAllocToken_eq_ok ha
    have htokens : (if behind = 44 then jsmnComma q' else q').tokens = q'.tokens := by
      split
      · exact jsmnComma_tokens q'
      · rfl
    rw [htokens]
    exact ⟨hlen, by omega, hopened⟩
  | colon =>
    cases h
    exact ⟨rfl, hp, rfl⟩
  | comma =>
    cases h
    rw [jsmnComma_tokens]
    exact ⟨rfl, hp, rfl⟩

theorem readLexemes_eq_ok (h : readLexemes n ls p = .ok q) (hp : p.tokens.length ≤ n) :
    q.tokens.length = p.tokens.length + (ls.map Lexeme.tokens).sum ∧ q.tokens.length ≤ n ∧
      openedCount q.tokens + (ls.map Lexeme.closings).sum =
        openedCount p.tokens + (ls.map Lexeme.openings).sum := by
  induction ls generalizing p with
  | nil =>
    cases h
    exact ⟨rfl, hp, rfl⟩
  | cons l ls ih =>
    obtain ⟨p', hl, h⟩ := except_bind_eq_ok.1 h
    obtain ⟨hlen, hroom, hopened⟩ := Lexeme.read_eq_ok hl hp
    obtain ⟨hlen', hroom', hopened'⟩ := ih h hroom
    rw [List.map_cons, List.map_cons, List.map_cons, List.sum_cons, List.sum_cons, List.sum_cons]
    exact ⟨by omega, hroom', by omega⟩

/-- **a text that is read** has no more tokens than there is room for, and as many closing brackets
as opening ones -/
theorem jsmnParse_counts (hvalid : ∀ l ∈ ls, l.Valid)
    (h : jsmnParse n (writeLexemes ls []) = .ok tokens) :
    (ls.map Lexeme.tokens).sum ≤ n ∧
      (ls.map Lexeme.closings).sum = (ls.map Lexeme.openings).sum := by
  unfold jsmnParse at h
  rw [jsmnLoop_writeLexemes hvalid] at h
  obtain ⟨q, hloop, h⟩ := except_bind_eq_ok.1 h
  obtain ⟨q', hl, hdone⟩ := except_bind_eq_ok.1 hloop
  obtain rfl : q = q' := (Except.ok.inj hdone).symm
  obtain ⟨hlen, hroom, hopened⟩ := readLexemes_eq_ok hl (Nat.zero_le n)
  split at h
  · cases h
  · rename_i hany
    have hnone : openedCount q.tokens = 0 :=
      List.countP_eq_zero.2 fun t ht hopen => hany (List.any_eq_true.2 ⟨t, ht, hopen⟩)
    rw [hnone] at hopened
    have hstart : openedCount ({} : JsmnParser).tokens = 0 := rfl
    have hzero : ({} : JsmnParser).tokens.length = 0 := rfl
    exact ⟨by omega, by omega⟩

end

/-! ### a text that is cut off -/

/-- how many brackets are open behind the pieces, when one is open behind each of them -/
def staysOpen : Nat → List Lexeme → Option Nat
  | depth, [] => some depth
  | depth, l :: ls =>
    if depth + l.openings ≤ l.closings then none else staysOpen (depth + l.openings - l.closings) ls

section
variable {n depth : Nat} {p q : JsmnParser} {tokens : List JsmnTok} {l : Lexeme}
  {ls ms : List Lexeme} {js text rest cut : List UInt8}

theorem staysOpen_append (ls ms : List Lexeme) (depth : Nat) :
    staysOpen depth (ls ++ ms) = (staysOpen depth ls).bind fun depth => staysOpen depth ms := by
  induction ls generalizing depth with
  | nil => rfl
  | cons l ls ih =>
    rw [List.cons_append, staysOpen, staysOpen]
    split
    · rfl
    · exact ih _

theorem Lexeme.write_eq (l : Lexeme) (rest : List UInt8) : l.write rest = l.write [] ++ rest := by
  cases l with
  | string text => simp [Lexeme.write]
  | primitive text behind => simp [Lexeme.write]
  | space c => rfl
  | opening type => rfl
  | closing type => rfl
  | colon => rfl
  | comma => rfl

theorem writeLexemes_eq (ls : List Lexeme) (rest : List UInt8) :
    writeLexemes ls rest = writeLexemes ls [] ++ rest := by
  induction ls with
  | nil => rfl
  | cons l ls ih =>
    show l.write (writeLexemes ls rest) = l.write (writeLexemes ls []) ++ rest
    rw [l.write_eq, ih, l.write_eq (writeLexemes ls []), List.append_assoc]

/-- a string that is cut off is none -/
theorem jsmnParseString_cut (h : JsonText text) (hcut : cut <+: text ++ [34])
    (hne : cut ≠ text ++ [34]) (back : List UInt8) : jsmnParseString cut ≠ .ok (js, back) := by
  intro hread
  obtain ⟨more, hmore⟩ := hcut
  have hzero : 0 ∉ cut := by
    intro hmem
    have hmem : 0 ∈ text ++ [34] := hmore ▸ List.mem_append_left more hmem
    obtain hmem | hmem := List.mem_append.1 hmem
    · exact h.ne_zero hmem
    · cases List.mem_singleton.1 hmem
  obtain ⟨hjs, rfl⟩ := jsmnParseString_eq_ok hzero hread
  have htwice : (js, back ++ more) = (text, []) := by
    have hwhole := h.parse []
    rw [← hmore, List.append_assoc, List.cons_append, hjs.parse] at hwhole
    exact Except.ok.inj hwhole
  obtain ⟨rfl, hnone⟩ := Prod.mk.inj htwice
  obtain ⟨rfl, -⟩ := List.append_eq_nil_iff.1 hnone
  exact hne rfl

theorem jsmnParsePrimitive_whole (h : ∀ c ∈ text, PrimitiveChar c) :
    jsmnParsePrimitive text = .ok text := by
  induction text with
  | nil => rfl
  | cons c text ih =>
    have hc := h c List.mem_cons_self
    rw [jsmnParsePrimitive, hc.not_ends, if_neg Bool.false_ne_true, if_neg hc.printable,
      ih fun c hc => h c (List.mem_cons_of_mem _ hc)]
    rfl

theorem prefix_singleton {c : UInt8} (hcut : cut <+: [c]) (hne : cut ≠ [c]) : cut = [] := by
  obtain h | h := List.prefix_cons_iff.1 hcut
  · exact h
  · obtain ⟨back, rfl, hback⟩ := h
    rw [List.prefix_nil.1 hback] at hne
    exact absurd rfl hne

/-- a piece that is cut off opens and closes nothing -/
theorem jsmnLoop_cut_lexeme (h : l.Valid) (hcut : cut <+: l.write []) (hne : cut ≠ l.write [])
    (hread : jsmnLoop n 0 cut p = .ok q) : openedCount q.tokens = openedCount p.tokens := by
  have hshort : ∀ c, l.write [] = [c] → openedCount q.tokens = openedCount p.tokens := by
    intro c hc
    rw [hc] at hcut hne
    rw [prefix_singleton hcut hne] at hread
    cases hread
    rfl
  cases l with
  | string text =>
    obtain rfl | ⟨back, rfl, hback⟩ := List.prefix_cons_iff.1 hcut
    · cases hread
      rfl
    · have hne : back ≠ text ++ [34] := fun h => hne (congrArg (List.cons 34) h)
      rw [jsmnLoop_cons] at hread
      obtain ⟨_, hchar, -⟩ := except_bind_eq_ok.1 hread
      obtain ⟨r, hs, -⟩ := except_bind_eq_ok.1 hchar
      exact absurd hs (jsmnParseString_cut h hback hne r.2)
  | primitive text behind =>
    obtain ⟨⟨-, htext⟩, -⟩ := h
    have hchars : ∀ c ∈ cut, PrimitiveChar c := by
      obtain h | h := List.prefix_concat_iff.1 hcut
      · exact absurd h hne
      · exact fun c hc => htext c (h.subset hc)
    cases cut with
    | nil =>
      cases hread
      rfl
    | cons c cut =>
      rw [jsmnLoop_cons, jsmnChar_primitive (hchars c List.mem_cons_self)
        (jsmnParsePrimitive_whole hchars)] at hread
      obtain ⟨_, hchar, hread⟩ := except_bind_eq_ok.1 hread
      obtain ⟨q', ha, hpair⟩ := except_bind_eq_ok.1 hchar
      cases hpair
      have hskip := jsmnLoop_skip (n := n) cut [] q'
      rw [List.append_nil] at hskip
      obtain rfl := Except.ok.inj (hskip.symm.trans hread)
      exact (jsmnAllocToken_eq_ok ha).2.2.2
  | space c => exact hshort c rfl
  | opening type => exact hshort _ rfl
  | closing type => exact hshort _ rfl
  | colon => exact hshort _ rfl
  | comma => exact hshort _ rfl

/-- **a text that stays open** is open wherever it is cut off -/
theorem jsmnLoop_cut (hvalid : ∀ l ∈ ls, l.Valid) (hroom : p.tokens.length ≤ n)
    (hpos : 0 < openedCount p.tokens)
    (hopen : staysOpen (openedCount p.tokens) ls = some depth)
    (hcut : cut <+: writeLexemes ls []) (hread : jsmnLoop n 0 cut p = .ok q) :
    0 < openedCount q.tokens := by
  induction ls generalizing p cut with
  | nil =>
    obtain rfl := List.prefix_nil.1 hcut
    cases hread
    exact hpos
  | cons l ls ih =>
    have hl := hvalid l List.mem_cons_self
    have hwrite : writeLexemes (l :: ls) [] = l.write [] ++ writeLexemes ls [] := l.write_eq _
    rw [hwrite] at hcut
    by_cases hshort : cut <+: l.write [] ∧ cut ≠ l.write []
    · rw [jsmnLoop_cut_lexeme hl hshort.1 hshort.2 hread]
      exact hpos
    · have hlong : l.write [] <+: cut := by
        obtain h | h := List.prefix_or_prefix_of_prefix hcut (List.prefix_append _ _)
        · by_cases heq : cut = l.write []
          · exact heq ▸ List.prefix_rfl
          · exact absurd ⟨h, heq⟩ hshort
        · exact h
      obtain ⟨back, rfl⟩ := hlong
      have hback := (List.prefix_append_right_inj _).1 hcut
      rw [← l.write_eq, jsmnLoop_lexeme hl] at hread
      obtain ⟨p', hp, hread⟩ := except_bind_eq_ok.1 hread
      obtain ⟨-, hroom', hopened⟩ := Lexeme.read_eq_ok hp hroom
      rw [staysOpen] at hopen
      split at hopen
      · cases hopen
      · have hdepth : openedCount p'.tokens =
            openedCount p.tokens + l.openings - l.closings := by omega
        rw [← hdepth] at hopen
        exact ih (fun l hl => hvalid l (List.mem_cons_of_mem _ hl)) hroom' (by omega) hopen hback
          hread

/-- **no tokens** are found in an object that is cut off -/
theorem jsmnParse_cut {type : JsmnType} (hvalid : ∀ l ∈ .opening type :: ls, l.Valid)
    (hopen : staysOpen 1 ls = some depth)
    (hcut : cut <+: writeLexemes (.opening type :: ls) [])
    (h : jsmnParse n cut = .ok tokens) : tokens = [] := by
  obtain rfl | ⟨back, rfl, hback⟩ := List.prefix_cons_iff.1 hcut
  · cases h
    rfl
  have htype : Lexeme.Valid (.opening type) := hvalid _ List.mem_cons_self
  have hloop : jsmnLoop n 0 ((if type = .object then 123 else 91) :: back) {} =
      Lexeme.read n (.opening type) {} >>= jsmnLoop n 0 back := jsmnLoop_lexeme htype back {}
  unfold jsmnParse at h
  rw [hloop] at h
  obtain ⟨q, hloop, h⟩ := except_bind_eq_ok.1 h
  obtain ⟨p, hp, hq⟩ := except_bind_eq_ok.1 hloop
  obtain ⟨-, hroom, hopened⟩ := Lexeme.read_eq_ok hp (Nat.zero_le n)
  have hone : openedCount p.tokens = 1 := hopened
  have hq' := jsmnLoop_cut (fun l hl => hvalid l (List.mem_cons_of_mem _ hl)) hroom
    (by omega) (hone ▸ hopen) hback hq
  obtain ⟨t, ht, hto⟩ := List.countP_pos_iff.1 hq'
  rw [if_pos (List.any_eq_true.2 ⟨t, ht, hto⟩)] at h
  cases h

end

end Ipfs
