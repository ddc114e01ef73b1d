import Mathlib.Algebra.Group.Nat.Defs
import PppAmb.CString
import PppAmb.Store

/-!
# The Vendored JSON Reader

This module models the part of `components/jsoncpp` that the program uses:
`Json::Reader::parse` with its default features and without comment collection, and the
accessors of `Json::Value`. It follows `json_reader.cpp` function by function. The input
that is left stands for the cursor `current_`; token positions, offsets and the texts of
syntax errors only feed messages that nothing reads, and are left out.

Two things of the source need care. A failed parse keeps the value built so far, so every
reader returns the value along with its verdict. And `readValue` stops the program when
its stack of nodes grows past `stackLimit_g`; this is the result `none` here.

The loops over the members of an object, over the elements of an array and over skipped
tokens carry a bound on the number of rounds that the length of the input covers.
-/

namespace PppAmb

/-- `Json::Value`. Members are kept in the order of `std::map`. A real number is kept as
the token it was read from. -/
inductive Value
  | nullValue
  | intValue (n : Int)
  | uintValue (n : ℕ)
  | realValue (token : Bytes)
  | stringValue (s : Bytes)
  | booleanValue (b : Bool)
  | arrayValue (elements : List Value)
  | objectValue (members : List (Bytes × Value))

/-- `TokenType`, with the text that is decoded later for strings and numbers. -/
inductive Token
  | endOfStream
  | objectBegin
  | objectEnd
  | arrayBegin
  | arrayEnd
  | string (raw : Bytes)
  | number (text : Bytes)
  | true
  | false
  | null
  | arraySeparator
  | memberSeparator
  | comment
  | error
  deriving DecidableEq, Repr

/-! ### Tokens -/

/-- The white space `skipSpaces` passes over. -/
def isJsonSpace (c : UInt8) : Bool :=
  c = ch ' ' || c = ch '\t' || c = ch '\r' || c = ch '\n'

def isDigit (c : UInt8) : Bool :=
  ch '0' ≤ c && c ≤ ch '9'

/-- `Reader::skipSpaces`. -/
def skipSpaces (inp : Bytes) : Bytes :=
  inp.dropWhile isJsonSpace

/-- `Reader::readString`, after the opening quote: the raw text up to the closing quote
and what follows it, or nothing if the input ends before. -/
def readString : Bytes → Option (Bytes × Bytes)
  | [] => none
  | [c] => if c = ch '"' then some ([], []) else none
  | c :: e :: r =>
      if c = ch '\\' then (readString r).map fun q => (c :: e :: q.1, q.2)
      else if c = ch '"' then some ([], e :: r)
      else (readString (e :: r)).map fun q => (c :: q.1, q.2)

/-- The digits at the front of the input, and the rest. -/
def spanDigits (inp : Bytes) : Bytes × Bytes :=
  (inp.takeWhile isDigit, inp.dropWhile isDigit)

/-- The optional fractional part of a number. -/
def spanFraction (inp : Bytes) : Bytes × Bytes :=
  match inp with
  | [] => ([], [])
  | c :: r => if c = ch '.' then (c :: (spanDigits r).1, (spanDigits r).2) else ([], inp)

/-- The optional exponent of a number. -/
def spanExponent (inp : Bytes) : Bytes × Bytes :=
  match inp with
  | [] => ([], [])
  | c :: r =>
      if c = ch 'e' || c = ch 'E' then
        match r with
        | [] => ([c], [])
        | d :: r' =>
            if d = ch '+' || d = ch '-' then (c :: d :: (spanDigits r').1, (spanDigits r').2)
            else (c :: (spanDigits r).1, (spanDigits r).2)
      else ([], inp)

/-- `Reader::readNumber`, after the first character. -/
def readNumber (inp : Bytes) : Bytes × Bytes :=
  let (integral, r) := spanDigits inp
  let (fraction, r) := spanFraction r
  let (exponent, r) := spanExponent r
  (integral ++ fraction ++ exponent, r)

/-- `Reader::readCStyleComment`. -/
def readCStyleComment : Bytes → Bool × Bytes
  | [] => (false, [])
  | [c] => (c = ch '/', [])
  | c :: d :: r => if c = ch '*' ∧ d = ch '/' then (true, r) else readCStyleComment (d :: r)

/-- `Reader::readCppStyleComment`; it cannot fail. -/
def readCppStyleComment : Bytes → Bytes
  | [] => []
  | c :: r =>
      if c = ch '\n' then r
      else if c = ch '\r' then
        match r with
        | [] => []
        | d :: r' => if d = ch '\n' then r' else r
      else readCppStyleComment r

/-- `Reader::readComment`, after the slash. -/
def readComment (inp : Bytes) : Token × Bytes :=
  match inp with
  | [] => (.error, [])
  | c :: r =>
      if c = ch '*' then
        let (ok, r) := readCStyleComment r
        (if ok then .comment else .error, r)
      else if c = ch '/' then (.comment, readCppStyleComment r)
      else (.error, r)

/-- `Reader::match`: the rest of a literal, or an error without moving on. -/
def matchLiteral (pattern : Bytes) (token : Token) (inp : Bytes) : Token × Bytes :=
  if inp.take pattern.length = pattern then (token, inp.drop pattern.length) else (.error, inp)

/-- `Reader::readToken`. It fails exactly when the token is `error`. -/
def readToken (inp : Bytes) : Token × Bytes :=
  match skipSpaces inp with
  | [] => (.endOfStream, [])
  | c :: r =>
      if c = ch '{' then (.objectBegin, r)
      else if c = ch '}' then (.objectEnd, r)
      else if c = ch '[' then (.arrayBegin, r)
      else if c = ch ']' then (.arrayEnd, r)
      else if c = ch '"' then
        match readString r with
        | some (raw, r) => (.string raw, r)
        | none => (.error, [])
      else if c = ch '/' then readComment r
      else if isDigit c || c = ch '-' then (.number (c :: (readNumber r).1), (readNumber r).2)
      else if c = ch 't' then matchLiteral (ascii "rue") .true r
      else if c = ch 'f' then matchLiteral (ascii "alse") .false r
      else if c = ch 'n' then matchLiteral (ascii "ull") .null r
      else if c = ch ',' then (.arraySeparator, r)
      else if c = ch ':' then (.memberSeparator, r)
      else if c = 0 then (.endOfStream, r)
      else (.error, r)

/-- `Reader::skipCommentTokens`, and the loops over comments elsewhere: the next token
that is no comment. -/
def skipCommentTokens : ℕ → Bytes → Token × Bytes
  | 0, inp => readToken inp
  | n + 1, inp =>
      match readToken inp with
      | (.comment, r) => skipCommentTokens n r
      | t => t

/-- `Reader::recoverFromError`: the input behind the next token of the given kind. -/
def recoverFromError (skipUntilToken : Token) : ℕ → Bytes → Bytes
  | 0, inp => inp
  | n + 1, inp =>
      let (skip, r) := readToken inp
      if skip = skipUntilToken ∨ skip = .endOfStream then r
      else recoverFromError skipUntilToken n r

/-! ### Decoding -/

/-- The value of a hexadecimal digit. -/
def hexDigit (c : UInt8) : Option ℕ :=
  if ch '0' ≤ c && c ≤ ch '9' then some (c.toNat - 48)
  else if ch 'a' ≤ c && c ≤ ch 'f' then some (c.toNat - 97 + 10)
  else if ch 'A' ≤ c && c ≤ ch 'F' then some (c.toNat - 65 + 10)
  else none

/-- `Reader::decodeUnicodeEscapeSequence`. -/
def decodeUnicodeEscapeSequence (inp : Bytes) : Option (ℕ × Bytes) :=
  match inp with
  | a :: b :: c :: d :: r => do
      let a ← hexDigit a
      let b ← hexDigit b
      let c ← hexDigit c
      let d ← hexDigit d
      pure (((a * 16 + b) * 16 + c) * 16 + d, r)
  | _ => none

/-- `Reader::decodeUnicodeCodePoint`. -/
def decodeUnicodeCodePoint (inp : Bytes) : Option (ℕ × Bytes) := do
  let (unicode, r) ← decodeUnicodeEscapeSequence inp
  if 0xD800 ≤ unicode ∧ unicode ≤ 0xDBFF then
    if r.length < 6 then none
    else
      match r with
      | a :: b :: r =>
          if a = ch '\\' ∧ b = ch 'u' then do
            let (surrogatePair, r) ← decodeUnicodeEscapeSequence r
            pure (0x10000 + (unicode % 0x400) * 0x400 + surrogatePair % 0x400, r)
          else none
      | _ => none
  else pure (unicode, r)

/-- `codePointToUTF8`. -/
def codePointToUTF8 (cp : ℕ) : Bytes :=
  if cp ≤ 0x7f then [UInt8.ofNat cp]
  else if cp ≤ 0x7FF then
    [UInt8.ofNat (0xC0 + cp / 64 % 32), UInt8.ofNat (0x80 + cp % 64)]
  else if cp ≤ 0xFFFF then
    [UInt8.ofNat (0xE0 + cp / 4096 % 16), UInt8.ofNat (0x80 + cp / 64 % 64),
      UInt8.ofNat (0x80 + cp % 64)]
  else if cp ≤ 0x10FFFF then
    [UInt8.ofNat (0xF0 + cp / 262144 % 8), UInt8.ofNat (0x80 + cp / 4096 % 64),
      UInt8.ofNat (0x80 + cp / 64 % 64), UInt8.ofNat (0x80 + cp % 64)]
  else []

/-- The escapes of one character. -/
def simpleEscape (c : UInt8) : Option UInt8 :=
  if c = ch '"' then some (ch '"')
  else if c = ch '/' then some (ch '/')
  else if c = ch '\\' then some (ch '\\')
  else if c = ch 'b' then some 8
  else if c = ch 'f' then some 12
  else if c = ch 'n' then some 10
  else if c = ch 'r' then some 13
  else if c = ch 't' then some 9
  else none

/-- The loop of `Reader::decodeString` over the raw text of a string token. -/
def decodeLoop : ℕ → Bytes → Option Bytes
  | _, [] => some []
  | 0, _ => none
  | n + 1, c :: r =>
      if c = ch '"' then some []
      else if c = ch '\\' then
        match r with
        | [] => none
        | e :: r =>
            match simpleEscape e with
            | some b => (decodeLoop n r).map (b :: ·)
            | none =>
                if e = ch 'u' then do
                  let (unicode, r) ← decodeUnicodeCodePoint r
                  let decoded ← decodeLoop n r
                  pure (codePointToUTF8 unicode ++ decoded)
                else none
      else (decodeLoop n r).map (c :: ·)

/-- `Reader::decodeString`. -/
def decodeString (raw : Bytes) : Option Bytes :=
  decodeLoop raw.length raw

/-- Whether a number token reads as a `double`: digits in its mantissa and, after an
exponent mark, digits in its exponent. Overflow reads as infinity. -/
def readsAsDouble (text : Bytes) : Bool :=
  let text := if text.head? = some (ch '-') then text.tail else text
  let (integral, r) := spanDigits text
  let (fraction, r) := spanFraction r
  (integral ++ fraction).any isDigit && (r.isEmpty || (spanExponent r).1.any isDigit)

/-- `Reader::decodeDouble`. -/
def decodeDouble (text : Bytes) : Option Value :=
  if readsAsDouble text then some (.realValue text) else none

/-- The loop of `Reader::decodeNumber` over the digits; `none` means that the number is
left to `decodeDouble`. -/
def decodeInteger (maxIntegerValue : ℕ) : ℕ → Bytes → Option ℕ
  | value, [] => some value
  | value, c :: r =>
      if ¬ isDigit c then none
      else
        let digit := c.toNat - 48
        let threshold := maxIntegerValue / 10
        if value ≥ threshold ∧
            (value > threshold ∨ r ≠ [] ∨ digit > maxIntegerValue % 10) then none
        else decodeInteger maxIntegerValue (value * 10 + digit) r

/-- `Reader::decodeNumber`. -/
def decodeNumber (text : Bytes) : Option Value :=
  let isNegative : Bool := text.head? = some (ch '-')
  let digits := if isNegative then text.tail else text
  let maxIntegerValue := if isNegative then 2 ^ 63 else 2 ^ 64 - 1
  match decodeInteger maxIntegerValue 0 digits with
  | none => decodeDouble text
  | some value =>
      if isNegative then some (.intValue (-(value : Int)))
      else if value ≤ 2 ^ 31 - 1 then some (.intValue value)
      else some (.uintValue value)

/-! ### Members -/

/-- `std::map` lookup. -/
def getMember (key : Bytes) (members : List (Bytes × Value)) : Option Value :=
  assocGet key members

/-- `std::map` assignment: the member is replaced, or inserted in key order. -/
def setMember (key : Bytes) (v : Value) (members : List (Bytes × Value)) : List (Bytes × Value) :=
  assocSet key v members

/-! ### Values -/

/-- What reading a value comes to: the program stops (`none`), or the verdict, the value
as it is then, and the input that is left. -/
abbrev ReadResult := Option (Bool × Value × Bytes)

/-- The loop of `Reader::readObject`, with the name of the last member read. -/
def readMembers (readValue : Value → Bytes → ReadResult) :
    ℕ → Bytes → List (Bytes × Value) → Bytes → ReadResult
  | 0, _, members, inp => some (false, .objectValue members, inp)
  | n + 1, name, members, inp =>
      let failed (members : List (Bytes × Value)) (r : Bytes) : ReadResult :=
        some (false, .objectValue members, recoverFromError .objectEnd (r.length + 1) r)
      match skipCommentTokens inp.length inp with
      | (.objectEnd, r) =>
          if name.isEmpty then some (true, .objectValue members, r) else failed members r
      | (.string raw, r) =>
          match decodeString raw with
          | none => failed members r
          | some name =>
              match readToken r with
              | (.memberSeparator, r) =>
                  match readValue ((getMember name members).getD .nullValue) r with
                  | none => none
                  | some (ok, v, r) =>
                      let members := setMember name v members
                      if ok then
                        match readToken r with
                        | (.objectEnd, r) => some (true, .objectValue members, r)
                        | (.arraySeparator, r) => readMembers readValue n name members r
                        | (.comment, r) =>
                            match skipCommentTokens r.length r with
                            | (.objectEnd, r) => some (true, .objectValue members, r)
                            | (_, r) => readMembers readValue n name members r
                        | (_, r) => failed members r
                      else failed members r
              | (_, r) => failed members r
      | (_, r) => failed members r

/-- The loop of `Reader::readArray`. -/
def readElements (readValue : Value → Bytes → ReadResult) :
    ℕ → List Value → Bytes → ReadResult
  | 0, elements, inp => some (false, .arrayValue elements, inp)
  | n + 1, elements, inp =>
      match readValue .nullValue inp with
      | none => none
      | some (ok, v, r) =>
          let elements := elements ++ [v]
          let failed (r : Bytes) : ReadResult :=
            some (false, .arrayValue elements, recoverFromError .arrayEnd (r.length + 1) r)
          if ok then
            match skipCommentTokens r.length r with
            | (.arrayEnd, r) => some (true, .arrayValue elements, r)
            | (.arraySeparator, r) => readElements readValue n elements r
            | (_, r) => failed r
          else failed r

/-- `Reader::readArray`, after the bracket. -/
def readArray (readValue : Value → Bytes → ReadResult) (inp : Bytes) : ReadResult :=
  match skipSpaces inp with
  | [] => readElements readValue 1 [] []
  | c :: r =>
      if c = ch ']' then some (true, .arrayValue [], r)
      else readElements readValue (r.length + 1) [] (c :: r)

/-- `Reader::readValue`, with the number of nodes that may still be pushed and the value
the current node holds so far. -/
def readValue : ℕ → Value → Bytes → ReadResult
  | 0, _, _ => none
  | depth + 1, current, inp =>
      match skipCommentTokens inp.length inp with
      | (.objectBegin, r) => readMembers (readValue depth) (r.length + 1) [] [] r
      | (.arrayBegin, r) => readArray (readValue depth) r
      | (.number text, r) =>
          match decodeNumber text with
          | some v => some (true, v, r)
          | none => some (false, current, r)
      | (.string raw, r) =>
          match decodeString raw with
          | some s => some (true, .stringValue s, r)
          | none => some (false, current, r)
      | (.true, r) => some (true, .booleanValue true, r)
      | (.false, r) => some (true, .booleanValue false, r)
      | (.null, r) => some (true, .nullValue, r)
      | (_, r) => some (false, current, r)

/-- `stackLimit_g`. -/
def stackLimit : ℕ := 1000

/-- `Reader::parse` into a null value, its verdict dropped as all callers do: the value
that is built, or `none` if the program stops. -/
def parse (document : Bytes) : Option Value :=
  (readValue stackLimit .nullValue document).map fun r => r.2.1

/-- The verdict of `Reader::parse`, or `none` if the program stops. -/
def accepts (document : Bytes) : Option Bool :=
  (readValue stackLimit .nullValue document).map fun r => r.1

/-! ### Accessors -/

/-- `Value::isObject`. -/
def Value.isObject : Value → Bool
  | .objectValue _ => true
  | _ => false

/-- `operator[](const char*)` on a value that is not constant: the member, and the value
with the member in it. It stops the program unless the value is null or an object. -/
def Value.resolveReference (key : Bytes) : Value → Option (Value × Value)
  | .nullValue => some (.nullValue, .objectValue [(key, .nullValue)])
  | .objectValue members =>
      match getMember key members with
      | some v => some (v, .objectValue members)
      | none => some (.nullValue, .objectValue (setMember key .nullValue members))
  | _ => none

/-- `Value::isMember`. -/
def Value.isMember (key : Bytes) : Value → Option Bool
  | .nullValue => some false
  | .objectValue members => some (getMember key members).isSome
  | _ => none

/-- `Value::asString`, given how the C library prints the number of a token. It stops the
program on arrays and objects. -/
def Value.asString (printReal : Bytes → Bytes) : Value → Option Bytes
  | .nullValue => some []
  | .stringValue s => some s
  | .booleanValue b => some (if b then ascii "true" else ascii "false")
  | .intValue n => some (ascii (toString n))
  | .uintValue n => some (ascii (toString n))
  | .realValue token => some (printReal token)
  | .arrayValue _ | .objectValue _ => none

/-- `Value::asCString`: it stops the program on anything but a string. -/
def Value.asCString : Value → Option Bytes
  | .stringValue s => some (cString s)
  | _ => none

/-- `Value::getMemberNames`. -/
def Value.getMemberNames : Value → Option (List Bytes)
  | .nullValue => some []
  | .objectValue members => some (members.map Prod.fst)
  | _ => none

end PppAmb
