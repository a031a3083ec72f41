import Packetsonde.Lib.Json

/-!
# The recipe JSON reader (`recipe_parse.c`, `struct jp`)

The hand-written reader that recipes and envelopes go through. A position in the source is the
list of bytes that are left, so `p->pos` is the length of the whole input less that of the rest;
offsets only show in the error texts.

The reader is generic in what it makes of the digits of an integer (`num`). The code's own choice
is `parsedInt`, 64-bit accumulation that wraps; reading with `num := id` keeps the digit strings
and is what the grammar of `Lib.Json` speaks about.

The three mutually recursive functions of the source (`parse_value`, `parse_object`,
`parse_array`) recurse on a bound on the nesting and the number of members still to come,
`readerFuel`, which the input's length always covers.
-/

namespace Packetsonde.Recipe

open Packetsonde.Lib

/-- What the reader reports through `jp_err`. -/
inductive JpErr where
  | expected (c : UInt8) (pos : Nat)
  | expectedString (pos : Nat)
  | badEscape
  | unsupportedEscape (e : UInt8)
  | controlByte (c : UInt8)
  | unterminatedString
  | expectedInteger (pos : Nat)
  | nonInteger (pos : Nat)
  | unexpectedEnd
  | badLiteral (pos : Nat)
  | unexpected (c : UInt8) (pos : Nat)
  | fuel
  deriving DecidableEq, Repr

def hexDigit (n : Nat) : UInt8 := UInt8.ofNat (if n < 10 then 48 + n else 87 + n)

/-- The text `jp_err` formats. -/
def JpErr.text : JpErr → Bytes
  | .expected c pos => asc "expected '" ++ c :: asc "' at offset " ++ natDecimal pos
  | .expectedString pos => asc "expected string at offset " ++ natDecimal pos
  | .badEscape => asc "bad escape"
  | .unsupportedEscape e => asc "unsupported escape '" ++ 92 :: e :: asc "'"
  | .controlByte c => asc "control byte 0x" ++
      [hexDigit (c.toNat / 16), hexDigit (c.toNat % 16)] ++ asc " in string"
  | .unterminatedString => asc "unterminated string"
  | .expectedInteger pos => asc "expected integer at offset " ++ natDecimal pos
  | .nonInteger pos => asc "non-integer number at offset " ++ natDecimal pos
  | .unexpectedEnd => asc "unexpected end of input"
  | .badLiteral pos => asc "bad literal at offset " ++ natDecimal pos
  | .unexpected c pos => asc "unexpected '" ++ c :: asc "' at offset " ++ natDecimal pos
  | .fuel => []

/-- `jp_skip_ws`. -/
def skipWs (src : Bytes) : Bytes := src.dropWhile isWs

/-- `jp_expect`. -/
def expect (len : Nat) (c : UInt8) (src : Bytes) : Except JpErr Bytes :=
  if (skipWs src).head? = some c then .ok (skipWs src).tail
  else .error (.expected c (len - (skipWs src).length))

/-! ## Strings -/

/-- First pass of `parse_string`: the decoded length, and the rest from the closing quote on. -/
def scanString : Bytes → Nat → Except JpErr (Nat × Bytes)
  | [], _ => .error .unterminatedString
  | c :: rest, outLen =>
    if c = 34 then .ok (outLen, c :: rest)
    else if c = 92 then
      match rest with
      | [] => .error .badEscape
      | e :: rest' =>
        if (escape e).isSome then scanString rest' (outLen + 1) else .error (.unsupportedEscape e)
    else if c < 0x20 then .error (.controlByte c)
    else scanString rest (outLen + 1)

/-- Second pass of `parse_string`, over the bytes before the closing quote. -/
def decodeString : Bytes → Bytes
  | [] => []
  | c :: rest =>
    if c = 92 then
      match rest with
      | [] => []
      | e :: rest' => (escape e).toList ++ decodeString rest'
    else c :: decodeString rest

/-- `parse_string`: the decoded string, and the rest after the closing quote. -/
def parseString (len : Nat) (src : Bytes) : Except JpErr (Bytes × Bytes) :=
  let body := (skipWs src).tail
  if (skipWs src).head? = some 34 then
    match scanString body 0 with
    | .ok (_, close) => .ok (decodeString (body.take (body.length - close.length)), close.tail)
    | .error e => .error e
  else .error (.expectedString (len - (skipWs src).length))

/-! ## Integers -/

/-- `v = v * 10 + (c - '0')` over the digits of a literal, in `int64_t`. -/
def accumulate (ds : Bytes) : Int64 :=
  ds.foldl (fun v d => v * 10 + Int64.ofInt (d.toNat - 48)) 0

/-- What `parse_int` stores for a literal: `neg ? -v : v`. -/
def parsedInt (l : Bytes) : Int64 :=
  if l.head? = some 45 then -accumulate (unsignedPart l) else accumulate (unsignedPart l)

/-- `parse_int`: the literal is a sign and the longest run of digits after it. -/
def parseInt {ι : Type} (num : Bytes → ι) (len : Nat) (src : Bytes) :
    Except JpErr (ι × Bytes) :=
  let start := skipWs src
  let digits := if start.head? = some 45 then start.tail else start
  let after := digits.dropWhile isDigit
  if (digits.takeWhile isDigit).isEmpty then .error (.expectedInteger (len - start.length))
  else if after.head? = some 46 ∨ after.head? = some 101 ∨ after.head? = some 69 then
    .error (.nonInteger (len - start.length))
  else .ok (num (start.take (start.length - after.length)), after)

/-! ## Values -/

variable {ι : Type}

mutual

/-- `parse_value`, with the opening of `parse_object` and `parse_array`. -/
def readValue (num : Bytes → ι) (len : Nat) : Nat → Bytes → Except JpErr (Json ι × Bytes)
  | 0, _ => .error .fuel
  | fuel + 1, src =>
    match skipWs src with
    | [] => .error .unexpectedEnd
    | c :: rest =>
      if c = 123 then
        if (skipWs rest).head? = some 125 then .ok (.obj [], (skipWs rest).tail)
        else do
          let (ms, rest') ← readMembers num len fuel (skipWs rest)
          .ok (.obj ms, rest')
      else if c = 91 then
        if (skipWs rest).head? = some 93 then .ok (.arr [], (skipWs rest).tail)
        else do
          let (vs, rest') ← readItems num len fuel (skipWs rest)
          .ok (.arr vs, rest')
      else if c = 34 then do
        let (s, rest') ← parseString len (c :: rest)
        .ok (.str s, rest')
      else if c = 116 ∨ c = 102 then
        if (c :: rest).take 4 = [116, 114, 117, 101] then .ok (.bool true, rest.drop 3)
        else if (c :: rest).take 5 = [102, 97, 108, 115, 101] then .ok (.bool false, rest.drop 4)
        else .error (.badLiteral (len - (c :: rest).length))
      else if c = 110 then
        if (c :: rest).take 4 = [110, 117, 108, 108] then .ok (.null, rest.drop 3)
        else .error (.badLiteral (len - (c :: rest).length))
      else if c = 45 ∨ isDigit c then do
        let (i, rest') ← parseInt num len (c :: rest)
        .ok (.int i, rest')
      else .error (.unexpected c (len - (c :: rest).length))

/-- The loop of `parse_object`, from the key of a member to the closing brace. -/
def readMembers (num : Bytes → ι) (len : Nat) :
    Nat → Bytes → Except JpErr (List (Bytes × Json ι) × Bytes)
  | 0, _ => .error .fuel
  | fuel + 1, src => do
    let (key, afterKey) ← parseString len src
    let afterColon ← expect len 58 afterKey
    let (v, afterValue) ← readValue num len fuel afterColon
    if (skipWs afterValue).head? = some 44 then do
      let (ms, rest) ← readMembers num len fuel (skipWs afterValue).tail
      .ok ((key, v) :: ms, rest)
    else do
      let rest ← expect len 125 afterValue
      .ok ([(key, v)], rest)

/-- The loop of `parse_array`, from an item to the closing bracket. -/
def readItems (num : Bytes → ι) (len : Nat) :
    Nat → Bytes → Except JpErr (List (Json ι) × Bytes)
  | 0, _ => .error .fuel
  | fuel + 1, src => do
    let (v, afterValue) ← readValue num len fuel src
    if (skipWs afterValue).head? = some 44 then do
      let (vs, rest) ← readItems num len fuel (skipWs afterValue).tail
      .ok (v :: vs, rest)
    else do
      let rest ← expect len 93 afterValue
      .ok ([v], rest)

end

/-- Nested calls the reader can make on an input of the given length. -/
def readerFuel (len : Nat) : Nat := 2 * len + 2

/-- `enum jv_kind` and its union. -/
abbrev Jv := Json Int64

/-- `parse_value` on a whole input. -/
def parseValue (json : Bytes) : Except JpErr (Jv × Bytes) :=
  readValue parsedInt json.length (readerFuel json.length) json

/-- `jv_obj_get`: the first member of that name; nothing for what is no object. -/
def jvObjGet (o : Jv) (key : Bytes) : Option Jv :=
  match o with
  | .obj ms => (ms.find? (·.1 = key)).map (·.2)
  | _ => none

end Packetsonde.Recipe
