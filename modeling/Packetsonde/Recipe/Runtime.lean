import Packetsonde.Lib.Prog
import Packetsonde.Recipe.Build

/-!
# Run-time values, templates and evidence (`recipe_engine.c`, first half)

The part of the interpreter that only reads: looking up a binding, expanding a template,
resolving a typed reference, and writing the evidence object of an `emit`. None of it has an
effect other than an error text, so each function is a plain one into `Except RtErr`; the
handlers of `Engine` turn an error into `rt_err` and a failed step.

A C string is a list of bytes without NUL. Where the source hands a counted buffer to a string
function (`strlen`, `strcmp`, `regexec`), the model cuts it at its first NUL with `cstr`.
-/

namespace Packetsonde.Recipe

open Packetsonde.Lib

inductive RtVal where
  | conn (handle : Int32)
  | bytes (b : Bytes)
  | str (s : Bytes)
  | int (i : Int64)
  | bool (b : Bool)
  | strlist (items : List Bytes)
  deriving DecidableEq, Repr

/-- `rt_binding.type`. -/
def RtVal.type : RtVal → Bt
  | .conn _ => .conn
  | .bytes _ => .bytes
  | .str _ => .string
  | .int _ => .int
  | .bool _ => .bool
  | .strlist _ => .strlist

/-- `struct rt_binding`. -/
structure RtBinding where
  name : Bytes
  val : RtVal
  deriving DecidableEq, Repr

/-- Name and type of a binding, the part the static check speaks about. -/
def RtBinding.sig (b : RtBinding) : Bytes × Bt := (b.name, b.val.type)

/-- `RT_BINDINGS_MAX`. -/
def rtBindingsMax : Nat := 64

/-- `rt_lookup`. -/
def rtLookup (bs : List RtBinding) (name : Bytes) : Option RtVal :=
  (bs.find? (·.name = name)).map (·.val)

/-- `struct ps_recipe_target`. -/
structure Target where
  host : Bytes
  port : Int32

/-- The diagnostics of `rt_err`. `badConn` and `matchInType` also keep the name of the binding
they are about, which their texts leave out. -/
inductive RtErr where
  | bindingOverflow
  | maxSteps (max : Int32)
  | maxWallclockMs (max : Int32)
  | maxTlsProbes (max : Int32)
  | maxRecvBytes
  | renderUnknown (name : Bytes)
  | renderType (name : Bytes)
  | loneDollar
  | nameTooLong
  | notAnInteger (text : Bytes)
  | expandedNotAnInteger (text : Bytes)
  | notABoolean (text : Bytes)
  | connectPort
  | notProvided (callback : Bytes)
  | connectFailed (host : Bytes) (port : Int32)
  | badConn (op conn : Bytes)
  | sendFailed (n : Nat)
  | recvMaxBytes (cap : Int32)
  | recvIo
  | matchAnyType (name : Bytes)
  | matchRegex
  | matchUnknown (name : Bytes)
  | matchInType (name : Bytes)
  | captureUnmatched (name : Bytes)
  | intCaptureTooLong
  | ifMatchesRegex
  | ifAnyMatchesRegex
  | evidenceOverflow
  | tlsSession
  deriving DecidableEq, Repr

/-- The diagnostics a mistyped or overfull table could cause. -/
def RtErr.aboutTypes : RtErr → Bool
  | .bindingOverflow | .badConn _ _ | .matchInType _ | .matchAnyType _ => true
  | _ => false

/-! ## Templates -/

def commaJoin : List Bytes → Bytes
  | [] => []
  | [s] => s
  | s :: rest => s ++ 44 :: commaJoin rest

/-- `render_binding`. -/
def renderBinding (target : Target) (bs : List RtBinding) (name : Bytes) : Except RtErr Bytes :=
  if name = asc "target.host" then .ok target.host
  else if name = asc "target.port" then .ok (decimal target.port.toInt)
  else match rtLookup bs name with
    | none => .error (.renderUnknown name)
    | some (.str s) => .ok s
    | some (.int i) => .ok (decimal i.toInt)
    | some (.bool b) => .ok (if b then asc "true" else asc "false")
    | some (.bytes b) => .ok b
    | some (.strlist items) => .ok (commaJoin items)
    | some (.conn _) => .error (.renderType name)

/-- The name behind a `$`: one of the two dotted tokens, or the longest identifier. -/
def refName (p : Bytes) : Bytes :=
  if p.take 11 = asc "target.host" ∨ p.take 11 = asc "target.port" then p.take 11
  else p.takeWhile isNameByte

/-- The loop of `expand_template`, with the length of the template as bound. -/
def expandFrom (target : Target) (bs : List RtBinding) : Nat → Bytes → Except RtErr Bytes
  | 0, _ => .ok []
  | _ + 1, [] => .ok []
  | fuel + 1, c :: p =>
    if c ≠ 36 then do
      let out ← expandFrom target bs fuel p
      .ok (c :: out)
    else if p.head? = some 36 then do
      let out ← expandFrom target bs fuel p.tail
      .ok (36 :: out)
    else if (refName p).isEmpty then .error .loneDollar
    else if (refName p).length ≥ nameBufSize then .error .nameTooLong
    else do
      let val ← renderBinding target bs (refName p)
      let out ← expandFrom target bs fuel (p.drop (refName p).length)
      .ok (cstr val ++ out)

/-- `expand_template`. -/
def expandTemplate (target : Target) (bs : List RtBinding) (tmpl : Bytes) : Except RtErr Bytes :=
  if 36 ∈ tmpl then expandFrom target bs tmpl.length tmpl else .ok tmpl

/-- The tail of `resolve_as_int`: the whole text must be one integer. -/
def wholeInt (text : Bytes) (e : RtErr) : Except RtErr Int64 :=
  if (strtoll text).2.isEmpty then .ok (strtoll text).1 else .error e

/-- `resolve_as_int`. -/
def resolveAsInt (target : Target) (bs : List RtBinding) (ref : Ref) : Except RtErr Int64 :=
  let expanded := do
    let s ← expandTemplate target bs ref.text
    wholeInt s (.expandedNotAnInteger s)
  match ref.kind with
  | .literal => wholeInt ref.text (.notAnInteger ref.text)
  | .template =>
    -- a reference that is exactly `$name` keeps the integer it is bound to
    if ref.text.head? = some 36 then
      if ref.text.tail = asc "target.port" then .ok target.port.toInt64
      else match rtLookup bs ref.text.tail with
        | some (.int i) => .ok i
        | _ => expanded
    else expanded

/-- `resolve_as_bool`. -/
def resolveAsBool (target : Target) (bs : List RtBinding) (ref : Ref) : Except RtErr Bool := do
  let s ← expandTemplate target bs ref.text
  if s = asc "true" then .ok true
  else if s = asc "false" then .ok false
  else .error (.notABoolean s)

/-! ## Evidence -/

/-- What `json_append_string` writes for one byte of the string. -/
def jsonEscape (c : UInt8) : Bytes :=
  if c = 34 then [92, 34] else if c = 92 then [92, 92] else if c = 10 then [92, 110]
  else if c = 13 then [92, 114] else if c = 9 then [92, 116] else if c = 8 then [92, 98]
  else if c = 12 then [92, 102]
  else if c < 0x20 then asc "\\u00" ++ [hexDigit (c.toNat / 16), hexDigit (c.toNat % 16)]
  else [c]

/-- Append to a buffer of `cap` bytes, the last of which is kept for the NUL. -/
def appendCapped (cap : Nat) (out text : Bytes) : Option Bytes :=
  if out.length + text.length ≥ cap then none else some (out ++ text)

def appendEscaped (cap : Nat) : Bytes → Bytes → Option Bytes
  | out, [] => some out
  | out, c :: rest => do
    let out' ← appendCapped cap out (jsonEscape c)
    appendEscaped cap out' rest

/-- `json_append_string`. -/
def jsonAppendString (cap : Nat) (out s : Bytes) : Option Bytes := do
  let out₁ ← appendCapped cap out [34]
  let out₂ ← appendEscaped cap out₁ (cstr s)
  appendCapped cap out₂ [34]

/-- An overflow of the evidence buffer fails without a diagnostic of its own. -/
def orOverflow (r : Option Bytes) : Except (Option RtErr) Bytes :=
  r.elim (.error none) .ok

/-- The value of one evidence field, typed as the field declares it. -/
def appendValue (target : Target) (bs : List RtBinding) (cap : Nat) (out : Bytes)
    (f : EmitField) : Except (Option RtErr) Bytes :=
  match f.as with
  | .int => do
    let v ← (resolveAsInt target bs f.value).mapError some
    orOverflow (appendCapped cap out (decimal v.toInt))
  | .bool => do
    let v ← (resolveAsBool target bs f.value).mapError some
    orOverflow (appendCapped cap out (if v then asc "true" else asc "false"))
  | _ => do
    let s ← (expandTemplate target bs f.value.text).mapError some
    orOverflow (jsonAppendString cap out s)

/-- The members of the evidence object, `sep` standing before the next one. -/
def appendFields (target : Target) (bs : List RtBinding) (cap : Nat) (sep : Bytes) :
    Bytes → List EmitField → Except (Option RtErr) Bytes
  | out, [] => .ok out
  | out, f :: fs => do
    let out₁ ← orOverflow (appendCapped cap out sep)
    let out₂ ← orOverflow (jsonAppendString cap out₁ f.key)
    let out₃ ← orOverflow (appendCapped cap out₂ [58])
    let out₄ ← appendValue target bs cap out₃ f
    appendFields target bs cap [44] out₄ fs

/-- `build_evidence_json`. -/
def buildEvidenceJson (target : Target) (bs : List RtBinding) (cap : Nat)
    (fields : List EmitField) : Except (Option RtErr) Bytes :=
  if fields.isEmpty then .ok [] else do
    let out ← orOverflow (appendCapped cap [] [123])
    let out' ← appendFields target bs cap [] out fields
    orOverflow (appendCapped cap out' [125])

end Packetsonde.Recipe
