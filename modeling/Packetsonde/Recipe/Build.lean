import Packetsonde.Recipe.Reader
import Packetsonde.Recipe.Syntax

/-!
# The recipe schema walker (`recipe_parse.c`, `build_step`)

From the JSON tree to the recipe, with the build-time checks: required fields and their kinds,
the schema gate of the TLS opcodes, and the table of declared bindings that every `$name` and
every binding field is checked against. `BtTable` carries what `bt_declare` guarantees, that names
are distinct and that there are at most `btMax` of them.

An error is its text. Where the source formats it from the input, so does the model.
-/

namespace Packetsonde.Recipe

open Packetsonde.Lib

def quoted (s : Bytes) : Bytes := 39 :: s ++ [39]

/-! ## The table of declared bindings -/

/-- `BT_MAX`. -/
def btMax : Nat := 64

/-- `struct bt_table`: what is declared so far, in order. -/
structure BtTable where
  e : List (Bytes × Bt)
  nodup : (e.map Prod.fst).Nodup
  length_le : e.length ≤ btMax

def btEmpty : BtTable := ⟨[], List.nodup_nil, Nat.zero_le _⟩

/-- `bt_declare`. -/
def btDeclare (t : BtTable) (name : Bytes) (ty : Bt) : Except Bytes BtTable :=
  if hdup : name ∈ t.e.map Prod.fst then .error (asc "binding " ++ quoted name ++ asc " redeclared")
  else if hfull : t.e.length ≥ btMax then
    .error (asc "binding table overflow (max " ++ natDecimal btMax ++ asc ")")
  else .ok
    { e := t.e ++ [(name, ty)]
      nodup := by
        rw [List.map_append, List.nodup_append']
        refine ⟨t.nodup, List.nodup_singleton _, ?_⟩
        simpa [List.disjoint_singleton] using hdup
      length_le := by rw [List.length_append, List.length_singleton]; omega }

/-- `bt_declare` for each of a list of bindings. -/
def btDeclareAll (t : BtTable) : List (Bytes × Bt) → Except Bytes BtTable
  | [] => .ok t
  | (name, ty) :: rest => do
    let t' ← btDeclare t name ty
    btDeclareAll t' rest

def typeIn (decls : List (Bytes × Bt)) (name : Bytes) : Bt :=
  match decls.find? (·.1 = name) with
  | some (_, ty) => ty
  | none => .none

/-- `bt_lookup`. -/
def btLookup (t : BtTable) (name : Bytes) : Bt := typeIn t.e name

/-! ## Template references -/

def isNameByte (c : UInt8) : Bool := isAlnum c || c == 95

/-- Size of `namebuf`. -/
def nameBufSize : Nat := 64

/-- `validate_template_refs`, with the length of the text as bound on the number of tokens. -/
def validateRefs (t : BtTable) : Nat → Bytes → Except Bytes Unit
  | 0, _ => .ok ()
  | _ + 1, [] => .ok ()
  | fuel + 1, c :: p =>
    if c ≠ 36 then validateRefs t fuel p
    -- `$$` is a literal `$`
    else if p.head? = some 36 then validateRefs t fuel p.tail
    else if p.take 11 = asc "target.host" ∨ p.take 11 = asc "target.port" then
      validateRefs t fuel (p.drop 11)
    else
      let name := p.takeWhile isNameByte
      if name.isEmpty then .error (asc "lone '$' in template")
      else if name.length ≥ nameBufSize then .error (asc "binding name too long in template")
      else if btLookup t name = .none then
        .error (asc "unknown binding '$" ++ name ++ asc "' in template")
      else validateRefs t fuel (p.dropWhile isNameByte)

/-- `validate_template_refs`. -/
def validateTemplateRefs (t : BtTable) (text : Bytes) : Except Bytes Unit :=
  validateRefs t text.length text

/-- `build_ref`. -/
def buildRef (t : BtTable) (text : Bytes) : Except Bytes Ref :=
  if 36 ∈ text then do
    validateTemplateRefs t text
    .ok ⟨.template, text⟩
  else .ok ⟨.literal, text⟩

/-! ## Fields -/

/-- `expect_string`. -/
def expectString (o : Jv) (key ctx : Bytes) : Except Bytes Bytes :=
  match jvObjGet o key with
  | some (.str s) => .ok s
  | _ => .error (ctx ++ asc ": missing or non-string " ++ quoted key)

/-- The value fits a C `int`. -/
def fitsInt32 (i : Int64) : Bool := -(2 ^ 31) ≤ i.toInt && i.toInt < 2 ^ 31

/-- `expect_int`. -/
def expectInt (o : Jv) (key ctx : Bytes) : Except Bytes Int32 :=
  match jvObjGet o key with
  | some (.int i) =>
    if fitsInt32 i then .ok i.toInt32
    else .error (ctx ++ asc ": " ++ quoted key ++ asc " out of int32 range")
  | _ => .error (ctx ++ asc ": missing or non-integer " ++ quoted key)

/-- `opt_int`, whose return code every caller drops: the field if it is a fitting integer, else
what was there before. -/
def optInt (o : Jv) (key : Bytes) (dflt : Int32) : Int32 :=
  match jvObjGet o key with
  | some (.int i) => if fitsInt32 i then i.toInt32 else dflt
  | _ => dflt

/-- `opt_string`: the field if it is a string. -/
def optString (o : Jv) (key : Bytes) : Option Bytes :=
  match jvObjGet o key with
  | some (.str s) => some s
  | _ => none

/-- An array of strings, `what` naming its items in the error text. -/
def stringItems (what : Bytes) : Nat → List Jv → Except Bytes (List Bytes)
  | _, [] => .ok []
  | i, .str s :: rest => do
    let ss ← stringItems what (i + 1) rest
    .ok (s :: ss)
  | i, _ :: _ => .error (what ++ asc "[" ++ natDecimal i ++ asc "]: must be a string")

/-- `bt_from_string`. -/
def btFromString (s : Bytes) : Bt :=
  if s = asc "string" then .string
  else if s = asc "int" then .int
  else if s = asc "bool" then .bool
  else if s = asc "bytes" then .bytes
  else if s = asc "strlist" then .strlist
  else .none

/-- `validate_kind_prefix`. -/
def validateKindPrefix (kind kindPrefix : Bytes) : Except Bytes Unit :=
  if kind.take kindPrefix.length ≠ kindPrefix ∨ (kind.drop kindPrefix.length).head? ≠ some 46 then
    .error (asc "emit.kind " ++ quoted kind ++ asc " must start with " ++
      quoted (kindPrefix ++ asc "."))
  else .ok ()

/-- `is_severity`. -/
def isSeverity (s : Bytes) : Bool :=
  [asc "info", asc "low", asc "medium", asc "high", asc "critical"].contains s

/-- `is_confidence`. -/
def isConfidence (s : Bytes) : Bool :=
  [asc "tentative", asc "firm", asc "confirmed"].contains s

/-- The value of a hexadecimal digit as the source computes it, from a signed `char`. -/
def hexNibble (c : UInt8) : Option Nat :=
  let v : Int :=
    if c ≥ 128 then (c.toNat : Int) - 256 - 48
    else if c ≤ 57 then (c.toNat : Int) - 48
    else ((c ||| 0x20).toNat : Int) - 97 + 10
  if v < 0 ∨ v > 15 then none else some v.toNat

/-- Pairs of hexadecimal digits; an odd digit at the end is no pair. -/
def hexDecode : Bytes → Option Bytes
  | hi :: lo :: rest => do
    let hv ← hexNibble hi
    let lv ← hexNibble lo
    let bytes ← hexDecode rest
    some (UInt8.ofNat (hv * 16 + lv) :: bytes)
  | _ => some []

/-! ## Steps -/

/-- The `port` field of `connect_*` and `tls_enum`: an integer is printed, a string taken as it
is. -/
def portText (o : Jv) (ctx : Bytes) : Except Bytes Bytes :=
  match jvObjGet o (asc "port") with
  | none => .error (ctx ++ asc ": missing 'port'")
  | some (.int i) => .ok (decimal i.toInt)
  | some (.str s) => .ok s
  | some _ => .error (ctx ++ asc ": 'port' must be int or template string")

/-- The required `out` field. -/
def requiredOut (o : Jv) (ctx : Bytes) : Except Bytes Bytes :=
  match optString o (asc "out") with
  | some out => .ok out
  | none => .error (ctx ++ asc ": missing 'out' binding")

/-- The `conn` field of the opcodes that work on a connection. -/
def connField (o : Jv) (t : BtTable) (ctx : Bytes) : Except Bytes Bytes := do
  let conn ← expectString o (asc "conn") ctx
  if btLookup t conn ≠ .conn then .error (ctx ++ asc ": 'conn' must reference a conn binding")
  else .ok conn

/-- `build_step` for `connect_tcp` and `connect_udp`. -/
def buildConnect (op : Bytes) (o : Jv) (t : BtTable) : Except Bytes (Step × BtTable) := do
  let hostText ← expectString o (asc "host") op
  let portS ← portText o op
  let timeoutMs ← expectInt o (asc "timeout_ms") op
  let host ← buildRef t hostText
  let port ← buildRef t portS
  let out ← requiredOut o op
  let t' ← btDeclare t out .conn
  .ok (.connect (op ≠ asc "connect_tcp") host port timeoutMs out, t')

/-- The `bytes` field of `send`: a template, or an object with a `hex` string. -/
def sendBytes (o : Jv) (t : BtTable) : Except Bytes SendBytes :=
  match jvObjGet o (asc "bytes") with
  | none => .error (asc "send: missing 'bytes'")
  | some (.str text) => do
    validateTemplateRefs t text
    .ok (.template text)
  | some (.obj ms) => do
    let hex ← expectString (.obj ms) (asc "hex") (asc "send.bytes")
    if hex.length % 2 ≠ 0 then .error (asc "send.bytes.hex: odd length")
    else match hexDecode hex with
      | some bytes => .ok (.literal bytes)
      | none => .error (asc "send.bytes.hex: non-hex char")
  | some _ => .error (asc "send.bytes: must be string template or \x7bhex\x7d")

/-- `build_step` for `send`. -/
def buildSend (o : Jv) (t : BtTable) : Except Bytes (Step × BtTable) := do
  let conn ← connField o t (asc "send")
  let bytes ← sendBytes o t
  .ok (.send conn bytes, t)

/-- The `until` field of `recv`, with the field its mode needs. -/
def recvUntil (o : Jv) : Except Bytes Until := do
  let u ← expectString o (asc "until") (asc "recv")
  if u = asc "newline" then .ok .newline
  else if u = asc "n_bytes" then do
    let n ← expectInt o (asc "n_bytes") (asc "recv")
    .ok (.nBytes n)
  else if u = asc "regex" then do
    let pattern ← expectString o (asc "regex") (asc "recv")
    .ok (.regex pattern)
  else .error (asc "recv.until: must be newline|n_bytes|regex")

/-- `build_step` for `recv`. -/
def buildRecv (o : Jv) (t : BtTable) : Except Bytes (Step × BtTable) := do
  let conn ← connField o t (asc "recv")
  let until_ ← recvUntil o
  let maxBytes ← expectInt o (asc "max_bytes") (asc "recv")
  let out ← requiredOut o (asc "recv")
  let t' ← btDeclare t out .bytes
  .ok (.recv conn until_ maxBytes out, t')

/-- `build_step` for `close`. -/
def buildClose (o : Jv) (t : BtTable) : Except Bytes (Step × BtTable) := do
  let conn ← connField o t (asc "close")
  .ok (.close conn, t)

/-- `build_step` for `match` with `any`. -/
def buildMatchAny (schema : Int32) (o : Jv) (t : BtTable) : Except Bytes (Step × BtTable) :=
  if schema < 2 then .error (asc "match.any requires schema 2") else do
    let any ← expectString o (asc "any") (asc "match")
    if btLookup t any ≠ .strlist then
      .error (asc "match.any: " ++ quoted any ++ asc " must reference a strlist binding")
    else do
      let regex ← expectString o (asc "regex") (asc "match")
      match optString o (asc "out") with
      | none => .ok (.matchAny any regex none, t)
      | some out => do
        let t' ← btDeclare t out .string
        .ok (.matchAny any regex (some out), t')

/-- The `as` of the capture at index `i`. -/
def captureTy (i : Nat) (as : Bytes) : Except Bytes CaptureTy :=
  match btFromString as with
  | .string => .ok .string
  | .int => .ok .int
  | _ => .error (asc "match.captures[" ++ natDecimal i ++ asc "].as: must be string|int")

/-- The `captures` of `match`, declared one after the other. -/
def buildCaptures : Nat → List Jv → BtTable → Except Bytes (List Capture × BtTable)
  | _, [], t => .ok ([], t)
  | i, .obj ms :: rest, t => do
    let name ← expectString (.obj ms) (asc "name") (asc "match.captures")
    let asS ← expectString (.obj ms) (asc "as") (asc "match.captures")
    let as ← captureTy i asS
    let t' ← btDeclare t name as.bt
    let (cs, t'') ← buildCaptures (i + 1) rest t'
    .ok (⟨name, as⟩ :: cs, t'')
  | i, _ :: _, _ => .error (asc "match.captures[" ++ natDecimal i ++ asc "]: must be object")

/-- `build_step` for `match` with `in`. -/
def buildMatchIn (o : Jv) (t : BtTable) : Except Bytes (Step × BtTable) := do
  let in_ ← expectString o (asc "in") (asc "match")
  if btLookup t in_ ≠ .bytes ∧ btLookup t in_ ≠ .string then
    .error (asc "match: 'in' must reference bytes or string binding")
  else do
    let regex ← expectString o (asc "regex") (asc "match")
    match jvObjGet o (asc "captures") with
    | none => .ok (.matchIn in_ regex [], t)
    | some (.arr items) => do
      let (captures, t') ← buildCaptures 0 items t
      .ok (.matchIn in_ regex captures, t')
    | some _ => .error (asc "match.captures: must be array")

/-- `build_step` for `match`. -/
def buildMatch (schema : Int32) (o : Jv) (t : BtTable) : Except Bytes (Step × BtTable) :=
  match jvObjGet o (asc "any") with
  | some _ => buildMatchAny schema o t
  | none => buildMatchIn o t

/-- The `evidence` of `emit`: each value is a template, or an object with `value` and `as`. -/
def buildEvidence (t : BtTable) : List (Bytes × Jv) → Except Bytes (List EmitField)
  | [] => .ok []
  | (key, .str text) :: rest => do
    let value ← buildRef t text
    let fs ← buildEvidence t rest
    .ok (⟨key, value, .string⟩ :: fs)
  | (key, .obj ms) :: rest => do
    let val ← expectString (.obj ms) (asc "value") (asc "emit.evidence")
    let as ← expectString (.obj ms) (asc "as") (asc "emit.evidence")
    if btFromString as = .none ∨ btFromString as = .conn then
      .error (asc "emit.evidence." ++ key ++ asc ".as: invalid " ++ quoted as)
    else do
      let value ← buildRef t val
      let fs ← buildEvidence t rest
      .ok (⟨key, value, btFromString as⟩ :: fs)
  | (key, _) :: _ => .error (asc "emit.evidence." ++ key ++ asc ": must be string or object")

/-- `build_step` for `emit`. -/
def buildEmit (kindPrefix : Bytes) (o : Jv) (t : BtTable) : Except Bytes (Step × BtTable) := do
  let kind ← expectString o (asc "kind") (asc "emit")
  let severity ← expectString o (asc "severity") (asc "emit")
  let confidence ← expectString o (asc "confidence") (asc "emit")
  let title ← expectString o (asc "title") (asc "emit")
  if !isSeverity severity then .error (asc "emit.severity: bad value " ++ quoted severity)
  else if !isConfidence confidence then
    .error (asc "emit.confidence: bad value " ++ quoted confidence)
  else do
    validateKindPrefix kind kindPrefix
    validateTemplateRefs t title
    match jvObjGet o (asc "evidence") with
    | none => .ok (.emit kind severity confidence title [], t)
    | some (.obj ms) => do
      let fields ← buildEvidence t ms
      .ok (.emit kind severity confidence title fields, t)
    | some _ => .error (asc "emit.evidence: must be object")

/-- The `list` field of the two conditions over a list. -/
def listField (schema : Int32) (cond : Bytes) (o : Jv) (t : BtTable) : Except Bytes Bytes :=
  if schema < 2 then .error (asc "if." ++ cond ++ asc " requires schema 2") else do
    let list ← expectString o (asc "list") (asc "if")
    if btLookup t list ≠ .strlist then
      .error (asc "if." ++ cond ++ asc ": 'list' must reference a strlist binding")
    else .ok list

/-- The `binding` field of the other three. -/
def bindingField (o : Jv) (t : BtTable) : Except Bytes Bytes := do
  let binding ← expectString o (asc "binding") (asc "if")
  if btLookup t binding = .none then .error (asc "if: unknown binding " ++ quoted binding)
  else .ok binding

/-- The condition of an `if`. -/
def buildCond (schema : Int32) (o : Jv) (t : BtTable) : Except Bytes Cond := do
  let c ← expectString o (asc "cond") (asc "if")
  if c = asc "equals" then do
    let binding ← bindingField o t
    let literal ← expectString o (asc "literal") (asc "if")
    .ok (.equals binding literal)
  else if c = asc "exists" then do
    let binding ← bindingField o t
    .ok (.exists_ binding)
  else if c = asc "matches" then do
    let binding ← bindingField o t
    let literal ← expectString o (asc "literal") (asc "if")
    .ok (.matches_ binding literal)
  else if c = asc "any_matches" then do
    let list ← listField schema c o t
    let regex ← expectString o (asc "regex") (asc "if")
    .ok (.anyMatches list regex)
  else if c = asc "any_in" then do
    let list ← listField schema c o t
    match jvObjGet o (asc "set") with
    | some (.arr items) => do
      let set ← stringItems (asc "if.any_in.set") 0 items
      .ok (.anyIn list set)
    | _ => .error (asc "if.any_in: 'set' must be an array")
  else .error (asc "if.cond: bad value " ++ quoted c)

/-- The `alpn` list of `tls_upgrade`. -/
def alpnField (o : Jv) : Except Bytes (Option (List Bytes)) :=
  match jvObjGet o (asc "alpn") with
  | none => .ok none
  | some (.arr items) => do
    let ss ← stringItems (asc "tls_upgrade.alpn") 0 items
    .ok (some ss)
  | some _ => .error (asc "tls_upgrade.alpn: must be an array")

/-- `build_step` for `tls_upgrade`. -/
def buildTlsUpgrade (schema : Int32) (o : Jv) (t : BtTable) : Except Bytes (Step × BtTable) :=
  if schema < 2 then .error (asc "tls_upgrade requires schema 2") else do
    let conn ← connField o t (asc "tls_upgrade")
    let sniText ← expectString o (asc "sni") (asc "tls_upgrade")
    let sni ← buildRef t sniText
    let timeoutMs := optInt o (asc "timeout_ms") 0
    let alpn ← alpnField o
    let t' ← btDeclareAll t tlsBindings
    .ok (.tlsUpgrade conn sni alpn timeoutMs, t')

/-- The protocol labels `tls_enum` accepts, which are also those it tries without a list. -/
def tlsProtocols : List Bytes :=
  [asc "SSLv3", asc "TLS1.0", asc "TLS1.1", asc "TLS1.2", asc "TLS1.3"]

/-- The labels of a `protocols` list. -/
def protocolItems : Nat → List Jv → Except Bytes (List Bytes)
  | _, [] => .ok []
  | i, .str label :: rest =>
    if !tlsProtocols.contains label then .error (asc "tls_enum: bad protocol " ++ quoted label)
    else do
      let ss ← protocolItems (i + 1) rest
      .ok (label :: ss)
  | i, _ :: _ => .error (asc "tls_enum.protocols[" ++ natDecimal i ++ asc "]: must be a string")

/-- The `protocols` field of `tls_enum`; without it the list is empty. -/
def protocolsField (o : Jv) : Except Bytes (List Bytes) :=
  match jvObjGet o (asc "protocols") with
  | none => .ok []
  | some (.arr items) => protocolItems 0 items
  | some _ => .error (asc "tls_enum.protocols: must be an array")

/-- The `starttls` mode of `tls_enum`. -/
def starttlsMode (o : Jv) : Except Bytes (Option Bytes) :=
  match optString o (asc "starttls") with
  | none => .ok none
  | some mode =>
    if [asc "smtp", asc "imap", asc "pop3", asc "ftp", asc "ldap"].contains mode then
      .ok (some mode)
    else .error (asc "tls_enum.starttls: bad mode " ++ quoted mode)

/-- `build_step` for `tls_enum`. -/
def buildTlsEnum (schema : Int32) (o : Jv) (t : BtTable) : Except Bytes (Step × BtTable) :=
  if schema < 2 then .error (asc "tls_enum requires schema 2") else do
    let hostText ← expectString o (asc "host") (asc "tls_enum")
    let portS ← portText o (asc "tls_enum")
    let host ← buildRef t hostText
    let port ← buildRef t portS
    let timeoutMs := optInt o (asc "timeout_ms") 0
    let protocols ← protocolsField o
    let starttls ← starttlsMode o
    let t' ← btDeclareAll t tlsEnumBindings
    .ok (.tlsEnum host port protocols starttls timeoutMs, t')

mutual

/-- `build_step`. -/
def buildStep (schema : Int32) (kindPrefix : Bytes) : Jv → BtTable → Except Bytes (Step × BtTable)
  | .obj ms, t => do
    let op ← expectString (.obj ms) (asc "op") (asc "step")
    if op = asc "connect_tcp" ∨ op = asc "connect_udp" then buildConnect op (.obj ms) t
    else if op = asc "send" then buildSend (.obj ms) t
    else if op = asc "recv" then buildRecv (.obj ms) t
    else if op = asc "close" then buildClose (.obj ms) t
    else if op = asc "match" then buildMatch schema (.obj ms) t
    else if op = asc "emit" then buildEmit kindPrefix (.obj ms) t
    else if op = asc "if" then do
      let cond ← buildCond schema (.obj ms) t
      let (then_, t') ← buildThen schema kindPrefix ms t
      .ok (.if_ cond then_, t')
    else if op = asc "tls_upgrade" then buildTlsUpgrade schema (.obj ms) t
    else if op = asc "tls_enum" then buildTlsEnum schema (.obj ms) t
    else .error (asc "unknown opcode " ++ quoted op)
  | _, _ => .error (asc "step must be an object")

/-- The `then` of an `if`: `jv_obj_get`, then the array. -/
def buildThen (schema : Int32) (kindPrefix : Bytes) :
    List (Bytes × Jv) → BtTable → Except Bytes (List Step × BtTable)
  | [], _ => .error (asc "if: missing 'then'")
  | (key, v) :: ms, t =>
    if key = asc "then" then buildStepsArray schema kindPrefix v t
    else buildThen schema kindPrefix ms t

/-- `build_steps_array`. -/
def buildStepsArray (schema : Int32) (kindPrefix : Bytes) :
    Jv → BtTable → Except Bytes (List Step × BtTable)
  | .arr items, t => buildSteps schema kindPrefix items t
  | _, _ => .error (asc "steps must be an array")

/-- The loop of `build_steps_array`. -/
def buildSteps (schema : Int32) (kindPrefix : Bytes) :
    List Jv → BtTable → Except Bytes (List Step × BtTable)
  | [], t => .ok ([], t)
  | o :: os, t => do
    let (s, t') ← buildStep schema kindPrefix o t
    let (ss, t'') ← buildSteps schema kindPrefix os t'
    .ok (s :: ss, t'')

end

/-! ## Recipes -/

/-- `default_budgets`. -/
def defaultBudgets : Budgets :=
  { maxSteps := 200
    maxRecvBytes := 65536
    maxTargets := 1024
    maxWallclockMs := 30000
    maxTlsProbes := 200 }

/-- The `budgets` object over the defaults. -/
def readBudgets (bj : Jv) : Budgets :=
  { maxSteps := optInt bj (asc "max_steps") defaultBudgets.maxSteps
    maxRecvBytes := optInt bj (asc "max_recv_bytes") defaultBudgets.maxRecvBytes
    maxTargets := optInt bj (asc "max_targets") defaultBudgets.maxTargets
    maxWallclockMs := optInt bj (asc "max_wallclock_ms") defaultBudgets.maxWallclockMs
    maxTlsProbes := optInt bj (asc "max_tls_probes") defaultBudgets.maxTlsProbes }

def buildRecipe (root : Jv) : Except Bytes PsRecipe :=
  match root with
  | .obj _ => do
    let schema ← expectInt root (asc "schema") (asc "recipe")
    if schema < 1 ∨ schema > 2 then .error (asc "unsupported schema " ++ decimal schema.toInt)
    else do
      let name ← expectString root (asc "name") (asc "recipe")
      let version ← expectInt root (asc "version") (asc "recipe")
      let kindPrefix ← expectString root (asc "kind_prefix") (asc "recipe")
      match jvObjGet root (asc "steps") with
      | none => .error (asc "recipe: missing 'steps'")
      | some stepsV => do
        let (steps, _) ← buildStepsArray schema kindPrefix stepsV btEmpty
        .ok
          { schema, name, version, kindPrefix, steps
            description := optString root (asc "description")
            defaultPort := optInt root (asc "default_port") 0
            budgets := (jvObjGet root (asc "budgets")).elim defaultBudgets readBudgets }
  | _ => .error (asc "recipe root must be object")

/-- `ps_recipe_parse_json`. -/
def psRecipeParseJson (json : Bytes) : Except Bytes PsRecipe :=
  match parseValue json with
  | .error e => .error e.text
  | .ok (root, _) => buildRecipe root

/-- A property of what a text parses to can be decided by parsing it. -/
theorem exists_parsed (json : Bytes) {P : PsRecipe → Prop} [DecidablePred P]
    (h : (psRecipeParseJson json).toOption.any (fun r => decide (P r)) = true) :
    ∃ r, psRecipeParseJson json = .ok r ∧ P r := by
  rcases hparse : psRecipeParseJson json with e | r
  · simp [hparse, Except.toOption] at h
  · exact ⟨r, rfl, by simpa [hparse, Except.toOption] using h⟩

end Packetsonde.Recipe
