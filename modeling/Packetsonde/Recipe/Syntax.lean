import Packetsonde.Lib.Bytes

/-!
# Recipes (`recipe.h`)

The tree `ps_recipe_parse_json` builds and `ps_recipe_run` walks. A step is one constructor per
opcode and carries the fields of that opcode's union member only; the two modes of `match` are two
constructors. Strings are C strings without their NUL, a C `int` is an `Int32`.
-/

namespace Packetsonde.Recipe

open Packetsonde.Lib

/-- `enum ps_recipe_bt`: the type of a binding. `none` is what a failed lookup returns. -/
inductive Bt where
  | none
  | conn
  | bytes
  | string
  | int
  | bool
  | strlist
  deriving DecidableEq, Repr

/-- `enum ps_recipe_ref_kind`. -/
inductive RefKind where
  | literal
  | template
  deriving DecidableEq, Repr

/-- `struct ps_recipe_ref`. -/
structure Ref where
  kind : RefKind
  text : Bytes
  deriving DecidableEq, Repr

/-- `enum ps_recipe_until`, with the field each mode reads. -/
inductive Until where
  | newline
  | nBytes (n : Int32)
  | regex (pattern : Bytes)
  deriving DecidableEq, Repr

/-- What a `send` step sends: literal bytes, or a template to expand. -/
inductive SendBytes where
  | literal (bytes : Bytes)
  | template (text : Bytes)
  deriving DecidableEq, Repr

inductive CaptureTy where
  | string
  | int
  deriving DecidableEq, Repr

def CaptureTy.bt : CaptureTy → Bt
  | .string => .string
  | .int => .int

/-- `struct ps_recipe_capture`. -/
structure Capture where
  name : Bytes
  as : CaptureTy
  deriving DecidableEq, Repr

/-- `struct ps_recipe_emit_field`. -/
structure EmitField where
  key : Bytes
  value : Ref
  as : Bt
  deriving DecidableEq, Repr

/-- `enum ps_recipe_cond`, with the fields each condition reads. -/
inductive Cond where
  | equals (binding literal : Bytes)
  | exists_ (binding : Bytes)
  | matches_ (binding literal : Bytes)
  | anyMatches (list regex : Bytes)
  | anyIn (list : Bytes) (set : List Bytes)
  deriving DecidableEq, Repr

/-- `struct ps_recipe_step`. -/
inductive Step where
  | connect (udp : Bool) (host port : Ref) (timeoutMs : Int32) (out : Bytes)
  | send (conn : Bytes) (bytes : SendBytes)
  | recv (conn : Bytes) (until_ : Until) (maxBytes : Int32) (out : Bytes)
  | close (conn : Bytes)
  | matchIn (in_ regex : Bytes) (captures : List Capture)
  | matchAny (any regex : Bytes) (out : Option Bytes)
  | if_ (cond : Cond) (then_ : List Step)
  | emit (kind severity confidence title : Bytes) (fields : List EmitField)
  | tlsUpgrade (conn : Bytes) (sni : Ref) (alpn : Option (List Bytes)) (timeoutMs : Int32)
  | tlsEnum (host port : Ref) (protocols : List Bytes) (starttls : Option Bytes)
      (timeoutMs : Int32)

/-- `struct ps_recipe_budgets`. -/
structure Budgets where
  maxSteps : Int32
  maxRecvBytes : Int32
  maxTargets : Int32
  maxWallclockMs : Int32
  maxTlsProbes : Int32
  deriving DecidableEq, Repr

/-- `struct ps_recipe`. -/
structure PsRecipe where
  schema : Int32
  name : Bytes
  version : Int32
  description : Option Bytes
  kindPrefix : Bytes
  defaultPort : Int32
  budgets : Budgets
  steps : List Step

/-- The bindings a successful TLS upgrade makes, in the order it makes them (`TLSB`). -/
def tlsBindings : List (Bytes × Bt) :=
  [(asc "tls_version", .string), (asc "tls_cipher", .string), (asc "tls_ja4", .string),
   (asc "tls_ja4s", .string), (asc "tls_ja4x", .string), (asc "cert_subject_cn", .string),
   (asc "cert_issuer_cn", .string), (asc "cert_not_after", .string), (asc "cert_sig_alg", .string),
   (asc "cert_key_type", .string), (asc "cert_san", .string), (asc "cert_self_signed", .string),
   (asc "cert_days_to_expiry", .int), (asc "cert_key_bits", .int)]

/-- The two lists `tls_enum` binds. -/
def tlsEnumBindings : List (Bytes × Bt) :=
  [(asc "tls_accepted_protocols", .strlist), (asc "tls_accepted_ciphers", .strlist)]

mutual

def Step.decls : Step → List (Bytes × Bt)
  | .connect _ _ _ _ out => [(out, .conn)]
  | .send _ _ => []
  | .recv _ _ _ out => [(out, .bytes)]
  | .close _ => []
  | .matchIn _ _ captures => captures.map fun c => (c.name, c.as.bt)
  | .matchAny _ _ out => out.toList.map fun name => (name, .string)
  | .if_ _ then_ => stepsDecls then_
  | .emit _ _ _ _ _ => []
  | .tlsUpgrade _ _ _ _ => tlsBindings
  | .tlsEnum _ _ _ _ _ => tlsEnumBindings

def stepsDecls : List Step → List (Bytes × Bt)
  | [] => []
  | s :: ss => s.decls ++ stepsDecls ss

end

end Packetsonde.Recipe
