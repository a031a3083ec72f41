import Packetsonde.Lib.Cut
import Packetsonde.Central.Batch

/-!
# The collector (`collect.c`, `json_extract.c`)

`ps_collect_process` takes one envelope, checks the signature of its payload against the authorized
keys and writes the event as a line of JSON with five members more. The members of the envelope and of
the payload are found by their names as text; the event is cut out of the payload by counting braces
(`cutFirst`); the new members are pasted in front of its last brace.

`ps_json_extract_string` writes into the caller's buffer as it decodes. Where it gives up, what it has
decoded so far stays there; two of the callers ignore the return value and use it.
-/

namespace Packetsonde.Central

open Packetsonde.Lib
open Packetsonde.Discovery (Pubkey)
open Packetsonde.Recipe (Evp padCount)

/-! ## Strings out of a JSON text -/

/-- What is in the buffer, and whether the call succeeded. -/
structure Extracted where
  out : Bytes
  ok : Bool
  deriving DecidableEq, Repr

/-- The loop of `ps_json_extract_string`, behind the opening quote. -/
def extractChars (cap : Nat) : Bytes → Bytes → Extracted
  | [], out => ⟨out, false⟩
  | c :: p, out =>
    if c = 34 then ⟨out, true⟩
    else if c = 92 then
      match p with
      | [] => ⟨out, false⟩
      | e :: p =>
        if e = 117 then
          match p with
          | h₁ :: h₂ :: h₃ :: h₄ :: p =>
            match hex4 h₁ h₂ h₃ h₄ with
            | none => ⟨out, false⟩
            | some cp =>
              if out.length + 1 ≥ cap then ⟨out, false⟩
              else extractChars cap p (out ++ [UInt8.ofNat cp])
          | _ => ⟨out, false⟩
        else
          match escape e with
          | none => ⟨out, false⟩
          | some d =>
            if out.length + 1 ≥ cap then ⟨out, false⟩ else extractChars cap p (out ++ [d])
    else if out.length + 1 ≥ cap then ⟨out, false⟩
    else extractChars cap p (out ++ [c])

def keyNeedle (key : Bytes) : Bytes := 34 :: (key ++ [34, 58])

/-- `ps_json_extract_string`, into a buffer of `cap` bytes. -/
def jsonExtractString (json key : Bytes) (cap : Nat) : Extracted :=
  if cap = 0 ∨ (keyNeedle key).length ≥ 128 then ⟨[], false⟩
  else
    match behind (keyNeedle key) json with
    | none => ⟨[], false⟩
    | some p =>
      match p.dropWhile (fun c => c = 32 ∨ c = 9) with
      | 34 :: p => extractChars cap p []
      | _ => ⟨[], false⟩

/-- What the buffer, zero before the call, reads as. -/
def Extracted.str (x : Extracted) : Bytes := cstr x.out

/-! ## Signatures -/

/-- `b64dec`. -/
def b64dec (evp : Evp) (text : Bytes) (outcap : Nat) : Option Bytes :=
  if text.length = 0 ∨ text.length % 4 ≠ 0 ∨ outcap < text.length / 4 * 3 then none
  else
    (evp.decodeBlock text (Int32.ofNat text.length)).map fun out =>
      out.take (out.length - padCount text)

/-- `verified_by_any`. -/
def verifiedByAny (evp : Evp) (pks : List Pubkey) (msg sigB64 : Bytes) : Bool :=
  match b64dec evp sigB64 80 with
  | none => false
  | some sig =>
    if sig.length ≠ 64 then false else pks.any fun pk => evp.ed25519.verify pk msg (bytesAt sig 0 64)

/-! ## One envelope -/

/-- `struct ps_collect_result`. -/
structure CollectResult where
  verified : Bool
  relayChainVerified : Bool
  hasRelay : Bool
  deriving DecidableEq, Repr

def boolText (b : Bool) : Bytes := if b then asc "true" else asc "false"

/-- `event_obj`. -/
def eventObj (payload : Bytes) : Bytes :=
  match findSub (asc "\"event\":") payload with
  | none => asc "\x7b\x7d"
  | some i =>
    let obj := (payload.drop i).dropWhile (· ≠ 123)
    if 123 ∈ payload.drop i ∧ (cutFirst 0 obj).length < payloadSize then cutFirst 0 obj
    else asc "\x7b\x7d"

def annotationText (agentId : Bytes) (r : CollectResult) (receivedTs : Bytes) : Bytes :=
  asc "\"agent_id\":\"" ++ agentId ++ asc "\",\"verified\":" ++ boolText r.verified ++
    asc ",\"relay_chain_verified\":" ++ boolText r.relayChainVerified ++ asc ",\"transport\":\"" ++
    (if r.hasRelay then asc "relay" else asc "direct") ++ asc "\",\"received_ts\":\"" ++ receivedTs ++
    asc "\"\x7d"

def lineText (event agentId : Bytes) (r : CollectResult) (receivedTs : Bytes) : Bytes :=
  event.dropLast ++ (if event.length > 2 then asc "," else []) ++ annotationText agentId r receivedTs

/-- `chain_ok`: whether the first attestation is signed by one of the keys. -/
def relayChainOk (evp : Evp) (pubkeys : List Pubkey) (rp sigB64 : Bytes) : Bool :=
  let rf := (jsonExtractString rp (asc "received_from") 256).str
  let rts := (jsonExtractString rp (asc "ts") 64).str
  let rsig := (jsonExtractString rp (asc "sig") 128).str
  verifiedByAny evp pubkeys ((sigB64 ++ asc "|" ++ rf ++ asc "|" ++ rts).take 511) rsig

/-- `ps_collect_process`: `none` is a return before the result is filled in, and the line is missing
where -1 is returned after that. -/
def collectProcess (evp : Evp) (envelope : CString) (pubkeys : List Pubkey)
    (receivedTs : Option CString) (cap : Nat) : Option (CollectResult × Option Bytes) :=
  let payloadX := jsonExtractString envelope.bytes (asc "payload") payloadSize
  let sigX := jsonExtractString envelope.bytes (asc "ed25519_sig") 128
  if payloadX.ok = false ∨ sigX.ok = false then none
  else
    let payload := payloadX.str
    let sigB64 := sigX.str
    let outerId := (jsonExtractString envelope.bytes (asc "origin_agent_id") 256).str
    let innerId := (jsonExtractString payload (asc "origin_agent_id") 256).str
    let signed := verifiedByAny evp pubkeys payload sigB64
    let verified := if innerId ≠ [] ∧ outerId ≠ [] ∧ innerId ≠ outerId then false else signed
    let event := eventObj payload
    let relay := findSub (asc "\"relay_path\":") envelope.bytes
    let r : CollectResult :=
      { verified
        hasRelay := relay.isSome
        relayChainVerified := relay.all fun i =>
          relayChainOk evp pubkeys (envelope.bytes.drop i) sigB64 }
    if event.length < 2 ∨ event.getLast? ≠ some 125 then some (r, none)
    else
      let agentId :=
        if innerId ≠ [] then innerId else if outerId ≠ [] then outerId else asc "unknown"
      let line := lineText event agentId r ((receivedTs.map (·.bytes)).getD [])
      if line.length < cap then some (r, some line) else some (r, none)

end Packetsonde.Central
