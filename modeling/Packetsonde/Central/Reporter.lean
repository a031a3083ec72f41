import Packetsonde.Lib.Append
import Packetsonde.Lib.Scan
import Packetsonde.Central.JsonWriter
import Packetsonde.Recipe.Envelope

/-!
# Signed batches for central (`reporter.c`)

`ps_reporter_build_envelopes` wraps each event into a payload, signs the payload, and writes the
envelopes as one JSON array into the caller's buffer. Payload and envelope have buffers of their own
on the stack: an event whose payload is too long is left out, an envelope that is too long ends the
whole call. The array is put together with `Lib.Append`, one `snprintf` for each envelope; the
comma in front of an envelope depends on the number of the event, not on what was written before.

The files of the keystore and the host name come from `Host`, Ed25519 and base64 from `Evp`. Strings
from the caller are `CString`s.
-/

namespace Packetsonde.Central

open Packetsonde.Lib
open Packetsonde.Discovery (Signature)
open Packetsonde.Recipe (Evp Keypair)
open List

/-- The fields of `struct ps_central_config` the reporter reads; `none` is a null pointer. -/
structure CentralConfig where
  url : Option CString
  agentId : Option CString
  keyDir : Option CString
  deriving DecidableEq

/-- What the reporter asks the system for: `ps_keystore_load` and `gethostname`. -/
structure Host where
  evp : Evp
  keystoreLoad : Bytes → Bytes → Option Keypair
  hostname : Option CString

/-- `(p && p[0]) ? p : other`. -/
def givenOr (p : Option CString) (other : CString) : CString :=
  match p with
  | some s => if s.bytes.isEmpty then other else s
  | none => other

def CentralConfig.keydir (cc : CentralConfig) : CString :=
  givenOr cc.keyDir ⟨asc "/etc/packetsonded/keys", by decide⟩

def agentId (host : Host) (cc : CentralConfig) : CString :=
  givenOr cc.agentId (host.hostname.getD ⟨asc "unknown", by decide⟩)

/-! ## One event -/

/-- `ps_reporter_extract_ts`. -/
def extractTs (event : Bytes) (cap : Nat) : Option Bytes :=
  match behind (asc "\"ts\":\"") event with
  | none => none
  | some k => if 34 ∈ k then some ((k.takeWhile (· ≠ 34)).take (cap - 1)) else none

def payloadText (agentId ts event : Bytes) : Bytes :=
  asc "\x7b\"origin_agent_id\":\"" ++ agentId ++ asc "\",\"ts\":\"" ++ ts ++ asc "\",\"event\":" ++
    event ++ asc "\x7d"

/-- `ps_reporter_build_payload`. -/
def buildPayload (cap : Nat) (agentId ts event : Bytes) : Option Bytes :=
  if (payloadText agentId ts event).length < cap then some (payloadText agentId ts event) else none

/-- `b64` of a signature into `sig_b64[128]`. -/
def b64 (evp : Evp) (sig : Signature) : Option Bytes :=
  if (evp.encodeBlock sig.toList 64).length < 128 then some (evp.encodeBlock sig.toList 64) else none

/-- `char payload[16384]` and `char env[20000]`. -/
def payloadSize : Nat := 16384

def envSize : Nat := 20000

def eventTs (event : Bytes) : Bytes := (extractTs event 40).getD (asc "1970-01-01T00:00:00Z")

/-- The signature of a payload as text; `none` is the `return -1`. -/
def sigText (host : Host) (kp : Keypair) (payload : Bytes) : Option Bytes :=
  (host.evp.ed25519.sign kp.seckey payload).bind (b64 host.evp)

def writeEnvelope (agentId payload sig : Bytes) : Option Bytes :=
  ((((((PsJson.init envSize).objectBegin.keyInt (asc "envelope_v") 1).keyString
    (asc "origin_agent_id") agentId).keyString (asc "payload") payload).keyString
    (asc "ed25519_sig") sig).objectEnd).finish

/-- What one turn of the loop comes to: `continue`, `return -1`, or something to append. -/
inductive Turn where
  | skip
  | fail
  | envelope (text : Bytes)
  deriving DecidableEq, Repr

/-- The body of the loop up to the `snprintf`. -/
def turn (host : Host) (kp : Keypair) (agentId event : CString) : Turn :=
  match buildPayload payloadSize agentId.bytes (eventTs event.bytes) event.bytes with
  | none => .skip
  | some payload =>
    match sigText host kp payload with
    | none => .fail
    | some sig =>
      match writeEnvelope agentId.bytes payload sig with
      | none => .fail
      | some env => .envelope env

/-! ## The batch -/

/-- `i ? "," : ""`. -/
def comma (i : Nat) : Bytes := if i = 0 then [] else asc ","

/-- The loop from the `i`-th event on; `none` is the `return -1`. -/
def appendEvents (host : Host) (kp : Keypair) (agentId : CString) :
    Nat → List CString → Appender → Option Appender
  | _, [], a => some a
  | i, event :: events, a =>
    match turn host kp agentId event with
    | .skip => appendEvents host kp agentId (i + 1) events a
    | .fail => none
    | .envelope env =>
      let a' := a.append (comma i ++ env)
      if a'.off ≥ sizeSub a'.mem.length 64 then some a'
      else appendEvents host kp agentId (i + 1) events a'

structure Built where
  ret : Int32
  out : Appender
  deriving DecidableEq, Repr

/-- `ps_reporter_build_envelopes` into an array with the bytes `out`; `none` where it returns before
the end of the loop, with -1. -/
def buildEnvelopes (host : Host) (cc : CentralConfig) (events : List CString) (out : Bytes) :
    Option Built :=
  match host.keystoreLoad cc.keydir.bytes (asc "agent") with
  | none => none
  | some kp =>
    let opened := (Appender.start out).append (asc "[")
    match appendEvents host kp (agentId host cc) 0 events opened with
    | none => none
    | some a => some ⟨Int32.ofNat (a.append (asc "]")).off, a.append (asc "]")⟩

section Spec

variable (host : Host) (kp : Keypair) (id : CString)

def payloadOf (event : CString) : Bytes :=
  payloadText id.bytes (eventTs event.bytes) event.bytes

def Fits (event : CString) : Prop := (payloadOf id event).length < payloadSize

instance : DecidablePred (Fits id) := fun _ => inferInstanceAs (Decidable (_ < _))

def envelopeText (agentId payload sig : Bytes) : Bytes :=
  asc "\x7b\"envelope_v\":1,\"origin_agent_id\":" ++ PsJson.quote agentId ++ asc ",\"payload\":" ++
    PsJson.quote payload ++ asc ",\"ed25519_sig\":" ++ PsJson.quote sig ++ asc "\x7d"

def envelopeJson (agentId payload sig : Bytes) : Json Bytes :=
  .obj [(asc "envelope_v", .int (asc "1")), (asc "origin_agent_id", .str agentId),
    (asc "payload", .str payload), (asc "ed25519_sig", .str sig)]

def sigOf (event : CString) : Bytes := cstr ((sigText host kp (payloadOf id event)).getD [])

def envelopeOf (event : CString) : Bytes :=
  envelopeText id.bytes (payloadOf id event) (sigOf host kp id event)

def pieces : Nat → List CString → List Bytes
  | _, [] => []
  | i, event :: events =>
    if Fits id event then (comma i ++ envelopeOf host kp id event) :: pieces (i + 1) events
    else pieces (i + 1) events

variable {host kp id}

theorem extractTs_no_nul {event ts : Bytes} {cap : Nat} (hnul : (0 : UInt8) ∉ event)
    (h : extractTs event cap = some ts) : (0 : UInt8) ∉ ts := by
  unfold extractTs behind at h
  split at h
  · cases h
  · rename_i k hk
    split at h
    · obtain rfl := Option.some.inj h
      obtain ⟨i, -, rfl⟩ := Option.map_eq_some_iff.mp hk
      intro hmem
      exact hnul (mem_of_mem_drop ((takeWhile_sublist _).subset (mem_of_mem_take hmem)))
    · cases h

theorem eventTs_no_nul (event : CString) : (0 : UInt8) ∉ eventTs event.bytes := by
  unfold eventTs
  cases hts : extractTs event.bytes 40 with
  | none => decide
  | some ts => exact extractTs_no_nul event.noNul hts

theorem payloadOf_no_nul (event : CString) : (0 : UInt8) ∉ payloadOf id event := by
  have hopen : (0 : UInt8) ∉ asc "\x7b\"origin_agent_id\":\"" := by decide
  have hts : (0 : UInt8) ∉ asc "\",\"ts\":\"" := by decide
  have hevent : (0 : UInt8) ∉ asc "\",\"event\":" := by decide
  have hclose : (0 : UInt8) ∉ asc "\x7d" := by decide
  unfold payloadOf payloadText
  simp only [mem_append, not_or]
  exact ⟨⟨⟨⟨⟨⟨hopen, id.noNul⟩, hts⟩, eventTs_no_nul event⟩, hevent⟩, event.noNul⟩, hclose⟩

/-! ### The envelope -/

theorem writeEnvelope_eq (payload sig : Bytes) (hpayload : (0 : UInt8) ∉ payload) :
    writeEnvelope id.bytes payload sig =
      if (envelopeText id.bytes payload (cstr sig)).length < envSize then
        some (envelopeText id.bytes payload (cstr sig)) else none := by
  have hholds := (((((PsJson.holds_init (show 0 < envSize by decide)).objectBegin.keyInt
    (asc "envelope_v") 1).keyString (asc "origin_agent_id") id.bytes).keyString (asc "payload")
    payload).keyString (asc "ed25519_sig") sig).objectEnd
  rw [id.cstr_bytes, cstr_eq_self_iff.mpr hpayload] at hholds
  have hopen : asc "\x7b\"envelope_v\":1,\"origin_agent_id\":" = asc "\x7b" ++
      (PsJson.quote (cstr (asc "envelope_v")) ++ (asc ":" ++ (decimal 1 ++ (asc "," ++
        (PsJson.quote (cstr (asc "origin_agent_id")) ++ asc ":"))))) := by decide
  have hmid : asc ",\"payload\":" =
      asc "," ++ (PsJson.quote (cstr (asc "payload")) ++ asc ":") := by decide
  have hlast : asc ",\"ed25519_sig\":" =
      asc "," ++ (PsJson.quote (cstr (asc "ed25519_sig")) ++ asc ":") := by decide
  have htext := hholds.finish
  unfold writeEnvelope envelopeText
  rw [htext, hopen, hmid, hlast]
  simp only [append_assoc, nil_append, sep_false, sep_true]

theorem doc_envelopeText (agentId payload sig : Bytes) :
    Doc .value (envelopeText agentId payload sig) (envelopeJson agentId payload sig) := by
  have hplain : ∀ k ∈ [asc "envelope_v", asc "origin_agent_id", asc "payload", asc "ed25519_sig"],
      ∀ c ∈ k, c ≠ 34 ∧ c ≠ 92 ∧ 0x20 ≤ c := by decide +kernel
  simp only [forall_mem_cons] at hplain
  obtain ⟨hv, hid, hpayload, hsig, -⟩ := hplain
  have hone : NumLit (asc "1") := by
    refine ⟨[], asc "1", [], [], rfl, Or.inl rfl, ⟨by decide, by decide +kernel⟩, by decide,
      Or.inl rfl, Or.inl rfl⟩
  have hdoc := Doc.obj (doc_memberText_cons (strText_self hv) (.num hone)
    (doc_memberText_cons (strText_self hid) (PsJson.doc_quote agentId)
      (doc_memberText_cons (strText_self hpayload) (PsJson.doc_quote payload)
        (doc_memberText (strText_self hsig) (PsJson.doc_quote sig)))))
  have hopen : asc "\x7b\"envelope_v\":1,\"origin_agent_id\":" =
      123 :: (memberText (asc "envelope_v") (asc "1") ++ 44 :: memberText (asc "origin_agent_id") []) := by
    decide
  have hmid : asc ",\"payload\":" = 44 :: memberText (asc "payload") [] := by decide
  have hlast : asc ",\"ed25519_sig\":" = 44 :: memberText (asc "ed25519_sig") [] := by decide
  have hmember : ∀ raw value, memberText raw value = memberText raw [] ++ value := by
    intro raw value
    simp [memberText]
  unfold envelopeText
  rw [hopen, hmid, hlast, show asc "\x7d" = [125] by decide]
  rw [hmember (asc "origin_agent_id"), hmember (asc "payload"), hmember (asc "ed25519_sig")] at hdoc
  simp only [append_assoc, cons_append] at hdoc ⊢
  exact hdoc

/-- One turn: an event that does not fit is left out, one that fits is signed and written. -/
theorem turn_eq (event : CString) :
    turn host kp id event =
      if Fits id event then
        match sigText host kp (payloadOf id event) with
        | none => .fail
        | some _ =>
          if (envelopeOf host kp id event).length < envSize then
            .envelope (envelopeOf host kp id event) else .fail
      else .skip := by
  unfold turn buildPayload
  by_cases hfits : Fits id event
  · rw [if_pos (show (payloadText _ _ _).length < payloadSize from hfits), if_pos hfits]
    show (match sigText host kp (payloadOf id event) with
      | none => Turn.fail
      | some sig =>
        match writeEnvelope id.bytes (payloadOf id event) sig with
        | none => .fail
        | some env => .envelope env) = _
    cases hsig : sigText host kp (payloadOf id event) with
    | none => rfl
    | some sig =>
      have henv : envelopeOf host kp id event =
          envelopeText id.bytes (payloadOf id event) (cstr sig) := by
        unfold envelopeOf sigOf
        rw [hsig]
        rfl
      dsimp only
      rw [writeEnvelope_eq _ _ (payloadOf_no_nul event), henv]
      by_cases hlen : (envelopeText id.bytes (payloadOf id event) (cstr sig)).length < envSize
      · rw [if_pos hlen, if_pos hlen]
      · rw [if_neg hlen, if_neg hlen]
  · rw [if_neg (show ¬ (payloadText _ _ _).length < payloadSize from hfits), if_neg hfits]

/-! ### The loop -/

/-- The loop, started with the `i`-th event behind a text of `n` bytes, stops after `m` events: when
64 bytes or less are left, or at the end of the list. -/
structure Stops (host : Host) (kp : Keypair) (id : CString) (cap n i : Nat) (events : List CString)
    (m : Nat) : Prop where
  le : m ≤ events.length
  before : ∀ k < m, n + (pieces host kp id i (events.take k)).flatten.length < cap - 64
  full : m < events.length → cap - 64 ≤ n + (pieces host kp id i (events.take m)).flatten.length

variable {cap n i : Nat} {events : List CString}

variable {event : CString}

/-- A first event that contributes `size` bytes and leaves room. -/
theorem Stops.cons {size m : Nat} (hsize : ∀ es, (pieces host kp id i (event :: es)).flatten.length =
      size + (pieces host kp id (i + 1) es).flatten.length)
    (hroom : n + size < cap - 64) (h : Stops host kp id cap (n + size) (i + 1) events m) :
    Stops host kp id cap n i (event :: events) (m + 1) := by
  refine ⟨Nat.succ_le_succ h.le, fun k hk => ?_, fun hm => ?_⟩
  · cases k with
    | zero =>
      show n + 0 < cap - 64
      omega
    | succ k =>
      rw [take_succ_cons, hsize, ← Nat.add_assoc]
      exact h.before k (by omega)
  · rw [take_succ_cons, hsize, ← Nat.add_assoc]
    exact h.full (Nat.lt_of_succ_lt_succ hm)

theorem pieces_skip (hfits : ¬ Fits id event) (es : List CString) :
    pieces host kp id i (event :: es) = pieces host kp id (i + 1) es := by
  rw [pieces, if_neg hfits]

theorem pieces_cons (hfits : Fits id event) (es : List CString) :
    pieces host kp id i (event :: es) =
      (comma i ++ envelopeOf host kp id event) :: pieces host kp id (i + 1) es := by
  rw [pieces, if_pos hfits]

/-- The event's envelope can be made: signing works and the envelope fits its buffer. -/
def Sealed (host : Host) (kp : Keypair) (id event : CString) : Prop :=
  (sigText host kp (payloadOf id event)).isSome ∧ (envelopeOf host kp id event).length < envSize

theorem turn_of_sealed (hfits : Fits id event) (hsealed : Sealed host kp id event) :
    turn host kp id event = .envelope (envelopeOf host kp id event) := by
  obtain ⟨sig, hsig⟩ := Option.isSome_iff_exists.mp hsealed.1
  rw [turn_eq, if_pos hfits, hsig]
  exact if_pos hsealed.2

theorem turn_of_not_sealed (hfits : Fits id event)
    (hsealed : ¬ Sealed host kp id event) : turn host kp id event = .fail := by
  rw [turn_eq, if_pos hfits]
  cases hsig : sigText host kp (payloadOf id event) with
  | none => rfl
  | some sig =>
    refine if_neg fun hlen => hsealed ⟨?_, hlen⟩
    rw [hsig]
    rfl

theorem length_comma_le (i : Nat) : (comma i).length ≤ 1 := by
  unfold comma
  split <;> decide

/-- What a run of the loop leaves in the array, and where it stops. Induction on the events. -/
theorem appendEvents_spec {a a' : Appender} {t : Bytes} (hcap : 64 < cap)
    (h : appendEvents host kp id i events a = some a') (ha : a.Appended cap t)
    (hroom : t.length < cap - 64) :
    ∃ m, Stops host kp id cap t.length i events m ∧
      a'.Appended cap (t ++ (pieces host kp id i (events.take m)).flatten) ∧
      (a'.InBounds ↔ a.InBounds) ∧
      (∀ e ∈ events.take m, Fits id e → Sealed host kp id e) ∧
      (t ++ (pieces host kp id i (events.take m)).flatten).length < cap + envSize := by
  induction events generalizing i a t with
  | nil =>
    obtain rfl := Option.some.inj h
    refine ⟨0, ⟨Nat.le_refl _, by simp, by simp⟩, ?_, Iff.rfl, by simp, ?_⟩
    · rw [take_nil]
      show a.Appended cap (t ++ [])
      rwa [append_nil]
    · rw [take_nil]
      show (t ++ []).length < _
      rw [append_nil]
      omega
  | cons event events ih =>
    rw [appendEvents] at h
    by_cases hfits : Fits id event
    · by_cases hsealed : Sealed host kp id event
      · rw [turn_of_sealed hfits hsealed] at h
        dsimp only at h
        have hstep := ha.append (by omega) (comma i ++ envelopeOf host kp id event)
        have hbounds := (ha.inBounds_append (by omega) (comma i ++ envelopeOf host kp id event)).trans
          (and_iff_left (show t.length ≤ cap by omega))
        have hlen : (comma i ++ envelopeOf host kp id event).length ≤ envSize := by
          have hcomma := length_comma_le i
          have henv := hsealed.2
          rw [length_append]
          omega
        rw [hstep.size, sizeSub_of_le (by omega), hstep.off_eq, length_append] at h
        split at h
        · -- full: the loop ends behind this event
          rename_i hfull
          obtain rfl := Option.some.inj h
          have htake : (pieces host kp id i ((event :: events).take 1)).flatten =
              comma i ++ envelopeOf host kp id event := by
            rw [take_succ_cons, take_zero, pieces_cons hfits]
            simp [pieces]
          refine ⟨1, ⟨by simp, fun k hk => ?_, fun _ => ?_⟩, ?_, hbounds, ?_, ?_⟩
          · rw [Nat.lt_one_iff.mp hk]
            exact hroom
          · rw [htake]
            exact hfull
          · rw [htake]
            exact hstep
          · rw [take_succ_cons, take_zero, forall_mem_singleton]
            exact fun _ => hsealed
          · rw [htake, length_append]
            omega
        · rename_i hmore
          obtain ⟨m, hstops, happ, hin, hall, hsize⟩ :=
            ih h hstep (by rw [length_append]; omega)
          rw [length_append] at hstops
          refine ⟨m + 1, hstops.cons (fun es => ?_) (by omega), ?_, hin.trans hbounds, ?_, ?_⟩
          · rw [pieces_cons hfits, flatten_cons, length_append]
          · rw [take_succ_cons, pieces_cons hfits, flatten_cons, ← append_assoc]
            exact happ
          · rw [take_succ_cons, forall_mem_cons]
            exact ⟨fun _ => hsealed, hall⟩
          · rw [take_succ_cons, pieces_cons hfits, flatten_cons, ← append_assoc]
            exact hsize
      · rw [turn_of_not_sealed hfits hsealed] at h
        cases h
    · rw [turn_eq, if_neg hfits] at h
      obtain ⟨m, hstops, happ, hin, hall, hsize⟩ := ih h ha hroom
      have hzero : ∀ es, (pieces host kp id i (event :: es)).flatten.length =
          0 + (pieces host kp id (i + 1) es).flatten.length := by
        intro es
        rw [pieces_skip hfits, Nat.zero_add]
      refine ⟨m + 1, Stops.cons hzero hroom hstops, ?_, hin, ?_, ?_⟩
      · rw [take_succ_cons, pieces_skip hfits]
        exact happ
      · rw [take_succ_cons, forall_mem_cons]
        exact ⟨fun hf => absurd hf hfits, hall⟩
      · rw [take_succ_cons, pieces_skip hfits]
        exact hsize

/-! ### The array -/

def jsonOf (host : Host) (kp : Keypair) (id event : CString) : Json Bytes :=
  envelopeJson id.bytes (payloadOf id event) (sigOf host kp id event)

theorem doc_envelopeOf (event : CString) :
    Doc .value (envelopeOf host kp id event) (jsonOf host kp id event) :=
  doc_envelopeText _ _ _

theorem pieces_succ (i : Nat) (events : List CString) :
    pieces host kp id (i + 1) events =
      ((events.filter (Fits id)).map (envelopeOf host kp id)).map (44 :: ·) := by
  induction events generalizing i with
  | nil => rfl
  | cons event events ih =>
    by_cases hfits : Fits id event
    · rw [pieces_cons hfits, filter_cons_of_pos (by simpa using hfits), ih]
      rfl
    · rw [pieces_skip hfits, filter_cons_of_neg (by simpa using hfits), ih]

/-- With the first event in the array, the commas are between the envelopes. -/
theorem flatten_pieces {events : List CString} (h : ∀ e ∈ events.head?, Fits id e) :
    (pieces host kp id 0 events).flatten =
      commaJoin ((events.filter (Fits id)).map (envelopeOf host kp id)) := by
  cases events with
  | nil => rfl
  | cons event events =>
    have hfits : Fits id event := h event rfl
    rw [pieces_cons hfits, pieces_succ, filter_cons_of_pos (by simpa using hfits)]
    rfl

theorem pieces_eq_nil {i : Nat} {events : List CString} (h : ∀ e ∈ events, ¬ Fits id e) :
    pieces host kp id i events = [] := by
  induction events generalizing i with
  | nil => rfl
  | cons event events ih =>
    obtain ⟨hevent, hevents⟩ := forall_mem_cons.mp h
    rw [pieces_skip hevent, ih hevents]

theorem nul_not_mem_pieces (i : Nat) (events : List CString) :
    (0 : UInt8) ∉ (pieces host kp id i events).flatten := by
  induction events generalizing i with
  | nil => simp [pieces]
  | cons event events ih =>
    by_cases hfits : Fits id event
    · have hcomma : (0 : UInt8) ∉ comma i := by
        unfold comma
        split <;> decide
      rw [pieces_cons hfits, flatten_cons, mem_append, mem_append, not_or, not_or]
      exact ⟨⟨hcomma, doc_no_nul (doc_envelopeOf event)⟩, ih (i + 1)⟩
    · rw [pieces_skip hfits]
      exact ih (i + 1)

/-- The commas come out right: the first event is in the array, or none is. -/
def FirstFits (id : CString) (events : List CString) : Prop :=
  (∀ e ∈ events.head?, Fits id e) ∨ ∀ e ∈ events, ¬ Fits id e

theorem FirstFits.take {events : List CString} (h : FirstFits id events) (m : Nat) :
    FirstFits id (events.take m) := by
  rcases h with h | h
  · left
    intro e he
    cases m with
    | zero => simp at he
    | succ m => exact h e (by simpa [head?_take] using he)
  · exact Or.inr fun e he => h e (mem_of_mem_take he)

/-- Then the text is a JSON array of the envelopes. -/
theorem doc_array_of_firstFits {events : List CString} (h : FirstFits id events) :
    Doc .value (91 :: ((pieces host kp id 0 events).flatten ++ [93]))
      (.arr ((events.filter (Fits id)).map (jsonOf host kp id))) := by
  have hjoin : (pieces host kp id 0 events).flatten =
      commaJoin ((events.filter (Fits id)).map (envelopeOf host kp id)) := by
    rcases h with h | h
    · exact flatten_pieces h
    · rw [pieces_eq_nil h, filter_eq_nil_iff.mpr (by simpa using h)]
      rfl
  rw [hjoin]
  apply doc_array
  rw [forall₂_map_left_iff, forall₂_map_right_iff]
  exact forall₂_same.mpr fun e _ => doc_envelopeOf e

/-- Otherwise the array starts with a comma. -/
theorem pieces_of_not_firstFits {events : List CString} (h : ¬ FirstFits id events) :
    ∃ t, (pieces host kp id 0 events).flatten = 44 :: t := by
  obtain ⟨hfirst, hsome⟩ := not_or.mp h
  cases events with
  | nil => exact absurd (fun e he => absurd he (by simp)) hfirst
  | cons event events =>
    have hfits : ¬ Fits id event := fun hf => hfirst fun e he => by
      obtain rfl : event = e := by simpa using he
      exact hf
    have hne : events.filter (Fits id) ≠ [] := by
      intro hnil
      apply hsome
      rw [forall_mem_cons]
      exact ⟨hfits, by simpa using filter_eq_nil_iff.mp hnil⟩
    obtain ⟨e, es, hes⟩ := exists_cons_of_ne_nil hne
    rw [pieces_skip hfits, pieces_succ, hes, map_cons, map_cons, flatten_cons,
      cons_append]
    exact ⟨_, rfl⟩

end Spec

end Packetsonde.Central
