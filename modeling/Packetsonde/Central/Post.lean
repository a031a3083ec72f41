import Packetsonde.Central.Batch

/-!
# Posting a batch (`http_client.c`, `ps_report_to`)

Three buffers stand between a batch and the connection: the array of envelopes, the body around it,
and the request with its headers, which `ps_http_request_h` puts together in 8192 bytes. What the
functions hand to the connection is a `Request`; without one they return -1.
-/

namespace Packetsonde.Central

open Packetsonde.Lib
open Packetsonde.Recipe (Keypair authorKeys)
open List

/-! ## The HTTP client -/

/-- `struct ps_url`. -/
structure PsUrl where
  scheme : Bytes
  host : Bytes
  port : Int32
  path : Bytes
  deriving DecidableEq, Repr

/-- `atoi`. -/
def atoi (s : Bytes) : Int32 := Int32.ofInt (strtoll s).1.toInt

/-- The scheme of an address with its port, and what follows `//`. -/
def urlScheme (url : Bytes) : Option (Bytes × Int32 × Bytes) :=
  if url.take 8 = asc "https://" then some (asc "https", 443, url.drop 8)
  else if url.take 7 = asc "http://" then some (asc "http", 80, url.drop 7)
  else none

/-- `ps_url_parse`. -/
def urlParse (url : Bytes) : Option PsUrl :=
  match urlScheme url with
  | none => none
  | some (scheme, port, p) =>
    let slash := (p.takeWhile (· ≠ 47)).length
    let colon := (p.takeWhile (· ≠ 58)).length
    -- without a slash (a colon) these are the length of `p`
    let hostlen := if colon < slash then colon else slash
    if hostlen = 0 ∨ hostlen ≥ 256 then none
    else
      let path := if slash < p.length then p.drop slash else asc "/"
      if path.length ≥ 512 then none
      else some
        { scheme
          host := p.take hostlen
          port := if colon < slash then atoi (p.drop (colon + 1)) else port
          path }

/-- The text `ps_http_build_request` formats. -/
def requestText (method : Bytes) (u : PsUrl) (body extraHeaders : Bytes) : Bytes :=
  method ++ asc " " ++ u.path ++ asc " HTTP/1.1\r\nHost: " ++ u.host ++ asc ":" ++
    decimal u.port.toInt ++ asc "\r\nContent-Type: application/json\r\nContent-Length: " ++
    natDecimal body.length ++ asc "\r\nConnection: close\r\n" ++ extraHeaders ++ asc "\r\n" ++ body

/-- `ps_http_build_request`. -/
def httpBuildRequest (cap : Nat) (method : Bytes) (u : PsUrl) (body extraHeaders : Bytes) :
    Option Bytes :=
  if (requestText method u body extraHeaders).length < cap then
    some (requestText method u body extraHeaders)
  else none

/-- The body can be read off a request. -/
theorem requestText_injective {method : Bytes} {u : PsUrl} {body body' extraHeaders : Bytes}
    (h : requestText method u body extraHeaders = requestText method u body' extraHeaders) :
    body = body' := by
  have hdigits : ∀ (n : Nat) (t : Bytes), (natDecimal n ++ 13 :: t).takeWhile isDigit =
      natDecimal n := by
    intro n t
    rw [takeWhile_append_of_pos fun c hc => isDigit_of_mem_natDecimal hc,
      takeWhile_cons_of_neg (by decide), append_nil]
  have hclose : asc "\r\nConnection: close\r\n" = 13 :: asc "\nConnection: close\r\n" := by decide
  unfold requestText at h
  simp only [append_assoc, append_cancel_left_eq, hclose, cons_append] at h
  have hlen := congrArg (List.takeWhile isDigit) h
  rw [hdigits, hdigits] at hlen
  rw [hlen] at h
  simpa using h

/-- What goes to the connection: where to dial, and the bytes to send. -/
structure Request where
  url : PsUrl
  bytes : Bytes
  deriving DecidableEq, Repr

/-- `char req[8192]`. -/
def reqSize : Nat := 8192

/-- `ps_http_request_h` up to `dial`. -/
def httpRequestH (method url body extraHeaders : Bytes) : Option Request :=
  match urlParse url with
  | none => none
  | some u => (httpBuildRequest reqSize method u body extraHeaders).map fun bytes => ⟨u, bytes⟩

/-! ## Reporting -/

def document (arr : Bytes) : Bytes := asc "\x7b\"envelopes\":" ++ arr ++ asc "\x7d"

/-- The address of an endpoint, in `char url[640]`. -/
def endpointUrl (base path : Bytes) : Bytes := (base ++ path).take 639

/-- `ps_report_to` up to the connection; `arr` is what the static array held before. -/
def reportTo (host : Host) (cc : CentralConfig) (baseUrl : Option CString) (endpointPath : Bytes)
    (events : List CString) (arr : Bytes) : Option Request :=
  match cc.url with
  | none => none
  | some url =>
    if url.bytes.isEmpty then none
    else
      match buildEnvelopes host cc events arr with
      | none => none
      | some built =>
        if built.ret < 0 then none
        else
          let body := document (cstr built.out.mem)
          if body.length ≥ 262208 then none
          else httpRequestH (asc "POST") (endpointUrl (givenOr baseUrl url).bytes endpointPath) body []

def observationsPath : Bytes := asc "/api/v1/packetsonde/observations"

/-- `ps_report_observations`. -/
def reportObservations (host : Host) (cc : CentralConfig) (baseUrl : Option CString)
    (events : List CString) (arr : Bytes) : Option Request :=
  reportTo host cc baseUrl observationsPath events arr

section Document

variable {host : Host} {kp : Keypair} {id : CString} {cc : CentralConfig} {events : List CString}
  {arr : Bytes}

/-- The array of all events, whether or not they fit anywhere. -/
def wholeArray (host : Host) (kp : Keypair) (id : CString) (events : List CString) : Bytes :=
  91 :: (commaJoin (events.map (envelopeOf host kp id)) ++ [93])

def documentJson (host : Host) (kp : Keypair) (id : CString) (events : List CString) : Json Bytes :=
  .obj [(asc "envelopes", .arr (events.map (jsonOf host kp id)))]

theorem doc_document {t : Bytes} {v : Json Bytes} (h : Doc .value t v) :
    Doc .value (document t) (.obj [(asc "envelopes", v)]) := by
  have hkey : StrText (asc "envelopes") (asc "envelopes") := strText_self (by decide +kernel)
  have hdoc := Doc.obj (doc_memberText hkey h)
  have hopen : asc "\x7b\"envelopes\":" = 123 :: memberText (asc "envelopes") [] := by decide
  have hmember : memberText (asc "envelopes") t = memberText (asc "envelopes") [] ++ t := by
    simp [memberText]
  unfold document
  rw [hopen, show asc "\x7d" = [125] by decide, cons_append, cons_append, ← hmember]
  exact hdoc

theorem batchText_eq_wholeArray (h : ∀ e ∈ events, Fits id e) :
    batchText host kp id events = wholeArray host kp id events := by
  unfold batchText wholeArray
  rw [flatten_pieces fun e he => h e (mem_of_mem_head? he),
    filter_eq_self.mpr (by simpa using h)]

theorem length_le_commaJoin {t : Bytes} {ts : List Bytes} (h : t ∈ ts) :
    t.length ≤ (commaJoin ts).length := by
  have hflat : ∀ {us : List Bytes}, t ∈ us → t.length ≤ (us.map (44 :: ·)).flatten.length := by
    intro us hus
    have hmem : 44 :: t ∈ us.map (44 :: ·) := mem_map_of_mem hus
    have hle := sublist_flatten_of_mem hmem |>.length_le
    rw [length_cons] at hle
    omega
  cases h with
  | head ts =>
    unfold commaJoin
    rw [length_append]
    omega
  | @tail u us hus =>
    have hle := hflat hus
    unfold commaJoin
    rw [length_append]
    omega

/-- A payload is no longer than its envelope. -/
theorem length_payloadOf_le (e : CString) :
    (payloadOf id e).length ≤ (envelopeOf host kp id e).length := by
  have hpayload := PsJson.length_le_quote (payloadOf id e)
  unfold envelopeOf envelopeText
  simp only [length_append]
  omega

/-- The request is longer than the document in it. -/
theorem length_document_le (u : PsUrl) (t : Bytes) :
    t.length ≤ (requestText (asc "POST") u (document t) []).length := by
  unfold requestText document
  simp only [length_append]
  omega

/-- A document that speaks of all events has them all. -/
theorem all_of_doc_document {m : Nat}
    (hdoc : Doc .value (document (batchText host kp id (events.take m)))
      (documentJson host kp id events)) :
    events.take m = events ∧ ∀ e ∈ events, Fits id e := by
  by_cases hfirst : FirstFits id (events.take m)
  · have hjson := doc_unique (doc_document (doc_array_of_firstFits hfirst)) hdoc
    unfold documentJson at hjson
    simp only [Json.obj.injEq, List.cons.injEq, Prod.mk.injEq, Json.arr.injEq, true_and, and_true]
      at hjson
    exact all_of_filter hjson
  · have hopen : Lex.fresh.run (asc "\x7b\"envelopes\":") = some .mid := by decide
    have hlex : Lex.fresh.run (document (batchText host kp id (events.take m))) = none := by
      unfold document
      rw [Lex.run_append, Lex.run_append, hopen, Option.bind_some, lex_batchText hfirst (Or.inr rfl)]
      rfl
    exact absurd hdoc (not_doc_of_lex hlex _)

end Document

section Report

variable {host : Host} {cc : CentralConfig} {kp : Keypair} {url : CString}
  {baseUrl : Option CString} {u : PsUrl} {events : List CString} {arr : Bytes}
  (hurl : cc.url = some url) (hne : url.bytes ≠ [])
  (hparse : urlParse (endpointUrl (givenOr baseUrl url).bytes observationsPath) = some u)

include hurl hne hparse

/-- What is left of the function once the array is built. -/
theorem reportObservations_of_built {built : Built}
    (hbuild : buildEnvelopes host cc events arr = some built) :
    reportObservations host cc baseUrl events arr =
      if built.ret < 0 then none
      else if (document (cstr built.out.mem)).length ≥ 262208 then none
      else (httpBuildRequest reqSize (asc "POST") u (document (cstr built.out.mem)) []).map
        fun bytes => ⟨u, bytes⟩ := by
  have hempty : ¬ url.bytes.isEmpty = true := by simpa using hne
  unfold reportObservations reportTo httpRequestH
  rw [hurl]
  dsimp only
  rw [if_neg hempty, hbuild, hparse]

variable (hload : host.keystoreLoad cc.keydir.bytes (asc "agent") = some kp)

include hload

/-- Events that all fit go to the client as one document. -/
theorem reportObservations_of_fits (harr : arr.length = 262144)
    (hsealed : ∀ e ∈ events, Fits (agentId host cc) e ∧ Sealed host kp (agentId host cc) e)
    (hlt : (wholeArray host kp (agentId host cc) events).length < 262144) :
    reportObservations host cc baseUrl events arr =
      (httpBuildRequest reqSize (asc "POST") u
        (document (wholeArray host kp (agentId host cc) events)) []).map
        fun bytes => ⟨u, bytes⟩ := by
  have heq : batchText host kp (agentId host cc) events = wholeArray host kp (agentId host cc) events :=
    batchText_eq_wholeArray fun e he => (hsealed e he).1
  have hcap : 256 ≤ arr.length := by omega
  obtain ⟨built, hbuild, happ, -, hret⟩ := buildEnvelopes_all hcap hload rfl hsealed
    (by rw [heq]; omega)
  have hstr := happ.cstr_mem (batchText_ne_nil _) (nul_not_mem_batchText _)
  rw [heq, take_of_length_le (by omega)] at hstr
  have hpos : ¬ built.ret < 0 := by
    rw [hret, heq, Int32.lt_iff_toInt_lt, (toInt_ofNat_eq_self_iff _).mpr (by omega)]
    exact Int.not_lt.mpr (Int.natCast_nonneg _)
  have hbody : ¬ (document (wholeArray host kp (agentId host cc) events)).length ≥ 262208 := by
    unfold document
    simp only [length_append, show (asc "\x7b\"envelopes\":").length = 13 by decide,
      show (asc "\x7d").length = 1 by decide]
    omega
  rw [reportObservations_of_built hurl hne hparse hbuild, if_neg hpos, hstr, if_neg hbody]

/-- A batch reaches the connection as a complete document exactly if the whole request is shorter
than the client's buffer. -/
theorem observations_posted_iff
    (hsig : ∀ payload, (sigText host kp payload).isSome) (harr : arr.length = 262144) :
    (∃ req body, reportObservations host cc baseUrl events arr = some req ∧
        req = ⟨u, requestText (asc "POST") u body []⟩ ∧
        Doc .value body (documentJson host kp (agentId host cc) events)) ↔
      (requestText (asc "POST") u (document (wholeArray host kp (agentId host cc) events)) []).length <
        reqSize := by
  have hempty : ¬ url.bytes.isEmpty = true := by simpa using hne
  have hcap : 256 ≤ arr.length := by omega
  constructor
  · rintro ⟨req, body, hsome, rfl, hdoc⟩
    cases hbuild : buildEnvelopes host cc events arr with
    | none =>
      unfold reportObservations reportTo at hsome
      rw [hurl] at hsome
      dsimp only at hsome
      rw [if_neg hempty, hbuild] at hsome
      cases hsome
    | some built =>
      rw [reportObservations_of_built hurl hne hparse hbuild] at hsome
      split at hsome
      · cases hsome
      · split at hsome
        · cases hsome
        · obtain ⟨bytes, hbytes, hreq⟩ := Option.map_eq_some_iff.mp hsome
          unfold httpBuildRequest at hbytes
          split at hbytes
          · rename_i hlt
            obtain rfl := Option.some.inj hbytes
            obtain rfl := requestText_injective (Request.mk.inj hreq).2
            obtain ⟨m, -, happ, -⟩ := buildEnvelopes_run hcap hload rfl hbuild
            -- the array is short, so none of it was cut off
            have hstr := happ.cstr_mem (batchText_ne_nil _) (nul_not_mem_batchText _)
            have hshort := Nat.lt_of_le_of_lt (length_document_le u (cstr built.out.mem)) hlt
            unfold reqSize at hshort
            rw [hstr, length_take] at hshort
            rw [take_of_length_le (by omega)] at hstr
            rw [hstr] at hdoc hlt
            obtain ⟨hall, hfits⟩ := all_of_doc_document hdoc
            rw [hall, batchText_eq_wholeArray hfits] at hlt
            exact hlt
          · cases hbytes
  · intro hlt
    have hshort : (wholeArray host kp (agentId host cc) events).length < 8192 :=
      Nat.lt_of_le_of_lt (length_document_le u _) hlt
    have hsmall : ∀ e ∈ events, (envelopeOf host kp (agentId host cc) e).length < 8192 := by
      intro e he
      have hle := length_le_commaJoin (mem_map.mpr ⟨e, he, rfl⟩ :
        envelopeOf host kp (agentId host cc) e ∈ events.map (envelopeOf host kp (agentId host cc)))
      unfold wholeArray at hshort
      rw [length_cons, length_append] at hshort
      omega
    have hfits : ∀ e ∈ events, Fits (agentId host cc) e := by
      intro e he
      have hle : (payloadOf (agentId host cc) e).length ≤
          (envelopeOf host kp (agentId host cc) e).length := length_payloadOf_le e
      have hlt' := hsmall e he
      show _ < payloadSize
      unfold payloadSize
      omega
    refine ⟨_, document (wholeArray host kp (agentId host cc) events), ?_, rfl, ?_⟩
    · have hsealed : ∀ e ∈ events, Fits (agentId host cc) e ∧ Sealed host kp (agentId host cc) e := by
        intro e he
        have hlt' := hsmall e he
        refine ⟨hfits e he, hsig _, ?_⟩
        unfold envSize
        omega
      rw [reportObservations_of_fits hurl hne hparse hload harr hsealed (by omega)]
      unfold httpBuildRequest
      rw [if_pos hlt]
      rfl
    · rw [← batchText_eq_wholeArray hfits]
      exact doc_document (doc_batchText hfits)

end Report

def centralUrl : PsUrl := ⟨asc "https", asc "central.example", 443, observationsPath⟩

theorem two_events_posted :
    ∃ req body, reportObservations edgeHost plainConfig none twoEvents
        (List.replicate 262144 0) = some req ∧
      req = ⟨centralUrl, requestText (asc "POST") centralUrl body []⟩ ∧
      Doc .value body (documentJson edgeHost authorKeys (agentId edgeHost plainConfig) twoEvents) := by
  have hload : edgeHost.keystoreLoad plainConfig.keydir.bytes (asc "agent") = some authorKeys :=
    keystoreLoad_reportingHost _ _
  exact (observations_posted_iff (rfl : plainConfig.url = some _) (by decide) (by decide) hload
    (sigText_reportingHost _ _) length_replicate).mpr (by decide +kernel)

theorem length_commaJoin_replicate (n : Nat) (t : Bytes) :
    (commaJoin (List.replicate (n + 1) t)).length = t.length + n * (t.length + 1) := by
  rw [replicate_succ]
  unfold commaJoin
  rw [length_append, map_replicate, length_flatten, map_replicate,
    sum_replicate, smul_eq_mul, length_cons]

/-- Fifty events of two bytes each are more than a request can hold: the batch is lost. -/
theorem fifty_events_not_posted :
    (∀ e ∈ List.replicate 50 emptyEvent, e.bytes.length < 4096) ∧
      reportObservations edgeHost plainConfig none (List.replicate 50 emptyEvent)
        (List.replicate 262144 0) = none := by
  have hall : ∀ {P : CString → Prop}, P emptyEvent → ∀ e ∈ List.replicate 50 emptyEvent, P e := by
    intro P h e he
    rwa [(mem_replicate.mp he).2]
  have hshort : emptyEvent.bytes.length < 4096 := by decide
  refine ⟨hall hshort, ?_⟩
  have hone : (envelopeOf edgeHost authorKeys (agentId edgeHost plainConfig) emptyEvent).length =
      238 := by decide +kernel
  have hfits : Fits (agentId edgeHost plainConfig) emptyEvent := by decide
  have hsealed : Sealed edgeHost authorKeys (agentId edgeHost plainConfig) emptyEvent :=
    ⟨sigText_reportingHost _ _ _, by rw [hone]; decide⟩
  have hload : edgeHost.keystoreLoad plainConfig.keydir.bytes (asc "agent") = some authorKeys :=
    keystoreLoad_reportingHost _ _
  have hlen : (wholeArray edgeHost authorKeys (agentId edgeHost plainConfig)
      (List.replicate 50 emptyEvent)).length = 11951 := by
    -- 50 envelopes, 49 commas, two brackets
    unfold wholeArray
    rw [map_replicate, length_cons, length_append, length_commaJoin_replicate, hone]
    rfl
  have hlong := length_document_le centralUrl
    (wholeArray edgeHost authorKeys (agentId edgeHost plainConfig) (List.replicate 50 emptyEvent))
  have hnone : httpBuildRequest reqSize (asc "POST")
      centralUrl (document (wholeArray edgeHost
        authorKeys (agentId edgeHost plainConfig) (List.replicate 50 emptyEvent))) [] = none := by
    unfold reqSize
    exact if_neg (by omega)
  rw [reportObservations_of_fits rfl (by decide)
    (show urlParse _ = some centralUrl by decide)
    hload length_replicate (hall ⟨hfits, hsealed⟩) (by rw [hlen]; decide), hnone]
  rfl

end Packetsonde.Central
