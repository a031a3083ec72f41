import Packetsonde.Central.JsonCalls

/-!
# From the reporter to the collector

What the collector makes of an envelope of the reporter. The strings of the envelope are written by a
JSON writer and read back as they were (`jsonExtractString_of_behind`), but the payload inside is put
together without one: the agent id goes into it as it is, and comes out decoded. The event is cut out
of the payload by its braces, and the line is pasted together again.

If the line has the tree it should have, it can be taken apart from its end (`doc_line_inv`): then the
id is in it as it is and the text in front is that of the event. This gives the exact condition,
`collect_round_trip_iff`.
-/

namespace Packetsonde.Central

open Packetsonde.Lib
open Packetsonde.Discovery (Pubkey Signature)
open Packetsonde.Recipe (Evp Keypair)
open List hiding Vector

/-! ## The members of an envelope -/

def envelopeCalls (agentId payload sig : Bytes) : List Call :=
  [.objectBegin, .member (asc "envelope_v") (.int 1), .member (asc "origin_agent_id") (.str agentId),
    .member (asc "payload") (.str payload), .member (asc "ed25519_sig") (.str sig)] ++ [.objectEnd]

theorem envelopeText_eq {agentId payload sig : Bytes} (hid : cstr agentId = agentId)
    (hpayload : cstr payload = payload) (hsig : cstr sig = sig) :
    envelopeText agentId payload sig = callsText false (envelopeCalls agentId payload sig) := by
  have hmember {k s : Bytes} (hk : Plain k) (hs : cstr s = s) :
      (Call.member k (.str s)).text true = 44 :: memberText k (PsJson.quote s) := by
    have htext := text_keyed (c := .member k (.str s)) rfl hk true []
    rwa [append_nil, append_nil, Call.value, Scalar.text, hs] at htext
  have hopen : callsText false [.objectBegin, .member (asc "envelope_v") (.int 1)] =
      asc "\x7b\"envelope_v\":1" := by decide +kernel
  show _ = callsText false ([.objectBegin, .member (asc "envelope_v") (.int 1)] ++
    [.member _ (.str agentId), .member _ (.str payload), .member _ (.str sig), .objectEnd])
  rw [callsText_append, hopen]
  simp only [callsText, Call.comma, commaAfter]
  rw [hmember (by decide) hid, hmember (by decide) hpayload, hmember (by decide) hsig]
  have h₁ : asc "\x7b\"envelope_v\":1,\"origin_agent_id\":" =
      asc "\x7b\"envelope_v\":1" ++ 44 :: 34 :: (asc "origin_agent_id" ++ [34, 58]) := by decide
  have h₂ : asc ",\"payload\":" = 44 :: 34 :: (asc "payload" ++ [34, 58]) := by decide
  have h₃ : asc ",\"ed25519_sig\":" = 44 :: 34 :: (asc "ed25519_sig" ++ [34, 58]) := by decide
  simp only [envelopeText, h₁, h₂, h₃, memberText, append_assoc, cons_append, nil_append]
  rfl

section Collect

variable {host : Host} {kp : Keypair} {id event env : CString} {pubkeys : List Pubkey}

/-- An envelope of the reporter, and the signature in it. -/
theorem turn_envelope {text : Bytes} (h : turn host kp id event = .envelope text) :
    Fits id event ∧ text = envelopeOf host kp id event ∧
      (sigText host kp (payloadOf id event)).isSome := by
  rw [turn_eq] at h
  by_cases hfits : Fits id event
  · rw [if_pos hfits] at h
    cases hsig : sigText host kp (payloadOf id event) with
    | none =>
      rw [hsig] at h
      cases h
    | some sig =>
      rw [hsig] at h
      dsimp only at h
      split at h
      · exact ⟨hfits, (Turn.envelope.inj h).symm, rfl⟩
      · cases h
  · rw [if_neg hfits] at h
    cases h

theorem exists_sigOf (hevp : host.evp.CodesBase64)
    (h : (sigText host kp (payloadOf id event)).isSome) :
    ∃ sig : Signature, host.evp.ed25519.sign kp.seckey (payloadOf id event) = some sig ∧
      sigOf host kp id event = Base64.encode sig.toList := by
  obtain ⟨text, htext⟩ := Option.isSome_iff_exists.mp h
  obtain ⟨sig, hsign, hb64⟩ := Option.bind_eq_some_iff.mp htext
  have hencode : host.evp.encodeBlock sig.toList 64 = Base64.encode sig.toList := by
    rw [hevp.encodes _ _ (by rw [Vector.length_toList]; decide), take_of_length_le]
    rw [Vector.length_toList]
    decide
  have hnul : (0 : UInt8) ∉ Base64.encode sig.toList := fun hmem =>
    absurd (Base64.encode_plain hmem).2.2 (by decide)
  unfold b64 at hb64
  split at hb64
  · obtain rfl := Option.some.inj hb64
    refine ⟨sig, hsign, ?_⟩
    unfold sigOf
    rw [htext, Option.getD_some, hencode, cstr_eq_self_iff.mpr hnul]
  · cases hb64

theorem b64dec_encode {evp : Evp} (hevp : evp.CodesBase64) (sig : Signature) :
    b64dec evp (Base64.encode sig.toList) 80 = some sig.toList := by
  have hlen : (Base64.encode sig.toList).length = 88 := by
    rw [Base64.length_encode, Vector.length_toList]
  have hdecode := hevp.decodes sig.toList (Int32.ofNat (Base64.encode sig.toList).length)
    (by rw [hlen]; decide)
  unfold b64dec
  rw [if_neg (by omega), hdecode, Base64.decode_encode, Option.map_some, Recipe.padCount_encode]
  simp

/-- What the reporter signs, one of the keys verifies. -/
theorem verifiedByAny_sigOf (hevp : host.evp.CodesBase64) (hkp : host.evp.KeyPair kp)
    (hpk : kp.pubkey ∈ pubkeys) (h : (sigText host kp (payloadOf id event)).isSome) :
    verifiedByAny host.evp pubkeys (payloadOf id event) (sigOf host kp id event) = true := by
  obtain ⟨sig, hsign, hsig⟩ := exists_sigOf hevp h
  unfold verifiedByAny
  rw [hsig, b64dec_encode hevp]
  dsimp only
  rw [if_neg (by rw [Vector.length_toList]; decide), Recipe.bytesAt_toList, any_eq_true]
  exact ⟨kp.pubkey, hpk, hkp _ _ hsign⟩

/-! ## The line -/

/-- The id the collector finds in the payload. -/
def innerId (id event : CString) : Bytes :=
  (jsonExtractString (payloadOf id event) (asc "origin_agent_id") 256).str

/-- The id the collector writes if it finds no contradiction. -/
def shownId (id : CString) : Bytes := if id.bytes = [] then asc "unknown" else id.bytes.take 255

def direct : CollectResult := ⟨true, true, false⟩

theorem no_nul_take (s : CString) (n : Nat) : cstr (s.bytes.take n) = s.bytes.take n :=
  cstr_eq_self_iff.mpr fun hmem => s.noNul (mem_of_mem_take hmem)

theorem envelopeOf_eq (host : Host) (kp : Keypair) (id event : CString) :
    envelopeOf host kp id event =
        callsText false (envelopeCalls id.bytes (payloadOf id event) (sigOf host kp id event)) ∧
      cstr (payloadOf id event) = payloadOf id event ∧ cstr (sigOf host kp id event) = sigOf host kp id event := by
  have hpayload := cstr_eq_self_iff.mpr (@payloadOf_no_nul id event)
  have hsig : cstr (sigOf host kp id event) = sigOf host kp id event :=
    cstr_eq_self_iff.mpr (nul_not_mem_cstr _)
  exact ⟨envelopeText_eq id.cstr_bytes hpayload hsig, hpayload, hsig⟩

/-- The collector's own reading of the three strings of an envelope. -/
theorem extract_envelope (henv : env.bytes = envelopeOf host kp id event) (hfits : Fits id event)
    (hlen : (sigOf host kp id event).length < 128) :
    jsonExtractString env.bytes (asc "payload") payloadSize = ⟨payloadOf id event, true⟩ ∧
      jsonExtractString env.bytes (asc "ed25519_sig") 128 = ⟨sigOf host kp id event, true⟩ ∧
      (jsonExtractString env.bytes (asc "origin_agent_id") 256).str = id.bytes.take 255 := by
  have hpayload : (payloadOf id event).length < payloadSize := hfits
  obtain ⟨htext, hpayload0, hsig0⟩ := envelopeOf_eq host kp id event
  rw [henv, htext]
  refine ⟨?_, ?_, ?_⟩
  · rw [extractString_calls ⟨rfl, rfl, by decide, by decide⟩ (by decide), hpayload0,
      take_of_length_le (by omega), decide_eq_true hpayload]
  · rw [extractString_calls ⟨rfl, rfl, by decide, by decide⟩ (by decide), hsig0,
      take_of_length_le (by omega), decide_eq_true hlen]
  · rw [extractString_calls ⟨rfl, rfl, by decide, by decide⟩ (by decide), id.cstr_bytes]
    exact no_nul_take id 255

/-- What `ps_collect_process` comes to on an envelope of the reporter. -/
theorem collectProcess_eq (henv : turn host kp id event = .envelope env.bytes)
    (hevp : host.evp.CodesBase64) (hkp : host.evp.KeyPair kp) (hpk : kp.pubkey ∈ pubkeys)
    (ts : CString) (cap : Nat) :
    collectProcess host.evp env pubkeys (some ts) cap =
      let inner := innerId id event
      let outer := id.bytes.take 255
      let r : CollectResult := ⟨!decide (inner ≠ [] ∧ outer ≠ [] ∧ inner ≠ outer), true, false⟩
      let e := eventObj (payloadOf id event)
      if e.length < 2 ∨ e.getLast? ≠ some 125 then some (r, none)
      else
        let line := lineText e (if inner ≠ [] then inner else if outer ≠ [] then outer
          else asc "unknown") r ts.bytes
        if line.length < cap then some (r, some line) else some (r, none) := by
  obtain ⟨hfits, htext, hsome⟩ := turn_envelope henv
  obtain ⟨sig, -, hsig⟩ := exists_sigOf hevp hsome
  have hlen : (sigOf host kp id event).length < 128 := by
    rw [hsig, Base64.length_encode, Vector.length_toList]
    decide
  obtain ⟨hpayload, hsigX, houter⟩ := extract_envelope htext hfits hlen
  obtain ⟨hcalls, hstr, hsigStr⟩ := envelopeOf_eq host kp id event
  -- nothing in an envelope of the reporter looks like a relay's attestation
  have hrelay : findSub (asc "\"relay_path\":") env.bytes = none := by
    rw [htext, hcalls, show asc "\"relay_path\":" = keyNeedle (asc "relay_path") by decide]
    exact Option.map_eq_none_iff.mp (behind_absent (by decide) rfl rfl false)
  change Extracted.str ⟨payloadOf id event, true⟩ = _ at hstr
  change Extracted.str ⟨sigOf host kp id event, true⟩ = _ at hsigStr
  unfold collectProcess
  dsimp only
  rw [hpayload, hsigX, houter, hstr, hsigStr, hrelay, verifiedByAny_sigOf hevp hkp hpk hsome,
    if_neg (by simp)]
  have hbool : ∀ p : Prop, [Decidable p] → (if p then false else true) = !decide p := by
    intro p _
    by_cases h : p <;> simp [h]
  rw [hbool]
  rfl

/-- A plain id is read back from the payload as it is. -/
theorem innerId_of_plain (hid : Plain id.bytes) (event : CString) :
    innerId id event = id.bytes.take 255 := by
  have hat : behind (keyNeedle (asc "origin_agent_id")) (asc "\x7b\"origin_agent_id\":") = some [] := by
    decide
  have hopen : asc "\x7b\"origin_agent_id\":\"" = asc "\x7b\"origin_agent_id\":" ++ [34] := by decide
  have hclose : asc "\",\"ts\":\"" = 34 :: asc ",\"ts\":\"" := by decide
  have hbehind : behind (keyNeedle (asc "origin_agent_id")) (payloadOf id event) =
      some (PsJson.quote id.bytes ++ (asc ",\"ts\":\"" ++ eventTs event.bytes ++ asc "\",\"event\":" ++
        event.bytes ++ asc "\x7d")) := by
    unfold payloadOf payloadText PsJson.quote
    rw [hopen, hclose, flatMap_quoteChar_of_plain hid]
    simp only [append_assoc]
    rw [behind_append_of_some hat]
    simp
  unfold innerId
  rw [jsonExtractString_of_behind hbehind (by decide) (by decide)]
  exact no_nul_take id 255

/-- A verified line, if there is one. -/
theorem exists_line_iff {bad short : Prop} [Decidable bad] [Decidable short] {r : CollectResult}
    {x : Bytes} {p : Bytes → Prop} :
    (∃ r' line, (if bad then some (r, none) else if short then some (r, some x) else some (r, none)) =
        some (r', some line) ∧ r'.verified = true ∧ p line) ↔
      ¬ bad ∧ short ∧ r.verified = true ∧ p x := by
  by_cases hbad : bad <;> by_cases hshort : short <;> simp [hbad, hshort]

/-- An envelope verifies and gives a line exactly if no other id is found in the payload, and what is
taken for the event ends with a brace. -/
theorem collected_iff (henv : turn host kp id event = .envelope env.bytes)
    (hevp : host.evp.CodesBase64) (hkp : host.evp.KeyPair kp) (hpk : kp.pubkey ∈ pubkeys)
    (ts : CString) (cap : Nat) (p : Bytes → Prop) :
    (∃ r line, collectProcess host.evp env pubkeys (some ts) cap = some (r, some line) ∧
        r.verified = true ∧ p line) ↔
      (innerId id event = [] ∨ innerId id event = id.bytes.take 255) ∧
        2 ≤ (eventObj (payloadOf id event)).length ∧
        (eventObj (payloadOf id event)).getLast? = some 125 ∧
        (lineText (eventObj (payloadOf id event)) (shownId id) direct ts.bytes).length < cap ∧
        p (lineText (eventObj (payloadOf id event)) (shownId id) direct ts.bytes) := by
  have hempty : id.bytes = [] → innerId id event = [] := by
    intro hnil
    have hplain : Plain id.bytes := by
      rw [hnil]
      exact fun c hc => absurd hc not_mem_nil
    rw [innerId_of_plain hplain, hnil, take_nil]
  have htake : id.bytes.take 255 = [] ↔ id.bytes = [] := by simp [take_eq_nil_iff]
  rw [collectProcess_eq henv hevp hkp hpk]
  generalize innerId id event = inner at hempty ⊢
  generalize eventObj (payloadOf id event) = e
  dsimp only
  -- the id in the line, where there is no contradiction
  have hshown : (inner = [] ∨ inner = id.bytes.take 255) →
      (if inner ≠ [] then inner else if id.bytes.take 255 ≠ [] then id.bytes.take 255
        else asc "unknown") = shownId id := by
    intro h
    unfold shownId
    by_cases hid : id.bytes = []
    · rw [if_neg (not_not.mpr (hempty hid)), if_neg (not_not.mpr (htake.mpr hid)), if_pos hid]
    · rw [if_neg hid, if_pos (fun hnil => hid (htake.mp hnil))]
      rcases h with rfl | rfl
      · rfl
      · split <;> rfl
  have hagree : ¬ (inner ≠ [] ∧ id.bytes.take 255 ≠ [] ∧ inner ≠ id.bytes.take 255) ↔
      (inner = [] ∨ inner = id.bytes.take 255) := by
    constructor
    · intro h
      by_contra hnot
      obtain ⟨hne, hdiff⟩ := not_or.mp hnot
      exact h ⟨hne, fun hnil => hne (hempty (htake.mp hnil)), hdiff⟩
    · rintro (rfl | rfl) h
      · exact h.1 rfl
      · exact h.2.2 rfl
  rw [exists_line_iff, not_or, not_not, Nat.not_lt]
  by_cases hok : inner = [] ∨ inner = id.bytes.take 255
  · rw [hshown hok, decide_eq_false (hagree.mpr hok), and_assoc, and_iff_right hok]
    exact ⟨fun ⟨hlen, hlast, hcap, _, hp⟩ => ⟨hlen, hlast, hcap, hp⟩,
      fun ⟨hlen, hlast, hcap, hp⟩ => ⟨hlen, hlast, hcap, rfl, hp⟩⟩
  · refine iff_of_false ?_ fun h => hok h.1
    rintro ⟨-, -, hverified, -⟩
    rw [decide_eq_true (by_contra fun h => hok (hagree.mp h))] at hverified
    cases hverified

end Collect

/-! ## The tree of a line -/

def annotations (id ts : Bytes) : List (Bytes × Json Bytes) :=
  [(asc "agent_id", .str id), (asc "verified", .bool true), (asc "relay_chain_verified", .bool true),
    (asc "transport", .str (asc "direct")), (asc "received_ts", .str ts)]

section Line

variable {e a id ts : Bytes} {ms : List (Bytes × Json Bytes)}

theorem boolText_eq (b : Bool) : boolText b = boolLit b := by
  cases b with
  | true => rfl
  | false => rfl

def transportOf (r : CollectResult) : Bytes := if r.hasRelay then asc "relay" else asc "direct"

theorem annotationText_eq (a : Bytes) (r : CollectResult) (ts : Bytes) :
    annotationText a r ts = memberText (asc "agent_id") (quoted a) ++
      44 :: (memberText (asc "verified") (boolLit r.verified) ++
      44 :: (memberText (asc "relay_chain_verified") (boolLit r.relayChainVerified) ++
      44 :: (memberText (asc "transport") (quoted (transportOf r)) ++
      44 :: (memberText (asc "received_ts") (quoted ts) ++ [125])))) := by
  have h₁ : asc "\"agent_id\":\"" = 34 :: (asc "agent_id" ++ [34, 58, 34]) := by decide
  have h₂ : asc "\",\"verified\":" = 34 :: 44 :: 34 :: (asc "verified" ++ [34, 58]) := by decide
  have h₃ : asc ",\"relay_chain_verified\":" =
      44 :: 34 :: (asc "relay_chain_verified" ++ [34, 58]) := by decide
  have h₄ : asc ",\"transport\":\"" = 44 :: 34 :: (asc "transport" ++ [34, 58, 34]) := by decide
  have h₅ : asc "\",\"received_ts\":\"" = 34 :: 44 :: 34 :: (asc "received_ts" ++ [34, 58, 34]) := by
    decide
  have h₆ : asc "\"\x7d" = [34, 125] := by decide
  unfold annotationText
  rw [h₁, h₂, h₃, h₄, h₅, h₆, boolText_eq, boolText_eq]
  unfold memberText quoted transportOf
  simp only [append_assoc, cons_append, nil_append]

theorem annotationText_direct (a ts : Bytes) :
    annotationText a direct ts = memberText (asc "agent_id") (quoted a) ++
      44 :: (memberText (asc "verified") (boolLit true) ++
      44 :: (memberText (asc "relay_chain_verified") (boolLit true) ++
      44 :: (memberText (asc "transport") (quoted (asc "direct")) ++
      44 :: (memberText (asc "received_ts") (quoted ts) ++ [125])))) :=
  annotationText_eq a direct ts

theorem doc_quoted {s : Bytes} (h : Plain s) : Doc .value (quoted s) (.str s) := .str (strText_self h)

theorem doc_annotations (hid : Plain id) (hts : Plain ts) :
    ∃ t, annotationText id direct ts = t ++ [125] ∧ Doc .members t (.obj (annotations id ts)) := by
  have hplain : ∀ k ∈ [asc "agent_id", asc "verified", asc "relay_chain_verified", asc "transport",
      asc "received_ts", asc "direct"], Plain k := by decide
  simp only [forall_mem_cons] at hplain
  obtain ⟨h₁, h₂, h₃, h₄, h₅, h₆, -⟩ := hplain
  refine ⟨_, ?_, doc_memberText_cons (strText_self h₁) (doc_quoted hid)
    (doc_memberText_cons (strText_self h₂) (doc_boolLit true)
      (doc_memberText_cons (strText_self h₃) (doc_boolLit true)
        (doc_memberText_cons (strText_self h₄) (doc_quoted h₆)
          (doc_memberText (strText_self h₅) (doc_quoted hts)))))⟩
  rw [annotationText_direct]
  simp only [append_assoc, cons_append]

/-- The line of an event that was cut out whole. -/
theorem doc_line (he : Doc .value e (.obj ms)) (hempty : ms = [] → e = [123, 125]) (hid : Plain id)
    (hts : Plain ts) : Doc .value (lineText e id direct ts) (.obj (ms ++ annotations id ts)) := by
  obtain ⟨t, htext, ht⟩ := doc_annotations hid hts
  obtain ⟨u, rfl, hu⟩ := doc_obj_inv he
  have hdrop : (123 :: (u ++ [125])).dropLast = 123 :: u := by
    rw [← cons_append, dropLast_concat]
  unfold lineText
  rw [htext, hdrop]
  rcases hu with ⟨rfl, -⟩ | ⟨hne, hu⟩
  · obtain rfl : u = [] := by simpa using hempty rfl
    exact Doc.obj ht
  · have hlong : (123 :: (u ++ [125])).length > 2 := by
      have hpos := length_pos_iff.mpr (doc_members_ne_nil hu)
      rw [length_cons, length_append, length_singleton]
      omega
    rw [if_pos hlong]
    have hdoc := Doc.obj (doc_members_append hu ht)
    simpa [show asc "," = [44] by decide] using hdoc

/-- A line with the right tree has the event's text in front, and the id in it stands for itself or is
the one that was written. -/
theorem doc_line_inv (h : Doc .value (lineText e a direct ts) (.obj (ms ++ annotations id ts)))
    (ha : a.length ≤ id.length ∨ (34 : UInt8) ∉ a) (hopen : e.head? = some 123) (hlen : 2 ≤ e.length)
    (hlast : e.getLast? = some 125) :
    Doc .value (quoted a) (.str id) ∧ Doc .value e (.obj ms) ∧ (ms = [] → e = [123, 125]) := by
  obtain ⟨e', rfl⟩ : ∃ e', e = 123 :: (e' ++ [125]) := by
    obtain ⟨rest, rfl⟩ := head?_eq_some_iff.mp hopen
    obtain ⟨init, rfl⟩ : ∃ init, rest = init ++ [125] := by
      cases rest using List.reverseRecOn with
      | nil => simp at hlen
      | append_singleton init last =>
        rw [← cons_append, getLast?_concat] at hlast
        exact ⟨init, by rw [Option.some.inj hlast]⟩
    exact ⟨init, rfl⟩
  have hdrop : (123 :: (e' ++ [125])).dropLast = 123 :: e' := by
    rw [← cons_append, dropLast_concat]
  obtain ⟨u, htext, hu⟩ := doc_obj_inv h
  obtain ⟨-, hu⟩ := hu.resolve_left fun hnil => by simp [annotations] at hnil
  unfold lineText at htext
  rw [hdrop, annotationText_direct] at htext
  generalize hsep : (if (123 :: (e' ++ [125])).length > 2 then asc "," else []) = sep at htext
  have hmembers : [] ++ u = ((((e' ++ sep) ++ memberText (asc "agent_id") (quoted a)) ++
      44 :: memberText (asc "verified") (boolLit true)) ++
      44 :: memberText (asc "relay_chain_verified") (boolLit true) ++
      44 :: memberText (asc "transport") (quoted (asc "direct"))) ++
      44 :: memberText (asc "received_ts") (quoted ts) := by
    refine append_cancel_right (?_ : ([] ++ u) ++ [125] = _ ++ [125])
    simp only [cons_append, append_assoc, List.cons.injEq, true_and] at htext
    rw [nil_append, ← htext]
    simp only [append_assoc, cons_append]
  have htree : ms ++ annotations id ts = ((((ms ++ [(asc "agent_id", .str id)]) ++
      [(asc "verified", .bool true)]) ++ [(asc "relay_chain_verified", .bool true)]) ++
      [(asc "transport", .str (asc "direct"))]) ++ [(asc "received_ts", .str ts)] := by
    simp only [annotations, append_assoc, cons_append, nil_append]
  rw [htree] at hu
  -- the four members at the end, one after the other
  obtain ⟨-, -, u₄, hu₄, heq₄⟩ := doc_members_tail_comma hu (by simp)
    (tailValue_str (Or.inl (Nat.le_refl _))) (.inl (Nat.le_refl _)) hmembers
  obtain ⟨-, -, u₃, hu₃, heq₃⟩ := doc_members_tail_comma hu₄ (by simp)
    (tailValue_str (Or.inl (Nat.le_refl _))) (.inl (Nat.le_refl _)) heq₄
  obtain ⟨-, -, u₂, hu₂, heq₂⟩ := doc_members_tail_comma hu₃ (by simp) (tailValue_bool true)
    (.inl (Nat.le_refl _)) heq₃
  obtain ⟨-, -, u₁, hu₁, heq₁⟩ := doc_members_tail_comma hu₂ (by simp) (tailValue_bool true)
    (.inl (Nat.le_refl _)) heq₂
  -- and the id
  have hsepcases : (sep = [44] ∧ e' ≠ []) ∨ (sep = [] ∧ e' = []) := by
    rw [← hsep]
    cases e' with
    | nil => exact Or.inr ⟨by simp, rfl⟩
    | cons c e' => exact Or.inl ⟨by simp [show asc "," = [44] by decide], by simp⟩
  have hslash : (e' ++ sep).getLast? ≠ some 92 := by
    rcases hsepcases with ⟨rfl, -⟩ | ⟨rfl, rfl⟩ <;> simp
  obtain ⟨-, hid, hrest⟩ := doc_members_tail hu₁ (tailValue_str ha) (.inl (Nat.le_refl _)) hslash heq₁
  refine ⟨hid, ?_⟩
  rcases hsepcases with ⟨rfl, hne⟩ | ⟨rfl, rfl⟩
  · rcases hrest with ⟨-, w, hw, heq⟩ | ⟨t, w, hw, ht, heq⟩
    · have hcomma := hw 44 (by rw [nil_append] at heq; rw [heq]; simp)
      exact absurd hcomma (by decide)
    · have heq' : (t ++ [44]) ++ w = e' ++ [44] := by simpa using heq
      obtain ⟨-, hsame⟩ := ws_suffix hw (by decide) heq'
      obtain rfl := append_cancel_right hsame
      refine ⟨.obj ht, ?_⟩
      rintro rfl
      nomatch ht
  · rcases hrest with ⟨rfl, -⟩ | ⟨t, w, -, -, heq⟩
    · exact ⟨Doc.emptyObj (show IsWs [] by simp [IsWs]), fun _ => rfl⟩
    · simp at heq

end Line

/-! ## The event in the payload -/

theorem head_cutFirst (rest : Bytes) : (cutFirst 0 (123 :: rest)).head? = some 123 := by
  rw [cutFirst, if_pos rfl]
  rfl

/-- What is taken for the event starts with a brace. -/
theorem head_eventObj (payload : Bytes) : (eventObj payload).head? = some 123 := by
  unfold eventObj
  cases findSub (asc "\"event\":") payload with
  | none =>
    show (asc "\x7b\x7d").head? = some 123
    decide
  | some i =>
    dsimp only
    split
    · rename_i h
      have hne : (payload.drop i).dropWhile (· ≠ 123) ≠ [] := by
        rw [ne_eq, dropWhile_eq_nil_iff]
        exact fun hall => absurd (hall 123 h.1) (by decide)
      have hhead := head_dropWhile_not (· ≠ (123 : UInt8)) hne
      obtain ⟨c, rest, hcons⟩ := exists_cons_of_ne_nil hne
      simp only [hcons, head_cons, decide_eq_false_iff_not, not_not] at hhead
      rw [hcons, hhead]
      exact head_cutFirst rest
    · decide

theorem eventTs_no_quote (event : Bytes) : (34 : UInt8) ∉ eventTs event := by
  unfold eventTs extractTs
  split
  · decide
  · split
    · intro hmem
      have hquote := mem_takeWhile_imp (mem_of_mem_take hmem)
      simp at hquote
    · decide

section Event

variable {id event : CString} {w t w' : Bytes}

/-- With a plain id, the first `"event":` of the payload is the key. -/
theorem behind_event (hid : Plain id.bytes) :
    behind (keyNeedle (asc "event")) (payloadOf id event) = some (event.bytes ++ [125]) := by
  have hopen : asc "\x7b\"origin_agent_id\":\"" = asc "\x7b\"origin_agent_id\":" ++ [34] := by decide
  have hmid : asc "\",\"ts\":\"" = 34 :: 44 :: (asc "\"ts\":" ++ [34]) := by decide
  have hkey : asc "\",\"event\":" = 34 :: 44 :: asc "\"event\":" := by decide
  have hat : behind (keyNeedle (asc "event")) (44 :: asc "\"event\":") = some [] := by decide
  have hskip : ∀ {raw : Bytes} (rest : Bytes), QuotesEscaped raw →
      behind (keyNeedle (asc "event")) (34 :: (raw ++ 34 :: 44 :: rest)) =
        behind (keyNeedle (asc "event")) (44 :: rest) := fun rest hraw =>
    behind_key_quoted hraw (by decide) (by decide) (by decide) (by decide)
  unfold payloadOf payloadText
  rw [hopen, hmid, hkey, show asc "\x7d" = [125] by decide]
  simp only [append_assoc, cons_append, nil_append]
  rw [behind_append_of_clashes (by decide), hskip _ (quotesEscaped_of_strText (strText_self hid)),
    ← cons_append, behind_append_of_clashes (by decide),
    hskip _ (quotesEscaped_of_not_mem (eventTs_no_quote _)), ← cons_append,
    behind_append_of_some hat, nil_append]

/-- What is cut out of the payload, with a plain id. -/
theorem eventObj_of_plain (hid : Plain id.bytes) (hfits : Fits id event)
    (hevent : event.bytes = w ++ (t ++ w')) (hw : IsWs w) (ht : t.head? = some 123) :
    eventObj (payloadOf id event) = cutFirst 0 (t ++ (w' ++ [125])) := by
  have hneedle : keyNeedle (asc "event") = asc "\"event\":" := by decide
  have hbehind := @behind_event id event hid
  rw [hneedle] at hbehind
  obtain ⟨i, hi, hdrop⟩ := Option.map_eq_some_iff.mp hbehind
  obtain ⟨-, ⟨post, hpost⟩, -⟩ := findSub_eq_some_iff.mp hi
  have hpost' : post = w ++ (t ++ (w' ++ [125])) := by
    rw [← drop_drop, ← hpost, drop_left, hevent] at hdrop
    simpa using hdrop
  obtain ⟨t', rfl⟩ := head?_eq_some_iff.mp ht
  have hws : ∀ c : UInt8, isWs c = true → decide (c ≠ 123) = true := forall_byte (by decide +kernel)
  have hwhile : ((payloadOf id event).drop i).dropWhile (· ≠ 123) = 123 :: t' ++ (w' ++ [125]) := by
    rw [← hpost, hpost', dropWhile_append_of_pos (by decide +kernel),
      dropWhile_append_of_pos fun c hc => hws c (hw c hc), cons_append,
      dropWhile_cons_of_neg (by decide)]
  have hmem : (123 : UInt8) ∈ (payloadOf id event).drop i := by
    rw [← hpost, hpost']
    simp
  -- a part of the payload, so there is room for it
  have hlen : (cutFirst 0 (123 :: t' ++ (w' ++ [125]))).length < payloadSize := by
    have hle := IsPrefix.length_le <| cutFirst_prefix 0 (123 :: t' ++ (w' ++ [125]))
    have hsuffix := congrArg List.length hwhile
    have hshort := ((dropWhile_suffix (· ≠ (123 : UInt8))).length_le :
      (((payloadOf id event).drop i).dropWhile (· ≠ 123)).length ≤ _)
    rw [length_drop] at hshort
    have hall : (payloadOf id event).length < payloadSize := hfits
    omega
  unfold eventObj
  rw [hi]
  dsimp only
  rw [hwhile, if_pos ⟨hmem, hlen⟩]

/-- The round trip of an event: it verifies, and the line has the members of the event and the five of
the collector, exactly if the id needs no escapes and is neither empty nor too long, and the event's
text closes where its braces do. -/
theorem collect_round_trip_iff {host : Host} {kp : Keypair} {env ts : CString}
    {pubkeys : List Pubkey} {ms : List (Bytes × Json Bytes)} {cap : Nat}
    (henv : turn host kp id event = .envelope env.bytes) (hevp : host.evp.CodesBase64)
    (hkp : host.evp.KeyPair kp) (hpk : kp.pubkey ∈ pubkeys)
    (hevent : event.bytes = w ++ (t ++ w')) (hw : IsWs w) (hdoc : Doc .value t (.obj ms))
    (hts : Plain ts.bytes) (hcap : (lineText t id.bytes direct ts.bytes).length < cap) :
    (∃ r line, collectProcess host.evp env pubkeys (some ts) cap = some (r, some line) ∧
        r.verified = true ∧ Doc .value line (.obj (ms ++ annotations id.bytes ts.bytes))) ↔
      Plain id.bytes ∧ id.bytes ≠ [] ∧ id.bytes.length < 256 ∧ Closes t ∧ (ms = [] → t = [123, 125]) := by
  obtain ⟨hfits, -, -⟩ := turn_envelope henv
  obtain ⟨u, htext, -⟩ := doc_obj_inv hdoc
  have hopen : t.head? = some 123 := by rw [htext]; rfl
  rw [collected_iff henv hevp hkp hpk]
  constructor
  · rintro ⟨-, hlen, hlast, -, hline⟩
    have hshown : (shownId id).length ≤ id.bytes.length ∨ (34 : UInt8) ∉ shownId id := by
      unfold shownId
      split
      · exact Or.inr (by decide)
      · exact Or.inl (length_take_le' _ _)
    obtain ⟨hquoted, hobj, hempty⟩ := doc_line_inv hline hshown (head_eventObj _) hlen hlast
    have hne : id.bytes ≠ [] := by
      intro hnil
      have hunknown : Doc .value (quoted (shownId id)) (.str (asc "unknown")) := by
        rw [shownId, if_pos hnil]
        exact doc_quoted (by decide)
      have hsame := Json.str.inj (doc_unique hquoted hunknown)
      rw [hnil] at hsame
      exact absurd hsame (by decide)
    rw [shownId, if_neg hne] at hquoted
    obtain ⟨raw, hraw, hstr⟩ := doc_str_inv hquoted
    obtain rfl : id.bytes.take 255 = raw := append_cancel_right (List.cons.inj hraw).2
    obtain ⟨hall, hplain⟩ := strText_eq_of_length hstr (length_take_le' _ _)
    have hshort : id.bytes.length < 256 := by
      have hle : (id.bytes.take 255).length ≤ 255 := length_take_le _ _
      rw [hall] at hle
      omega
    rw [eventObj_of_plain hplain hfits hevent hw hopen] at hobj hempty
    -- the cut is a prefix of the same text, so it is the event
    obtain ⟨rest, hrest⟩ := cutFirst_prefix 0 (t ++ (w' ++ [125]))
    have hcut := doc_obj_prefix_unique hobj hdoc hrest
    rw [hcut] at hempty
    refine ⟨hplain, hne, hshort, ?_, hempty⟩
    obtain ⟨t', rfl⟩ := head?_eq_some_iff.mp hopen
    have htail : cutFirst 1 (t' ++ (w' ++ [125])) = t' := by
      rw [cons_append, cutFirst, if_pos rfl, Int.zero_add] at hcut
      exact (List.cons.inj hcut).2
    rcases cutFirst_cases (show (0 : Int) < 1 by decide) (t' ++ (w' ++ [125])) with hwhole | hcloses
    · rw [htail] at hwhole
      have hlen := congrArg List.length hwhole
      simp only [length_append, length_singleton] at hlen
      omega
    · rw [htail] at hcloses
      exact closes_cons hcloses
  · rintro ⟨hplain, hne, hshort, hcloses, hempty⟩
    have htake : id.bytes.take 255 = id.bytes := take_of_length_le (by omega)
    have hshown : shownId id = id.bytes := by rw [shownId, if_neg hne, htake]
    rw [eventObj_of_plain hplain hfits hevent hw hopen, cutFirst_of_closes hcloses, hshown]
    refine ⟨Or.inr (innerId_of_plain hplain event), ?_, ?_, hcap, doc_line hdoc hempty hplain hts⟩
    · rw [htext, length_cons, length_append, length_singleton]
      omega
    · rw [htext, ← cons_append, getLast?_concat]

end Event

/-! ## Two events -/

theorem evpSigning_codesBase64 (sig : Signature) : (evpSigning sig).CodesBase64 where
  encodes _ _ _ := rfl
  decodes bs n hn := by
    change Base64.decode ((Base64.encode bs).take n.toInt.toNat) = _
    rw [hn, Int.toNat_natCast, take_length]

theorem evpSigning_keyPair (sig : Signature) : (evpSigning sig).KeyPair Recipe.authorKeys := by
  intro msg s h
  simp only [evpSigning, if_pos, Option.some.injEq] at h ⊢
  simp [h]

def envelopeString (host : Host) (event : CString) : CString where
  bytes := envelopeOf host Recipe.authorKeys edgeId event
  noNul := doc_no_nul (doc_envelopeText _ _ _)

def connHost : Host :=
  reportingHost
    (Recipe.hexBytes 64 ("d482f1b9506b764acd3c6081f3954a51703ea4e24ab44b1413f7970797dfa755" ++
      "7bc69abe589584c75a6697d79e03e46c5eee5075746eb98ae764127635d4e502"))
    edgeId

/-- An event of `edge-1` arrives with its member. -/
theorem conn_event_collected :
    ∃ r line, collectProcess connHost.evp (envelopeString connHost connEvent)
        [Recipe.authorKeys.pubkey] (some collectTime) 8192 = some (r, some line) ∧
      r.verified = true ∧
      Doc .value line (.obj ([(asc "kind", .str (asc "conn"))] ++
        annotations edgeId.bytes collectTime.bytes)) := by
  have henv : turn connHost Recipe.authorKeys edgeId connEvent =
      .envelope (envelopeString connHost connEvent).bytes := by decide +kernel
  let members := memberText (asc "kind") (quoted (asc "conn"))
  have hevent : connEvent.bytes = [] ++ (123 :: (members ++ [125]) ++ []) := by decide
  have hdoc : Doc .value (123 :: (members ++ [125])) (.obj [(asc "kind", .str (asc "conn"))]) :=
    Doc.obj (doc_memberText (strText_self (by decide +kernel)) (doc_quoted (by decide +kernel)))
  exact (collect_round_trip_iff henv (evpSigning_codesBase64 _) (evpSigning_keyPair _)
    (mem_singleton.mpr rfl) hevent isWs_nil hdoc
    (by decide +kernel) (by decide +kernel)).mpr
    ⟨by decide, by decide, by decide, by decide, fun h => nomatch h⟩

def braceEvent : CString := ⟨asc "\x7b\"m\":\"\x7d\"\x7d", by decide⟩

def braceHost : Host :=
  reportingHost
    (Recipe.hexBytes 64 ("b81e2c3bb5b6c8562f04d7c73f72974e5901eb2df247451fb7163a60eddbb0e9" ++
      "9a0211e10ff50b6dae4587885050b80b7abdb22779ad8c0e4596d66647c1700f"))
    edgeId

/-- The event verifies, but it is cut at the brace in its string, and the line that is written for it
is no JSON. -/
theorem brace_event_collected :
    turn braceHost Recipe.authorKeys edgeId braceEvent =
        .envelope (envelopeString braceHost braceEvent).bytes ∧
      ∃ line, collectProcess braceHost.evp (envelopeString braceHost braceEvent)
          [Recipe.authorKeys.pubkey] (some collectTime) 8192 = some (direct, some line) ∧
        ∀ v, ¬ Doc .value line v := by
  have henv : turn braceHost Recipe.authorKeys edgeId braceEvent =
      .envelope (envelopeString braceHost braceEvent).bytes := by decide +kernel
  refine ⟨henv, lineText (asc "\x7b\"m\":\"\x7d") edgeId.bytes direct collectTime.bytes, ?_,
    not_doc_of_lex (by decide)⟩
  have hresult := collectProcess_eq henv (evpSigning_codesBase64 _) (evpSigning_keyPair _)
    (mem_singleton.mpr rfl) collectTime 8192
  exact hresult.trans (by decide +kernel)

end Packetsonde.Central
