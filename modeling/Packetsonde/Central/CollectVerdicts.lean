import Packetsonde.Central.CollectRound

/-!
# Packetsonde — verdicts in the collector's lines (`ps_collect_process`)

The collector cuts the event out of the payload, takes its closing brace away and writes the agent's id
and its own verdicts behind it. Event and id are written as they are, so an envelope decides on what
stands in front of the verdicts.

`frontText` is that part of the line, closed like an object. The line is an object with one verdict of
each kind exactly if it is an object without them (`verdicts_line_iff`), so the collector's verdicts are
the only ones exactly for the envelopes whose event and id are `Harmless`. Event and id have to be read
together: an id with quotes and braces can close what the event left open.
-/

namespace Packetsonde.Central

open Packetsonde.Lib
open Packetsonde.Discovery (Pubkey)
open Packetsonde.Recipe (Evp)
open List

/-! ## Event and id of an envelope -/

/-- What is taken for the event of a payload: from the first brace behind the first `"event":` on to the
brace that closes it, or to the end, and an empty object if there is no brace. -/
inductive EventOf (payload : Bytes) : Bytes → Prop where
  | none (h : behind (asc "\"event\":") payload = none) : EventOf payload (asc "\x7b\x7d")
  | bare {rest : Bytes} (h : behind (asc "\"event\":") payload = some rest) (hbrace : 123 ∉ rest) :
      EventOf payload (asc "\x7b\x7d")
  | closed {gap obj rest : Bytes} (h : behind (asc "\"event\":") payload = some (gap ++ (obj ++ rest)))
      (hgap : 123 ∉ gap) (hobj : Closes obj) : EventOf payload obj
  | unclosed {gap obj : Bytes} (h : behind (asc "\"event\":") payload = some (gap ++ obj)) (hgap : 123 ∉ gap)
      (hopen : obj.head? = some 123) (hobj : ∀ t, t <+: obj → ¬ Closes t) : EventOf payload obj

variable {obj payload e a ts : Bytes}

theorem cutFirst_of_unclosed (hopen : obj.head? = some 123)
    (hobj : ∀ t, t <+: obj → ¬ Closes t) : cutFirst 0 obj = obj := by
  obtain ⟨rest, rfl⟩ := head?_eq_some_iff.mp hopen
  have hcut : cutFirst 0 (123 :: rest) = 123 :: cutFirst 1 rest := by rw [cutFirst, if_pos rfl, Int.zero_add]
  rcases cutFirst_cases (show (0 : Int) < 1 by decide) rest with hall | hcloses
  · rw [hcut, hall]
  · refine absurd (closes_cons hcloses) (hobj _ ?_)
    rw [← hcut]
    exact cutFirst_prefix 0 _

/-- No event is found. -/
theorem eventObj_of_none (h : behind (asc "\"event\":") payload = none) :
    eventObj payload = asc "\x7b\x7d" := by
  have hnone : findSub (asc "\"event\":") payload = none := Option.map_eq_none_iff.mp h
  rw [eventObj, hnone]

theorem eventObj_of_bare {payload rest : Bytes} (h : behind (asc "\"event\":") payload = some rest)
    (hbrace : 123 ∉ rest) : eventObj payload = asc "\x7b\x7d" := by
  obtain ⟨i, hi, hdrop⟩ := drop_of_behind h
  have hnot : (123 : UInt8) ∉ payload.drop i := by
    rw [hdrop, mem_append, not_or]
    exact ⟨by decide, hbrace⟩
  unfold eventObj
  rw [hi]
  dsimp only
  rw [if_neg fun hc => hnot hc.1]

/-- The event of a payload that fits its buffer. -/
theorem eventObj_of_behind {payload gap obj : Bytes} (hlen : payload.length < payloadSize)
    (h : behind (asc "\"event\":") payload = some (gap ++ obj)) (hgap : 123 ∉ gap)
    (hopen : obj.head? = some 123) : eventObj payload = cutFirst 0 obj := by
  obtain ⟨i, hi, hdrop⟩ := drop_of_behind h
  obtain ⟨rest, rfl⟩ := head?_eq_some_iff.mp hopen
  have hkey : ∀ c ∈ asc "\"event\":" ++ gap, decide (c ≠ 123) = true := by
    intro c hc
    rw [decide_eq_true_eq]
    rintro rfl
    rcases mem_append.mp hc with hc | hc
    · exact absurd hc (by decide)
    · exact hgap hc
  have hskip : (payload.drop i).dropWhile (· ≠ 123) = 123 :: rest := by
    rw [hdrop, ← append_assoc]
    exact dropWhile_append_stop hkey rfl rest
  have hmem : (123 : UInt8) ∈ payload.drop i := by
    rw [hdrop]
    simp
  have hfits : (cutFirst 0 (123 :: rest)).length < payloadSize := by
    have hle := IsPrefix.length_le <| cutFirst_prefix 0 (123 :: rest)
    have hsub := (dropWhile_suffix (l := payload.drop i) (· ≠ 123)).length_le
    rw [hskip, length_drop] at hsub
    omega
  unfold eventObj
  rw [hi]
  dsimp only
  rw [hskip, if_pos ⟨hmem, hfits⟩]

theorem eventOf_iff (hlen : payload.length < payloadSize) :
    EventOf payload e ↔ eventObj payload = e := by
  constructor
  · intro h
    cases h with
    | none h => exact eventObj_of_none h
    | bare h hbrace => exact eventObj_of_bare h hbrace
    | @closed gap _ rest h hgap hobj =>
      have hopen : (e ++ rest).head? = some 123 := by
        obtain ⟨t, rfl⟩ := head?_eq_some_iff.mp hobj.opens
        rfl
      rw [eventObj_of_behind hlen h hgap hopen, cutFirst_of_closes hobj]
    | unclosed h hgap hopen hobj =>
      rw [eventObj_of_behind hlen h hgap hopen, cutFirst_of_unclosed hopen hobj]
  · rintro rfl
    cases hbehind : behind (asc "\"event\":") payload with
    | none =>
      rw [eventObj_of_none hbehind]
      exact .none hbehind
    | some rest =>
      by_cases hbrace : (123 : UInt8) ∈ rest
      · obtain ⟨gap, tail, rfl, hgap⟩ := eq_append_cons_of_mem hbrace
        rw [eventObj_of_behind hlen hbehind hgap rfl]
        by_cases hclosed : ∃ t, t <+: 123 :: tail ∧ Closes t
        · obtain ⟨t, ⟨rest, htail⟩, hcloses⟩ := hclosed
          rw [← htail, cutFirst_of_closes hcloses]
          exact .closed (htail ▸ hbehind) hgap hcloses
        · have hnever : ∀ t, t <+: 123 :: tail → ¬ Closes t := fun t ht hc => hclosed ⟨t, ht, hc⟩
          rw [cutFirst_of_unclosed rfl hnever]
          exact .unclosed hbehind hgap rfl hnever
      · rw [eventObj_of_bare hbehind hbrace]
        exact .bare hbehind hbrace

/-- `payload` in the source. -/
def extractedPayload (envelope : CString) : Bytes :=
  (jsonExtractString envelope.bytes (asc "payload") payloadSize).str

/-- What is extracted fits the buffer with its NUL. -/
theorem length_extractChars_lt {cap : Nat} (p : Bytes) {out : Bytes} (h : out.length < cap) :
    (extractChars cap p out).out.length < cap := by
  fun_induction extractChars cap p out with
  | case6 _ _ _ _ _ _ _ _ _ _ ih => exact ih (by rw [length_append, length_singleton]; omega)
  | case10 _ _ _ _ _ _ _ _ ih => exact ih (by rw [length_append, length_singleton]; omega)
  | case12 _ _ _ _ _ _ ih => exact ih (by rw [length_append, length_singleton]; omega)
  | _ => exact h

theorem length_jsonExtractString_lt (json key : Bytes) {cap : Nat} (hcap : 0 < cap) :
    (jsonExtractString json key cap).str.length < cap := by
  refine Nat.lt_of_le_of_lt (takeWhile_sublist _).length_le ?_
  unfold jsonExtractString
  split
  · exact hcap
  · split
    · exact hcap
    · split
      · exact length_extractChars_lt _ hcap
      · exact hcap

theorem length_extractedPayload_lt (envelope : CString) :
    (extractedPayload envelope).length < payloadSize :=
  length_jsonExtractString_lt _ _ (by decide)

/-- The id the line gets: that of the payload, else that of the envelope. -/
def claimedId (envelope : CString) : Bytes :=
  let innerId := (jsonExtractString (extractedPayload envelope) (asc "origin_agent_id") 256).str
  let outerId := (jsonExtractString envelope.bytes (asc "origin_agent_id") 256).str
  if innerId ≠ [] then innerId else if outerId ≠ [] then outerId else asc "unknown"

/-! ## The line -/

def lineFront (event agentId : Bytes) : Bytes :=
  event.dropLast ++ (if event.length > 2 then asc "," else []) ++
    memberText (asc "agent_id") (quoted agentId)

def frontText (event agentId : Bytes) : Bytes := lineFront event agentId ++ [125]

/-- The line is an object with one verdict of each kind, and they are the collector's. -/
def Verdicts (r : CollectResult) (line : Bytes) : Prop :=
  ∃ ms, Doc .value line (.obj ms) ∧
    ms.filter (fun m => m.1 = asc "verified") = [(asc "verified", .bool r.verified)] ∧
    ms.filter (fun m => m.1 = asc "relay_chain_verified") =
      [(asc "relay_chain_verified", .bool r.relayChainVerified)]

/-- What stands in front of the verdicts is an object without any. -/
def NoVerdicts (front : Bytes) : Prop :=
  ∃ ms, Doc .value front (.obj ms) ∧
    ∀ m ∈ ms, m.1 ≠ asc "verified" ∧ m.1 ≠ asc "relay_chain_verified"

theorem lineFront_eq (hopen : e.head? = some 123) (hlen : 2 ≤ e.length) (a : Bytes) :
    ∃ x, lineFront e a = 123 :: x ∧ (34 : UInt8) ∈ x := by
  obtain ⟨rest, rfl⟩ := head?_eq_some_iff.mp hopen
  have hne : rest ≠ [] := by
    rintro rfl
    exact absurd hlen (by decide)
  rw [lineFront, dropLast_cons_of_ne_nil hne, cons_append, cons_append]
  exact ⟨_, rfl, mem_append_right _ mem_cons_self⟩

theorem lineText_eq {e a x : Bytes} (hx : lineFront e a = 123 :: x) (r : CollectResult) (ts : Bytes) :
    lineText e a r ts = 123 :: (((((x ++ 44 :: memberText (asc "verified") (boolLit r.verified)) ++
      44 :: memberText (asc "relay_chain_verified") (boolLit r.relayChainVerified)) ++
      44 :: memberText (asc "transport") (quoted (transportOf r))) ++
      44 :: memberText (asc "received_ts") (quoted ts)) ++ [125]) := by
  rw [lineText, annotationText_eq, ← append_assoc, ← lineFront, hx]
  simp only [append_assoc, cons_append]

theorem plain_transportOf (r : CollectResult) : Plain (transportOf r) := by
  unfold transportOf
  split <;> decide

def verdictMembers (r : CollectResult) (ts : Bytes) : List (Bytes × Json Bytes) :=
  [(asc "verified", .bool r.verified), (asc "relay_chain_verified", .bool r.relayChainVerified),
    (asc "transport", .str (transportOf r)), (asc "received_ts", .str ts)]

/-- The line is an object exactly if its front is one. -/
theorem doc_line_verdicts_iff (hopen : e.head? = some 123) (hlen : 2 ≤ e.length)
    (hts : Plain ts) (r : CollectResult) (ms : List (Bytes × Json Bytes)) :
    Doc .value (lineText e a r ts) (.obj ms) ↔
      ∃ ms', ms = ms' ++ verdictMembers r ts ∧ Doc .value (frontText e a) (.obj ms') := by
  obtain ⟨x, hx, hquote⟩ := lineFront_eq hopen hlen a
  have hfront : frontText e a = 123 :: (x ++ [125]) := by rw [frontText, hx, cons_append]
  have hws : ∀ {u : Bytes}, x <+: u → ¬ IsWs u := fun hpre hw =>
    absurd (hw 34 (hpre.subset hquote)) (by decide)
  rw [lineText_eq hx, hfront]
  constructor
  · intro h
    obtain ⟨u, htext, hu⟩ := doc_obj_inv h
    have hu' := append_cancel_right (List.cons.inj htext).2
    rcases hu with ⟨-, hw⟩ | ⟨-, hmembers⟩
    · refine absurd hw (hws ?_)
      rw [← hu', append_assoc, append_assoc, append_assoc]
      exact prefix_append _ _
    · obtain ⟨ms₃, rfl, h₃⟩ := doc_members_literal hmembers (literal_str hts) (by decide) hu'.symm
      obtain ⟨ms₂, rfl, h₂⟩ := doc_members_literal h₃ (literal_str (plain_transportOf r)) (by decide) rfl
      obtain ⟨ms₁, rfl, h₁⟩ := doc_members_literal h₂ (literal_bool _) (by decide) rfl
      obtain ⟨ms', rfl, h'⟩ := doc_members_literal h₁ (literal_bool _) (by decide) rfl
      refine ⟨ms', ?_, .obj h'⟩
      simp only [verdictMembers, append_assoc, cons_append, nil_append]
  · rintro ⟨ms', rfl, h⟩
    obtain ⟨u, htext, hu⟩ := doc_obj_inv h
    obtain rfl := append_cancel_right (List.cons.inj htext).2
    rcases hu with ⟨-, hw⟩ | ⟨-, hmembers⟩
    · exact absurd hw (hws prefix_rfl)
    · have hkey {k t : Bytes} {v : Json Bytes} (hk : Plain k) (hv : Doc .value t v) :
          Doc .members (memberText k t) (.obj [(k, v)]) := doc_memberText (strText_self hk) hv
      have hall := doc_members_append (doc_members_append (doc_members_append (doc_members_append hmembers
        (hkey (show Plain (asc "verified") by decide) (doc_boolLit r.verified)))
        (hkey (show Plain (asc "relay_chain_verified") by decide) (doc_boolLit r.relayChainVerified)))
        (hkey (show Plain (asc "transport") by decide) (doc_quoted (plain_transportOf r))))
        (hkey (show Plain (asc "received_ts") by decide) (doc_quoted hts))
      rw [verdictMembers]
      simpa only [append_assoc, cons_append, nil_append] using Doc.obj hall

theorem verdicts_line_iff (r : CollectResult) (hopen : e.head? = some 123)
    (hlen : 2 ≤ e.length) (hts : Plain ts) :
    Verdicts r (lineText e a r ts) ↔ NoVerdicts (frontText e a) := by
  have hverified : (verdictMembers r ts).filter (fun m => m.1 = asc "verified") =
      [(asc "verified", .bool r.verified)] := by rfl
  have hchain : (verdictMembers r ts).filter (fun m => m.1 = asc "relay_chain_verified") =
      [(asc "relay_chain_verified", .bool r.relayChainVerified)] := by rfl
  constructor
  · rintro ⟨ms, hdoc, hone, hone'⟩
    obtain ⟨ms', rfl, hfront⟩ := (doc_line_verdicts_iff hopen hlen hts r ms).mp hdoc
    rw [filter_append, hverified, append_left_eq_self, filter_eq_nil_iff] at hone
    rw [filter_append, hchain, append_left_eq_self, filter_eq_nil_iff] at hone'
    exact ⟨ms', hfront, fun m hm => ⟨by simpa using hone m hm, by simpa using hone' m hm⟩⟩
  · rintro ⟨ms, hdoc, hnone⟩
    refine ⟨_, (doc_line_verdicts_iff hopen hlen hts r _).mpr ⟨ms, rfl, hdoc⟩, ?_, ?_⟩
    · rw [filter_append, hverified, append_left_eq_self, filter_eq_nil_iff]
      exact fun m hm => by simpa using (hnone m hm).1
    · rw [filter_append, hchain, append_left_eq_self, filter_eq_nil_iff]
      exact fun m hm => by simpa using (hnone m hm).2

/-! ## Every envelope -/

/-- Event and id of the envelope make an object without verdicts. -/
def Harmless (envelope : CString) : Prop :=
  ∃ event, EventOf (extractedPayload envelope) event ∧ NoVerdicts (frontText event (claimedId envelope))

section

variable {evp : Evp} {envelope : CString} {pubkeys : List Pubkey} {receivedTs : Option CString} {cap : Nat}
  {r : CollectResult} {line : Bytes}

theorem collectProcess_line
    (h : collectProcess evp envelope pubkeys receivedTs cap = some (r, some line)) :
    2 ≤ (eventObj (extractedPayload envelope)).length ∧
      line = lineText (eventObj (extractedPayload envelope)) (claimedId envelope) r
        ((receivedTs.map (·.bytes)).getD []) := by
  unfold collectProcess at h
  extract_lets payloadX sigX payload sigB64 outerId innerId signed verified event relay r' agentId line' at h
  split at h
  · exact absurd h nofun
  · split at h
    · exact absurd h (by simp)
    · next hevent =>
      split at h
      · obtain ⟨rfl, hline⟩ := Prod.mk.inj (Option.some.inj h)
        exact ⟨Nat.not_lt.mp (not_or.mp hevent).1, (Option.some.inj hline).symm⟩
      · exact absurd h (by simp)

/-- The collector's verdicts are the only ones in a line exactly if the envelope is harmless. -/
theorem verdicts_iff (hts : ∀ ts ∈ receivedTs, Plain ts.bytes)
    (h : collectProcess evp envelope pubkeys receivedTs cap = some (r, some line)) :
    Verdicts r line ↔ Harmless envelope := by
  obtain ⟨hlen, rfl⟩ := collectProcess_line h
  have hplain : Plain ((receivedTs.map (·.bytes)).getD []) := by
    cases receivedTs with
    | none => decide
    | some ts => exact hts ts rfl
  have hevent := eventOf_iff (e := eventObj (extractedPayload envelope)) (length_extractedPayload_lt envelope)
  rw [verdicts_line_iff r (head_eventObj _) hlen hplain]
  constructor
  · exact fun hfront => ⟨_, hevent.mpr rfl, hfront⟩
  · rintro ⟨e, he, hfront⟩
    rwa [(eventOf_iff (length_extractedPayload_lt envelope)).mp he]

end

theorem doc_front {m a : Bytes} {ms : List (Bytes × Json Bytes)} (hm : Doc .members m (.obj ms))
    (ha : Plain a) :
    Doc .value (frontText (123 :: (m ++ [125])) a) (.obj (ms ++ [(asc "agent_id", .str a)])) := by
  have hlen : (123 :: (m ++ [125])).length > 2 := by
    have := length_pos_iff.mpr (doc_members_ne_nil hm)
    simp only [length_cons, length_append, length_nil]
    omega
  have hid : Doc .members (memberText (asc "agent_id") (quoted a)) (.obj [(asc "agent_id", .str a)]) :=
    doc_memberText (strText_self (by decide +kernel)) (doc_quoted ha)
  have hdoc := Doc.obj (doc_members_append hm hid)
  rw [frontText, lineFront, if_pos hlen, ← cons_append, dropLast_concat,
    show asc "," = [44] from rfl]
  simpa only [append_assoc, cons_append, nil_append] using hdoc

/-- The result for an envelope that nobody signed and no relay sent on. -/
def unsigned : CollectResult := ⟨false, true, false⟩

def kindEnvelope : CString where
  bytes := asc ("\x7b\"payload\":\"\x7b\\\"event\\\":\x7b\\\"kind\\\":\\\"conn\\\"\x7d\x7d\"," ++
    "\"ed25519_sig\":\"\"\x7d")
  noNul := by decide +kernel

theorem kind_verdicts :
    ∃ line, collectProcess edgeHost.evp kindEnvelope [] (some collectTime) 8192 =
        some (unsigned, some line) ∧
      Verdicts unsigned line := by
  let members := memberText (asc "kind") (quoted (asc "conn"))
  have hline : collectProcess edgeHost.evp kindEnvelope [] (some collectTime) 8192 =
      some (unsigned, some (lineText (123 :: (members ++ [125])) (asc "unknown") unsigned
        collectTime.bytes)) := by
    decide +kernel
  have hevent : EventOf (extractedPayload kindEnvelope) (123 :: (members ++ [125])) :=
    (eventOf_iff (length_extractedPayload_lt _)).mpr (by decide +kernel)
  have hid : claimedId kindEnvelope = asc "unknown" := by decide +kernel
  have hfront : NoVerdicts (frontText (123 :: (members ++ [125])) (claimedId kindEnvelope)) := by
    rw [hid]
    have hmembers := doc_memberText (strText_self (show Plain (asc "kind") by decide))
      (doc_quoted (show Plain (asc "conn") by decide))
    exact ⟨_, doc_front hmembers (by decide), by decide⟩
  refine ⟨_, hline, (verdicts_iff (fun ts hts => ?_) hline).mpr ⟨_, hevent, hfront⟩⟩
  obtain rfl := Option.some.inj hts
  decide

def forgedEnvelope : CString where
  bytes := asc ("\x7b\"payload\":\"\x7b\\\"event\\\":\x7b\\\"verified\\\":true\x7d\x7d\"," ++
    "\"ed25519_sig\":\"\"\x7d")
  noNul := by decide +kernel

/-- The line of that envelope says that it is verified, and then that it is not. -/
theorem forged_verdict :
    ∃ line, collectProcess edgeHost.evp forgedEnvelope [] (some collectTime) 8192 =
        some (unsigned, some line) ∧
      Doc .value line (.obj ([(asc "verified", .bool true), (asc "agent_id", .str (asc "unknown"))] ++
        verdictMembers unsigned collectTime.bytes)) ∧
      ¬ Verdicts unsigned line := by
  let members := memberText (asc "verified") (boolLit true)
  have hline : collectProcess edgeHost.evp forgedEnvelope [] (some collectTime) 8192 =
      some (unsigned, some (lineText (123 :: (members ++ [125])) (asc "unknown") unsigned
        collectTime.bytes)) := by
    decide +kernel
  have hfront : Doc .value (frontText (123 :: (members ++ [125])) (asc "unknown"))
      (.obj [(asc "verified", .bool true), (asc "agent_id", .str (asc "unknown"))]) :=
    doc_front (doc_memberText (strText_self (by decide +kernel)) (doc_boolLit true)) (by decide)
  have hdoc := (doc_line_verdicts_iff rfl (by decide) (show Plain collectTime.bytes by decide) unsigned _).mpr
    ⟨_, rfl, hfront⟩
  refine ⟨_, hline, hdoc, ?_⟩
  rintro ⟨ms, hms, hone, -⟩
  obtain rfl := Json.obj.inj (doc_unique hms hdoc)
  exact absurd (congrArg List.length hone) (by decide)

end Packetsonde.Central
