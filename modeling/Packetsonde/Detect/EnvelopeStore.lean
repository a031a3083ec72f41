import Packetsonde.Baseline.Set
import Packetsonde.Central.JsonCalls
import Packetsonde.Detect.Sandbox

/-!
# Packetsonde — the files of envelopes (`ps_envelope_to_json`, `ps_envelope_from_json`, `learn_flush`)

When learning ends every envelope is written to a file, from which `sandbox-suggest` reads it. The writer
escapes what has to be escaped. The reader undoes that for the name of the unit, but takes the paths as they
stand between two quotes, with the loop of the baseline sets.

Every member is found where it was written (`behind_piece`), whatever the paths are, so the name, the
counters and the flags always come back. The paths do if none of them needs an escape, and all of it is
written only if it fits the buffer: `survives_iff`.
-/

namespace Packetsonde.Detect

open Packetsonde.Lib
open Packetsonde.Baseline (pattern scanItems itemsText escaped)
open Packetsonde.Central (PsJson sep_true jsonExtractString)
open List

/-! ## The code -/

/-- `struct ps_unit_envelope`, with its members as the C types they have. -/
structure EnvelopeRecord where
  unit : Bytes
  records : Int32
  truncated : Int32
  touchedHome : Int32
  usedTmp : Int32
  reads : List Bytes
  writes : List Bytes
  execs : List Bytes
  deriving DecidableEq

def flagInt (b : Bool) : Int32 := if b then 1 else 0

def PathSet.texts (s : PathSet) : List Bytes := s.paths.map Field.bytes

def UnitEnvelope.record (e : UnitEnvelope) : EnvelopeRecord where
  unit := e.unit.bytes
  records := Int32.ofNat e.records
  truncated := flagInt e.truncated
  touchedHome := flagInt e.touchedHome
  usedTmp := flagInt e.usedTmp
  reads := e.rd.texts
  writes := e.wr.texts
  execs := e.ex.texts

/-- `arr_to_json`. -/
def arrToJson (j : PsJson) (key : Bytes) (a : List Bytes) : PsJson :=
  (a.foldl PsJson.arrayString (j.arrayBegin key)).arrayEnd

/-- `ps_envelope_to_json`: the text in the buffer. -/
def envelopeToJson (e : EnvelopeRecord) (cap : Nat) : Option Bytes :=
  let j := (PsJson.init cap).objectBegin.keyString (asc "unit") e.unit
  let j := j.keyInt (asc "records") e.records.toInt
  let j := j.keyInt (asc "truncated") e.truncated.toInt
  let j := j.keyInt (asc "touched_home") e.touchedHome.toInt
  let j := j.keyInt (asc "used_tmp") e.usedTmp.toInt
  let j := arrToJson j (asc "reads") e.reads
  let j := arrToJson j (asc "writes") e.writes
  let j := arrToJson j (asc "execs") e.execs
  j.objectEnd.finish

/-- `arr_from_json`. -/
def arrFromJson (json key : Bytes) : List Bytes :=
  match behind (pattern key) json with
  | none => []
  | some p => scanItems envMaxPaths (p.length + 1) p []

/-- `INTOF`; the member is 0 before. -/
def intOf (json key : Bytes) : Int32 :=
  match behind (memberText key []) json with
  | none => 0
  | some p => (strtoll p).1.toInt32

/-- `ps_envelope_from_json`. -/
def envelopeFromJson (json : Bytes) : Option EnvelopeRecord :=
  let unit := jsonExtractString json (asc "unit") 128
  if unit.ok = false then none
  else some
    { unit := unit.str
      records := intOf json (asc "records")
      truncated := intOf json (asc "truncated")
      touchedHome := intOf json (asc "touched_home")
      usedTmp := intOf json (asc "used_tmp")
      reads := arrFromJson json (asc "reads")
      writes := arrFromJson json (asc "writes")
      execs := arrFromJson json (asc "execs") }

/-- The buffer of `learn_flush`. -/
def flushSize : Nat := 65536

/-- The envelope is written, and what is read from the text is the envelope. -/
def Survives (e : UnitEnvelope) : Prop :=
  ∃ text, envelopeToJson e.record flushSize = some text ∧ envelopeFromJson text = some e.record

/-! ## The text -/

def arrayText (a : List Bytes) : Bytes := 91 :: (itemsText (a.map escaped) ++ [93])

def intPiece (key : Bytes) (i : Int32) : Piece := ⟨key, decimal i.toInt, .int (decimal i.toInt)⟩

def arrPiece (key : Bytes) (a : List Bytes) : Piece := ⟨key, arrayText a, .arr (a.map .str)⟩

def envelopePieces (e : EnvelopeRecord) : List Piece :=
  [⟨asc "unit", PsJson.quote e.unit, .str e.unit⟩, intPiece (asc "records") e.records,
    intPiece (asc "truncated") e.truncated, intPiece (asc "touched_home") e.touchedHome,
    intPiece (asc "used_tmp") e.usedTmp, arrPiece (asc "reads") e.reads, arrPiece (asc "writes") e.writes,
    arrPiece (asc "execs") e.execs]

def envelopeText (e : EnvelopeRecord) : Bytes := objectText (envelopePieces e)

structure EnvelopeRecord.Strings (e : EnvelopeRecord) : Prop where
  unit : (0 : UInt8) ∉ e.unit
  reads : ∀ p ∈ e.reads, (0 : UInt8) ∉ p
  writes : ∀ p ∈ e.writes, (0 : UInt8) ∉ p
  execs : ∀ p ∈ e.execs, (0 : UInt8) ∉ p

theorem UnitEnvelope.strings (e : UnitEnvelope) : e.record.Strings where
  unit := e.unit.noNul
  reads := forall_mem_map.mpr fun f _ => f.noNul
  writes := forall_mem_map.mpr fun f _ => f.noNul
  execs := forall_mem_map.mpr fun f _ => f.noNul

theorem nul_not_mem_plain {k : Bytes} (h : Plain k) : (0 : UInt8) ∉ k := fun h0 => absurd (h 0 h0).2.2 (by decide)

theorem quote_member {k : Bytes} (hk : Plain k) (x : Bytes) :
    PsJson.quote (cstr k) ++ (asc ":" ++ x) = memberText k x := by
  rw [cstr_eq_self_iff.mpr (nul_not_mem_plain hk), PsJson.quote, Central.flatMap_quoteChar_of_plain hk,
    show asc ":" = [58] from rfl, memberText]
  simp

theorem membersText_concat {ps : List Piece} (hne : ps ≠ []) (q : Piece) :
    membersText (ps ++ [q]) = membersText ps ++ (asc "," ++ memberText q.key q.text) := by
  obtain ⟨p, ps, rfl⟩ := exists_cons_of_ne_nil hne
  rw [cons_append, membersText_cons, membersText_cons, tailText_append, append_assoc, tailText_cons,
    tailText_nil, append_nil]
  rfl

section Holds

variable {cap : Nat} {j : PsJson} {ps : List Piece} {k : Bytes}

theorem holds_intPiece (h : j.Holds cap true (123 :: membersText ps)) (hne : ps ≠ []) (hk : Plain k) (i : Int32) :
    (j.keyInt k i.toInt).Holds cap true (123 :: membersText (ps ++ [intPiece k i])) := by
  have hnext := h.keyInt k i.toInt
  rw [sep_true, append_assoc, quote_member hk, append_assoc] at hnext
  rw [membersText_concat hne]
  exact hnext

theorem holds_arrPiece (h : j.Holds cap true (123 :: membersText ps)) (hne : ps ≠ []) (hk : Plain k)
    {a : List Bytes} (ha : ∀ p ∈ a, (0 : UInt8) ∉ p) :
    (arrToJson j k a).Holds cap true (123 :: membersText (ps ++ [arrPiece k a])) := by
  obtain ⟨comma, hitems⟩ := Baseline.holds_items ha (h.arrayBegin k)
  have hnext := hitems.arrayEnd
  have harray : asc ":[" ++ (itemsText (a.map escaped) ++ asc "]") = asc ":" ++ arrayText a := rfl
  rw [sep_true, append_assoc, append_assoc, harray, append_assoc, quote_member hk,
    append_assoc] at hnext
  rw [membersText_concat hne]
  exact hnext

end Holds

/-- The text is in the buffer, if it fits. -/
theorem envelopeToJson_eq {e : EnvelopeRecord} (he : e.Strings) {cap : Nat} (hcap : 0 < cap) :
    envelopeToJson e cap = if (envelopeText e).length < cap then some (envelopeText e) else none := by
  have hunit : ((PsJson.init cap).objectBegin.keyString (asc "unit") e.unit).Holds cap true
      (123 :: membersText [⟨asc "unit", PsJson.quote e.unit, .str e.unit⟩]) := by
    have hfirst := (PsJson.holds_init hcap).objectBegin.keyString (asc "unit") e.unit
    rw [cstr_eq_self_iff.mpr he.unit] at hfirst
    rw [membersText_singleton]
    exact hfirst
  have hrecords := holds_intPiece hunit (cons_ne_nil _ _) (show Plain (asc "records") by decide) e.records
  have htruncated := holds_intPiece hrecords (cons_ne_nil _ _) (show Plain (asc "truncated") by decide)
    e.truncated
  have hhome := holds_intPiece htruncated (cons_ne_nil _ _) (show Plain (asc "touched_home") by decide)
    e.touchedHome
  have htmp := holds_intPiece hhome (cons_ne_nil _ _) (show Plain (asc "used_tmp") by decide) e.usedTmp
  have hreads := holds_arrPiece htmp (cons_ne_nil _ _) (show Plain (asc "reads") by decide) he.reads
  have hwrites := holds_arrPiece hreads (cons_ne_nil _ _) (show Plain (asc "writes") by decide) he.writes
  have hexecs := holds_arrPiece hwrites (cons_ne_nil _ _) (show Plain (asc "execs") by decide) he.execs
  exact hexecs.objectEnd.finish

section Search

variable {k more : Bytes} (hk : Name k)

include hk

theorem behind_itemsText {raws : List Bytes} (h : ∀ r ∈ raws, QuotesEscaped r) (rest : Bytes) :
    behind (memberText k more) (itemsText raws ++ 93 :: rest) = behind (memberText k more) (93 :: rest) := by
  obtain ⟨d, k', rfl, hcomma, -, hbracket, -⟩ := hk.sought.exists_cons
  have hskip (c : UInt8) (hc : c ≠ 58) (hd : d ≠ c) {raw : Bytes} (hraw : QuotesEscaped raw) (rest : Bytes) :
      behind (memberText (d :: k') more) (34 :: (raw ++ 34 :: c :: rest)) =
        behind (memberText (d :: k') more) (c :: rest) :=
    behind_key_quoted hraw hk.1 (cons_ne_nil d k') hc fun heq => hd (Option.some.inj heq)
  induction raws with
  | nil => rfl
  | cons r raws ih =>
    obtain ⟨hr, hraws⟩ := forall_mem_cons.mp h
    cases raws with
    | nil =>
      rw [Baseline.itemsText_singleton]
      exact hskip 93 (by decide) hbracket hr rest
    | cons r' raws =>
      rw [Baseline.itemsText_cons_cons, hskip 44 (by decide) hcomma hr, behind_cons_ne (by decide)]
      exact ih hraws

theorem passed_arrayText (a : List Bytes) : Passed k more (arrayText a) := by
  intro c rest _
  have hraws : ∀ r ∈ a.map escaped, QuotesEscaped r :=
    forall_mem_map.mpr fun p _ => quotesEscaped_of_strText (PsJson.strText_quote p)
  have htext : arrayText a ++ c :: rest = 91 :: (itemsText (a.map escaped) ++ 93 :: c :: rest) := by
    simp [arrayText]
  rw [htext, behind_cons_ne (by decide), behind_itemsText hk hraws, behind_cons_ne (by decide)]

/-- The search gets past every member of another name. -/
theorem pieces_passed (e : EnvelopeRecord) : ∀ q ∈ envelopePieces e, q.key ≠ k → q.Passed k more := by
  have hunit : Passed k more (PsJson.quote e.unit) :=
    passed_quoted hk (quotesEscaped_of_strText (PsJson.strText_quote e.unit))
  have hint (i : Int32) : Passed k more (decimal i.toInt) := passed_of_not_mem fun h => by
    rcases mem_decimal h with h | h
    · exact absurd h (by decide)
    · exact absurd h (by decide)
  have harr (a : List Bytes) : Passed k more (arrayText a) := passed_arrayText hk a
  simp only [envelopePieces, forall_mem_cons]
  exact ⟨fun hne => ⟨show Plain (asc "unit") by decide, hne, hunit⟩,
    fun hne => ⟨show Plain (asc "records") by decide, hne, hint _⟩,
    fun hne => ⟨show Plain (asc "truncated") by decide, hne, hint _⟩,
    fun hne => ⟨show Plain (asc "touched_home") by decide, hne, hint _⟩,
    fun hne => ⟨show Plain (asc "used_tmp") by decide, hne, hint _⟩,
    fun hne => ⟨show Plain (asc "reads") by decide, hne, harr _⟩,
    fun hne => ⟨show Plain (asc "writes") by decide, hne, harr _⟩,
    fun hne => ⟨show Plain (asc "execs") by decide, hne, harr _⟩, forall_mem_nil _⟩

variable {e : EnvelopeRecord}

/-- Every member is found where it was written. -/
theorem behind_piece {p : Piece} {t : Bytes}
    (hfind : (envelopePieces e).find? (·.key == k) = some p) (htext : p.text = more ++ t) :
    ∃ d rest, (d = 44 ∨ d = 125) ∧ behind (memberText k more) (envelopeText e) = some (t ++ d :: rest) := by
  obtain ⟨d, rest, hd, hbehind⟩ := behind_tailText_find hk hfind (pieces_passed hk e) htext (.inr rfl) []
  refine ⟨d, rest, hd, ?_⟩
  have hopen : behind (memberText k more) (objectText (envelopePieces e) ++ []) = _ :=
    behind_openBrace (cons_ne_nil _ _) []
  rw [append_nil] at hopen
  exact hopen.trans hbehind

theorem intOf_envelopeText {i : Int32}
    (hfind : (envelopePieces e).find? (·.key == k) = some (intPiece k i)) : intOf (envelopeText e) k = i := by
  obtain ⟨d, rest, hd, hbehind⟩ := behind_piece hk hfind (show (intPiece k i).text = [] ++ decimal i.toInt from rfl)
  have hdigit : isDigit d = false := by
    rcases hd with rfl | rfl <;> rfl
  have hlo := i.le_toInt
  have hhi := i.toInt_lt
  rw [intOf, hbehind]
  show (strtoll (decimal i.toInt ++ d :: rest)).1.toInt32 = i
  rw [strtoll_decimal _ fun c hc => by rw [← Option.some.inj hc]; exact hdigit,
    saturate_of_lt (by omega) (by omega), Int64.toInt32_ofInt, Int32.ofInt_toInt]

/-- The paths of an array come back exactly if none of them needs an escape. -/
theorem arrFromJson_iff {a : List Bytes} (hpattern : pattern k = memberText k [91])
    (hfind : (envelopePieces e).find? (·.key == k) = some (arrPiece k a)) (hlen : a.length ≤ envMaxPaths)
    (hshort : ∀ p ∈ a, p.length < 256) :
    arrFromJson (envelopeText e) k = a ↔ ∀ p ∈ a, Plain p := by
  obtain ⟨d, rest, -, hbehind⟩ := behind_piece hk hfind
    (show (arrPiece k a).text = [91] ++ (itemsText (a.map escaped) ++ [93]) from rfl)
  have hcount := Baseline.length_le_itemsText (a.map escaped)
  rw [length_map] at hcount
  rw [arrFromJson, hpattern, hbehind, append_assoc]
  refine Baseline.scanItems_escaped_iff hlen hshort ?_ (d :: rest)
  rw [length_append]
  omega

end Search

/-! ## Flush and reload -/

theorem PathSet.length_texts (s : PathSet) : s.texts.length ≤ envMaxPaths := by
  rw [PathSet.texts, length_map]
  exact s.length_le

theorem PathSet.texts_short (s : PathSet) : ∀ p ∈ s.texts, p.length < 256 :=
  forall_mem_map.mpr fun f _ => f.length_lt

theorem unit_envelopeText {e : EnvelopeRecord} (hlen : e.unit.length < 128) :
    jsonExtractString (envelopeText e) (asc "unit") 128 = ⟨e.unit, true⟩ := by
  obtain ⟨d, rest, -, hbehind⟩ := behind_piece (k := asc "unit") (by decide) (e := e) rfl
    (show PsJson.quote e.unit = [] ++ PsJson.quote e.unit from rfl)
  rw [Central.jsonExtractString_of_behind hbehind (by decide) (by decide), decide_eq_true hlen,
    take_of_length_le (by omega)]

/-- What is read from the text of an envelope. -/
theorem envelopeFromJson_eq {e : EnvelopeRecord} (he : e.Strings) (hlen : e.unit.length < 128) :
    envelopeFromJson (envelopeText e) = some { e with
      reads := arrFromJson (envelopeText e) (asc "reads")
      writes := arrFromJson (envelopeText e) (asc "writes")
      execs := arrFromJson (envelopeText e) (asc "execs") } := by
  unfold envelopeFromJson
  rw [unit_envelopeText hlen]
  dsimp only
  rw [if_neg (by decide), intOf_envelopeText (k := asc "records") (by decide) rfl,
    intOf_envelopeText (k := asc "truncated") (by decide) rfl,
    intOf_envelopeText (k := asc "touched_home") (by decide) rfl,
    intOf_envelopeText (k := asc "used_tmp") (by decide) rfl, Central.Extracted.str,
    cstr_eq_self_iff.mpr he.unit]

/-- An envelope survives exactly if its text fits the buffer and none of its paths needs an escape. -/
theorem survives_iff (e : UnitEnvelope) :
    Survives e ↔ (envelopeText e.record).length < flushSize ∧
      ∀ p ∈ e.rd.texts ++ e.wr.texts ++ e.ex.texts, Plain p := by
  have hread := envelopeFromJson_eq e.strings e.unit.length_lt
  have hreads : arrFromJson (envelopeText e.record) (asc "reads") = e.rd.texts ↔ ∀ p ∈ e.rd.texts, Plain p :=
    arrFromJson_iff (by decide) (by decide) rfl e.rd.length_texts e.rd.texts_short
  have hwrites : arrFromJson (envelopeText e.record) (asc "writes") = e.wr.texts ↔ ∀ p ∈ e.wr.texts, Plain p :=
    arrFromJson_iff (by decide) (by decide) rfl e.wr.length_texts e.wr.texts_short
  have hexecs : arrFromJson (envelopeText e.record) (asc "execs") = e.ex.texts ↔ ∀ p ∈ e.ex.texts, Plain p :=
    arrFromJson_iff (by decide) (by decide) rfl e.ex.length_texts e.ex.texts_short
  have hsame : envelopeFromJson (envelopeText e.record) = some e.record ↔
      ∀ p ∈ e.rd.texts ++ e.wr.texts ++ e.ex.texts, Plain p := by
    rw [hread, forall_mem_append, forall_mem_append, ← hreads, ← hwrites, ← hexecs, Option.some.injEq]
    constructor
    · intro h
      exact ⟨⟨congrArg EnvelopeRecord.reads h, congrArg EnvelopeRecord.writes h⟩, congrArg EnvelopeRecord.execs h⟩
    · rintro ⟨⟨h₁, h₂⟩, h₃⟩
      rw [h₁, h₂, h₃]
      rfl
  unfold Survives
  rw [envelopeToJson_eq e.strings (by decide), ← hsame]
  by_cases hfits : (envelopeText e.record).length < flushSize
  · rw [if_pos hfits]
    simp [hfits]
  · rw [if_neg hfits]
    simp [hfits]

/-- A file name with a quote, as the unit can create it. -/
def quotedRecords : List Access := [accessOf "write" "/tmp/a\"b" nul_not_mem_write (by decide)]

/-- The path is cut at the backslash that was put in front of the quote. -/
theorem quote_changes_path : ∃ text, envelopeToJson (learn none quotedRecords).record flushSize = some text ∧
    (learn none quotedRecords).record.writes = [asc "/tmp/a\"b"] ∧
    (envelopeFromJson text).map EnvelopeRecord.writes = some [asc "/tmp/a\\"] := by
  refine ⟨envelopeText (learn none quotedRecords).record, ?_, by decide, by decide +kernel⟩
  rw [envelopeToJson_eq (UnitEnvelope.strings _) (by decide), if_pos (by decide +kernel)]

end Packetsonde.Detect
