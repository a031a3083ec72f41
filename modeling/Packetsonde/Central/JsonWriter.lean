import Packetsonde.Lib.JsonTail

/-!
# The JSON writer (`json.c`)

`struct ps_json` collects text in a buffer of fixed size; the first piece that does not fit sets an
error, after which nothing is written any more. So a writer either holds all that was ever emitted or
has failed (`Holds`), and `ps_json_finish` succeeds exactly if everything fits with its terminator.

`depth` is counted by the source and never looked at; it is left out.
-/

namespace Packetsonde.Central

open Packetsonde.Lib
open List

/-- `struct ps_json`; `j->len` is the length of `text`. -/
structure PsJson where
  text : Bytes
  cap : Nat
  needsComma : Bool
  error : Bool
  deriving DecidableEq, Repr

def sep (due : Bool) : Bytes := if due then asc "," else []

theorem sep_true : sep true = asc "," := rfl

theorem sep_false : sep false = [] := rfl

namespace PsJson

/-- `ps_json_init`. -/
def init (cap : Nat) : PsJson := ⟨[], cap, false, false⟩

/-- `emit`. -/
def emit (j : PsJson) (s : Bytes) : PsJson :=
  if j.error then j
  else if j.text.length + s.length ≥ j.cap then { j with error := true }
  else { j with text := j.text ++ s }

def maybeComma (j : PsJson) : PsJson :=
  { (if j.needsComma then j.emit (asc ",") else j) with needsComma := false }

/-- `"\\u%04x"` of a control byte. -/
def unicodeEscape (c : UInt8) : Bytes :=
  let digit := fun n : Nat => UInt8.ofNat (if n < 10 then 48 + n else 87 + n)
  asc "\\u00" ++ [digit (c.toNat / 16), digit (c.toNat % 16)]

/-- What `emit_quoted` emits for a byte. -/
def quoteChar (c : UInt8) : Bytes :=
  if c = 34 then asc "\\\""
  else if c = 92 then asc "\\\\"
  else if c = 10 then asc "\\n"
  else if c = 9 then asc "\\t"
  else if c = 13 then asc "\\r"
  else if c < 0x20 then unicodeEscape c
  else [c]

/-- `emit_quoted`; a string ends at its NUL. -/
def emitQuoted (j : PsJson) (s : Bytes) : PsJson :=
  ((cstr s).foldl (fun j c => j.emit (quoteChar c)) (j.emit (asc "\""))).emit (asc "\"")

/-- `ps_json_object_begin`. -/
def objectBegin (j : PsJson) : PsJson :=
  { j.maybeComma.emit (asc "\x7b") with needsComma := false }

/-- `ps_json_object_end`. -/
def objectEnd (j : PsJson) : PsJson :=
  { j.emit (asc "\x7d") with needsComma := true }

/-- `ps_json_key_string`. -/
def keyString (j : PsJson) (key val : Bytes) : PsJson :=
  { ((j.maybeComma.emitQuoted key).emit (asc ":")).emitQuoted val with needsComma := true }

/-- `ps_json_key_int`. -/
def keyInt (j : PsJson) (key : Bytes) (val : Int) : PsJson :=
  { (j.maybeComma.emitQuoted key).emit (asc ":" ++ decimal val) with needsComma := true }

/-- `ps_json_key_bool`. -/
def keyBool (j : PsJson) (key : Bytes) (val : Bool) : PsJson :=
  { (j.maybeComma.emitQuoted key).emit (if val then asc ":true" else asc ":false") with
    needsComma := true }

/-- `ps_json_key_object_begin`. -/
def keyObjectBegin (j : PsJson) (key : Bytes) : PsJson :=
  { (j.maybeComma.emitQuoted key).emit (asc ":\x7b") with needsComma := false }

/-- `ps_json_array_begin`. -/
def arrayBegin (j : PsJson) (key : Bytes) : PsJson :=
  { (j.maybeComma.emitQuoted key).emit (asc ":[") with needsComma := false }

/-- `ps_json_array_string`. -/
def arrayString (j : PsJson) (val : Bytes) : PsJson :=
  { j.maybeComma.emitQuoted val with needsComma := true }

/-- `ps_json_array_end`. -/
def arrayEnd (j : PsJson) : PsJson :=
  { j.emit (asc "]") with needsComma := true }

/-- `ps_json_finish`: the text in the buffer. -/
def finish (j : PsJson) : Option Bytes :=
  if j.error ∨ j.text.length ≥ j.cap then none else some j.text

/-! ## All or an error -/

/-- Everything that was emitted is `t`: it is in the buffer, or it did not fit. -/
structure Holds (j : PsJson) (cap : Nat) (comma : Bool) (t : Bytes) : Prop where
  cap_eq : j.cap = cap
  comma_eq : j.needsComma = comma
  content : (j.error = false ∧ j.text = t ∧ t.length < cap) ∨ (j.error = true ∧ cap ≤ t.length)

theorem holds_init {cap : Nat} (h : 0 < cap) : (init cap).Holds cap false [] :=
  ⟨rfl, rfl, Or.inl ⟨rfl, rfl, h⟩⟩

section Steps

variable {j : PsJson} {cap : Nat} {comma : Bool} {t : Bytes} (h : j.Holds cap comma t)

include h

theorem Holds.emit (s : Bytes) :
    (j.emit s).Holds cap comma (t ++ s) := by
  obtain ⟨rfl, rfl, hcontent⟩ := h
  unfold PsJson.emit
  rcases hcontent with ⟨herr, rfl, hlt⟩ | ⟨herr, hle⟩
  · rw [herr, if_neg Bool.false_ne_true]
    split
    · rename_i hfull
      exact ⟨rfl, rfl, Or.inr ⟨rfl, by rw [length_append]; exact hfull⟩⟩
    · rename_i hroom
      refine ⟨rfl, rfl, Or.inl ⟨rfl, rfl, ?_⟩⟩
      rw [length_append]
      exact Nat.lt_of_not_ge hroom
  · rw [if_pos herr]
    refine ⟨rfl, rfl, Or.inr ⟨herr, ?_⟩⟩
    rw [length_append]
    omega

theorem Holds.withComma (b : Bool) :
    Holds { j with needsComma := b } cap b t :=
  ⟨h.cap_eq, rfl, h.content⟩

theorem Holds.maybeComma :
    j.maybeComma.Holds cap false (t ++ sep comma) := by
  have hemit : (if j.needsComma then j.emit (asc ",") else j).Holds cap comma
      (t ++ sep comma) := by
    rw [h.comma_eq]
    cases comma with
    | true => exact h.emit _
    | false =>
      rw [if_neg Bool.false_ne_true, sep_false, append_nil]
      exact h
  exact hemit.withComma false

/-- A string in quotes, as `emit_quoted` writes it. -/
def quote (s : Bytes) : Bytes := 34 :: (s.flatMap quoteChar ++ [34])

theorem Holds.emitQuoted (s : Bytes) :
    (j.emitQuoted s).Holds cap comma (t ++ quote (cstr s)) := by
  have hloop : ∀ (s : Bytes) {j : PsJson} {t : Bytes}, j.Holds cap comma t →
      (s.foldl (fun j c => j.emit (quoteChar c)) j).Holds cap comma (t ++ s.flatMap quoteChar) := by
    intro s
    induction s with
    | nil =>
      intro j t h
      rw [flatMap_nil, append_nil]
      exact h
    | cons c s ih =>
      intro j t h
      rw [foldl_cons, flatMap_cons, ← append_assoc]
      exact ih (h.emit _)
  have hall := (hloop (cstr s) (h.emit (asc "\""))).emit (asc "\"")
  rw [append_assoc, append_assoc] at hall
  exact hall

theorem Holds.objectBegin :
    j.objectBegin.Holds cap false (t ++ sep comma ++ asc "\x7b") :=
  (h.maybeComma.emit _).withComma false

theorem Holds.objectEnd :
    j.objectEnd.Holds cap true (t ++ asc "\x7d") :=
  (h.emit _).withComma true

theorem Holds.keyString (key val : Bytes) :
    (j.keyString key val).Holds cap true (t ++ sep comma ++ quote (cstr key) ++
      asc ":" ++ quote (cstr val)) :=
  (((h.maybeComma.emitQuoted key).emit _).emitQuoted val).withComma true

/-- A key, and what is emitted behind it. -/
theorem Holds.keyed (key s : Bytes) (b : Bool) :
    Holds { (j.maybeComma.emitQuoted key).emit s with needsComma := b } cap b
      (t ++ (sep comma ++ (quote (cstr key) ++ s))) := by
  rw [← append_assoc, ← append_assoc]
  exact ((h.maybeComma.emitQuoted key).emit s).withComma b

theorem Holds.keyInt (key : Bytes) (val : Int) :
    (j.keyInt key val).Holds cap true (t ++ sep comma ++ quote (cstr key) ++
      (asc ":" ++ decimal val)) :=
  ((h.maybeComma.emitQuoted key).emit _).withComma true

theorem Holds.arrayBegin (key : Bytes) :
    (j.arrayBegin key).Holds cap false (t ++ sep comma ++ quote (cstr key) ++
      asc ":[") :=
  ((h.maybeComma.emitQuoted key).emit _).withComma false

theorem Holds.arrayString (val : Bytes) :
    (j.arrayString val).Holds cap true (t ++ sep comma ++ quote (cstr val)) :=
  (h.maybeComma.emitQuoted val).withComma true

theorem Holds.arrayEnd : j.arrayEnd.Holds cap true (t ++ asc "]") :=
  (h.emit _).withComma true

/-- What was emitted comes out if it fits with its terminator. -/
theorem Holds.finish :
    j.finish = if t.length < cap then some t else none := by
  obtain ⟨rfl, -, hcontent⟩ := h
  unfold PsJson.finish
  rcases hcontent with ⟨herr, rfl, hlt⟩ | ⟨herr, hle⟩
  · rw [if_neg (by rw [herr]; simpa using hlt), if_pos hlt]
  · rw [if_pos (Or.inl herr), if_neg (Nat.not_lt.mpr hle)]

end Steps

/-! ## Objects of strings -/

theorem length_le_quote (s : Bytes) : s.length + 2 ≤ (quote s).length := by
  have hone : ∀ c, 1 ≤ (quoteChar c).length := forall_byte (by decide +kernel)
  have hflat : s.length ≤ (s.flatMap quoteChar).length := by
    induction s with
    | nil => exact Nat.le_refl _
    | cons c s ih =>
      have hc := hone c
      rw [flatMap_cons, length_append, length_cons]
      omega
  unfold quote
  rw [length_cons, length_append, length_singleton]
  omega

theorem length_flatMap_quoteChar_le (s : Bytes) : (s.flatMap quoteChar).length ≤ 6 * s.length := by
  have hsix : ∀ c, (quoteChar c).length ≤ 6 := forall_byte (by decide +kernel)
  induction s with
  | nil => exact Nat.le_refl _
  | cons c s ih =>
    have hc := hsix c
    rw [flatMap_cons, length_append, length_cons]
    omega

theorem length_quote (s : Bytes) : (quote s).length = (s.flatMap quoteChar).length + 2 := by
  unfold quote
  rw [length_cons, length_append, length_singleton]

/-! ## What is written is JSON -/

/-- A byte is written as it is, as an escape of one character, or by its number. -/
theorem quoteChar_cases : ∀ c : UInt8,
    (quoteChar c = [c] ∧ c ≠ 34 ∧ c ≠ 92 ∧ 0x20 ≤ c) ∨
    (∃ e, quoteChar c = [92, e] ∧ escape e = some c) ∨
    (∃ a b, quoteChar c = [92, 117, 48, 48, a, b] ∧ hex4 48 48 a b = some c.toNat ∧
      utf8 c.toNat = [c]) := by
  intro c
  by_cases hplain : quoteChar c = [c]
  · have hbyte : ∀ c, quoteChar c = [c] → c ≠ 34 ∧ c ≠ 92 ∧ 0x20 ≤ c :=
      forall_byte (by decide +kernel)
    exact Or.inl ⟨hplain, hbyte c hplain⟩
  · by_cases hshort : ((quoteChar c)[1]?.bind escape) = some c
    · have hbyte : ∀ c, (quoteChar c)[1]?.bind escape = some c →
          quoteChar c = [92, (quoteChar c)[1]?.getD 0] ∧
            escape ((quoteChar c)[1]?.getD 0) = some c := forall_byte (by decide +kernel)
      exact Or.inr (Or.inl ⟨_, hbyte c hshort⟩)
    · have hbyte : ∀ c, quoteChar c ≠ [c] → (quoteChar c)[1]?.bind escape ≠ some c →
          quoteChar c = [92, 117, 48, 48, (quoteChar c)[4]?.getD 0, (quoteChar c)[5]?.getD 0] ∧
            hex4 48 48 ((quoteChar c)[4]?.getD 0) ((quoteChar c)[5]?.getD 0) = some c.toNat ∧
            utf8 c.toNat = [c] := forall_byte (by decide +kernel)
      exact Or.inr (Or.inr ⟨_, _, hbyte c hplain hshort⟩)

/-- What stands for a byte decodes to it. -/
theorem strText_quoteChar (c : UInt8) : StrText (quoteChar c) [c] := by
  rcases quoteChar_cases c with ⟨heq, hq, hb, hc⟩ | ⟨e, heq, he⟩ | ⟨a, b, heq, hhex, hutf⟩
  · rw [heq]
    exact .plain hq hb hc .nil
  · rw [heq]
    exact .esc he .nil
  · have huni := StrText.uni hhex .nil
    rw [hutf] at huni
    rw [heq]
    exact huni

theorem strText_quote (s : Bytes) : StrText (s.flatMap quoteChar) s := by
  induction s with
  | nil => exact .nil
  | cons c s ih => exact strText_append (strText_quoteChar c) ih

theorem doc_quote (s : Bytes) : Doc .value (quote s) (.str s) := .str (strText_quote s)

end PsJson

theorem flatMap_quoteChar_of_plain {s : Bytes} (h : Plain s) : s.flatMap PsJson.quoteChar = s := by
  have hchar : ∀ c : UInt8, c ≠ 34 ∧ c ≠ 92 ∧ 0x20 ≤ c → PsJson.quoteChar c = [c] :=
    forall_byte (by decide +kernel)
  induction s with
  | nil => rfl
  | cons c s ih =>
    obtain ⟨hc, hs⟩ := forall_mem_cons.mp h
    rw [flatMap_cons, ih hs, hchar c hc, singleton_append]

end Packetsonde.Central
