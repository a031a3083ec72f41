import Packetsonde.Central.Collect
import Packetsonde.Lib.JsonArray

/-!
# Texts of the JSON writer, call by call

A function that prints a record makes a sequence of calls of the writer, and its text is that of the calls
one after the other, with the commas between them (`calls_eq`). So what a reader finds in the text can be
said of the calls: a key that is looked for is that of the first call with the key (`Gives.found`), and the
objects of an array are read back up to the first that does not fit (`objectsFrom_calls`).

A reader that looks for an array's name alone, without the colon, can be misled by a string in front of the
array; it is not if the calls are `Clear` (`bracket_calls`).
-/

namespace Packetsonde.Central

open Packetsonde.Lib
open List

/-! ## Calls -/

inductive Scalar where
  | str (s : Bytes)
  | int (i : Int)
  | bool (b : Bool)
  deriving DecidableEq

def Scalar.text : Scalar → Bytes
  | .str s => PsJson.quote (cstr s)
  | .int i => decimal i
  | .bool b => if b then asc "true" else asc "false"

/-- A call of the writer; `member` is `ps_json_key_string`, `ps_json_key_int` or `ps_json_key_bool`. -/
inductive Call where
  | objectBegin
  | objectEnd
  | member (key : Bytes) (value : Scalar)
  | keyObjectBegin (key : Bytes)
  | arrayBegin (key : Bytes)
  | arrayEnd
  deriving DecidableEq

def PsJson.call (j : PsJson) : Call → PsJson
  | .objectBegin => j.objectBegin
  | .objectEnd => j.objectEnd
  | .member k (.str s) => j.keyString k s
  | .member k (.int i) => j.keyInt k i
  | .member k (.bool b) => j.keyBool k b
  | .keyObjectBegin k => j.keyObjectBegin k
  | .arrayBegin k => j.arrayBegin k
  | .arrayEnd => j.arrayEnd

/-- What is in a buffer of `cap` bytes after the calls. -/
def PsJson.calls (cap : Nat) (cs : List Call) : Option Bytes := (cs.foldl PsJson.call (.init cap)).finish

namespace Call

def separated : Call → Bool
  | .objectEnd => false
  | .arrayEnd => false
  | _ => true

def comma : Call → Bool
  | .objectBegin => false
  | .keyObjectBegin _ => false
  | .arrayBegin _ => false
  | _ => true

def key? : Call → Option Bytes
  | .member k _ => some k
  | .keyObjectBegin k => some k
  | .arrayBegin k => some k
  | _ => none

/-- What is written behind the key and its colon, if there is a key. -/
def value : Call → Bytes
  | .objectBegin => asc "\x7b"
  | .objectEnd => asc "\x7d"
  | .member _ v => v.text
  | .keyObjectBegin _ => asc "\x7b"
  | .arrayBegin _ => asc "["
  | .arrayEnd => asc "]"

def text (due : Bool) (c : Call) : Bytes :=
  (if due && c.separated then asc "," else []) ++
    match c.key? with
    | some k => PsJson.quote (cstr k) ++ (asc ":" ++ c.value)
    | none => c.value

end Call

def commaAfter : Bool → List Call → Bool
  | due, [] => due
  | _, c :: cs => commaAfter c.comma cs

def callsText : Bool → List Call → Bytes
  | _, [] => []
  | due, c :: cs => c.text due ++ callsText c.comma cs

theorem callsText_append (due : Bool) (cs ds : List Call) :
    callsText due (cs ++ ds) = callsText due cs ++ callsText (commaAfter due cs) ds := by
  induction cs generalizing due with
  | nil => rfl
  | cons c cs ih => rw [cons_append, callsText, callsText, commaAfter, ih, append_assoc]

theorem commaAfter_append (due : Bool) (cs ds : List Call) :
    commaAfter due (cs ++ ds) = commaAfter (commaAfter due cs) ds := by
  induction cs generalizing due with
  | nil => rfl
  | cons c cs ih => rw [cons_append, commaAfter, commaAfter, ih]

/-! ### Step by step -/

/-- What a call is made of: `maybe_comma`, `emit`, and the assignment to `needs_comma`. -/
inductive JsonOp where
  | comma
  | emit (s : Bytes)
  | flag (b : Bool)

/-- `emit_quoted`. -/
def quotedOps (s : Bytes) : List JsonOp :=
  .emit (asc "\"") :: ((cstr s).map (fun c => .emit (PsJson.quoteChar c)) ++ [.emit (asc "\"")])

def keyedOps (key s : Bytes) (comma : Bool) : List JsonOp :=
  .comma :: (quotedOps key ++ [.emit s, .flag comma])

def Call.ops : Call → List JsonOp
  | .objectBegin => [.comma, .emit (asc "\x7b"), .flag false]
  | .objectEnd => [.emit (asc "\x7d"), .flag true]
  | .member k (.str s) =>
    .comma :: (quotedOps k ++ .emit (asc ":") :: (quotedOps s ++ [.flag true]))
  | .member k (.int i) => keyedOps k (asc ":" ++ decimal i) true
  | .member k (.bool b) => keyedOps k (if b then asc ":true" else asc ":false") true
  | .keyObjectBegin k => keyedOps k (asc ":\x7b") false
  | .arrayBegin k => keyedOps k (asc ":[") false
  | .arrayEnd => [.emit (asc "]"), .flag true]

def PsJson.op (j : PsJson) : JsonOp → PsJson
  | .comma => j.maybeComma
  | .emit s => j.emit s
  | .flag c => { j with needsComma := c }

theorem PsJson.emitQuoted_eq_ops (j : PsJson) (s : Bytes) :
    (quotedOps s).foldl PsJson.op j = j.emitQuoted s := by
  unfold quotedOps PsJson.emitQuoted
  rw [foldl_cons, foldl_append, foldl_map]
  rfl

theorem PsJson.call_eq_ops (j : PsJson) (c : Call) : c.ops.foldl PsJson.op j = j.call c := by
  cases c with
  | objectBegin | objectEnd | arrayEnd => rfl
  | keyObjectBegin k | arrayBegin k =>
    unfold Call.ops keyedOps
    rw [foldl_cons, foldl_append, PsJson.emitQuoted_eq_ops]
    rfl
  | member k v =>
    cases v with
    | int i | bool b =>
      unfold Call.ops keyedOps
      rw [foldl_cons, foldl_append, PsJson.emitQuoted_eq_ops]
      rfl
    | str s =>
      unfold Call.ops
      rw [foldl_cons, foldl_append, PsJson.emitQuoted_eq_ops, foldl_cons,
        foldl_append, PsJson.emitQuoted_eq_ops]
      rfl

variable {j : PsJson} {cap : Nat} {t : Bytes}

theorem PsJson.Holds.call {due : Bool} (h : j.Holds cap due t) (c : Call) :
    (j.call c).Holds cap c.comma (t ++ c.text due) := by
  cases c with
  | objectBegin =>
    have hnext := h.objectBegin
    rw [append_assoc] at hnext
    cases due <;> exact hnext
  | objectEnd => cases due <;> exact h.objectEnd
  | arrayEnd => cases due <;> exact h.arrayEnd
  | keyObjectBegin k => cases due <;> exact h.keyed k _ false
  | arrayBegin k => cases due <;> exact h.keyed k _ false
  | member k v =>
    cases v with
    | str s =>
      have hnext := h.keyString k s
      rw [append_assoc, append_assoc, append_assoc] at hnext
      cases due <;> exact hnext
    | int i => cases due <;> exact h.keyed k _ true
    | bool b => cases due <;> cases b <;> exact h.keyed k _ true

theorem PsJson.Holds.calls {due : Bool} (h : j.Holds cap due t) (cs : List Call) :
    (cs.foldl PsJson.call j).Holds cap (commaAfter due cs) (t ++ callsText due cs) := by
  induction cs generalizing j due t with
  | nil =>
    rw [callsText, append_nil]
    exact h
  | cons c cs ih =>
    have hnext := ih (h.call c)
    rw [append_assoc] at hnext
    exact hnext

/-- The calls succeed if their text fits with its terminator. -/
theorem calls_eq (hcap : 0 < cap) (cs : List Call) :
    PsJson.calls cap cs =
      if (callsText false cs).length < cap then some (callsText false cs) else none :=
  ((PsJson.holds_init hcap).calls cs).finish

/-- Nothing fits into no buffer at all. -/
theorem calls_zero (cs : List Call) : PsJson.calls 0 cs = none := by
  have hop (j : PsJson) (o : JsonOp) : (j.op o).cap = j.cap := by
    have hemit (s : Bytes) : (j.emit s).cap = j.cap := by
      unfold PsJson.emit
      split
      · rfl
      · split <;> rfl
    cases o with
    | comma =>
      show (if j.needsComma then j.emit (asc ",") else j).cap = j.cap
      split
      · exact hemit _
      · rfl
    | emit s => exact hemit s
    | flag b => rfl
  have hcall (j : PsJson) (c : Call) : (j.call c).cap = j.cap := by
    rw [← PsJson.call_eq_ops]
    induction c.ops generalizing j with
    | nil => rfl
    | cons o os ih => exact (ih _).trans (hop j o)
  have hcalls : ∀ (cs : List Call) (j : PsJson), (cs.foldl PsJson.call j).cap = j.cap := by
    intro cs
    induction cs with
    | nil => exact fun j => rfl
    | cons c cs ih => exact fun j => (ih _).trans (hcall j c)
  unfold PsJson.calls PsJson.finish
  rw [if_pos (.inr (by rw [hcalls]; exact Nat.zero_le _))]

/-- What comes out is the text of the calls. -/
theorem text_of_calls {cs : List Call} (h : PsJson.calls cap cs = some t) :
    t = callsText false cs := by
  rcases Nat.eq_zero_or_pos cap with rfl | hcap
  · rw [calls_zero] at h
    exact nomatch h
  · rw [calls_eq hcap] at h
    split at h
    · exact (Option.some.inj h).symm
    · exact nomatch h

/-! ## Keys -/

/-- The keys of the calls stand for themselves. -/
def plainKeys (cs : List Call) : Bool := cs.all fun c => c.key?.all fun k => decide (Plain k)

variable {c : Call}

theorem plain_of_plainKeys {cs : List Call} (h : plainKeys cs = true) (hc : c ∈ cs) {k : Bytes}
    (hk : c.key? = some k) : Plain k := by
  have hall := all_eq_true.mp h c hc
  rw [hk] at hall
  exact of_decide_eq_true hall

def lacks (k : Bytes) (cs : List Call) : Bool := cs.all fun c => c.key? != some k

theorem key_ne_of_lacks {k : Bytes} {cs : List Call} (h : lacks k cs = true) : ∀ c ∈ cs, c.key? ≠ some k := by
  intro c hc
  simpa using all_eq_true.mp h c hc

theorem plainKeys_append (cs ds : List Call) : plainKeys (cs ++ ds) = (plainKeys cs && plainKeys ds) :=
  all_append

theorem lacks_append (k : Bytes) (cs ds : List Call) : lacks k (cs ++ ds) = (lacks k cs && lacks k ds) :=
  all_append

theorem cstr_of_plain {k : Bytes} (h : Plain k) : cstr k = k :=
  cstr_eq_self_iff.mpr fun hmem => absurd (h 0 hmem).2.2 (by decide)

theorem quote_of_plain {k : Bytes} (h : Plain k) : PsJson.quote (cstr k) = quoted k := by
  rw [cstr_of_plain h, PsJson.quote, flatMap_quoteChar_of_plain h]
  rfl

def Delimited (x : Bytes) : Prop := ∃ c r, x = c :: r ∧ (c = 44 ∨ c = 93 ∨ c = 125)

/-- Where a comma is due, what the calls write starts with one, or with a bracket. -/
theorem delimited_calls {cs : List Call} {rest : Bytes} (hrest : commaAfter true cs = true → Delimited rest) :
    Delimited (callsText true cs ++ rest) := by
  cases cs with
  | nil => exact hrest rfl
  | cons c cs =>
    rw [callsText, append_assoc]
    cases c with
    | objectEnd => exact ⟨125, _, rfl, .inr (.inr rfl)⟩
    | arrayEnd => exact ⟨93, _, rfl, .inr (.inl rfl)⟩
    | objectBegin => exact ⟨44, _, rfl, .inl rfl⟩
    | member k v => exact ⟨44, _, rfl, .inl rfl⟩
    | keyObjectBegin k => exact ⟨44, _, rfl, .inl rfl⟩
    | arrayBegin k => exact ⟨44, _, rfl, .inl rfl⟩

theorem digit_plain : ∀ c : UInt8, c = 45 ∨ isDigit c = true →
    c ≠ 34 ∧ c ≠ 91 ∧ c ≠ 123 ∧ c ≠ 125 := forall_byte (by decide +kernel)

/-- The text of a call is a member, if it has a key, behind a comma or nothing. -/
theorem text_keyed {k : Bytes} (hc : c.key? = some k) (hk : Plain k) (due : Bool) (rest : Bytes) :
    c.text due ++ rest =
      sep (due && c.separated) ++ memberText k (c.value ++ rest) := by
  unfold Call.text
  rw [hc]
  dsimp only
  rw [quote_of_plain hk, append_assoc]
  congr 1
  simp only [quoted, memberText, append_assoc, cons_append]
  rfl

theorem text_unkeyed (hc : c.key? = none) (due : Bool) (rest : Bytes) :
    c.text due ++ rest = sep (due && c.separated) ++ (c.value ++ rest) := by
  unfold Call.text
  rw [hc, append_assoc]
  rfl

/-- What is no string has no quotes in it. -/
theorem quote_not_mem_value (h : ∀ k s, c ≠ .member k (.str s)) : (34 : UInt8) ∉ c.value := by
  cases c with
  | member k v =>
    cases v with
    | str s => exact absurd rfl (h k s)
    | int i => exact fun hmem => (digit_plain 34 (mem_decimal hmem)).1 rfl
    | bool b =>
      cases b with
      | true => exact (by decide : (34 : UInt8) ∉ asc "true")
      | false => exact (by decide : (34 : UInt8) ∉ asc "false")
  | objectBegin => decide
  | objectEnd => decide
  | keyObjectBegin k => exact (by decide : (34 : UInt8) ∉ asc "\x7b")
  | arrayBegin k => exact (by decide : (34 : UInt8) ∉ asc "[")
  | arrayEnd => decide

/-- A name does not start like what follows a value. -/
theorem head_ne_delimiter {k : Bytes} (hk : Sought k) {c : UInt8} (hc : c = 44 ∨ c = 93 ∨ c = 125) :
    k.head? ≠ some c := by
  intro heq
  have hhead := hk.2
  rw [heq] at hhead
  rcases hc with rfl | rfl | rfl <;> exact absurd hhead (by decide)

section Search

variable {k more : Bytes}

theorem behind_comma (b : Bool) (x : Bytes) :
    behind (memberText k more) (sep b ++ x) = behind (memberText k more) x := by
  cases b with
  | true => exact behind_cons_ne (by decide) x
  | false => rfl

/-- The search for a key gets past a call with another key. -/
theorem behind_call (hk : Sought k) {c : Call} (hplain : ∀ k' ∈ c.key?, Plain k') (hne : c.key? ≠ some k)
    {rest : Bytes} (hrest : c.comma = true → Delimited rest) (due : Bool) :
    behind (memberText k more) (c.text due ++ rest) = behind (memberText k more) rest := by
  have hvalue : behind (memberText k more) (c.value ++ rest) = behind (memberText k more) rest := by
    by_cases hstr : ∃ k' s, c = .member k' (.str s)
    · obtain ⟨k', s, rfl⟩ := hstr
      obtain ⟨d, r, rfl, hd⟩ := hrest rfl
      have hne : k ≠ [] := fun h => absurd hk.2 (by rw [h]; decide)
      have hcolon : d ≠ 58 := by rcases hd with rfl | rfl | rfl <;> decide
      have htext : (Call.member k' (.str s)).value ++ d :: r =
          34 :: ((cstr s).flatMap PsJson.quoteChar ++ 34 :: d :: r) := by
        simp [Call.value, Scalar.text, PsJson.quote]
      rw [htext]
      exact behind_key_quoted (quotesEscaped_of_strText (PsJson.strText_quote _)) hk.1 hne hcolon
        (head_ne_delimiter hk hd)
    · exact behind_append_of_not_mem (quote_not_mem_value fun k' s h => hstr ⟨k', s, h⟩) rest
  cases hkey : c.key? with
  | none => rw [text_unkeyed hkey, behind_comma, hvalue]
  | some k' =>
    have hk' := hplain k' hkey
    rw [text_keyed hkey hk', behind_comma, behind_memberText_ne hk hk' fun h => hne (by rw [hkey, h]), hvalue]

/-- The search for a key gets past calls with other keys. -/
theorem behind_calls (hk : Sought k) {cs : List Call} (hplain : plainKeys cs = true)
    (hne : lacks k cs = true) {due : Bool} {rest : Bytes}
    (hrest : commaAfter due cs = true → Delimited rest) :
    behind (memberText k more) (callsText due cs ++ rest) = behind (memberText k more) rest := by
  induction cs generalizing due with
  | nil => rfl
  | cons c cs ih =>
    have hc := key_ne_of_lacks hne c mem_cons_self
    have hcs : lacks _ cs = true := (Bool.and_eq_true_iff.mp hne).2
    have hplainRest : plainKeys cs = true := (Bool.and_eq_true_iff.mp hplain).2
    have hnext : c.comma = true → Delimited (callsText c.comma cs ++ rest) := by
      intro hcomma
      rw [hcomma]
      exact delimited_calls fun h => hrest (by rw [commaAfter, hcomma, h])
    rw [callsText, append_assoc,
      behind_call hk (fun k' hk' => plain_of_plainKeys hplain mem_cons_self hk') hc hnext,
      ih hplainRest hcs hrest]

/-- The first call with a key that is looked for gives it the value. -/
structure Gives (cs : List Call) (k : Bytes) (v : Scalar) : Prop where
  plain : plainKeys cs = true
  find : cs.find? (fun c => c.key? == some k) = some (.member k v)
  sought : Sought k := by decide
  short : (keyNeedle k).length < 128 := by decide

/-- The search ends at the first call with the key. -/
theorem Gives.found {cs : List Call} {v : Scalar} (h : Gives cs k v) (due : Bool) :
    ∃ post, behind (keyNeedle k) (callsText due cs) = some (v.text ++ callsText true post) := by
  obtain ⟨hplain, hfind, hk, -⟩ := h
  obtain ⟨-, pre, post, rfl, hpre⟩ := find?_eq_some_iff_append.mp hfind
  have hne : lacks k pre = true := all_eq_true.mpr fun c hc => by simpa using hpre c hc
  rw [plainKeys_append, Bool.and_eq_true] at hplain
  have hat : behind (keyNeedle k) ((Call.member k v).text (commaAfter due pre) ++ callsText true post) =
      some (v.text ++ callsText true post) := by
    have hkey : keyNeedle k = memberText k [] := rfl
    rw [text_keyed rfl hk.1, hkey, behind_comma]
    exact behind_memberText k [] _
  refine ⟨post, ?_⟩
  rw [callsText_append, callsText, show keyNeedle k = memberText k [] from rfl,
    behind_calls hk hplain.1 hne fun hcomma => ?_]
  · exact hat
  · rw [hcomma, text_keyed rfl hk.1]
    exact ⟨44, _, rfl, .inl rfl⟩

/-- Without the key the search finds nothing. -/
theorem behind_absent (hk : Sought k) {cs : List Call} (hplain : plainKeys cs = true)
    (hne : lacks k cs = true) (due : Bool) :
    behind (keyNeedle k) (callsText due (cs ++ [.objectEnd])) = none := by
  have hclose : callsText (commaAfter due cs) [.objectEnd] = [125] := by cases commaAfter due cs <;> rfl
  rw [callsText_append, hclose, show keyNeedle k = memberText k [] from rfl,
    behind_calls hk hplain hne fun _ => ⟨125, [], rfl, .inr (.inr rfl)⟩]
  exact behind_cons_ne (by decide) []

end Search

/-! ## Numbers out of a JSON text -/

/-- The loop of `ps_json_extract_int` over the digits. -/
def extractDigits (ds : Bytes) : Int64 := ds.foldl (fun v d => v * 10 + Int64.ofNat (d.toNat - 48)) 0

/-- `ps_json_extract_int`. -/
def jsonExtractInt (json key : Bytes) : Option Int64 :=
  if (keyNeedle key).length ≥ 128 then none
  else
    (behind (keyNeedle key) json).bind fun p =>
      let p := p.dropWhile (fun c => c = 32 ∨ c = 9)
      let neg := p.head? == some 45
      let p := if neg then p.tail else p
      if p.head?.any isDigit then
        let v := extractDigits (p.takeWhile isDigit)
        some (if neg then -v else v)
      else none

theorem extractDigits_eq (ds : Bytes) : extractDigits ds = Int64.ofInt (digitsValue ds) := by
  induction ds using List.reverseRecOn with
  | nil => rfl
  | append_singleton ds d ih =>
    unfold extractDigits at ih ⊢
    rw [foldl_append, foldl_cons, foldl_nil, ih, digitsValue_concat, Int64.ofInt_eq_ofNat,
      Int64.ofInt_eq_ofNat, Int64.ofNat_add, Int64.ofNat_mul]
    rfl

/-- A number behind its key is read back. -/
theorem jsonExtractInt_of_behind {json key rest : Bytes} {i : Int}
    (h : behind (keyNeedle key) json = some (decimal i ++ rest)) (hkey : (keyNeedle key).length < 128)
    (hrest : ∀ c ∈ rest.head?, isDigit c = false) : jsonExtractInt json key = some (Int64.ofInt i) := by
  have hdigit : ∀ c : UInt8, isDigit c = true → c ≠ 32 ∧ c ≠ 9 ∧ c ≠ 45 := forall_byte (by decide +kernel)
  obtain ⟨d, ds, hds⟩ := exists_cons_of_ne_nil (natDecimal_ne_nil i.natAbs)
  have hd : isDigit d = true := isDigit_of_mem_natDecimal (hds ▸ mem_cons_self)
  have htake : (natDecimal i.natAbs ++ rest).takeWhile isDigit = natDecimal i.natAbs := by
    rw [takeWhile_append_of_pos fun c hc => isDigit_of_mem_natDecimal hc]
    cases rest with
    | nil => rw [takeWhile_nil, append_nil]
    | cons c rest => rw [takeWhile_cons_of_neg (by simp [hrest c rfl]), append_nil]
  have hhead : (natDecimal i.natAbs ++ rest).head?.any isDigit = true := by
    rw [hds]
    exact hd
  unfold jsonExtractInt
  rw [if_neg (Nat.not_le.mpr hkey), h, Option.bind_some]
  unfold decimal
  by_cases hneg : i < 0
  · rw [if_pos hneg, cons_append, dropWhile_cons_of_neg (by decide)]
    dsimp only
    rw [show ((45 :: (natDecimal i.natAbs ++ rest)).head? == some 45) = true from rfl, if_pos rfl, tail_cons,
      if_pos hhead, if_pos rfl, htake, extractDigits_eq, digitsValue_natDecimal, ← Int64.ofInt_neg]
    congr 2
    omega
  · have hfirst : (natDecimal i.natAbs ++ rest).dropWhile (fun c => c = 32 ∨ c = 9) =
        natDecimal i.natAbs ++ rest := by
      rw [hds, cons_append, dropWhile_cons_of_neg (by simp [(hdigit d hd).1, (hdigit d hd).2.1])]
    have hplus : ((natDecimal i.natAbs ++ rest).head? == some 45) = false := by
      rw [hds]
      simpa using (hdigit d hd).2.2
    rw [if_neg hneg, hfirst]
    dsimp only
    rw [hplus, if_neg Bool.false_ne_true, if_pos hhead, if_neg Bool.false_ne_true, htake, extractDigits_eq,
      digitsValue_natDecimal]
    congr 2
    omega

/-! ## Strings out of a JSON text -/

theorem extractChars_quote (cap : Nat) (p out : Bytes) : extractChars cap (34 :: p) out = ⟨out, true⟩ := by
  rw [extractChars.eq_def]
  rfl

/-- One character of the writer. -/
theorem extractChars_quoteChar (cap : Nat) (c : UInt8) (p out : Bytes) :
    extractChars cap (PsJson.quoteChar c ++ p) out =
      if out.length + 1 ≥ cap then ⟨out, false⟩ else extractChars cap p (out ++ [c]) := by
  have hesc : ∀ e : UInt8, (escape e).isSome → e ≠ 117 := forall_byte (by decide +kernel)
  rcases PsJson.quoteChar_cases c with ⟨heq, hq, hb, -⟩ | ⟨e, heq, he⟩ | ⟨a, b, heq, hhex, -⟩
  · rw [heq, singleton_append, extractChars.eq_def]
    dsimp only
    rw [if_neg hq, if_neg hb]
  · have hne := hesc e (by rw [he]; rfl)
    rw [heq, extractChars.eq_def]
    dsimp only [cons_append, nil_append]
    rw [if_neg (by decide), if_pos rfl, if_neg hne, he]
  · rw [heq, extractChars.eq_def]
    dsimp only [cons_append, nil_append]
    rw [if_neg (by decide), if_pos rfl, if_pos rfl, hhex]
    dsimp only
    rw [UInt8.ofNat_toNat]

/-- A whole string: it is read, or the buffer is full. -/
theorem extractChars_flatMap {cap : Nat} (s p : Bytes) {out : Bytes} (hout : out.length < cap) :
    extractChars cap (s.flatMap PsJson.quoteChar ++ p) out =
      if out.length + s.length < cap then extractChars cap p (out ++ s)
      else ⟨(out ++ s).take (cap - 1), false⟩ := by
  induction s generalizing out with
  | nil =>
    rw [length_nil, Nat.add_zero, if_pos hout, append_nil]
    rfl
  | cons c s ih =>
    rw [flatMap_cons, append_assoc, extractChars_quoteChar, length_cons]
    by_cases hfull : out.length + 1 ≥ cap
    · rw [if_pos hfull, if_neg (by omega), show cap - 1 = out.length by omega, take_left]
    · rw [if_neg hfull, ih (by rw [length_append, length_singleton]; omega),
        length_append, length_singleton, append_assoc, singleton_append]
      rw [Nat.add_assoc, Nat.add_comm 1]

/-- A string behind its key is read as far as it fits. -/
theorem jsonExtractString_of_behind {json key s rest : Bytes} {cap : Nat}
    (h : behind (keyNeedle key) json = some (PsJson.quote s ++ rest)) (hkey : (keyNeedle key).length < 128)
    (hcap : 0 < cap) :
    jsonExtractString json key cap = ⟨s.take (cap - 1), decide (s.length < cap)⟩ := by
  have hdrop : (PsJson.quote s ++ rest).dropWhile (fun c => c = 32 ∨ c = 9) =
      34 :: (s.flatMap PsJson.quoteChar ++ 34 :: rest) := by
    unfold PsJson.quote
    rw [cons_append, dropWhile_cons_of_neg (by decide), append_assoc,
      singleton_append]
  unfold jsonExtractString
  rw [if_neg (by omega), h]
  dsimp only
  rw [hdrop]
  show extractChars cap _ [] = _
  rw [extractChars_flatMap _ _ (by simpa using hcap), extractChars_quote, nil_append]
  by_cases hlen : s.length < cap
  · rw [if_pos (by simpa using hlen), take_of_length_le (by omega), decide_eq_true hlen]
  · rw [if_neg (by simpa using hlen), decide_eq_false hlen]

/-! ## What is read of the calls -/

/-- A number ends where something follows that can follow a value. -/
theorem Delimited.head {x rest : Bytes} (h : Delimited (x ++ rest)) : ∀ c ∈ x.head?, isDigit c = false := by
  intro c hc
  obtain ⟨d, r, heq, hd⟩ := h
  have hhead := congrArg List.head? heq
  rw [head?_append, Option.mem_def.mp hc] at hhead
  obtain rfl := Option.some.inj hhead
  rcases hd with rfl | rfl | rfl <;> decide

theorem head_callsText (cs : List Call) : ∀ c ∈ (callsText true cs).head?, isDigit c = false :=
  (@delimited_calls cs [125] fun _ => ⟨125, [], rfl, .inr (.inr rfl)⟩).head

section Read

variable {k : Bytes} {cs : List Call} {due : Bool}

/-- A string is read as far as it fits. -/
theorem extractString_calls {s : Bytes} (h : Gives cs k (.str s)) {cap : Nat} (hcap : 0 < cap) :
    jsonExtractString (callsText due cs) k cap = ⟨(cstr s).take (cap - 1), decide ((cstr s).length < cap)⟩ := by
  obtain ⟨post, hpost⟩ := h.found due
  exact jsonExtractString_of_behind hpost h.short hcap

theorem extractInt_calls {i : Int} (h : Gives cs k (.int i)) :
    jsonExtractInt (callsText due cs) k = some (Int64.ofInt i) := by
  obtain ⟨post, hpost⟩ := h.found due
  exact jsonExtractInt_of_behind hpost h.short (head_callsText post)

theorem extractString_absent (hk : Sought k) (hplain : plainKeys cs = true)
    (hne : lacks k cs = true) (cap : Nat) :
    jsonExtractString (callsText due (cs ++ [.objectEnd])) k cap = ⟨[], false⟩ := by
  unfold jsonExtractString
  rw [behind_absent hk hplain hne due, ite_self]

end Read

/-! ## Objects in an array -/

/-- The calls of an object without objects in it. -/
def objectCalls (ms : List (Bytes × Scalar)) : List Call :=
  .objectBegin :: (ms.map (fun m => Call.member m.1 m.2) ++ [.objectEnd])

def flatText (ms : List (Bytes × Scalar)) : Bytes := callsText false (objectCalls ms)

theorem commaAfter_objectCalls (due : Bool) (ms : List (Bytes × Scalar)) :
    commaAfter due (objectCalls ms) = true := by
  unfold objectCalls
  rw [commaAfter, commaAfter_append]
  rfl

theorem callsText_object (due : Bool) (ms : List (Bytes × Scalar)) (cs : List Call) :
    callsText due (objectCalls ms ++ cs) =
      sep due ++ (flatText ms ++ callsText true cs) := by
  have htext : callsText due (objectCalls ms) = sep due ++ flatText ms := by
    unfold flatText objectCalls
    cases due <;> rfl
  rw [callsText_append, commaAfter_objectCalls, htext, append_assoc]

/-- The members leave a scanner of braces where it was. -/
theorem objectScan_members (ms : List (Bytes × Scalar)) (due : Bool) (depth : Nat) :
    objectScan .code depth (callsText due (ms.map fun m => Call.member m.1 m.2)) = some (.code, depth) := by
  have hbare {t : Bytes} (ht : Bare t) := objectScan_bare ht depth
  have hquote (s : Bytes) : objectScan .code depth (PsJson.quote s) = some (.code, depth) :=
    objectScan_quoted (PsJson.strText_quote s) depth
  have hvalue (v : Scalar) : objectScan .code depth v.text = some (.code, depth) := by
    cases v with
    | str s => exact hquote _
    | int i =>
      refine hbare fun c hc => ?_
      obtain ⟨hq, -, hopen, hclose⟩ := digit_plain c (mem_decimal hc)
      exact ⟨hq, hopen, hclose⟩
    | bool b => cases b <;> exact hbare (by decide)
  have hsep (b : Bool) : objectScan .code depth (if b then asc "," else []) = some (.code, depth) := by
    cases b <;> exact hbare (by decide)
  induction ms generalizing due with
  | nil => rfl
  | cons m ms ih =>
    rw [map_cons, callsText, objectScan_append]
    unfold Call.text
    dsimp only [Call.key?]
    rw [objectScan_append, hsep, Option.bind_some, objectScan_append, hquote, Option.bind_some, objectScan_append,
      hbare (by decide), Option.bind_some]
    show ((objectScan .code depth m.2.text).bind _) = _
    rw [hvalue, Option.bind_some]
    exact ih _

theorem isObject_flatText (ms : List (Bytes × Scalar)) : IsObject (flatText ms) := by
  have htext : flatText ms = 123 :: (callsText false (ms.map fun m => Call.member m.1 m.2) ++ [125]) := by
    unfold flatText objectCalls
    rw [callsText, callsText_append]
    show 123 :: (_ ++ callsText (commaAfter false _) [.objectEnd]) = _
    cases commaAfter false (ms.map fun m => Call.member m.1 m.2) <;> rfl
  rw [htext]
  exact isObject_of_scan (objectScan_members ms false 1)

theorem length_objects_le (os : List (List (Bytes × Scalar))) (due : Bool) (post : List Call) :
    os.length ≤ (callsText due (os.flatMap objectCalls ++ post)).length := by
  induction os generalizing due with
  | nil => exact Nat.zero_le _
  | cons o os ih =>
    have hpos : 0 < (flatText o).length := by
      have hhead := (isObject_flatText o).head
      exact length_pos_iff.mpr fun hnil => by rw [hnil] at hhead; exact nomatch hhead
    have hrest := ih true
    rw [flatMap_cons, append_assoc, callsText_object, length_append, length_append,
      length_cons]
    omega

/-- The objects of an array are read back up to the first that does not fit, and not more than `n`. -/
theorem objectsFrom_calls {cap : Nat} (os : List (List (Bytes × Scalar))) (due : Bool) (n : Nat)
    (post : List Call) :
    objectsFrom cap n (callsText due (os.flatMap objectCalls ++ .arrayEnd :: post)) =
      ((os.map flatText).take n).takeWhile (·.length < cap) := by
  induction os generalizing due n with
  | nil =>
    have hclose : callsText due (.arrayEnd :: post) = 93 :: callsText true post := by cases due <;> rfl
    rw [flatMap_nil, nil_append, hclose, objectsFrom_close, map_nil, take_nil]
    rfl
  | cons o os ih =>
    have hsep : Between (sep due) := by cases due <;> decide
    rw [flatMap_cons, append_assoc, callsText_object, objectsFrom_skip hsep]
    cases n with
    | zero => rw [take_zero]; rfl
    | succ n =>
      rw [objectsFrom_object (isObject_flatText o), map_cons, take_succ_cons]
      by_cases hcap : (flatText o).length < cap
      · rw [if_pos hcap, takeWhile_cons_of_pos (by simpa using hcap), ih]
      · rw [if_neg hcap, takeWhile_cons_of_neg (by simpa using hcap)]

/-! ## Looking for an array by its name -/

/-- A string that ends with the quoted word. -/
def Call.Imitates (w : Bytes) : Call → Prop
  | .member _ (.str s) => quoted w <:+ PsJson.quote (cstr s)
  | _ => False

instance (w : Bytes) (c : Call) : Decidable (c.Imitates w) :=
  match c with
  | .member _ (.str s) => inferInstanceAs (Decidable (quoted w <:+ PsJson.quote (cstr s)))
  | .member _ (.int _) => isFalse id
  | .member _ (.bool _) => isFalse id
  | .objectBegin => isFalse id
  | .objectEnd => isFalse id
  | .keyObjectBegin _ => isFalse id
  | .arrayBegin _ => isFalse id
  | .arrayEnd => isFalse id

/-- Behind the first string that ends with the quoted word no opening bracket is written. -/
def Clear (w : Bytes) : List Call → Prop
  | [] => True
  | c :: cs => if c.Imitates w then ∀ d ∈ cs, (91 : UInt8) ∉ d.text true else Clear w cs

theorem clear_cons {w : Bytes} {c : Call} (h : ¬ c.Imitates w) (cs : List Call) : Clear w (c :: cs) ↔ Clear w cs := by
  rw [Clear, if_neg h]

/-- A number has no bracket in it. -/
theorem bracket_not_mem_int {k : Bytes} (hk : (91 : UInt8) ∉ PsJson.quote (cstr k)) (i : Int) :
    (91 : UInt8) ∉ (Call.member k (.int i)).text true := by
  show (91 : UInt8) ∉ asc "," ++ (PsJson.quote (cstr k) ++ (asc ":" ++ decimal i))
  rw [mem_append, mem_append, mem_append]
  rintro (h | h | h | h)
  · exact absurd h (by decide)
  · exact hk h
  · exact absurd h (by decide)
  · exact (digit_plain 91 (mem_decimal h)).2.1 rfl

instance decidableClear (w : Bytes) : (cs : List Call) → Decidable (Clear w cs)
  | [] => isTrue trivial
  | c :: cs =>
    if h : c.Imitates w then
      decidable_of_iff (∀ d ∈ cs, (91 : UInt8) ∉ d.text true) (by rw [Clear, if_pos h])
    else
      have := decidableClear w cs
      decidable_of_iff (Clear w cs) (by rw [Clear, if_neg h])

/-- The text from the opening bracket behind the quoted word on. -/
def bracketBehind (w json : Bytes) : Option Bytes := (strstr (quoted w) json).bind (strchr 91)

section Bracket

variable {w : Bytes}

theorem strstr_comma (b : Bool) (x : Bytes) :
    strstr (quoted w) (sep b ++ x) = strstr (quoted w) x := by
  cases b with
  | true =>
    have hcomma : (34 : UInt8) ∉ asc "," := by decide
    exact strstr_append_of_forall (not_prefix_of_not_mem hcomma x)
  | false => rfl

/-- The search for the quoted word goes on in the value of a member with another name. -/
theorem strstr_memberText (hw : Name w) {k : Bytes} (hk : Plain k) (hne : k ≠ w) (rest : Bytes) :
    strstr (quoted w) (memberText k rest) = strstr (quoted w) rest := by
  rw [memberText_split k rest]
  refine strstr_append_of_forall fun j hj => ?_
  rw [← memberText_split]
  exact not_at_key hw.sought hk hne hj

/-- It ends in a string that ends with the quoted word. -/
theorem strstr_imitation (hw : Name w) {s : Bytes} (h : quoted w <:+ PsJson.quote s) (rest : Bytes) :
    strstr (quoted w) (PsJson.quote s ++ rest) = some (quoted w ++ rest) := by
  have hraw := quotesEscaped_of_strText (PsJson.strText_quote s)
  have hne : w ≠ [] := fun hnil => absurd hw.2 (by rw [hnil]; decide)
  obtain ⟨pre, hpre⟩ := h
  have hlen : pre.length ≤ (s.flatMap PsJson.quoteChar).length := by
    have htotal := congrArg List.length hpre
    simp only [quoted, PsJson.quote, length_append, length_cons, length_nil] at htotal
    omega
  have hle : pre.length ≤ (PsJson.quote s ++ rest).length := by
    rw [length_append, PsJson.length_quote]
    omega
  have hat : quoted w <+: (PsJson.quote s ++ rest).drop pre.length := by
    rw [← hpre, append_assoc, drop_left]
    exact prefix_append _ _
  refine strstr_of_at hle hat fun j hj hfound => ?_
  exact (quoted_at_quoted hraw hw.1 hne (Nat.le_trans hj hlen) hfound).2

/-- It gets past a string that does not, if something follows that can follow a value. -/
theorem strstr_quote (hw : Name w) {s : Bytes} (h : ¬ quoted w <:+ PsJson.quote s) {rest : Bytes}
    (hrest : Delimited rest) :
    strstr (quoted w) (PsJson.quote s ++ rest) = strstr (quoted w) rest := by
  have hraw := quotesEscaped_of_strText (PsJson.strText_quote s)
  have hne : w ≠ [] := fun hnil => absurd hw.2 (by rw [hnil]; decide)
  obtain ⟨c, r, rfl, hc⟩ := hrest
  exact strstr_append_of_forall fun j hj hat =>
    h (quoted_in_quoted hraw hw.1 hne (head_ne_delimiter hw.sought hc) hj hat).1

theorem mem_text {c : Call} {x : UInt8} {b : Bool} (h : x ∈ c.text b) : x ∈ c.text true := by
  cases b with
  | true => exact h
  | false => exact mem_append_right _ h

theorem not_mem_callsText {cs : List Call} {x : UInt8} (h : ∀ c ∈ cs, x ∉ c.text true) (due : Bool) :
    x ∉ callsText due cs := by
  induction cs generalizing due with
  | nil => exact not_mem_nil
  | cons c cs ih =>
    obtain ⟨hc, hcs⟩ := forall_mem_cons.mp h
    rw [callsText, mem_append]
    rintro (hmem | hmem)
    · exact hc (mem_text hmem)
    · exact ih hcs _ hmem

/-- The bracket that is found behind clear calls is the one that is found without them. -/
theorem bracket_calls (hw : Name w) (hbracket : (91 : UInt8) ∉ w) {cs : List Call} (hplain : plainKeys cs = true)
    (hne : lacks w cs = true) (hclear : Clear w cs) {due : Bool} {x y : Bytes}
    (hx : commaAfter due cs = true → Delimited x) (hchr : strchr 91 x = some y)
    (hstr : bracketBehind w x = some y) : bracketBehind w (callsText due cs ++ x) = some y := by
  induction cs generalizing due with
  | nil => exact hstr
  | cons c cs ih =>
    have hc := key_ne_of_lacks hne c mem_cons_self
    have hcs : lacks _ cs = true := (Bool.and_eq_true_iff.mp hne).2
    have hplainRest : plainKeys cs = true := (Bool.and_eq_true_iff.mp hplain).2
    rw [callsText, append_assoc]
    -- up to the value the word is not found
    have hfront : strstr (quoted w) (c.text due ++ (callsText c.comma cs ++ x)) =
        strstr (quoted w) (c.value ++ (callsText c.comma cs ++ x)) := by
      cases hkey : c.key? with
      | none => rw [text_unkeyed hkey, strstr_comma]
      | some k =>
        have hk := plain_of_plainKeys hplain mem_cons_self hkey
        rw [text_keyed hkey hk, strstr_comma, strstr_memberText hw hk fun h => hc (by rw [hkey, h])]
    unfold bracketBehind
    rw [hfront]
    by_cases him : c.Imitates w
    · -- from here on there is no other bracket
      rw [Clear, if_pos him] at hclear
      obtain ⟨k, s, rfl⟩ : ∃ k s, c = .member k (.str s) := by
        cases c with
        | member k v =>
          cases v with
          | str s => exact ⟨k, s, rfl⟩
          | int i => exact absurd him id
          | bool b => exact absurd him id
        | _ => exact absurd him id
      have hword : (91 : UInt8) ∉ quoted w := by simp [quoted, hbracket]
      rw [show (Call.member k (.str s)).value = PsJson.quote (cstr s) from rfl, strstr_imitation hw him,
        Option.bind_some, strchr_append hword, strchr_append (not_mem_callsText hclear _), hchr]
    · rw [Clear, if_neg him] at hclear
      have hrest : strstr (quoted w) (c.value ++ (callsText c.comma cs ++ x)) =
          strstr (quoted w) (callsText c.comma cs ++ x) := by
        by_cases hvalue : ∃ k s, c = .member k (.str s)
        · obtain ⟨k, s, rfl⟩ := hvalue
          exact strstr_quote hw him (delimited_calls hx)
        · exact strstr_append_of_forall
            (not_prefix_of_not_mem (quote_not_mem_value fun k s h => hvalue ⟨k, s, h⟩) _)
      rw [hrest]
      exact ih hplainRest hcs hclear hx

/-- Behind clear calls the array is found. -/
theorem bracket_array (hw : Name w) (hbracket : (91 : UInt8) ∉ w) {cs : List Call} (hplain : plainKeys cs = true)
    (hne : lacks w cs = true) (hclear : Clear w cs) (due : Bool) (post : List Call) :
    bracketBehind w (callsText due (cs ++ .arrayBegin w :: post)) = some (91 :: callsText false post) := by
  have hcomma (b : Bool) : (91 : UInt8) ∉ sep b := by cases b <;> decide
  have hword : (91 : UInt8) ∉ quoted w ++ [58] := by simp [quoted, hbracket]
  have htext : callsText (commaAfter due cs) (.arrayBegin w :: post) =
      sep (commaAfter due cs && true) ++ (quoted w ++ [58] ++ 91 :: callsText false post) := by
    rw [callsText, text_keyed rfl hw.1]
    congr 1
    simp only [quoted, memberText, append_assoc, cons_append, nil_append]
    rfl
  rw [callsText_append]
  refine bracket_calls hw hbracket hplain hne hclear (fun hdue => ?_) ?_ ?_
  · rw [htext, hdue]
    exact ⟨44, _, rfl, .inl rfl⟩
  · rw [htext, strchr_append (hcomma _), strchr_append hword, strchr_self]
  · have hat : strstr (quoted w) (quoted w ++ [58] ++ 91 :: callsText false post) =
        some (quoted w ++ [58] ++ 91 :: callsText false post) := by
      refine strstr_of_at (Nat.zero_le _) ?_ fun j hj _ => by rw [Nat.le_zero.mp hj, drop_zero]
      exact (prefix_append _ _).trans (prefix_append _ _)
    rw [bracketBehind, htext, strstr_comma, hat, Option.bind_some, strchr_append hword, strchr_self]

end Bracket

end Packetsonde.Central
