import Packetsonde.Recipe.Runtime

/-!
# Templates from parser to run (`validate_template_refs`, `expand_template`)

The scanner of template texts is written twice, once in the parser, which looks every name up in the table of
declared bindings, and once in the interpreter, which puts the value in its place. Both read a text as the same
tokens (`Scans`): `validateRefs_of_scans` says what the parser asks of them, `expandFrom_of_scans` what the
interpreter makes of them.

The parser asks for a declared name of any type. A connection has no text, so a template that names one is
accepted and fails in the run; every other accepted template expands (`accepted_expands_iff`).
-/

namespace Packetsonde.Recipe

open Packetsonde.Lib
open List

/-! ## Tokens -/

inductive TargetField where
  | host | port
  deriving DecidableEq, Repr

/-- How a template writes a field of the target, behind the `$`. -/
def TargetField.name : TargetField → Bytes
  | .host => asc "target.host"
  | .port => asc "target.port"

inductive Token where
  | byte (c : UInt8)
  | dollar
  | target (f : TargetField)
  | ref (name : Bytes)
  deriving DecidableEq, Repr

/-- The text is these tokens. A name is as long as it can be, and the target's fields come before names. -/
inductive Scans : Bytes → List Token → Prop
  | nil : Scans [] []
  | byte {c : UInt8} {p : Bytes} {ts : List Token} (hc : c ≠ 36) (h : Scans p ts) : Scans (c :: p) (.byte c :: ts)
  | dollar {p : Bytes} {ts : List Token} (h : Scans p ts) : Scans (36 :: 36 :: p) (.dollar :: ts)
  | target (f : TargetField) {p : Bytes} {ts : List Token} (h : Scans p ts) :
      Scans (36 :: f.name ++ p) (.target f :: ts)
  | ref {name p : Bytes} {ts : List Token} (hne : name ≠ []) (hname : ∀ c ∈ name, isNameByte c = true)
      (hend : ∀ c ∈ p.head?, isNameByte c = false) (htarget : ∀ f : TargetField, ¬ f.name <+: name ++ p)
      (h : Scans p ts) : Scans (36 :: name ++ p) (.ref name :: ts)

def RtVal.text : RtVal → Option Bytes
  | .conn _ => none
  | .bytes b => some b
  | .str s => some s
  | .int i => some (decimal i.toInt)
  | .bool b => some (if b then asc "true" else asc "false")
  | .strlist items => some ([44].intercalate items)

def RtVal.NoNul : RtVal → Prop
  | .bytes s | .str s => 0 ∉ s
  | .strlist items => ∀ s ∈ items, 0 ∉ s
  | .conn _ | .int _ | .bool _ => True

def Token.text (target : Target) (bs : List RtBinding) : Token → Option Bytes
  | .byte c => some [c]
  | .dollar => some [36]
  | .target .host => some target.host
  | .target .port => some (decimal target.port.toInt)
  | .ref name => (rtLookup bs name).bind RtVal.text

def substituted (target : Target) (bs : List RtBinding) (ts : List Token) : Option Bytes :=
  (ts.mapM (Token.text target bs)).map List.flatten

/-- Every name the template refers to is bound, to a value of its declared type without NUL. -/
def Supplies (t : BtTable) (bs : List RtBinding) (ts : List Token) : Prop :=
  ∀ name, .ref name ∈ ts → ∃ v, rtLookup bs name = some v ∧ v.type = btLookup t name ∧ v.NoNul

/-! ## Both scanners see the tokens -/

theorem take_eq_name_iff (f : TargetField) (p : Bytes) : p.take 11 = f.name ↔ f.name <+: p := by
  have hlen : f.name.length = 11 := by cases f <;> rfl
  rw [prefix_iff_eq_take, hlen, eq_comm]

/-- Where the scanners look for a field of the target. -/
theorem isTarget_iff (p : Bytes) :
    p.take 11 = asc "target.host" ∨ p.take 11 = asc "target.port" ↔ ∃ f : TargetField, f.name <+: p := by
  constructor
  · rintro (h | h)
    · exact ⟨.host, (take_eq_name_iff _ _).mp h⟩
    · exact ⟨.port, (take_eq_name_iff _ _).mp h⟩
  · rintro ⟨f, h⟩
    cases f with
    | host => exact .inl ((take_eq_name_iff .host p).mpr h)
    | port => exact .inr ((take_eq_name_iff .port p).mpr h)

theorem isNameByte_ne_dollar {c : UInt8} (h : isNameByte c = true) : c ≠ 36 := by
  rintro rfl
  exact absurd h (by decide)

section Scan

variable {name p : Bytes}

theorem head?_name_ne_dollar (hne : name ≠ []) (hname : ∀ c ∈ name, isNameByte c = true) :
    (name ++ p).head? ≠ some 36 := by
  obtain ⟨c, rest, rfl⟩ := exists_cons_of_ne_nil hne
  exact fun h => isNameByte_ne_dollar (hname c mem_cons_self) (Option.some.inj h)

section

variable (hname : ∀ c ∈ name, isNameByte c = true)

include hname

variable (hend : ∀ c ∈ p.head?, isNameByte c = false)

include hend

theorem takeWhile_name :
    (name ++ p).takeWhile isNameByte = name := by
  rw [takeWhile_append_of_pos hname]
  cases p with
  | nil => exact append_nil name
  | cons c p => rw [takeWhile_cons_of_neg (by simp [hend c rfl]), append_nil]

theorem dropWhile_name :
    (name ++ p).dropWhile isNameByte = p := by
  rw [dropWhile_append_of_pos hname]
  cases p with
  | nil => rfl
  | cons c p => exact dropWhile_cons_of_neg (by simp [hend c rfl])

theorem refName_ref
    (htarget : ∀ f : TargetField, ¬ f.name <+: name ++ p) : refName (name ++ p) = name := by
  rw [refName, if_neg ((isTarget_iff _).not.mpr fun ⟨f, h⟩ => htarget f h), takeWhile_name hname hend]

end

theorem refName_target (f : TargetField) (p : Bytes) : refName (f.name ++ p) = f.name := by
  have hpre : f.name <+: f.name ++ p := prefix_append _ _
  rw [refName, if_pos ((isTarget_iff _).mpr ⟨f, hpre⟩), (take_eq_name_iff f _).mpr hpre]

end Scan

variable {t : BtTable} {text : Bytes} {ts : List Token} {fuel : Nat} {target : Target} {bs : List RtBinding}

/-- What the parser asks of a text's tokens. -/
theorem validateRefs_of_scans (h : Scans text ts) (hfuel : text.length ≤ fuel) :
    validateRefs t fuel text = .ok () ↔
      ∀ name, .ref name ∈ ts → name.length < nameBufSize ∧ btLookup t name ≠ .none := by
  induction h generalizing fuel with
  | nil =>
    cases fuel <;> simp [validateRefs]
  | byte hc h ih =>
    cases fuel with
    | zero => cases hfuel
    | succ fuel =>
      rw [validateRefs, if_pos hc, ih (Nat.le_of_succ_le_succ hfuel)]
      simp
  | dollar h ih =>
    cases fuel with
    | zero => cases hfuel
    | succ fuel =>
      rw [validateRefs, if_neg (by decide), if_pos head?_cons, tail_cons, ih (by simp at hfuel; omega)]
      simp
  | @target f p ts h ih =>
    cases fuel with
    | zero => cases hfuel
    | succ fuel =>
      have hhead : (f.name ++ p).head? ≠ some 36 := by cases f <;> exact nofun
      have hdrop : (f.name ++ p).drop 11 = p := by cases f <;> rfl
      rw [cons_append, validateRefs, if_neg (by decide), if_neg hhead,
        if_pos ((isTarget_iff _).mpr ⟨f, prefix_append _ _⟩), hdrop, ih (by simp at hfuel; omega)]
      simp
  | @ref name p ts hne hname hend htarget h ih =>
    cases fuel with
    | zero => cases hfuel
    | succ fuel =>
      rw [cons_append, validateRefs, if_neg (by decide), if_neg (head?_name_ne_dollar hne hname),
        if_neg ((isTarget_iff _).not.mpr fun ⟨f, h⟩ => htarget f h)]
      simp only [takeWhile_name hname hend, dropWhile_name hname hend]
      rw [if_neg (by simpa using hne)]
      by_cases hlen : name.length ≥ nameBufSize
      · rw [if_pos hlen]
        refine ⟨nofun, fun hall => ?_⟩
        have := (hall name mem_cons_self).1
        omega
      · rw [if_neg hlen]
        by_cases hty : btLookup t name = .none
        · rw [if_pos hty]
          exact ⟨nofun, fun hall => absurd hty (hall name mem_cons_self).2⟩
        · rw [if_neg hty, ih (by simp at hfuel; omega)]
          simp only [mem_cons, Token.ref.injEq]
          constructor
          · rintro hall n (rfl | hn)
            · exact ⟨by omega, hty⟩
            · exact hall n hn
          · exact fun hall n hn => hall n (.inr hn)

/-- A text the parser accepts has tokens. -/
theorem scans_of_validateRefs (hfuel : text.length ≤ fuel)
    (h : validateRefs t fuel text = .ok ()) : ∃ ts, Scans text ts := by
  fun_induction validateRefs t fuel text with
  | case1 text =>
    obtain rfl : text = [] := length_eq_zero_iff.mp (Nat.le_zero.mp hfuel)
    exact ⟨[], .nil⟩
  | case2 => exact ⟨[], .nil⟩
  | case3 fuel c p hc ih =>
    obtain ⟨ts, hts⟩ := ih (Nat.le_of_succ_le_succ hfuel) h
    exact ⟨_, .byte hc hts⟩
  | case4 fuel c p hc hhead ih =>
    obtain ⟨p, rfl⟩ : ∃ q, p = 36 :: q := ⟨p.tail, eq_cons_of_mem_head? hhead⟩
    obtain rfl : c = 36 := not_not.mp hc
    obtain ⟨ts, hts⟩ := ih (by simp at hfuel ⊢; omega) h
    exact ⟨_, .dollar hts⟩
  | case5 fuel c p hc hhead htarget ih =>
    obtain ⟨f, q, rfl⟩ := (isTarget_iff p).mp htarget
    obtain rfl : c = 36 := not_not.mp hc
    have hdrop : (f.name ++ q).drop 11 = q := by cases f <;> rfl
    rw [hdrop] at ih h
    obtain ⟨ts, hts⟩ := ih (by simp at hfuel; omega) h
    exact ⟨_, .target f hts⟩
  | case6 => cases h
  | case7 => cases h
  | case8 => cases h
  | case9 fuel c p hc hhead htarget name hne hlen hty ih =>
    obtain rfl : c = 36 := not_not.mp hc
    have hsplit : p = name ++ p.dropWhile isNameByte := (takeWhile_append_dropWhile).symm
    have hrest := (dropWhile_suffix (l := p) isNameByte).length_le
    obtain ⟨ts, hts⟩ := ih (by simp at hfuel; omega) h
    refine ⟨.ref name :: ts, ?_⟩
    rw [hsplit]
    refine .ref (by simpa using hne) (fun c hc => mem_takeWhile_imp hc) ?_ ?_ hts
    · intro c hc
      have hstop := head?_dropWhile_not isNameByte p
      rw [Option.mem_def.mp hc] at hstop
      exact hstop
    · rw [← hsplit]
      exact fun f hf => htarget ((isTarget_iff p).mpr ⟨f, hf⟩)

/-! ## What the interpreter makes of the tokens -/

theorem substituted_cons (target : Target) (bs : List RtBinding) (tok : Token) (ts : List Token) :
    substituted target bs (tok :: ts) =
      (tok.text target bs).bind fun val => (substituted target bs ts).map (val ++ ·) := by
  rw [substituted, mapM_cons]
  cases tok.text target bs with
  | none => rfl
  | some val =>
    rw [substituted]
    cases ts.mapM (Token.text target bs) <;> rfl

theorem toOption_bind {α β : Type} (x : Except RtErr α) (f : α → Except RtErr β) :
    (x >>= f).toOption = x.toOption.bind fun a => (f a).toOption := by
  cases x <;> rfl

theorem nul_not_mem_decimal (i : Int) : (0 : UInt8) ∉ decimal i := by
  intro h
  rcases mem_decimal h with h | h <;> exact absurd h (by decide)

theorem commaJoin_eq (items : List Bytes) : commaJoin items = [44].intercalate items := by
  fun_induction commaJoin items with
  | case1 => rfl
  | case2 => exact intercalate_singleton.symm
  | case3 s rest hne ih =>
    rw [ih, intercalate_cons_of_ne_nil hne, append_assoc, singleton_append]

theorem nul_not_mem_commaJoin {items : List Bytes} (h : ∀ s ∈ items, (0 : UInt8) ∉ s) : 0 ∉ commaJoin items := by
  fun_induction commaJoin items with
  | case1 => exact not_mem_nil
  | case2 s => exact h s mem_cons_self
  | case3 s rest hne ih =>
    rw [mem_append, mem_cons, not_or, not_or]
    exact ⟨h s mem_cons_self, by decide, ih fun s hs => h s (mem_cons_of_mem _ hs)⟩

theorem cstr_text {v : RtVal} (hv : v.NoNul) {val : Bytes} (h : v.text = some val) : cstr val = val := by
  rw [cstr_eq_self_iff]
  cases v with
  | conn => cases h
  | bytes b => exact Option.some.inj h ▸ hv
  | str s => exact Option.some.inj h ▸ hv
  | int i => exact Option.some.inj h ▸ nul_not_mem_decimal _
  | bool b => cases b <;> exact Option.some.inj h ▸ by decide
  | strlist items => exact Option.some.inj h ▸ commaJoin_eq items ▸ nul_not_mem_commaJoin hv

/-- A name of name bytes is not one of the dotted ones. -/
theorem name_ne_target {name : Bytes} (hname : ∀ c ∈ name, isNameByte c = true) (f : TargetField) :
    name ≠ f.name := by
  rintro rfl
  have hdot : (46 : UInt8) ∈ f.name := by cases f <;> decide
  exact absurd (hname 46 hdot) (by decide)

theorem renderBinding_ref {name : Bytes} (hname : ∀ c ∈ name, isNameByte c = true) (target : Target)
    (bs : List RtBinding) :
    (renderBinding target bs name).toOption = (rtLookup bs name).bind RtVal.text := by
  have hhost : name ≠ asc "target.host" := name_ne_target hname .host
  have hport : name ≠ asc "target.port" := name_ne_target hname .port
  rw [renderBinding, if_neg hhost, if_neg hport]
  cases rtLookup bs name with
  | none => rfl
  | some v => cases v <;> simp [RtVal.text, Except.toOption, commaJoin_eq]

theorem renderBinding_target (f : TargetField) (target : Target) (bs : List RtBinding) :
    (renderBinding target bs f.name).toOption = (Token.target f).text target bs := by
  cases f <;> rfl

/-- One step of the loop of `expand_template` at a `$` that is not doubled. -/
theorem expandFrom_name {name p : Bytes} (hne : name ≠ [])
    (hhead : (name ++ p).head? ≠ some 36) (hname : refName (name ++ p) = name) (hlen : name.length < nameBufSize)
    (fuel : Nat) :
    (expandFrom target bs (fuel + 1) (36 :: name ++ p)).toOption =
      (renderBinding target bs name).toOption.bind fun val =>
        ((expandFrom target bs fuel p).toOption).map (cstr val ++ ·) := by
  rw [cons_append, expandFrom, if_neg (by decide), if_neg hhead, hname, if_neg (by simpa using hne),
    if_neg (by omega), toOption_bind, drop_left]
  congr 1
  funext val
  rw [toOption_bind]
  cases (expandFrom target bs fuel p).toOption <;> rfl

theorem expandFrom_of_scans (h : Scans text ts) (hhost : 0 ∉ target.host)
    (hrefs : ∀ name, .ref name ∈ ts → name.length < nameBufSize ∧ ∃ v, rtLookup bs name = some v ∧ v.NoNul)
    (hfuel : text.length ≤ fuel) :
    (expandFrom target bs fuel text).toOption = substituted target bs ts := by
  induction h generalizing fuel with
  | nil => cases fuel <;> rfl
  | @byte c p ts hc h ih =>
    cases fuel with
    | zero => cases hfuel
    | succ fuel =>
      have hrest := ih (fun name hn => hrefs name (mem_cons_of_mem _ hn)) (Nat.le_of_succ_le_succ hfuel)
      rw [expandFrom, if_pos hc, toOption_bind, hrest, substituted_cons]
      cases substituted target bs ts <;> rfl
  | @dollar p ts h ih =>
    cases fuel with
    | zero => cases hfuel
    | succ fuel =>
      have hrest : (expandFrom target bs fuel p).toOption = substituted target bs ts :=
        ih (fun name hn => hrefs name (mem_cons_of_mem _ hn)) (by simp at hfuel; omega)
      rw [expandFrom, if_neg (by decide), if_pos head?_cons, tail_cons, toOption_bind, hrest,
        substituted_cons]
      cases substituted target bs ts <;> rfl
  | @target f p ts h ih =>
    cases fuel with
    | zero => cases hfuel
    | succ fuel =>
      have hrest : (expandFrom target bs fuel p).toOption = substituted target bs ts :=
        ih (fun name hn => hrefs name (mem_cons_of_mem _ hn)) (by simp at hfuel; omega)
      rw [expandFrom_name (by cases f <;> exact nofun) (by cases f <;> exact nofun) (refName_target f p)
        (by cases f <;> decide), renderBinding_target, hrest, substituted_cons]
      cases f with
      | host => rw [Token.text, Option.bind_some, Option.bind_some, cstr_eq_self_iff.mpr hhost]
      | port =>
        rw [Token.text, Option.bind_some, Option.bind_some, cstr_eq_self_iff.mpr (nul_not_mem_decimal _)]
  | @ref name p ts hne hname hend htarget h ih =>
    cases fuel with
    | zero => cases hfuel
    | succ fuel =>
      have hrest : (expandFrom target bs fuel p).toOption = substituted target bs ts :=
        ih (fun name hn => hrefs name (mem_cons_of_mem _ hn)) (by simp at hfuel; omega)
      obtain ⟨hlen, v, hv, hnul⟩ := hrefs name mem_cons_self
      rw [expandFrom_name hne (head?_name_ne_dollar hne hname) (refName_ref hname hend htarget) hlen,
        renderBinding_ref hname, hrest, substituted_cons, Token.text, hv, Option.bind_some]
      cases htext : v.text with
      | none => rfl
      | some val => rw [Option.bind_some, Option.bind_some, cstr_text hnul htext]

/-- A text without a `$` is returned as it is, which is what the loop would make of it. -/
theorem expandTemplate_eq (target : Target) (bs : List RtBinding) (text : Bytes) :
    expandTemplate target bs text = expandFrom target bs text.length text := by
  rw [expandTemplate]
  split
  · rfl
  · rename_i hmem
    induction text with
    | nil => rfl
    | cons c p ih =>
      have hc : c ≠ 36 := fun h => hmem (h ▸ mem_cons_self)
      rw [length_cons, expandFrom, if_pos hc, ← ih fun h => hmem (mem_cons_of_mem _ h)]
      rfl

theorem substituted_isSome_iff (target : Target) (bs : List RtBinding) (ts : List Token) :
    (substituted target bs ts).isSome ↔ ∀ tok ∈ ts, (tok.text target bs).isSome := by
  induction ts with
  | nil => simp [substituted]
  | cons tok ts ih =>
    rw [substituted_cons, forall_mem_cons, ← ih]
    cases tok.text target bs <;> simp

theorem text_isSome_iff (v : RtVal) : v.text.isSome ↔ v.type ≠ .conn := by
  cases v <;> simp [RtVal.text, RtVal.type]

/-- Which tokens stand for something, in a state that supplies the bindings. -/
theorem tokens_isSome_iff (h : Supplies t bs ts) (target : Target) :
    (∀ tok ∈ ts, (tok.text target bs).isSome) ↔ ∀ name, .ref name ∈ ts → btLookup t name ≠ .conn := by
  constructor
  · intro hall name hn
    obtain ⟨v, hv, hty, -⟩ := h name hn
    have hsome := hall (.ref name) hn
    rwa [Token.text, hv, Option.bind_some, text_isSome_iff, hty] at hsome
  · intro hall tok htok
    match tok with
    | .byte _ | .dollar | .target .host | .target .port => rfl
    | .ref name =>
      obtain ⟨v, hv, hty, -⟩ := h name htok
      rw [Token.text, hv, Option.bind_some, text_isSome_iff, hty]
      exact hall name htok

/-- The template expands to its text with everything in its place. -/
def Expands (target : Target) (bs : List RtBinding) (text : Bytes) (ts : List Token) : Prop :=
  ∃ out, expandTemplate target bs text = .ok out ∧ substituted target bs ts = some out

theorem accepted_expands_iff (t : BtTable) (text : Bytes) (hok : validateTemplateRefs t text = .ok ()) :
    (∃ ts, Scans text ts) ∧
      ∀ ts, Scans text ts → ∀ (target : Target) (bs : List RtBinding), 0 ∉ target.host → Supplies t bs ts →
        (Expands target bs text ts ↔ ∀ name, .ref name ∈ ts → btLookup t name ≠ .conn) := by
  refine ⟨scans_of_validateRefs le_rfl hok, fun ts hts target bs hhost hsup => ?_⟩
  have hnames := (validateRefs_of_scans hts le_rfl).mp hok
  have hexpand : (expandTemplate target bs text).toOption = substituted target bs ts := by
    rw [expandTemplate_eq]
    refine expandFrom_of_scans hts hhost (fun name hn => ⟨(hnames name hn).1, ?_⟩) le_rfl
    obtain ⟨v, hv, -, hnul⟩ := hsup name hn
    exact ⟨v, hv, hnul⟩
  have hiff : Expands target bs text ts ↔ (substituted target bs ts).isSome := by
    rw [Expands, ← hexpand]
    cases expandTemplate target bs text <;> simp [Except.toOption]
  rw [hiff, substituted_isSome_iff, tokens_isSome_iff hsup]

/-- The table after a step that binds one name. -/
def declaredOnly (name : Bytes) (ty : Bt) : BtTable :=
  ⟨[(name, ty)], nodup_singleton _, show 1 ≤ btMax by decide⟩

theorem version_expands :
    Expands ⟨asc "h", 22⟩ [⟨asc "ver", .str (asc "9.1")⟩] (asc "$ver$$") [.ref (asc "ver"), .dollar] := by
  have hscans : Scans (asc "$ver$$") [.ref (asc "ver"), .dollar] := by
    have hend : Scans (asc "$$") [.dollar] := .dollar .nil
    have htarget : ∀ f : TargetField, ¬ f.name <+: asc "ver" ++ asc "$$" := by
      intro f
      cases f <;> decide
    exact .ref (by decide) (by decide +kernel) (by decide +kernel) htarget hend
  refine ((accepted_expands_iff (declaredOnly (asc "ver") .string) (asc "$ver$$") (by decide)).2 _ hscans _ _
    (by decide) ?_).mpr ?_
  · intro name hn
    obtain rfl : name = asc "ver" := by simpa using hn
    exact ⟨.str (asc "9.1"), by decide, by decide, show (0 : UInt8) ∉ asc "9.1" by decide⟩
  · intro name hn
    obtain rfl : name = asc "ver" := by simpa using hn
    decide

/-- The connection `c` is declared, so the parser accepts `$c`; the run has it and cannot print it. -/
theorem conn_not_expanded :
    validateTemplateRefs (declaredOnly (asc "c") .conn) (asc "$c") = .ok () ∧
      (rtLookup [⟨asc "c", .conn 3⟩] (asc "c")).map RtVal.type =
        some (btLookup (declaredOnly (asc "c") .conn) (asc "c")) ∧
      expandTemplate ⟨asc "h", 22⟩ [⟨asc "c", .conn 3⟩] (asc "$c") = .error (.renderType (asc "c")) := by
  decide

end Packetsonde.Recipe
