import Packetsonde.Lib.Json

/-!
# JSON texts

The whole grammar, without a limit on what a text may hold: numbers with fractions and
exponents, `\u` escapes, any bytes above the control characters in strings. (`Lib.Json` has the
smaller language of the recipe reader.) A number is kept as its text, a string is decoded; half of a
surrogate pair is decoded on its own.

`Lex` is a finite automaton over the bytes that lets every JSON text pass (`doc_lex`). It knows little
of the grammar, but enough to see that a comma with nothing in front of it, a stray escape or two
strings in a row are none: the ways in which code that pastes texts together goes wrong.
-/

namespace Packetsonde.Lib

open List

/-! ## Strings and numbers -/

def hexValue (c : UInt8) : Option Nat :=
  if 48 ≤ c ∧ c ≤ 57 then some (c.toNat - 48)
  else if 97 ≤ c ∧ c ≤ 102 then some (c.toNat - 87)
  else if 65 ≤ c ∧ c ≤ 70 then some (c.toNat - 55)
  else none

def hex4 (a b c d : UInt8) : Option Nat := do
  let p ← hexValue a
  let q ← hexValue b
  let r ← hexValue c
  let s ← hexValue d
  some (((p * 16 + q) * 16 + r) * 16 + s)

/-- A code point below 0x10000 in UTF-8. -/
def utf8 (cp : Nat) : Bytes :=
  if cp < 0x80 then [UInt8.ofNat cp]
  else if cp < 0x800 then [UInt8.ofNat (0xc0 + cp / 64), UInt8.ofNat (0x80 + cp % 64)]
  else [UInt8.ofNat (0xe0 + cp / 4096), UInt8.ofNat (0x80 + cp / 64 % 64),
    UInt8.ofNat (0x80 + cp % 64)]

/-- `StrText raw s`: the text `raw` between two quotes stands for the string `s`. -/
inductive StrText : Bytes → Bytes → Prop where
  | nil : StrText [] []
  | plain {c : UInt8} {raw s : Bytes} (hq : c ≠ 34) (hb : c ≠ 92) (hc : 0x20 ≤ c)
      (h : StrText raw s) : StrText (c :: raw) (c :: s)
  | esc {e d : UInt8} {raw s : Bytes} (he : escape e = some d) (h : StrText raw s) :
      StrText (92 :: e :: raw) (d :: s)
  | uni {a b c d : UInt8} {cp : Nat} {raw s : Bytes} (hcp : hex4 a b c d = some cp)
      (h : StrText raw s) : StrText (92 :: 117 :: a :: b :: c :: d :: raw) (utf8 cp ++ s)

def Digits (ds : Bytes) : Prop := ds ≠ [] ∧ ∀ c ∈ ds, isDigit c = true

/-- A number: a sign, digits without a redundant zero, a fraction, an exponent. -/
def NumLit (l : Bytes) : Prop :=
  ∃ sign int frac exp, l = sign ++ (int ++ (frac ++ exp)) ∧ (sign = [] ∨ sign = [45]) ∧
    Digits int ∧ (int.head? = some 48 → int = [48]) ∧
    (frac = [] ∨ ∃ ds, frac = 46 :: ds ∧ Digits ds) ∧
    (exp = [] ∨ ∃ e s ds, exp = e :: (s ++ ds) ∧ (e = 101 ∨ e = 69) ∧
      (s = [] ∨ s = [43] ∨ s = [45]) ∧ Digits ds)

/-! ## The grammar -/

/-- `Doc cat t v`: the text `t` is one value (no white space around it), the comma-separated items of
an array, or the members of an object, and `v` is its tree. Items and members are trees of their own,
never empty. -/
inductive Doc : Cat → Bytes → Json Bytes → Prop where
  | null : Doc .value [110, 117, 108, 108] .null
  | true : Doc .value [116, 114, 117, 101] (.bool true)
  | false : Doc .value [102, 97, 108, 115, 101] (.bool false)
  | num {l : Bytes} (h : NumLit l) : Doc .value l (.int l)
  | str {raw s : Bytes} (h : StrText raw s) : Doc .value (34 :: (raw ++ [34])) (.str s)
  | emptyArr {w : Bytes} (hw : IsWs w) : Doc .value (91 :: (w ++ [93])) (.arr [])
  | arr {t : Bytes} {vs : List (Json Bytes)} (h : Doc .items t (.arr vs)) :
      Doc .value (91 :: (t ++ [93])) (.arr vs)
  | emptyObj {w : Bytes} (hw : IsWs w) : Doc .value (123 :: (w ++ [125])) (.obj [])
  | obj {t : Bytes} {ms : List (Bytes × Json Bytes)} (h : Doc .members t (.obj ms)) :
      Doc .value (123 :: (t ++ [125])) (.obj ms)
  | item {w₁ t w₂ : Bytes} {v : Json Bytes} (h₁ : IsWs w₁) (h : Doc .value t v)
      (h₂ : IsWs w₂) : Doc .items (w₁ ++ (t ++ w₂)) (.arr [v])
  | itemCons {w₁ t w₂ ts : Bytes} {v : Json Bytes} {vs : List (Json Bytes)} (h₁ : IsWs w₁)
      (h : Doc .value t v) (h₂ : IsWs w₂) (hs : Doc .items ts (.arr vs)) :
      Doc .items (w₁ ++ (t ++ (w₂ ++ 44 :: ts))) (.arr (v :: vs))
  | member {w₁ raw key w₂ w₃ t w₄ : Bytes} {v : Json Bytes} (h₁ : IsWs w₁)
      (hk : StrText raw key) (h₂ : IsWs w₂) (h₃ : IsWs w₃) (h : Doc .value t v) (h₄ : IsWs w₄) :
      Doc .members (w₁ ++ 34 :: (raw ++ 34 :: (w₂ ++ 58 :: (w₃ ++ (t ++ w₄)))))
        (.obj [(key, v)])
  | memberCons {w₁ raw key w₂ w₃ t w₄ ts : Bytes} {v : Json Bytes}
      {ms : List (Bytes × Json Bytes)} (h₁ : IsWs w₁) (hk : StrText raw key) (h₂ : IsWs w₂)
      (h₃ : IsWs w₃) (h : Doc .value t v) (h₄ : IsWs w₄) (hs : Doc .members ts (.obj ms)) :
      Doc .members (w₁ ++ 34 :: (raw ++ 34 :: (w₂ ++ 58 :: (w₃ ++ (t ++ (w₄ ++ 44 :: ts))))))
        (.obj ((key, v) :: ms))

theorem isWs_nil : IsWs [] := fun _ hc => absurd hc not_mem_nil

/-! ## The bytes of tokens -/

def isNumChar (c : UInt8) : Bool :=
  isDigit c || c == 43 || c == 45 || c == 46 || c == 69 || c == 101

/-- What the bytes of a number are not. -/
theorem isNumChar_byte : ∀ c, isNumChar c = true →
    isWs c = false ∧ 0x20 ≤ c ∧ c ≠ 34 ∧ c ≠ 44 ∧ c ≠ 91 ∧ c ≠ 93 ∧ c ≠ 102 ∧ c ≠ 110 ∧ c ≠ 116 ∧
      c ≠ 123 ∧ c ≠ 125 :=
  forall_byte (by decide +kernel)

/-- The bytes behind a backslash, and those of the numbers behind `\u`. -/
theorem escape_byte : ∀ e, ((escape e).isSome → 0x20 ≤ e ∧ e ≠ 117) ∧
    ((hexValue e).isSome → 0x20 ≤ e ∧ e ≠ 34 ∧ e ≠ 92) :=
  forall_byte (by decide +kernel)

variable {c : UInt8} {l raw key t u w : Bytes} {ts : List Bytes} {vs : List (Json Bytes)} {v : Json Bytes}
    {cat : Cat}

theorem isNumChar_of_isDigit (h : isDigit c = true) : isNumChar c = true := by
  unfold isNumChar
  rw [h]
  rfl

theorem numLit_chars (h : NumLit l) : ∀ c ∈ l, isNumChar c = true := by
  obtain ⟨sign, int, frac, exp, rfl, hsign, hint, -, hfrac, hexp⟩ := h
  have hdigits : ∀ {ds : Bytes}, Digits ds → ∀ c ∈ ds, isNumChar c = true :=
    fun hds c hc => isNumChar_of_isDigit (hds.2 c hc)
  simp only [forall_mem_append]
  refine ⟨?_, hdigits hint, ?_, ?_⟩
  · rcases hsign with rfl | rfl
    · exact fun c hc => absurd hc not_mem_nil
    · exact forall_mem_singleton.mpr rfl
  · rcases hfrac with rfl | ⟨ds, rfl, hds⟩
    · exact fun c hc => absurd hc not_mem_nil
    · exact forall_mem_cons.mpr ⟨by decide, hdigits hds⟩
  · rcases hexp with rfl | ⟨e, s, ds, rfl, he, hs, hds⟩
    · exact fun c hc => absurd hc not_mem_nil
    · refine forall_mem_cons.mpr ⟨?_, forall_mem_append.mpr ⟨?_, hdigits hds⟩⟩
      · rcases he with rfl | rfl <;> decide
      · rcases hs with rfl | rfl | rfl
        · exact fun c hc => absurd hc not_mem_nil
        · exact forall_mem_singleton.mpr rfl
        · exact forall_mem_singleton.mpr rfl

theorem numLit_ne_nil (h : NumLit l) : l ≠ [] := by
  obtain ⟨sign, int, frac, exp, rfl, -, hint, -⟩ := h
  intro hnil
  rw [append_eq_nil_iff, append_eq_nil_iff] at hnil
  exact hint.1 hnil.2.1

/-- A number ends with a digit. -/
theorem numLit_last (h : NumLit l) : ∃ c, l.getLast? = some c ∧ isDigit c = true := by
  have hlast : ∀ {ds : Bytes} (pre : Bytes), Digits ds →
      ∃ c, (pre ++ ds).getLast? = some c ∧ isDigit c = true := by
    intro ds pre hds
    refine ⟨ds.getLast hds.1, ?_, hds.2 _ (getLast_mem hds.1)⟩
    rw [getLast?_append, getLast?_eq_getLast_of_ne_nil hds.1]
    rfl
  obtain ⟨sign, int, frac, exp, rfl, -, hint, -, hfrac, hexp⟩ := h
  rcases hexp with rfl | ⟨e, s, ds, rfl, -, -, hds⟩
  · rcases hfrac with rfl | ⟨ds, rfl, hds⟩
    · have hend := hlast sign hint
      simpa using hend
    · have hend := hlast (sign ++ (int ++ [46])) hds
      simpa using hend
  · have hend := hlast (sign ++ (int ++ (frac ++ e :: s))) hds
    simpa using hend

theorem numLit_natDecimal (n : Nat) : NumLit (natDecimal n) := by
  refine ⟨[], natDecimal n, [], [], by simp, .inl rfl,
    ⟨natDecimal_ne_nil n, fun c hc => isDigit_of_mem_natDecimal hc⟩, fun hzero => ?_, .inl rfl, .inl rfl⟩
  by_cases hn : n = 0
  · subst hn
    rfl
  · exact absurd hzero (head_natDecimal_ne_zero hn)

/-- A string without quotes, backslashes and control bytes stands for itself. -/
theorem strText_self {s : Bytes} (h : ∀ c ∈ s, c ≠ 34 ∧ c ≠ 92 ∧ 0x20 ≤ c) : StrText s s := by
  induction s with
  | nil => exact .nil
  | cons c s ih =>
    obtain ⟨⟨hq, hb, hc⟩, hs⟩ := forall_mem_cons.mp h
    exact .plain hq hb hc (ih hs)

theorem strText_append {raw raw' s s' : Bytes} (h : StrText raw s) (h' : StrText raw' s') :
    StrText (raw ++ raw') (s ++ s') := by
  induction h with
  | nil => exact h'
  | plain hq hb hc _ ih => exact .plain hq hb hc ih
  | esc he _ ih => exact .esc he ih
  | uni hcp _ ih =>
    rw [append_assoc]
    exact .uni hcp ih

/-- Where a value starts. -/
theorem doc_head (h : Doc .value t v) : ∃ c t', t = c :: t' ∧ isWs c = false := by
  cases h with
  | num hl =>
    obtain ⟨c, t, rfl⟩ := exists_cons_of_ne_nil (numLit_ne_nil hl)
    exact ⟨c, t, rfl, (isNumChar_byte c (numLit_chars hl c mem_cons_self)).1⟩
  | _ => exact ⟨_, _, rfl, by decide⟩

/-! ## Joining texts -/

def commaJoin : List Bytes → Bytes
  | [] => []
  | t :: ts => t ++ (ts.map (44 :: ·)).flatten

/-- The text of a member: a key, a colon and a value. -/
def memberText (raw value : Bytes) : Bytes := 34 :: (raw ++ 34 :: 58 :: value)

theorem memberText_append (k t rest : Bytes) : memberText k t ++ rest = memberText k (t ++ rest) := by
  simp [memberText]

theorem doc_items (h : List.Forall₂ (Doc .value) ts vs)
    (hne : ts ≠ []) : Doc .items (commaJoin ts) (.arr vs) := by
  induction h with
  | nil => exact absurd rfl hne
  | @cons t v ts vs ht hts ih =>
    cases hts with
    | nil => exact Doc.item isWs_nil ht isWs_nil
    | cons hu hus => exact Doc.itemCons isWs_nil ht isWs_nil (ih (cons_ne_nil _ _))

/-- An array of the given texts. -/
theorem doc_array (h : List.Forall₂ (Doc .value) ts vs) :
    Doc .value (91 :: (commaJoin ts ++ [93])) (.arr vs) := by
  cases h with
  | nil => exact Doc.emptyArr isWs_nil
  | cons ht hts => exact .arr (doc_items (.cons ht hts) (cons_ne_nil _ _))

theorem doc_memberText (hk : StrText raw key)
    (h : Doc .value t v) : Doc .members (memberText raw t) (.obj [(key, v)]) := by
  have hone := Doc.member isWs_nil hk isWs_nil isWs_nil h isWs_nil
  rwa [append_nil] at hone

theorem doc_memberText_cons {raw key t ts : Bytes} {ms : List (Bytes × Json Bytes)}
    (hk : StrText raw key) (h : Doc .value t v) (hs : Doc .members ts (.obj ms)) :
    Doc .members (memberText raw t ++ 44 :: ts) (.obj ((key, v) :: ms)) := by
  have hmany := Doc.memberCons isWs_nil hk isWs_nil isWs_nil h isWs_nil hs
  rwa [memberText_append]

/-! ## The bytes of a text -/

theorem hex4_bytes {a b c d : UInt8} {cp : Nat} (h : hex4 a b c d = some cp) :
    ∀ e ∈ [a, b, c, d], 0x20 ≤ e ∧ e ≠ 34 ∧ e ≠ 92 := by
  have hhex {e : UInt8} {n : Nat} (he : hexValue e = some n) := (escape_byte e).2 (by rw [he]; rfl)
  unfold hex4 at h
  obtain ⟨p, ha, h⟩ := Option.bind_eq_some_iff.mp h
  obtain ⟨q, hb, h⟩ := Option.bind_eq_some_iff.mp h
  obtain ⟨r, hc, h⟩ := Option.bind_eq_some_iff.mp h
  obtain ⟨s, hd, h⟩ := Option.bind_eq_some_iff.mp h
  simp only [forall_mem_cons]
  exact ⟨hhex ha, hhex hb, hhex hc, hhex hd, fun e he => absurd he not_mem_nil⟩

theorem strText_bytes {raw s : Bytes} (h : StrText raw s) : ∀ c ∈ raw, 0x20 ≤ c := by
  induction h with
  | nil => simp
  | plain _ _ hc _ ih => exact forall_mem_cons.mpr ⟨hc, ih⟩
  | @esc e d raw s he _ ih =>
    have hlow := ((escape_byte e).1 (by rw [he]; rfl)).1
    exact forall_mem_cons.mpr ⟨by decide, forall_mem_cons.mpr ⟨hlow, ih⟩⟩
  | uni hcp _ ih =>
    have hhex := fun e he => (hex4_bytes hcp e he).1
    simp only [forall_mem_cons] at hhex ⊢
    exact ⟨by decide, by decide, hhex.1, hhex.2.1, hhex.2.2.1, hhex.2.2.2.1, ih⟩

/-- A text has no control characters but white space. -/
theorem doc_bytes (h : Doc cat t v) :
    ∀ c ∈ t, isWs c = true ∨ 0x20 ≤ c := by
  induction h with
  | null | true | false =>
    simp only [forall_mem_cons]
    exact ⟨by decide, by decide, by decide, by decide, by simp⟩
  | num h => exact fun c hc => Or.inr (isNumChar_byte c (numLit_chars h c hc)).2.1
  | str h =>
    rintro c (_ | ⟨_, hc⟩)
    · decide
    · rcases mem_append.mp hc with hc | hc
      · exact Or.inr (strText_bytes h c hc)
      · rw [mem_singleton.mp hc]
        decide
  | emptyArr hw | emptyObj hw =>
    rintro c (_ | ⟨_, hc⟩)
    · decide
    · rcases mem_append.mp hc with hc | hc
      · exact Or.inl (hw c hc)
      · rw [mem_singleton.mp hc]
        decide
  | arr _ ih | obj _ ih =>
    rintro c (_ | ⟨_, hc⟩)
    · decide
    · rcases mem_append.mp hc with hc | hc
      · exact ih c hc
      · rw [mem_singleton.mp hc]
        decide
  | item h₁ _ h₂ ih =>
    intro c hc
    simp only [mem_append] at hc
    rcases hc with hc | hc | hc
    · exact Or.inl (h₁ c hc)
    · exact ih c hc
    · exact Or.inl (h₂ c hc)
  | itemCons h₁ _ h₂ _ ih ihs =>
    intro c hc
    simp only [mem_append, mem_cons] at hc
    rcases hc with hc | hc | hc | rfl | hc
    · exact Or.inl (h₁ c hc)
    · exact ih c hc
    · exact Or.inl (h₂ c hc)
    · decide
    · exact ihs c hc
  | member h₁ hk h₂ h₃ _ h₄ ih =>
    intro c hc
    simp only [mem_append, mem_cons] at hc
    rcases hc with hc | rfl | hc | rfl | hc | rfl | hc | hc | hc
    · exact Or.inl (h₁ c hc)
    · decide
    · exact Or.inr (strText_bytes hk c hc)
    · decide
    · exact Or.inl (h₂ c hc)
    · decide
    · exact Or.inl (h₃ c hc)
    · exact ih c hc
    · exact Or.inl (h₄ c hc)
  | memberCons h₁ hk h₂ h₃ _ h₄ _ ih ihs =>
    intro c hc
    simp only [mem_append, mem_cons] at hc
    rcases hc with hc | rfl | hc | rfl | hc | rfl | hc | hc | hc | rfl | hc
    · exact Or.inl (h₁ c hc)
    · decide
    · exact Or.inr (strText_bytes hk c hc)
    · decide
    · exact Or.inl (h₂ c hc)
    · decide
    · exact Or.inl (h₃ c hc)
    · exact ih c hc
    · exact Or.inl (h₄ c hc)
    · decide
    · exact ihs c hc

theorem doc_no_nul (h : Doc cat t v) :
    (0 : UInt8) ∉ t := fun hmem =>
  absurd (doc_bytes h 0 hmem) (by decide)

/-! ## An automaton that lets every text pass -/

/-- Where a text stands: before something that is still missing (`fresh`), right behind the closing
quote of a string (`closed`), elsewhere outside strings (`mid`), or in a string. -/
inductive Lex where
  | fresh
  | closed
  | mid
  | str
  | esc
  deriving DecidableEq, Repr

/-- One byte; `none` where no JSON text goes on like this. -/
def Lex.next : Lex → UInt8 → Option Lex
  | .fresh, c =>
    if c = 44 then none else if c = 34 then some .str else if isWs c ∨ c = 91 ∨ c = 123 then some .fresh
    else some .mid
  | .closed, c =>
    if c = 44 then some .fresh else if isWs c ∨ c = 58 ∨ c = 93 ∨ c = 125 then some .mid else none
  | .mid, c =>
    if c = 34 then some .str else if c = 44 ∨ c = 91 ∨ c = 123 then some .fresh else some .mid
  | .str, c => if c = 34 then some .closed else if c = 92 then some .esc else some .str
  | .esc, c => if c = 117 ∨ (escape c).isSome then some .str else none

def Lex.run (s : Lex) : Bytes → Option Lex
  | [] => some s
  | c :: rest => (s.next c).bind fun s' => s'.run rest

theorem Lex.run_append (s : Lex) (t u : Bytes) :
    s.run (t ++ u) = (s.run t).bind fun s' => s'.run u := by
  induction t generalizing s with
  | nil => rfl
  | cons c t ih =>
    rw [cons_append, Lex.run, Lex.run]
    cases s.next c with
    | none => rfl
    | some s' => exact ih s'

variable {s s' s'' : Lex}

theorem Lex.run_trans (h : s.run t = some s') (h' : s'.run u = some s'') : s.run (t ++ u) = some s'' := by
  rw [Lex.run_append, h]
  exact h'

theorem Lex.run_cons (h : s.next c = some s') (h' : s'.run t = some s'') : s.run (c :: t) = some s'' := by
  rw [Lex.run, h]
  exact h'

def Lex.Ready (s : Lex) : Prop := s = .fresh ∨ s = .mid

def Lex.Done (s : Lex) : Prop := s = .mid ∨ s = .closed

/-! What the classes of bytes do, for all bytes at once. -/

theorem lex_ws : ∀ c, isWs c = true → Lex.fresh.next c = some .fresh ∧
    Lex.mid.next c = some .mid ∧ Lex.closed.next c = some .mid :=
  forall_byte (by decide +kernel)

theorem lex_numChar : ∀ c, isNumChar c = true → Lex.fresh.next c = some .mid ∧
    Lex.mid.next c = some .mid :=
  forall_byte (by decide +kernel)

/-- Bytes that keep a state, one after the other. -/
theorem Lex.run_of_next (h : ∀ c ∈ t, s.next c = some s) :
    s.run t = some s := by
  induction t with
  | nil => rfl
  | cons c t ih =>
    obtain ⟨hc, ht⟩ := forall_mem_cons.mp h
    exact Lex.run_cons hc (ih ht)

theorem lex_ws_fresh (h : IsWs w) : Lex.fresh.run w = some .fresh :=
  Lex.run_of_next fun c hc => (lex_ws c (h c hc)).1

theorem lex_ws_mid (h : IsWs w) : Lex.mid.run w = some .mid :=
  Lex.run_of_next fun c hc => (lex_ws c (h c hc)).2.1

theorem lex_ws_done (hs : s.Done) (h : IsWs w) :
    ∃ s', s.run w = some s' ∧ s'.Done := by
  rcases hs with rfl | rfl
  · exact ⟨.mid, lex_ws_mid h, Or.inl rfl⟩
  · cases w with
    | nil => exact ⟨.closed, rfl, Or.inr rfl⟩
    | cons c w =>
      obtain ⟨hc, hw⟩ := forall_mem_cons.mp h
      exact ⟨.mid, Lex.run_cons (lex_ws c hc).2.2 (lex_ws_mid hw), Or.inl rfl⟩

theorem lex_plain {body : Bytes} (h : ∀ c ∈ body, c ≠ 34 ∧ c ≠ 92) :
    Lex.str.run body = some .str := by
  apply Lex.run_of_next
  intro c hc
  obtain ⟨hq, hb⟩ := h c hc
  simp [Lex.next, hq, hb]

theorem lex_strText {raw s : Bytes} (h : StrText raw s) : Lex.str.run raw = some .str := by
  induction h with
  | nil => rfl
  | @plain c raw s hq hb _ _ ih =>
    have hnext : Lex.str.next c = some .str := by simp [Lex.next, hq, hb]
    exact Lex.run_cons hnext ih
  | @esc e d raw s he _ ih =>
    have hnext : Lex.esc.next e = some .str := by simp [Lex.next, he]
    exact Lex.run_cons rfl (Lex.run_cons hnext ih)
  | @uni a b c d cp raw s hcp _ ih =>
    exact Lex.run_cons rfl (Lex.run_cons rfl (Lex.run_trans (lex_plain fun e he => (hex4_bytes hcp e he).2) ih))

theorem lex_quoted (hs : s.Ready) {raw x : Bytes} (h : StrText raw x) :
    s.run (34 :: (raw ++ [34])) = some .closed := by
  have hnext : s.next 34 = some .str := by rcases hs with rfl | rfl <;> rfl
  exact Lex.run_cons hnext (Lex.run_trans (lex_strText h) rfl)

theorem lex_num (hs : s.Ready) (h : NumLit l) : s.run l = some .mid := by
  have hchars := numLit_chars h
  cases l with
  | nil => exact absurd rfl (numLit_ne_nil h)
  | cons c l =>
    obtain ⟨hc, hl⟩ := forall_mem_cons.mp hchars
    have hfirst : s.next c = some .mid := by
      rcases hs with rfl | rfl
      · exact (lex_numChar c hc).1
      · exact (lex_numChar c hc).2
    exact Lex.run_cons hfirst (Lex.run_of_next fun d hd => (lex_numChar d (hl d hd)).2)

/-- The key of a member and its colon. -/
theorem lex_key {w₁ raw key w₂ w₃ u : Bytes} (h₁ : IsWs w₁) (hk : StrText raw key)
    (h₂ : IsWs w₂) (h₃ : IsWs w₃) (hu : Lex.mid.run u = some s) :
    Lex.fresh.run (w₁ ++ 34 :: (raw ++ 34 :: (w₂ ++ 58 :: (w₃ ++ u)))) = some s := by
  obtain ⟨s', hws, hdone⟩ := lex_ws_done (Or.inr rfl) h₂
  have hcolon : s'.next 58 = some .mid := by rcases hdone with rfl | rfl <;> rfl
  apply Lex.run_trans (lex_ws_fresh h₁)
  refine Lex.run_cons (show Lex.fresh.next 34 = some .str from rfl) ?_
  apply Lex.run_trans (lex_strText hk)
  refine Lex.run_cons (show Lex.str.next 34 = some .closed from rfl) ?_
  apply Lex.run_trans hws
  exact Lex.run_cons hcolon (Lex.run_trans (lex_ws_mid h₃) hu)

/-- Every JSON text passes: a value from where one may start, items and members from behind their
bracket. -/
theorem doc_lex (h : Doc cat t v) :
    match cat with
    | .value => ∀ s : Lex, s.Ready → ∃ s', s.run t = some s' ∧ s'.Done
    | .items => ∃ s', Lex.fresh.run t = some s' ∧ s'.Done
    | .members => ∃ s', Lex.fresh.run t = some s' ∧ s'.Done := by
  have hclose : ∀ {s : Lex} {c : UInt8}, s.Done → c = 93 ∨ c = 125 → s.run [c] = some .mid := by
    rintro s c (rfl | rfl) (rfl | rfl) <;> rfl
  have hopen : ∀ {s : Lex} {c : UInt8}, s.Ready → c = 91 ∨ c = 123 → s.next c = some .fresh := by
    rintro s c (rfl | rfl) (rfl | rfl) <;> rfl
  have hcomma : ∀ {s s' : Lex} {t : Bytes}, s.Done → Lex.fresh.run t = some s' →
      s.run (44 :: t) = some s' := by
    rintro s s' t (rfl | rfl) ht <;> exact Lex.run_cons rfl ht
  induction h with
  | null | true | false =>
    rintro s (rfl | rfl) <;> exact ⟨.mid, rfl, Or.inl rfl⟩
  | num h => exact fun s hs => ⟨.mid, lex_num hs h, Or.inl rfl⟩
  | str h => exact fun s hs => ⟨.closed, lex_quoted hs h, Or.inr rfl⟩
  | emptyArr hw =>
    exact fun s hs => ⟨.mid, Lex.run_cons (hopen hs (Or.inl rfl))
      (Lex.run_trans (lex_ws_fresh hw) rfl), Or.inl rfl⟩
  | emptyObj hw =>
    exact fun s hs => ⟨.mid, Lex.run_cons (hopen hs (Or.inr rfl))
      (Lex.run_trans (lex_ws_fresh hw) rfl), Or.inl rfl⟩
  | arr _ ih =>
    obtain ⟨s', hrun, hdone⟩ := ih
    exact fun s hs => ⟨.mid, Lex.run_cons (hopen hs (Or.inl rfl))
      (Lex.run_trans hrun (hclose hdone (Or.inl rfl))), Or.inl rfl⟩
  | obj _ ih =>
    obtain ⟨s', hrun, hdone⟩ := ih
    exact fun s hs => ⟨.mid, Lex.run_cons (hopen hs (Or.inr rfl))
      (Lex.run_trans hrun (hclose hdone (Or.inr rfl))), Or.inl rfl⟩
  | item h₁ _ h₂ ih =>
    obtain ⟨s₁, hrun, hdone⟩ := ih .fresh (Or.inl rfl)
    obtain ⟨s₂, hws, hdone₂⟩ := lex_ws_done hdone h₂
    exact ⟨s₂, Lex.run_trans (lex_ws_fresh h₁) (Lex.run_trans hrun hws), hdone₂⟩
  | itemCons h₁ _ h₂ _ ih ihs =>
    obtain ⟨s₁, hrun, hdone⟩ := ih .fresh (Or.inl rfl)
    obtain ⟨s₂, hws, hdone₂⟩ := lex_ws_done hdone h₂
    obtain ⟨s₃, hrest, hdone₃⟩ := ihs
    exact ⟨s₃, Lex.run_trans (lex_ws_fresh h₁) (Lex.run_trans hrun
      (Lex.run_trans hws (hcomma hdone₂ hrest))), hdone₃⟩
  | member h₁ hk h₂ h₃ _ h₄ ih =>
    obtain ⟨s₁, hrun, hdone⟩ := ih .mid (Or.inr rfl)
    obtain ⟨s₂, hws, hdone₂⟩ := lex_ws_done hdone h₄
    exact ⟨s₂, lex_key h₁ hk h₂ h₃ (Lex.run_trans hrun hws), hdone₂⟩
  | memberCons h₁ hk h₂ h₃ _ h₄ _ ih ihs =>
    obtain ⟨s₁, hrun, hdone⟩ := ih .mid (Or.inr rfl)
    obtain ⟨s₂, hws, hdone₂⟩ := lex_ws_done hdone h₄
    obtain ⟨s₃, hrest, hdone₃⟩ := ihs
    exact ⟨s₃, lex_key h₁ hk h₂ h₃ (Lex.run_trans hrun
      (Lex.run_trans hws (hcomma hdone₂ hrest))), hdone₃⟩

/-- No array starts with a comma. -/
theorem lex_leading_comma (hs : s.Ready) (t : Bytes) : s.run (91 :: 44 :: t) = none := by
  have hopen : s.next 91 = some .fresh := by
    rcases hs with rfl | rfl
    · decide
    · decide
  have hcomma : Lex.fresh.next 44 = none := by decide
  rw [Lex.run, hopen, Option.bind_some, Lex.run, hcomma]
  rfl

theorem not_doc_of_lex (h : Lex.fresh.run t = none) (v : Json Bytes) :
    ¬ Doc .value t v := by
  intro hdoc
  obtain ⟨s, hrun, -⟩ := doc_lex hdoc .fresh (Or.inl rfl)
  rw [h] at hrun
  cases hrun

end Packetsonde.Lib
