import Packetsonde.Lib.JsonDoc

/-!
# Reading JSON texts

A reader for the grammar of `Lib.JsonDoc`, and what follows from its being a function: a text has one
tree (`doc_unique`), and where two values start at the same place they end at the same place
(`doc_prefix_unique`). So the tree of a text that was pasted together from texts of known trees can be
taken apart again.

The reader is complete (`reads_of_doc`). It is not meant to refuse everything that is no JSON: it
takes any run of number characters for a number.
-/

namespace Packetsonde.Lib

open List

/-- The string behind an opening quote, decoded, and what follows the closing one. -/
def readStr : Bytes → Option (Bytes × Bytes)
  | [] => none
  | c :: src =>
    if c = 34 then some ([], src)
    else if c = 92 then
      match src with
      | [] => none
      | e :: src =>
        if e = 117 then
          match src with
          | a :: b :: c :: d :: src =>
            (hex4 a b c d).bind fun cp => (readStr src).map fun p => (utf8 cp ++ p.1, p.2)
          | _ => none
        else (escape e).bind fun d => (readStr src).map fun p => (d :: p.1, p.2)
    else if c < 0x20 then none
    else (readStr src).map fun p => (c :: p.1, p.2)

def consItem (v : Json Bytes) : Json Bytes × Bytes → Option (Json Bytes × Bytes)
  | (.arr vs, src) => some (.arr (v :: vs), src)
  | _ => none

def consMember (m : Bytes × Json Bytes) : Json Bytes × Bytes → Option (Json Bytes × Bytes)
  | (.obj ms, src) => some (.obj (m :: ms), src)
  | _ => none

def readKey (src : Bytes) : Option (Bytes × Bytes) :=
  match src.dropWhile isWs with
  | 34 :: src =>
    (readStr src).bind fun p =>
      match p.2.dropWhile isWs with
      | 58 :: src => some (p.1, src.dropWhile isWs)
      | _ => none
  | _ => none

/-- The value, the items or the members at the start of a text, and what follows; items and members
end in front of their bracket. -/
def readDoc : Nat → Cat → Bytes → Option (Json Bytes × Bytes)
  | 0, _, _ => none
  | _ + 1, .value, [] => none
  | n + 1, .value, c :: src =>
    if c = 34 then (readStr src).map fun p => (.str p.1, p.2)
    else if c = 91 then
      if (src.dropWhile isWs).head? = some 93 then some (.arr [], (src.dropWhile isWs).tail)
      else (readDoc n .items src).map fun p => (p.1, p.2.tail)
    else if c = 123 then
      if (src.dropWhile isWs).head? = some 125 then some (.obj [], (src.dropWhile isWs).tail)
      else (readDoc n .members src).map fun p => (p.1, p.2.tail)
    else if src.take 3 = [117, 108, 108] ∧ c = 110 then some (.null, src.drop 3)
    else if src.take 3 = [114, 117, 101] ∧ c = 116 then some (.bool true, src.drop 3)
    else if src.take 4 = [97, 108, 115, 101] ∧ c = 102 then some (.bool false, src.drop 4)
    else if isNumChar c then
      some (.int ((c :: src).takeWhile isNumChar), (c :: src).dropWhile isNumChar)
    else none
  | n + 1, .items, src =>
    (readDoc n .value (src.dropWhile isWs)).bind fun p =>
      match p.2.dropWhile isWs with
      | 44 :: src => (readDoc n .items src).bind (consItem p.1)
      | 93 :: src => some (.arr [p.1], 93 :: src)
      | _ => none
  | n + 1, .members, src =>
    (readKey src).bind fun key =>
      (readDoc n .value key.2).bind fun p =>
        match p.2.dropWhile isWs with
        | 44 :: src => (readDoc n .members src).bind (consMember (key.1, p.1))
        | 125 :: src => some (.obj [(key.1, p.1)], 125 :: src)
        | _ => none

/-! ## Completeness -/

/-- What may follow: a number ends only where something else starts, items and members only at their
bracket. -/
def Ends : Cat → Bytes → Prop
  | .value, rest => ∀ c ∈ rest.head?, isNumChar c = false
  | .items, rest => rest.head? = some 93
  | .members, rest => rest.head? = some 125

theorem readStr_quote (rest : Bytes) : readStr (34 :: rest) = some ([], rest) := by
  rw [readStr.eq_def]
  exact if_pos rfl

variable {c : UInt8} {t w rest l t' r r' : Bytes} {v v' : Json Bytes} {cat : Cat} {n fuel : Nat}
    {ms : List (Bytes × Json Bytes)}

theorem readStr_plain (hq : c ≠ 34) (hb : c ≠ 92) (hc : 0x20 ≤ c) (src : Bytes) :
    readStr (c :: src) = (readStr src).map fun p => (c :: p.1, p.2) := by
  rw [readStr.eq_def]
  dsimp only
  rw [if_neg hq, if_neg hb, if_neg (UInt8.not_lt.mpr hc)]

theorem readStr_esc {e d : UInt8} (he : escape e = some d) (src : Bytes) :
    readStr (92 :: e :: src) = (readStr src).map fun p => (d :: p.1, p.2) := by
  have hne := ((escape_byte e).1 (by rw [he]; rfl)).2
  rw [readStr.eq_def]
  dsimp only
  rw [if_neg (by decide), if_pos rfl]
  rw [if_neg hne, he]
  rfl

theorem readStr_uni {a b c d : UInt8} {cp : Nat} (h : hex4 a b c d = some cp) (src : Bytes) :
    readStr (92 :: 117 :: a :: b :: c :: d :: src) =
      (readStr src).map fun p => (utf8 cp ++ p.1, p.2) := by
  rw [readStr.eq_def]
  dsimp only
  rw [if_neg (by decide), if_pos rfl]
  rw [if_pos rfl, h]
  rfl

theorem readStr_of_strText {raw s : Bytes} (h : StrText raw s) (rest : Bytes) :
    readStr (raw ++ 34 :: rest) = some (s, rest) := by
  induction h with
  | nil => exact readStr_quote rest
  | plain hq hb hc _ ih =>
    rw [cons_append, readStr_plain hq hb hc, ih]
    rfl
  | esc he _ ih =>
    rw [cons_append, cons_append, readStr_esc he, ih]
    rfl
  | uni hcp _ ih =>
    simp only [cons_append]
    rw [readStr_uni hcp, ih]
    rfl

theorem dropWhile_ws (hw : IsWs w) (hc : isWs c = false) (t : Bytes) :
    (w ++ c :: t).dropWhile isWs = c :: t := by
  rw [dropWhile_append_of_pos (fun a ha => hw a ha), dropWhile_cons_of_neg (by rw [hc]; decide)]

theorem ends_value_ws (hw : IsWs w) (h : Ends .value rest) :
    Ends .value (w ++ rest) := by
  cases w with
  | nil => exact h
  | cons c w =>
    intro d hd
    obtain rfl : c = d := by simpa using hd
    refine Bool.eq_false_iff.mpr fun hnum => ?_
    have hws := (isNumChar_byte c hnum).1
    rw [hw c mem_cons_self] at hws
    cases hws

theorem ends_value_cons (hc : isNumChar c = false) (rest : Bytes) :
    Ends .value (c :: rest) := by
  intro d hd
  obtain rfl : c = d := by simpa using hd
  exact hc

/-- Nested calls a text of a category takes. -/
def docFuel : Cat → Nat → Nat
  | .value, n => 2 * n + 1
  | .items, n => 2 * n + 2
  | .members, n => 2 * n + 2

theorem exists_succ_of_docFuel (h : docFuel cat n ≤ fuel) :
    ∃ m, fuel = m + 1 := by
  refine ⟨fuel - 1, ?_⟩
  cases cat with
  | value => rw [docFuel] at h; omega
  | items => rw [docFuel] at h; omega
  | members => rw [docFuel] at h; omega

theorem readDoc_numRun (hne : l ≠ []) (hchars : ∀ c ∈ l, isNumChar c = true) (n : Nat) (hrest : Ends .value rest) :
    readDoc (n + 1) .value (l ++ rest) = some (.int l, rest) := by
  have hstop : rest.takeWhile isNumChar = [] ∧ rest.dropWhile isNumChar = rest := by
    cases rest with
    | nil => exact ⟨rfl, rfl⟩
    | cons c rest =>
      have hc := hrest c rfl
      rw [takeWhile_cons_of_neg (by rw [hc]; decide),
        dropWhile_cons_of_neg (by rw [hc]; decide)]
      exact ⟨rfl, rfl⟩
  obtain ⟨c, l', rfl⟩ := exists_cons_of_ne_nil hne
  have hc := hchars c mem_cons_self
  obtain ⟨-, -, h₁, -, h₂, -, h₆, h₄, h₅, h₃, -⟩ := isNumChar_byte c hc
  rw [cons_append, readDoc, if_neg h₁, if_neg h₂, if_neg h₃, if_neg fun h => h₄ h.2,
    if_neg fun h => h₅ h.2, if_neg fun h => h₆ h.2, if_pos hc, ← cons_append,
    takeWhile_append_of_pos hchars, dropWhile_append_of_pos hchars, hstop.1, hstop.2,
    append_nil]

/-- A text the reader takes back, whatever follows it. It starts with no closing bracket, and a value
not with white space. -/
structure Reads (cat : Cat) (t : Bytes) (v : Json Bytes) : Prop where
  opens : ∃ w c t', t = w ++ c :: t' ∧ IsWs w ∧ isWs c = false ∧ c ≠ 93 ∧ c ≠ 125 ∧ (cat = .value → w = [])
  back : ∀ {fuel : Nat} {rest : Bytes}, docFuel cat t.length ≤ fuel → Ends cat rest →
    readDoc fuel cat (t ++ rest) = some (v, rest)

theorem opens_cons (hc : isWs c = false) (h₁ : c ≠ 93) (h₂ : c ≠ 125) (t : Bytes) :
    ∃ w d t', c :: t = w ++ d :: t' ∧ IsWs w ∧ isWs d = false ∧ d ≠ 93 ∧ d ≠ 125 ∧ (cat = .value → w = []) :=
  ⟨[], c, t, rfl, isWs_nil, hc, h₁, h₂, fun _ => rfl⟩

namespace Reads

theorem skip (h : Reads .value t v) (hw : IsWs w) (rest : Bytes) :
    (w ++ (t ++ rest)).dropWhile isWs = t ++ rest := by
  obtain ⟨w', c, t', rfl, -, hc, -, -, htight⟩ := h.opens
  obtain rfl := htight rfl
  exact dropWhile_ws hw hc _

theorem head_ne (h : Reads cat t v) (rest : Bytes) :
    ((t ++ rest).dropWhile isWs).head? ≠ some 93 ∧ ((t ++ rest).dropWhile isWs).head? ≠ some 125 := by
  obtain ⟨w, c, t', rfl, hw, hc, h₁, h₂, -⟩ := h.opens
  rw [append_assoc, cons_append, dropWhile_ws hw hc]
  exact ⟨by simpa using h₁, by simpa using h₂⟩

/-- White space in front, and more behind. -/
theorem opens_append (h : Reads .value t v) (hw : IsWs w) (rest : Bytes) :
    ∃ w' c t', w ++ (t ++ rest) = w' ++ c :: t' ∧ IsWs w' ∧ isWs c = false ∧ c ≠ 93 ∧ c ≠ 125 ∧
      (Cat.items = .value → w' = []) := by
  obtain ⟨w', c, t', rfl, -, hc, h₁, h₂, htight⟩ := h.opens
  obtain rfl := htight rfl
  exact ⟨w, c, t' ++ rest, rfl, hw, hc, h₁, h₂, nofun⟩

theorem readKey_eq {w₁ raw key w₂ w₃ t : Bytes} (h₁ : IsWs w₁) (hk : StrText raw key) (h₂ : IsWs w₂)
    (h₃ : IsWs w₃) (h : Reads .value t v) (rest : Bytes) :
    readKey (w₁ ++ 34 :: (raw ++ 34 :: (w₂ ++ 58 :: (w₃ ++ (t ++ rest))))) = some (key, t ++ rest) := by
  unfold readKey
  rw [dropWhile_ws h₁ (by decide)]
  show (readStr _).bind _ = _
  rw [readStr_of_strText hk, Option.bind_some, dropWhile_ws h₂ (by decide)]
  show some (key, (w₃ ++ (t ++ rest)).dropWhile isWs) = _
  rw [h.skip h₃]

theorem num (hne : l ≠ []) (hchars : ∀ c ∈ l, isNumChar c = true) : Reads .value l (.int l) where
  opens := by
    obtain ⟨c, l', rfl⟩ := exists_cons_of_ne_nil hne
    obtain ⟨hws, -, -, -, -, hbracket, -, -, -, -, hbrace⟩ := isNumChar_byte c (hchars c mem_cons_self)
    exact opens_cons hws hbracket hbrace l'
  back := by
    intro fuel rest hfuel hrest
    obtain ⟨n, rfl⟩ := exists_succ_of_docFuel hfuel
    exact readDoc_numRun hne hchars n hrest

theorem str {raw s : Bytes} (h : StrText raw s) : Reads .value (34 :: (raw ++ [34])) (.str s) where
  opens := opens_cons (by decide) (by decide) (by decide) _
  back := by
    intro fuel rest hfuel _
    obtain ⟨n, rfl⟩ := exists_succ_of_docFuel hfuel
    rw [cons_append, append_assoc, readDoc, if_pos rfl]
    show (readStr (_ ++ 34 :: rest)).map _ = _
    rw [readStr_of_strText h]
    rfl

theorem emptyArr (hw : IsWs w) : Reads .value (91 :: (w ++ [93])) (.arr []) where
  opens := opens_cons (by decide) (by decide) (by decide) _
  back := by
    intro fuel rest hfuel _
    obtain ⟨n, rfl⟩ := exists_succ_of_docFuel hfuel
    rw [cons_append, append_assoc, readDoc, if_neg (by decide), if_pos rfl,
      singleton_append, dropWhile_ws hw (by decide)]
    rfl

theorem arr (h : Reads .items t v) : Reads .value (91 :: (t ++ [93])) v where
  opens := opens_cons (by decide) (by decide) (by decide) _
  back := by
    intro fuel rest hfuel _
    obtain ⟨n, rfl⟩ := exists_succ_of_docFuel hfuel
    have hn : docFuel .items t.length ≤ n := by
      simp only [docFuel, length_cons, length_append] at hfuel ⊢
      omega
    rw [cons_append, append_assoc, readDoc, if_neg (by decide), if_pos rfl,
      if_neg (h.head_ne _).1, h.back hn (show Ends .items ([93] ++ rest) from rfl)]
    rfl

/-- An object ends with its brace, whatever follows. -/
theorem emptyObj_back (hw : IsWs w) (hfuel : docFuel .value (123 :: (w ++ [125])).length ≤ fuel) (rest : Bytes) :
    readDoc fuel .value (123 :: (w ++ [125]) ++ rest) = some (.obj [], rest) := by
  obtain ⟨n, rfl⟩ := exists_succ_of_docFuel hfuel
  rw [cons_append, append_assoc, readDoc, if_neg (by decide), if_neg (by decide),
    if_pos rfl, singleton_append, dropWhile_ws hw (by decide)]
  rfl

theorem obj_back (h : Reads .members t v) (hfuel : docFuel .value (123 :: (t ++ [125])).length ≤ fuel)
    (rest : Bytes) : readDoc fuel .value (123 :: (t ++ [125]) ++ rest) = some (v, rest) := by
  obtain ⟨n, rfl⟩ := exists_succ_of_docFuel hfuel
  have hn : docFuel .members t.length ≤ n := by
    simp only [docFuel, length_cons, length_append] at hfuel ⊢
    omega
  rw [cons_append, append_assoc, readDoc, if_neg (by decide), if_neg (by decide), if_pos rfl,
    if_neg (h.head_ne _).2, h.back hn (show Ends .members ([125] ++ rest) from rfl)]
  rfl

theorem emptyObj (hw : IsWs w) : Reads .value (123 :: (w ++ [125])) (.obj []) :=
  ⟨opens_cons (by decide) (by decide) (by decide) _, fun hfuel _ => emptyObj_back hw hfuel _⟩

theorem obj (h : Reads .members t v) : Reads .value (123 :: (t ++ [125])) v :=
  ⟨opens_cons (by decide) (by decide) (by decide) _, fun hfuel _ => h.obj_back hfuel _⟩

variable {w₁ w₂ w₃ w₄ raw key ts : Bytes} {vs : List (Json Bytes)}

variable (h₁ : IsWs w₁)

include h₁

theorem item (h : Reads .value t v) (h₂ : IsWs w₂) :
    Reads .items (w₁ ++ (t ++ w₂)) (.arr [v]) where
  opens := h.opens_append h₁ w₂
  back := by
    intro fuel rest hfuel hrest
    obtain ⟨n, rfl⟩ := exists_succ_of_docFuel hfuel
    have hn : docFuel .value t.length ≤ n := by
      simp only [docFuel, length_append] at hfuel ⊢
      omega
    obtain ⟨more, rfl⟩ : ∃ more, rest = 93 :: more := head?_eq_some_iff.mp hrest
    rw [append_assoc, append_assoc, readDoc, h.skip h₁,
      h.back hn (ends_value_ws h₂ (ends_value_cons (by decide) more)), Option.bind_some,
      dropWhile_ws h₂ (by decide)]
    rfl

theorem itemCons (h : Reads .value t v) (h₂ : IsWs w₂) (hs : Reads .items ts (.arr vs)) :
    Reads .items (w₁ ++ (t ++ (w₂ ++ 44 :: ts))) (.arr (v :: vs)) where
  opens := h.opens_append h₁ _
  back := by
    intro fuel rest hfuel hrest
    obtain ⟨n, rfl⟩ := exists_succ_of_docFuel hfuel
    have hn : docFuel .value t.length ≤ n ∧ docFuel .items ts.length ≤ n := by
      simp only [docFuel, length_append, length_cons] at hfuel ⊢
      omega
    rw [append_assoc, append_assoc, append_assoc, cons_append, readDoc, h.skip h₁,
      h.back hn.1 (ends_value_ws h₂ (ends_value_cons (by decide) _)), Option.bind_some,
      dropWhile_ws h₂ (by decide)]
    show (readDoc n .items (ts ++ rest)).bind (consItem v) = _
    rw [hs.back hn.2 hrest]
    rfl

theorem member (hk : StrText raw key) (h₂ : IsWs w₂) (h₃ : IsWs w₃) (h : Reads .value t v)
    (h₄ : IsWs w₄) : Reads .members (w₁ ++ 34 :: (raw ++ 34 :: (w₂ ++ 58 :: (w₃ ++ (t ++ w₄))))) (.obj [(key, v)]) where
  opens := ⟨w₁, 34, _, rfl, h₁, by decide, by decide, by decide, nofun⟩
  back := by
    intro fuel rest hfuel hrest
    obtain ⟨n, rfl⟩ := exists_succ_of_docFuel hfuel
    have hn : docFuel .value t.length ≤ n := by
      simp only [docFuel, length_append, length_cons] at hfuel ⊢
      omega
    obtain ⟨more, rfl⟩ : ∃ more, rest = 125 :: more := head?_eq_some_iff.mp hrest
    simp only [append_assoc, cons_append]
    rw [readDoc, readKey_eq h₁ hk h₂ h₃ h, Option.bind_some]
    dsimp only
    rw [h.back hn (ends_value_ws h₄ (ends_value_cons (by decide) more)), Option.bind_some,
      dropWhile_ws h₄ (by decide)]
    rfl

theorem memberCons (hk : StrText raw key) (h₂ : IsWs w₂) (h₃ : IsWs w₃) (h : Reads .value t v)
    (h₄ : IsWs w₄) (hs : Reads .members ts (.obj ms)) :
    Reads .members (w₁ ++ 34 :: (raw ++ 34 :: (w₂ ++ 58 :: (w₃ ++ (t ++ (w₄ ++ 44 :: ts))))))
      (.obj ((key, v) :: ms)) where
  opens := ⟨w₁, 34, _, rfl, h₁, by decide, by decide, by decide, nofun⟩
  back := by
    intro fuel rest hfuel hrest
    obtain ⟨n, rfl⟩ := exists_succ_of_docFuel hfuel
    have hn : docFuel .value t.length ≤ n ∧ docFuel .members ts.length ≤ n := by
      simp only [docFuel, length_append, length_cons] at hfuel ⊢
      omega
    simp only [append_assoc, cons_append]
    rw [readDoc, readKey_eq h₁ hk h₂ h₃ h, Option.bind_some]
    dsimp only
    rw [h.back hn.1 (ends_value_ws h₄ (ends_value_cons (by decide) _)), Option.bind_some,
      dropWhile_ws h₄ (by decide)]
    show (readDoc n .members (ts ++ rest)).bind (consMember (key, v)) = _
    rw [hs.back hn.2 hrest]
    rfl

end Reads

/-- The reader finds every value, with its items and members. Induction on the derivation. -/
theorem reads_of_doc (h : Doc cat t v) : Reads cat t v := by
  induction h with
  | null | true | false =>
    refine ⟨opens_cons (by decide) (by decide) (by decide) _, fun hfuel _ => ?_⟩
    obtain ⟨n, rfl⟩ := exists_succ_of_docFuel hfuel
    rfl
  | num h => exact .num (numLit_ne_nil h) (numLit_chars h)
  | str h => exact .str h
  | emptyArr hw => exact .emptyArr hw
  | emptyObj hw => exact .emptyObj hw
  | arr _ ih => exact .arr ih
  | obj _ ih => exact .obj ih
  | item h₁ _ h₂ ih => exact .item h₁ ih h₂
  | itemCons h₁ _ h₂ _ ih ihs => exact .itemCons h₁ ih h₂ ihs
  | member h₁ hk h₂ h₃ _ h₄ ih => exact .member h₁ hk h₂ h₃ ih h₄
  | memberCons h₁ hk h₂ h₃ _ h₄ _ ih ihs => exact .memberCons h₁ hk h₂ h₃ ih h₄ ihs

/-! ## What follows from it -/

/-- Two texts of one category at the start of the same bytes are the same text, with the same tree. -/
theorem doc_prefix_unique (h : Doc cat t v)
    (h' : Doc cat t' v') (heq : t ++ r = t' ++ r') (hr : Ends cat r) (hr' : Ends cat r') :
    t = t' ∧ v = v' ∧ r = r' := by
  have hread := (reads_of_doc h).back (le_max_left _ (docFuel cat t'.length)) hr
  have hread' := (reads_of_doc h').back (le_max_right (docFuel cat t.length) _) hr'
  rw [heq, hread'] at hread
  obtain ⟨rfl, rfl⟩ := Prod.mk.inj (Option.some.inj hread)
  exact ⟨append_cancel_right heq, rfl, rfl⟩

theorem readDoc_of_obj (h : Doc .value t (.obj ms)) (hfuel : docFuel .value t.length ≤ fuel) (rest : Bytes) :
    readDoc fuel .value (t ++ rest) = some (.obj ms, rest) := by
  cases h with
  | emptyObj hw => exact Reads.emptyObj_back hw hfuel rest
  | obj h => exact (reads_of_doc h).obj_back hfuel rest

theorem doc_obj_prefix_unique {ms ms' : List (Bytes × Json Bytes)}
    (h : Doc .value t (.obj ms)) (h' : Doc .value t' (.obj ms')) (heq : t ++ r = t' ++ r') : t = t' := by
  have hread := readDoc_of_obj h (le_max_left _ (docFuel .value t'.length)) r
  have hread' := readDoc_of_obj h' (le_max_right (docFuel .value t.length) _) r'
  rw [heq, hread'] at hread
  obtain ⟨-, rfl⟩ := Prod.mk.inj (Option.some.inj hread)
  exact append_cancel_right heq

theorem doc_unique (h : Doc .value t v) (h' : Doc .value t v') :
    v = v' :=
  (doc_prefix_unique h h' (rfl : t ++ [] = t ++ []) (by simp [Ends]) (by simp [Ends])).2.1

end Packetsonde.Lib
