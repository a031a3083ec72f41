import Packetsonde.Lib.JsonTail
import Packetsonde.Lib.JsonKey

/-!
# Members looked for as text

A reader that searches an object's text for `"name":` and how the value begins gets to the member of that
name past every member before it, if their values are ones the search gets past (`behind_tailText_find`).
Strings are such values (`passed_quoted`). Where no member has the name, the search goes on in whatever text
follows (`behind_memberText_ne`).
-/

namespace Packetsonde.Lib

open List

def Padded (t : Bytes) (v : Json Bytes) : Prop :=
  ∃ w u w', t = w ++ (u ++ w') ∧ IsWs w ∧ IsWs w' ∧ Doc .value u v

/-- A member: its key, the text of its value, and the value that is meant. -/
structure Piece where
  key : Bytes
  text : Bytes
  value : Json Bytes

def membersText (ps : List Piece) : Bytes := commaJoin (ps.map fun p => memberText p.key p.text)

def objectText (ps : List Piece) : Bytes := 123 :: (membersText ps ++ [125])

theorem membersText_singleton (p : Piece) : membersText [p] = memberText p.key p.text := by
  simp [membersText, commaJoin]

def tailText (ps : List Piece) : Bytes := ps.flatMap fun p => 44 :: memberText p.key p.text

theorem membersText_cons (p : Piece) (ps : List Piece) :
    membersText (p :: ps) = memberText p.key p.text ++ tailText ps := by
  simp only [membersText, commaJoin, tailText, map_cons, map_map, flatMap_def]
  rfl

theorem tailText_append (ps qs : List Piece) : tailText (ps ++ qs) = tailText ps ++ tailText qs :=
  flatMap_append

theorem tailText_nil : tailText [] = [] := rfl

theorem tailText_cons (p : Piece) (ps : List Piece) :
    tailText (p :: ps) = 44 :: (memberText p.key p.text ++ tailText ps) := rfl

/-- Names that can be looked for: nothing to escape, and a letter or a digit in front. -/
def Name (k : Bytes) : Prop := Plain k ∧ k.head?.any isAlnum = true

instance (k : Bytes) : Decidable (Name k) := inferInstanceAs (Decidable (Plain k ∧ _))

theorem alnum_byte : ∀ c : UInt8, isAlnum c = true → c ≠ 44 ∧ c ≠ 58 ∧ c ≠ 125 :=
  forall_byte (by decide +kernel)

theorem Name.exists_cons {k : Bytes} (h : Name k) :
    ∃ c k', k = c :: k' ∧ c ≠ 44 ∧ c ≠ 58 ∧ c ≠ 125 := by
  cases k with
  | nil => exact absurd h.2 (by decide)
  | cons c k' => exact ⟨c, k', rfl, alnum_byte c h.2⟩

/-- All that the search in a writer's text needs of a name: nothing to escape, and it does not begin like
what follows a value or a key. -/
def Sought (k : Bytes) : Prop :=
  Plain k ∧ k.head?.any (fun c => c ≠ 44 ∧ c ≠ 58 ∧ c ≠ 93 ∧ c ≠ 125) = true

instance (k : Bytes) : Decidable (Sought k) := inferInstanceAs (Decidable (Plain k ∧ _))

theorem Name.sought {k : Bytes} (h : Name k) : Sought k := by
  have hbyte : ∀ c : UInt8, isAlnum c = true → decide (c ≠ 44 ∧ c ≠ 58 ∧ c ≠ 93 ∧ c ≠ 125) = true :=
    forall_byte (by decide +kernel)
  refine ⟨h.1, ?_⟩
  cases k with
  | nil => exact absurd h.2 (by decide)
  | cons c k' => exact hbyte c h.2

theorem Sought.exists_cons {k : Bytes} (h : Sought k) :
    ∃ c k', k = c :: k' ∧ c ≠ 44 ∧ c ≠ 58 ∧ c ≠ 93 ∧ c ≠ 125 := by
  cases k with
  | nil => exact absurd h.2 (by decide)
  | cons c k' => exact ⟨c, k', rfl, of_decide_eq_true h.2⟩

/-- The search for `memberText k more` gets past a value that a comma or a bracket follows. -/
def Passed (k more t : Bytes) : Prop :=
  ∀ (c : UInt8) (rest : Bytes), c = 44 ∨ c = 125 →
    behind (memberText k more) (t ++ c :: rest) = behind (memberText k more) (c :: rest)

section Search

variable {k more : Bytes}

theorem passed_quoted (hk : Name k) {raw : Bytes} (hraw : QuotesEscaped raw) :
    Passed k more (quoted raw) := by
  intro c rest hc
  obtain ⟨d, k', rfl, hcomma, hcolon, hbrace⟩ := hk.exists_cons
  have hne : c ≠ 58 := by
    rcases hc with rfl | rfl <;> decide
  have hhead : (d :: k').head? ≠ some c := by
    intro heq
    rcases hc with rfl | rfl
    · exact hcomma (Option.some.inj heq)
    · exact hbrace (Option.some.inj heq)
  have htext : quoted raw ++ c :: rest = 34 :: (raw ++ 34 :: c :: rest) := by
    simp [quoted]
  rw [htext]
  exact behind_key_quoted hraw hk.1 (cons_ne_nil d k') hne hhead

variable {t k' rest : Bytes} {c : UInt8}

theorem passed_of_not_mem (h : (34 : UInt8) ∉ t) : Passed k more t :=
  fun _ _ _ => behind_append_of_not_mem h _

/-- A quoted name does not start in the key of a member with another name. -/
theorem not_at_key (hk : Sought k) (hk' : Plain k') (hne : k' ≠ k) {more rest : Bytes} {j : Nat}
    (hj : j < (34 :: (k' ++ [34, 58])).length) :
    ¬ (34 :: (k ++ 34 :: more)) <+: (memberText k' rest).drop j := by
  have hquote : ∀ {s : Bytes}, Plain s → (34 : UInt8) ∉ s := fun hs hmem => (hs 34 hmem).1 rfl
  rintro ⟨post, hpost⟩
  unfold memberText at hpost
  cases j with
  | zero =>
    -- both names end at their first quote
    have hnames : k ++ 34 :: (more ++ post) = k' ++ 34 :: 58 :: rest := by
      simpa using hpost
    exact hne (append_cons_inj (hquote hk.1) (hquote hk') hnames).1.symm
  | succ j =>
    rw [drop_succ_cons] at hpost
    rcases Nat.lt_or_ge j k'.length with hin | hend
    · -- a name has no quote in it
      rw [drop_append_of_le_length (Nat.le_of_lt hin)] at hpost
      cases hb : k'.drop j with
      | nil =>
        have hzero := drop_eq_nil_iff.mp hb
        omega
      | cons x b =>
        rw [hb] at hpost
        have hx : 34 = x := (List.cons.inj hpost).1
        have hmem : x ∈ k'.drop j := by
          rw [hb]
          exact mem_cons_self
        exact hquote hk' (hx ▸ mem_of_mem_drop hmem)
    · -- at its closing quote a colon follows, and then there is no quote before the value
      obtain ⟨c, k, rfl, -, hcolon, -, -⟩ := hk.exists_cons
      have hj' : j = k'.length ∨ j = k'.length + 1 := by
        simp only [length_cons, length_append, length_nil] at hj
        omega
      rcases hj' with rfl | rfl
      · rw [drop_left] at hpost
        simp only [cons_append, List.cons.injEq, true_and] at hpost
        exact hcolon hpost.1
      · rw [← drop_drop, drop_left, drop_succ_cons, drop_zero] at hpost
        exact absurd (List.cons.inj hpost).1 (by decide)

theorem memberText_split (k rest : Bytes) : memberText k rest = (34 :: (k ++ [34, 58])) ++ rest := by
  simp [memberText]

/-- The search goes on in the value of a member with another name. -/
theorem behind_memberText_ne (hk : Sought k) (hk' : Plain k') (hne : k' ≠ k) (rest : Bytes) :
    behind (memberText k more) (memberText k' rest) = behind (memberText k more) rest := by
  rw [memberText_split k' rest]
  refine behind_append_of_forall fun j hj => ?_
  rw [← memberText_split]
  exact not_at_key hk hk' hne hj

/-- At the member the search ends. -/
theorem behind_memberText (k more rest : Bytes) :
    behind (memberText k more) (memberText k (more ++ rest)) = some rest := by
  rw [← memberText_append]
  exact behind_self _ _

/-- What the search asks of a member it gets past. -/
structure Piece.Passed (k more : Bytes) (p : Piece) : Prop where
  key : Plain p.key
  ne : p.key ≠ k
  text : Lib.Passed k more p.text

variable {p : Piece}

theorem behind_member (hk : Name k) (hp : p.Passed k more) (hc : c = 44 ∨ c = 125) :
    behind (memberText k more) (memberText p.key p.text ++ c :: rest) =
      behind (memberText k more) (c :: rest) := by
  rw [memberText_append, behind_memberText_ne hk.sought hp.key hp.ne]
  exact hp.text c rest hc

theorem behind_cons_ne (hc : c ≠ 34) (rest : Bytes) :
    behind (memberText k more) (c :: rest) = behind (memberText k more) rest := by
  have hpast : (34 : UInt8) ∉ [c] := by simpa using hc.symm
  exact behind_append_of_not_mem hpast rest

/-- After a member a comma follows or a bracket, whether there are more members or not. -/
theorem tailText_next (ps : List Piece) (hc : c = 44 ∨ c = 125) (rest : Bytes) :
    ∃ d rest', tailText ps ++ c :: rest = d :: rest' ∧ (d = 44 ∨ d = 125) := by
  cases ps with
  | nil => exact ⟨c, rest, rfl, hc⟩
  | cons q qs => exact ⟨44, _, by rw [tailText_cons, cons_append], .inl rfl⟩

variable {ps : List Piece}

/-- The search gets past the members after the first. -/
theorem behind_tailText (hk : Name k) (hps : ∀ p ∈ ps, p.Passed k more) (hc : c = 44 ∨ c = 125) :
    behind (memberText k more) (tailText ps ++ c :: rest) = behind (memberText k more) (c :: rest) := by
  induction ps with
  | nil => rfl
  | cons p ps ih =>
    rw [forall_mem_cons] at hps
    rw [tailText_cons, cons_append, append_assoc, behind_cons_ne (by decide)]
    obtain ⟨d, rest', hnext, hd⟩ := tailText_next ps hc rest
    have hrest := ih hps.2
    rw [hnext] at hrest ⊢
    rw [behind_member hk hps.1 hd, hrest]

/-- The opening bracket is no more to the search than a comma. -/
theorem behind_openBrace (hne : ps ≠ []) (rest : Bytes) :
    behind (memberText k more) (objectText ps ++ rest) =
      behind (memberText k more) (tailText ps ++ 125 :: rest) := by
  obtain ⟨p, ps, rfl⟩ := exists_cons_of_ne_nil hne
  unfold objectText
  rw [membersText_cons, tailText_cons]
  simp only [cons_append, append_assoc, nil_append]
  rw [behind_cons_ne (by decide), behind_cons_ne (by decide)]

/-- Of the members of the name the search ends at the first, where its value begins as looked for. -/
theorem behind_tailText_find (hk : Name k)
    (hfind : ps.find? (·.key == k) = some p) (hps : ∀ q ∈ ps, q.key ≠ k → q.Passed k more)
    (htext : p.text = more ++ t) (hc : c = 44 ∨ c = 125) (rest : Bytes) :
    ∃ d rest', (d = 44 ∨ d = 125) ∧
      behind (memberText k more) (tailText ps ++ c :: rest) = some (t ++ d :: rest') := by
  obtain ⟨hkey, before, after, rfl, hbefore⟩ := find?_eq_some_iff_append.mp hfind
  have hpast : ∀ q ∈ before, q.Passed k more := by
    intro q hq
    refine hps q (mem_append_left _ hq) fun heq => ?_
    simpa [heq] using hbefore q hq
  obtain ⟨d, rest', hnext, hd⟩ := tailText_next after hc rest
  refine ⟨d, rest', hd, ?_⟩
  rw [tailText_append, tailText_cons, append_assoc, cons_append, append_assoc, hnext,
    behind_tailText hk hpast (.inl rfl), behind_cons_ne (by decide), memberText_append,
    eq_of_beq hkey, htext, append_assoc, behind_memberText]

end Search

end Packetsonde.Lib
