import Packetsonde.Lib.Scan
import Packetsonde.Lib.JsonTail

/-!
# Keys looked for as text

Code that looks for `"key":` with `strstr` finds the key of a member, or something in a string that
looks like one. In a string a quote has a backslash in front of it, so there is no way for the closing
quote of the needle to be inside a string (`quoted_at_quoted`), and where it is the closing quote of the
string a comma or a bracket follows, not a colon (`behind_key_quoted`). So in a text written by a JSON
writer the search gets past the strings and to the key.
-/

namespace Packetsonde.Lib

open List

/-! ## Texts the search gets past -/

variable {needle pre raw : Bytes}

/-- Wherever the needle starts in `pre`, it and `pre` differ before `pre` ends. -/
def Clashes (needle pre : Bytes) : Prop :=
  ∀ j < pre.length, ¬ needle.take (pre.length - j) <+: pre.drop j

instance (needle pre : Bytes) : Decidable (Clashes needle pre) :=
  inferInstanceAs (Decidable (∀ j < pre.length, _))

theorem behind_append_of_clashes (h : Clashes needle pre) (rest : Bytes) :
    behind needle (pre ++ rest) = behind needle rest := by
  refine behind_append_of_forall fun j hj hat => h j hj ?_
  have hlen : (pre.drop j).length = pre.length - j := length_drop
  have htake := hat.take (pre.length - j)
  rwa [drop_append_of_le_length (Nat.le_of_lt hj), ← hlen, take_left, hlen] at htake

/-- Every quote has a backslash in front of it. -/
def QuotesEscaped (raw : Bytes) : Prop :=
  ∀ pre post, raw = pre ++ 34 :: post → pre.getLast? = some 92

theorem quotesEscaped_of_strText {raw s : Bytes} (h : StrText raw s) : QuotesEscaped raw :=
  fun _ _ heq => strText_quote_escaped h heq

theorem quotesEscaped_of_not_mem (h : (34 : UInt8) ∉ raw) : QuotesEscaped raw :=
  fun pre _ heq => absurd (heq ▸ mem_append_right pre mem_cons_self) h

/-- A quoted word that starts in a string literal ends where the literal does. -/
theorem quoted_at_quoted {raw w rest : Bytes} {j : Nat} (hraw : QuotesEscaped raw) (hw : Plain w)
    (hne : w ≠ []) (hj : j ≤ raw.length) (hat : quoted w <+: (quoted raw ++ rest).drop j) :
    quoted w <:+ quoted raw ∧ (quoted raw ++ rest).drop j = quoted w ++ rest := by
  have hquote : (34 : UInt8) ∉ w := fun hmem => (hw 34 hmem).1 rfl
  have hlast : w.getLast? ≠ some 92 := fun h => (hw 92 (mem_of_getLast? h)).2.1 rfl
  obtain ⟨post, hpost⟩ := hat
  have hdrop : (quoted raw ++ rest).drop j = (34 :: raw).drop j ++ 34 :: rest := by
    have hsplit : quoted raw ++ rest = (34 :: raw) ++ 34 :: rest := by simp [quoted]
    rw [hsplit, drop_append_of_le_length (Nat.le_succ_of_le hj)]
  obtain ⟨b, hb⟩ : ∃ b, (34 :: raw).drop j = 34 :: b := by
    cases hcase : (34 :: raw).drop j with
    | nil =>
      have hzero := drop_eq_nil_iff.mp hcase
      rw [length_cons] at hzero
      omega
    | cons x b =>
      rw [hdrop, hcase, cons_append, quoted, cons_append] at hpost
      exact ⟨b, by rw [(List.cons.inj hpost).1]⟩
  rw [hdrop, hb] at hpost ⊢
  have hend (heq : b = w) : quoted w <:+ quoted raw ∧ 34 :: b ++ 34 :: rest = quoted w ++ rest := by
    subst heq
    refine ⟨⟨(34 :: raw).take j, ?_⟩, ?_⟩
    · rw [quoted, quoted, ← cons_append, ← cons_append, ← append_assoc, ← hb,
        take_append_drop]
    · simp [quoted]
  simp only [quoted, cons_append, append_assoc, List.cons.injEq, true_and] at hpost
  rcases append_eq_append_iff.mp hpost with ⟨mid, hmid, hrest⟩ | ⟨mid, hmid, hrest⟩
  · cases mid with
    | nil => exact hend (by rw [hmid, append_nil])
    | cons x mid =>
      -- at a quote inside, which would have the end of the word in front of it
      obtain ⟨rfl, -⟩ := List.cons.inj hrest
      have hall : 34 :: raw = (34 :: raw).take j ++ 34 :: (w ++ 34 :: mid) := by
        rw [← hmid, ← hb, take_append_drop]
      cases hpre : (34 :: raw).take j with
      | nil =>
        rw [hpre] at hall
        exact absurd (hraw w mid (List.cons.inj hall).2) hlast
      | cons y pre =>
        rw [hpre] at hall
        have hesc := hraw ((pre ++ [34]) ++ w) mid (by rw [(List.cons.inj hall).2]; simp)
        rw [getLast?_append_of_ne_nil _ hne] at hesc
        exact absurd hesc hlast
  · cases mid with
    | nil => exact hend (by rw [hmid, append_nil])
    | cons x mid =>
      obtain ⟨rfl, -⟩ := List.cons.inj hrest
      exact absurd (by rw [hmid]; simp) hquote

/-- A quoted word that starts in a quoted text is the end of it, if something follows that is not the start of
the word. -/
theorem quoted_in_quoted {raw w rest : Bytes} {c : UInt8} {j : Nat} (hraw : QuotesEscaped raw) (hw : Plain w)
    (hne : w ≠ []) (hhead : w.head? ≠ some c) (hj : j < (quoted raw).length)
    (hat : quoted w <+: (quoted raw ++ c :: rest).drop j) :
    quoted w <:+ quoted raw ∧ (quoted raw ++ c :: rest).drop j = quoted w ++ c :: rest := by
  have hlen : (quoted raw).length = raw.length + 2 := by simp [quoted]
  rcases Nat.lt_or_ge raw.length j with hend | hin
  · -- at the closing quote
    obtain rfl : j = raw.length + 1 := by omega
    have hdrop : (quoted raw ++ c :: rest).drop (raw.length + 1) = 34 :: c :: rest := by simp [quoted]
    obtain ⟨d, w, rfl⟩ := exists_cons_of_ne_nil hne
    rw [hdrop, quoted, cons_append, cons_prefix_cons, cons_prefix_cons] at hat
    exact absurd (by rw [head?_cons, hat.2.1]) hhead
  · exact quoted_at_quoted hraw hw hne hin hat

/-- The search for a key gets past a string that is followed by anything but a colon. -/
theorem behind_key_quoted {raw key more rest : Bytes} {c : UInt8} (hraw : QuotesEscaped raw)
    (hkey : Plain key) (hne : key ≠ []) (hcolon : c ≠ 58) (hhead : key.head? ≠ some c) :
    behind (34 :: (key ++ 34 :: 58 :: more)) (34 :: (raw ++ 34 :: c :: rest)) =
      behind (34 :: (key ++ 34 :: 58 :: more)) (c :: rest) := by
  have hsplit : 34 :: (raw ++ 34 :: c :: rest) = quoted raw ++ c :: rest := by simp [quoted]
  have hneedle : 34 :: (key ++ 34 :: 58 :: more) = quoted key ++ 58 :: more := by simp [quoted]
  rw [hsplit, hneedle]
  refine behind_append_of_forall fun j hj hat => ?_
  rw [(quoted_in_quoted hraw hkey hne hhead hj ((prefix_append _ _).trans hat)).2,
    prefix_append_right_inj, cons_prefix_cons] at hat
  exact hcolon hat.1.symm

end Packetsonde.Lib
