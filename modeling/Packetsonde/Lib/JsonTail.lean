import Packetsonde.Lib.JsonRead

/-!
# The end of a JSON text

Code that pastes members behind a text it has not read can only be judged from the end of the result:
where the pasted part starts is known there, and what stands in front of it is not. This module takes
texts apart from their ends. If an object whose last member is `k : v` has a text that ends like the
plain text of such a member, then that is the member, and the rest of the text is that of the other
members (`doc_members_tail`).

Strings are the difficulty. A raw text is at least as long as what it stands for, with equality only if
it stands for itself (`strText_eq_of_length`), and a quote in it has a backslash in front. So a literal
at the end of a text is told by the last quote that can be its opening one (`strText_suffix`).
-/

namespace Packetsonde.Lib

open List

/-- Bytes that stand for themselves in a string. -/
def Plain (s : Bytes) : Prop := ∀ c ∈ s, c ≠ 34 ∧ c ≠ 92 ∧ 0x20 ≤ c

instance (s : Bytes) : Decidable (Plain s) := List.decidableBAll _ s

/-! ## Raw strings -/

theorem length_utf8 (cp : Nat) : (utf8 cp).length ≤ 3 := by
  unfold utf8
  split
  · exact Nat.le_of_ble_eq_true rfl
  · split <;> exact Nat.le_of_ble_eq_true rfl

variable {raw s pre s' pre' w t u k x y k' : Bytes} {c : UInt8} {ms : List (Bytes × Json Bytes)}
    {v : Json Bytes}

theorem strText_length_le (h : StrText raw s) : s.length ≤ raw.length := by
  induction h with
  | nil => exact Nat.le_refl 0
  | plain _ _ _ _ ih => exact Nat.succ_le_succ ih
  | esc _ _ ih =>
    simp only [length_cons]
    omega
  | @uni a b c d cp raw s _ _ ih =>
    have hcp := length_utf8 cp
    simp only [length_cons, length_append]
    omega

/-- Only a plain text is as short as what it stands for. -/
theorem strText_eq_of_length (h : StrText raw s) (hlen : raw.length ≤ s.length) :
    raw = s ∧ Plain s := by
  induction h with
  | nil => exact ⟨rfl, fun c hc => absurd hc not_mem_nil⟩
  | @plain c raw s hq hb hc _ ih =>
    obtain ⟨rfl, hplain⟩ := ih (Nat.le_of_succ_le_succ hlen)
    exact ⟨rfl, forall_mem_cons.mpr ⟨⟨hq, hb, hc⟩, hplain⟩⟩
  | esc _ h _ =>
    have hle := strText_length_le h
    simp only [length_cons] at hlen
    omega
  | @uni a b c d cp raw s _ h _ =>
    have hle := strText_length_le h
    have hcp := length_utf8 cp
    simp only [length_cons, length_append] at hlen
    omega

theorem eq_of_strText_plain (h : StrText raw s) (hraw : Plain raw) : s = raw := by
  induction h with
  | nil => rfl
  | plain _ _ _ _ ih => rw [ih (forall_mem_cons.mp hraw).2]
  | esc _ _ _ | uni _ _ _ => exact absurd rfl (hraw 92 mem_cons_self).2.1

/-- A quote in a raw text has a backslash in front of it. -/
theorem strText_quote_escaped {raw s pre post : Bytes} (h : StrText raw s)
    (heq : raw = pre ++ 34 :: post) : pre.getLast? = some 92 := by
  induction h generalizing pre with
  | nil => simp at heq
  | @plain c raw s hq _ _ _ ih =>
    cases pre with
    | nil => exact absurd (List.cons.inj heq).1 hq
    | cons p pre =>
      have hlast := ih (List.cons.inj heq).2
      rw [getLast?_cons, hlast]
      rfl
  | @esc e d raw s he _ ih =>
    match pre, heq with
    | [], heq => exact absurd (List.cons.inj heq).1 (by decide)
    | [p], heq => rw [← (List.cons.inj heq).1]; rfl
    | p :: q :: pre, heq =>
      have hlast := ih (List.cons.inj (List.cons.inj heq).2).2
      rw [getLast?_cons_cons, getLast?_cons, hlast]
      rfl
  | @uni a b c d cp raw s hcp _ ih =>
    have hhex := hex4_bytes hcp
    simp only [forall_mem_cons] at hhex
    obtain ⟨⟨_, ha, _⟩, ⟨_, hb, _⟩, ⟨_, hc, _⟩, ⟨_, hd, _⟩, _⟩ := hhex
    match pre, heq with
    | [], heq => simp at heq
    | [_], heq => simp at heq
    | [_, _], heq => simp [ha] at heq
    | [_, _, _], heq => simp [hb] at heq
    | [_, _, _, _], heq => simp [hc] at heq
    | [_, _, _, _, _], heq => simp [hd] at heq
    | _ :: _ :: _ :: _ :: _ :: p :: pre, heq =>
      simp only [cons_append, List.cons.injEq] at heq
      have hlast := ih heq.2.2.2.2.2.2
      simp only [getLast?_cons_cons]
      rw [getLast?_cons, hlast]
      rfl

/-- A string literal at the end of a text that ends with a quote and `s'`: it is that text, unless the
quote has a backslash in front, or `s'` is longer than the decoded string and has a quote in it. -/
theorem strText_suffix (h : StrText raw s)
    (heq : pre ++ 34 :: raw = pre' ++ 34 :: s') (hs : s'.length ≤ s.length ∨ (34 : UInt8) ∉ s')
    (hpre : pre'.getLast? ≠ some 92) : raw = s' ∧ pre = pre' := by
  rcases append_eq_append_iff.mp heq with ⟨mid, hmid, hraw⟩ | ⟨mid, hmid, hraw⟩
  · -- the literal starts in front of the quote: then the quote is a part of it
    cases mid with
    | nil => exact ⟨(List.cons.inj hraw).2, by simpa using hmid.symm⟩
    | cons x mid =>
      obtain ⟨rfl, htail⟩ := List.cons.inj hraw
      have hquote := strText_quote_escaped h htail
      rw [hmid, getLast?_append, getLast?_cons, hquote] at hpre
      exact absurd rfl hpre
  · -- and it cannot start behind it
    cases mid with
    | nil => exact ⟨(List.cons.inj hraw).2.symm, by simpa using hmid⟩
    | cons x mid =>
      have htail : s' = mid ++ 34 :: raw := (List.cons.inj hraw).2
      have hle := strText_length_le h
      rcases hs with hlen | hquote
      · rw [htail, length_append, length_cons] at hlen
        omega
      · exact absurd (htail ▸ mem_append_right mid mem_cons_self) hquote

/-! ## White space and tokens at the end -/

/-- White space in front of a byte that is none. -/
theorem ws_suffix (hw : IsWs w) (hc : isWs c = false)
    (heq : pre ++ w = pre' ++ [c]) : w = [] ∧ pre = pre' ++ [c] := by
  cases w using List.reverseRecOn with
  | nil => exact ⟨rfl, by simpa using heq⟩
  | append_singleton init last =>
    rw [← append_assoc] at heq
    obtain ⟨-, hlast⟩ := append_inj' heq rfl
    obtain rfl := (List.cons.inj hlast).1
    have hws := hw last (mem_append_right _ (mem_singleton.mpr rfl))
    rw [hc] at hws
    cases hws

/-- The plain text of a value, told apart from its end: behind a colon every text of the value is the
given one. -/
def TailValue (v : Json Bytes) (t : Bytes) : Prop :=
  ∀ u w pre pre', Doc .value u v → IsWs w → pre ++ (u ++ w) = pre' ++ 58 :: t →
    w = [] ∧ u = t ∧ pre = pre' ++ [58]

theorem doc_str_inv (h : Doc .value t (.str s)) :
    ∃ raw, t = 34 :: (raw ++ [34]) ∧ StrText raw s := by
  cases h with
  | str h => exact ⟨_, rfl, h⟩

def boolLit : Bool → Bytes
  | true => [116, 114, 117, 101]
  | false => [102, 97, 108, 115, 101]

theorem doc_boolLit (b : Bool) : Doc .value (boolLit b) (.bool b) := by
  cases b with
  | true => exact .true
  | false => exact .false

theorem doc_bool_inv {b : Bool} (h : Doc .value t (.bool b)) : t = boolLit b := by
  cases h with
  | true => rfl
  | false => rfl

theorem boolLit_last (b : Bool) : ∃ init, boolLit b = init ++ [101] := by
  cases b with
  | true => exact ⟨[116, 114, 117], rfl⟩
  | false => exact ⟨[102, 97, 108, 115], rfl⟩

theorem tailValue_bool (b : Bool) : TailValue (.bool b) (boolLit b) := by
  intro u w pre pre' hdoc hw heq
  obtain rfl := doc_bool_inv hdoc
  obtain ⟨init, hinit⟩ := boolLit_last b
  have hend : (pre ++ boolLit b) ++ w = (pre' ++ 58 :: init) ++ [101] := by
    rw [append_assoc, heq, append_assoc, hinit]
    rfl
  obtain ⟨rfl, hrest⟩ := ws_suffix hw (by decide) hend
  refine ⟨rfl, rfl, ?_⟩
  have hsame : pre ++ boolLit b = (pre' ++ [58]) ++ boolLit b := by
    rw [hrest, hinit]
    simp only [append_assoc, cons_append, nil_append]
  exact append_cancel_right hsame

/-- A string no longer than the decoded one, or without a quote. -/
theorem tailValue_str (hs : s'.length ≤ s.length ∨ (34 : UInt8) ∉ s') :
    TailValue (.str s) (34 :: (s' ++ [34])) := by
  intro u w pre pre' hdoc hw heq
  obtain ⟨raw, rfl, hraw⟩ := doc_str_inv hdoc
  have hend : (pre ++ 34 :: (raw ++ [34])) ++ w = (pre' ++ 58 :: 34 :: s') ++ [34] := by
    rw [append_assoc, heq, append_assoc]
    rfl
  obtain ⟨rfl, hclosed⟩ := ws_suffix hw (by decide) hend
  have hopen : pre ++ 34 :: raw = (pre' ++ [58]) ++ 34 :: s' := by
    have hcancel : (pre ++ 34 :: raw) ++ [34] = ((pre' ++ [58]) ++ 34 :: s') ++ [34] := by
      simpa using hclosed
    exact append_cancel_right hcancel
  obtain ⟨rfl, rfl⟩ := strText_suffix hraw hopen hs (by simp)
  exact ⟨rfl, rfl, rfl⟩

/-! ## Members from the end -/

/-- Members behind members. -/
theorem doc_members_append {ms ns : List (Bytes × Json Bytes)}
    (h : Doc .members t (.obj ms)) (h' : Doc .members u (.obj ns)) :
    Doc .members (t ++ 44 :: u) (.obj (ms ++ ns)) := by
  generalize hv : Json.obj ms = v at h
  generalize hcat : Cat.members = cat at h
  induction h generalizing ms with
  | null | true | false | num | str | emptyArr | arr | emptyObj | obj | item | itemCons =>
    cases hcat
  | member h₁ hk h₂ h₃ h h₄ =>
    obtain rfl := Json.obj.inj hv
    have hcons := Doc.memberCons h₁ hk h₂ h₃ h h₄ h'
    simpa using hcons
  | memberCons h₁ hk h₂ h₃ h h₄ hs ih ihs =>
    obtain rfl := Json.obj.inj hv
    have hcons := Doc.memberCons h₁ hk h₂ h₃ h h₄ (ihs rfl rfl)
    simpa using hcons

theorem doc_members_ne_nil (h : Doc .members t v) : t ≠ [] := by
  intro hnil
  cases h with
  | member => simp at hnil
  | memberCons => simp at hnil

section

variable (h : Doc .members t (.obj (ms ++ [(k, v)])))

include h

/-- The last member of an object, and what stands in front of it. -/
theorem doc_members_last :
    ∃ pre raw w₁ w₂ u w₃, t = pre ++ 34 :: (raw ++ 34 :: (w₁ ++ 58 :: (w₂ ++ (u ++ w₃)))) ∧
      StrText raw k ∧ IsWs w₁ ∧ IsWs w₂ ∧ Doc .value u v ∧ IsWs w₃ ∧
      ((ms = [] ∧ IsWs pre) ∨ ∃ t' w, pre = t' ++ 44 :: w ∧ IsWs w ∧ Doc .members t' (.obj ms)) := by
  induction ms generalizing t with
  | nil =>
    cases h with
    | member h₁ hk h₂ h₃ h h₄ => exact ⟨_, _, _, _, _, _, rfl, hk, h₂, h₃, h, h₄, Or.inl ⟨rfl, h₁⟩⟩
    | memberCons _ _ _ _ _ _ hs => nomatch hs
  | cons m ms ih =>
    generalize hall : m :: ms ++ [(k, v)] = all at h
    cases h with
    | member =>
      have hlen := congrArg List.length hall
      simp at hlen
    | @memberCons w₁ raw key w₂ w₃ u w₄ ts v' ms' h₁ hk h₂ h₃ hu h₄ hs =>
      obtain ⟨rfl, rfl⟩ := List.cons.inj hall
      obtain ⟨pre, rawk, x₁, x₂, u', x₃, rfl, hrawk, hx₁, hx₂, hu', hx₃, hpre⟩ := ih hs
      refine ⟨w₁ ++ 34 :: (raw ++ 34 :: (w₂ ++ 58 :: (w₃ ++ (u ++ (w₄ ++ 44 :: pre))))), rawk, x₁, x₂,
        u', x₃, by simp, hrawk, hx₁, hx₂, hu', hx₃, Or.inr ?_⟩
      rcases hpre with ⟨rfl, hws⟩ | ⟨t', w, rfl, hw, ht'⟩
      · exact ⟨_, pre, by simp, hws, Doc.member h₁ hk h₂ h₃ hu h₄⟩
      · refine ⟨_, w, ?_, hw, Doc.memberCons h₁ hk h₂ h₃ hu h₄ ht'⟩
        simp

/-- If a text of members ends like the plain text of the last one, that is the last one. The text may
have anything in front (`x`). -/
theorem doc_members_tail (htail : TailValue v u)
    (hk : k'.length ≤ k.length ∨ Plain k') (hy : y.getLast? ≠ some 92)
    (heq : x ++ t = y ++ memberText k' u) :
    k' = k ∧ Doc .value u v ∧
      ((ms = [] ∧ ∃ w, IsWs w ∧ x ++ w = y) ∨
        ∃ t' w, IsWs w ∧ Doc .members t' (.obj ms) ∧ x ++ (t' ++ 44 :: w) = y) := by
  obtain ⟨pre, raw, w₁, w₂, u', w₃, rfl, hraw, hw₁, hw₂, hu', hw₃, hpre⟩ := doc_members_last h
  have hvalue : (x ++ pre ++ 34 :: (raw ++ 34 :: (w₁ ++ 58 :: w₂))) ++ (u' ++ w₃) =
      (y ++ 34 :: (k' ++ [34])) ++ 58 :: u := by
    have hflat := heq
    unfold memberText at hflat
    simpa using hflat
  obtain ⟨rfl, rfl, hcolon⟩ := htail u' w₃ _ _ hu' hw₃ hvalue
  have hws₂ : (x ++ pre ++ 34 :: (raw ++ 34 :: (w₁ ++ [58]))) ++ w₂ = (y ++ 34 :: (k' ++ [34])) ++ [58] := by
    simpa using hcolon
  obtain ⟨rfl, hclose⟩ := ws_suffix hw₂ (by decide) hws₂
  have hws₁ : (x ++ pre ++ 34 :: (raw ++ [34])) ++ w₁ = (y ++ 34 :: k') ++ [34] := by
    have hcancel : ((x ++ pre ++ 34 :: (raw ++ [34])) ++ w₁) ++ [58] = ((y ++ 34 :: k') ++ [34]) ++ [58] := by
      simpa using hclose
    exact append_cancel_right hcancel
  obtain ⟨rfl, hquote⟩ := ws_suffix hw₁ (by decide) hws₁
  have hkey : (x ++ pre) ++ 34 :: raw = y ++ 34 :: k' := by
    have hcancel : ((x ++ pre) ++ 34 :: raw) ++ [34] = (y ++ 34 :: k') ++ [34] := by simpa using hquote
    exact append_cancel_right hcancel
  obtain ⟨rfl, hpre'⟩ :=
    strText_suffix hraw hkey (hk.imp_right fun hplain hmem => (hplain 34 hmem).1 rfl) hy
  have hsame : raw = k :=
    hk.elim (fun hle => (strText_eq_of_length hraw hle).1) fun hplain =>
      (eq_of_strText_plain hraw hplain).symm
  refine ⟨hsame, hu', ?_⟩
  rcases hpre with ⟨rfl, hws⟩ | ⟨t', w, rfl, hw, ht'⟩
  · exact Or.inl ⟨rfl, pre, hws, hpre'⟩
  · exact Or.inr ⟨t', w, hw, ht', hpre'⟩

/-- The last of several members, with a comma right in front of it. -/
theorem doc_members_tail_comma (hms : ms ≠ []) (htail : TailValue v u)
    (hk : k'.length ≤ k.length ∨ Plain k') (heq : x ++ t = y ++ 44 :: memberText k' u) :
    k' = k ∧ Doc .value u v ∧ ∃ t', Doc .members t' (.obj ms) ∧ x ++ t' = y := by
  have heq' : x ++ t = (y ++ [44]) ++ memberText k' u := by rw [heq, append_assoc]; rfl
  obtain ⟨rfl, hu, hrest⟩ := doc_members_tail h htail hk (by simp) heq'
  obtain ⟨t', w, hw, ht', hpre⟩ := hrest.resolve_left fun hnil => hms hnil.1
  have hcomma : (x ++ (t' ++ [44])) ++ w = y ++ [44] := by simpa using hpre
  obtain ⟨rfl, hy⟩ := ws_suffix hw (by decide) hcomma
  have hcancel : (x ++ t') ++ [44] = y ++ [44] := by simpa using hy
  exact ⟨rfl, hu, t', ht', append_cancel_right hcancel⟩

end

/-- An object with members, and one without. -/
theorem doc_obj_inv (h : Doc .value t (.obj ms)) :
    ∃ u, t = 123 :: (u ++ [125]) ∧ ((ms = [] ∧ IsWs u) ∨ (ms ≠ [] ∧ Doc .members u (.obj ms))) := by
  cases h with
  | emptyObj hw => exact ⟨_, rfl, Or.inl ⟨rfl, hw⟩⟩
  | obj h =>
    refine ⟨_, rfl, Or.inr ⟨?_, h⟩⟩
    rintro rfl
    nomatch h

/-! ## Members whose text is a literal -/

/-- The text of a literal, told apart from its end: behind a colon every value that ends with it is the
given one. -/
structure Literal (v : Json Bytes) (t : Bytes) : Prop where
  tail : TailValue v t
  fixes : ∀ u v' w pre pre', Doc .value u v' → IsWs w → pre ++ (u ++ w) = pre' ++ 58 :: t → v' = v

/-- The values by their last bytes. -/
theorem doc_last (h : Doc .value u v) :
    (∃ s init, v = .str s ∧ u = init ++ [34]) ∨ (∃ b init, v = .bool b ∧ u = init ++ [101]) ∨
      ∃ init c, u = init ++ [c] ∧ c ≠ 34 ∧ c ≠ 101 := by
  cases h with
  | null => exact .inr (.inr ⟨[110, 117, 108], 108, rfl, by decide, by decide⟩)
  | true => exact .inr (.inl ⟨true, [116, 114, 117], rfl, rfl⟩)
  | false => exact .inr (.inl ⟨false, [102, 97, 108, 115], rfl, rfl⟩)
  | num h =>
    obtain ⟨c, hlast, hdigit⟩ := numLit_last h
    obtain ⟨init, rfl⟩ := getLast?_eq_some_iff.mp hlast
    refine .inr (.inr ⟨init, c, rfl, ?_, ?_⟩)
    · rintro rfl
      cases hdigit
    · rintro rfl
      cases hdigit
  | str _ => exact .inl ⟨_, _, rfl, (cons_append ..).symm⟩
  | emptyArr _ | arr _ => exact .inr (.inr ⟨_, 93, (cons_append ..).symm, by decide, by decide⟩)
  | emptyObj _ | obj _ => exact .inr (.inr ⟨_, 125, (cons_append ..).symm, by decide, by decide⟩)

theorem last_of_suffix {w pre pre' init init' : Bytes} {c c' : UInt8} (hw : IsWs w)
    (hc' : isWs c' = false) (heq : pre ++ ((init ++ [c]) ++ w) = pre' ++ 58 :: (init' ++ [c'])) : c = c' := by
  have hend : (pre ++ (init ++ [c])) ++ w = (pre' ++ 58 :: init') ++ [c'] := by
    simpa using heq
  obtain ⟨-, hsame⟩ := ws_suffix hw hc' hend
  rw [← append_assoc] at hsame
  exact (List.cons.inj (append_inj' hsame rfl).2).1

theorem literal_str (hs : Plain s) : Literal (.str s) (34 :: (s ++ [34])) where
  tail := tailValue_str (Or.inr fun hmem => (hs 34 hmem).1 rfl)
  fixes := by
    intro u v' w pre pre' hdoc hw heq
    have hlast {init : Bytes} {c : UInt8} (hu : u = init ++ [c]) : c = 34 := by
      rw [hu, ← cons_append] at heq
      exact last_of_suffix hw (by decide) heq
    rcases doc_last hdoc with ⟨x, init, rfl, -⟩ | ⟨b, init, -, hu⟩ | ⟨init, c, hu, hne, -⟩
    · obtain ⟨-, rfl, -⟩ := tailValue_str (Or.inr fun hmem => (hs 34 hmem).1 rfl) u w pre pre' hdoc hw heq
      obtain ⟨raw, hraw, hx⟩ := doc_str_inv hdoc
      obtain rfl : s = raw := append_cancel_right (List.cons.inj hraw).2
      rw [eq_of_strText_plain hx hs]
    · exact absurd (hlast hu) (by decide)
    · exact absurd (hlast hu) hne

theorem literal_bool (b : Bool) : Literal (.bool b) (boolLit b) where
  tail := tailValue_bool b
  fixes := by
    intro u v' w pre pre' hdoc hw heq
    obtain ⟨init', hinit⟩ := boolLit_last b
    have hlast {init : Bytes} {c : UInt8} (hu : u = init ++ [c]) : c = 101 := by
      rw [hu, hinit] at heq
      exact last_of_suffix hw (by decide) heq
    rcases doc_last hdoc with ⟨x, init, -, hu⟩ | ⟨b', init, rfl, -⟩ | ⟨init, c, hu, -, hne⟩
    · exact absurd (hlast hu) (by decide)
    · obtain rfl := doc_bool_inv hdoc
      have hend : (pre ++ boolLit b') ++ w = (pre' ++ 58 :: init') ++ [101] := by
        rw [append_assoc, heq, hinit]
        simp
      obtain ⟨rfl, -⟩ := ws_suffix hw (by decide) hend
      -- the two words differ in the third byte from the end
      have hthird := congrArg (fun t => t.reverse[2]?) heq
      cases b with
      | true =>
        cases b' with
        | true => rfl
        | false => simp [boolLit] at hthird
      | false =>
        cases b' with
        | true => simp [boolLit] at hthird
        | false => rfl
    · exact absurd (hlast hu) hne

/-- If a text of members ends with the plain text of a literal member and a comma in front of it, that is
the last member. -/
theorem doc_members_literal (h : Doc .members t (.obj ms)) (hv : Literal v u) (hk : Plain k)
    (heq : t = y ++ 44 :: memberText k u) :
    ∃ ms', ms = ms' ++ [(k, v)] ∧ Doc .members y (.obj ms') := by
  cases ms using List.reverseRecOn with
  | nil => nomatch h
  | append_singleton ms' m =>
    obtain ⟨k₀, v₀⟩ := m
    obtain rfl : v₀ = v := by
      obtain ⟨pre, raw, w₁, w₂, u', w₃, ht, -, -, -, hu', hw₃, -⟩ := doc_members_last h
      refine hv.fixes u' v₀ w₃ (pre ++ 34 :: (raw ++ 34 :: (w₁ ++ 58 :: w₂))) (y ++ 44 :: 34 :: (k ++ [34]))
        hu' hw₃ ?_
      rw [ht, memberText] at heq
      simpa using heq
    have heq' : [] ++ t = (y ++ [44]) ++ memberText k u := by rw [heq]; simp
    obtain ⟨rfl, -, hrest⟩ := doc_members_tail h hv.tail (.inr hk) (by simp) heq'
    refine ⟨ms', rfl, ?_⟩
    rcases hrest with ⟨-, w, hw, hcomma⟩ | ⟨t', w, hw, ht', hcomma⟩
    · have hmem : (44 : UInt8) ∈ w := by
        rw [nil_append] at hcomma
        rw [hcomma]
        exact mem_append_right _ mem_cons_self
      exact absurd (hw 44 hmem) (by decide)
    · have hend : (t' ++ [44]) ++ w = y ++ [44] := by simpa using hcomma
      obtain ⟨-, hsame⟩ := ws_suffix hw (by decide) hend
      rwa [← append_cancel_right hsame]

end Packetsonde.Lib
