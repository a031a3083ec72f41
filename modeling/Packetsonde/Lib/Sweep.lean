import Mathlib.Data.List.FinRange
import Mathlib.Data.List.Nodup
import Mathlib.Logic.Function.Basic

/-!
# Walking a table beside another

A loop over the slots of a table that counts some of them, to find each slot's place in a list built
from the table. `scan` is such a loop; `mem_scan` and `getElem?_filter_finRange` say which place it
looks at and which is the slot's own.
-/

namespace Packetsonde.Lib

open List

section Lists

variable {α : Type*} {p : α → Bool} {a : α}

/-- The place of an element among those with a property. -/
theorem getElem?_filter {l : List α} {k : Nat} :
    (l.filter p)[k]? = some a ↔
      ∃ pre post, l = pre ++ a :: post ∧ p a = true ∧ k = pre.countP p := by
  induction l generalizing k with
  | nil => simp
  | cons x xs ih =>
    by_cases hx : p x = true
    · rw [filter_cons_of_pos hx]
      cases k with
      | zero =>
        constructor
        · intro h
          obtain rfl : x = a := Option.some.inj h
          exact ⟨[], xs, rfl, hx, rfl⟩
        · rintro ⟨_ | ⟨y, pre⟩, post, heq, -, hk⟩
          · obtain ⟨rfl, -⟩ := List.cons.inj heq
            rfl
          · obtain ⟨rfl, -⟩ := List.cons.inj heq
            rw [countP_cons_of_pos hx] at hk
            omega
      | succ k =>
        rw [getElem?_cons_succ, ih]
        constructor
        · rintro ⟨pre, post, rfl, ha, rfl⟩
          exact ⟨x :: pre, post, rfl, ha, (countP_cons_of_pos hx).symm⟩
        · rintro ⟨_ | ⟨y, pre⟩, post, heq, ha, hk⟩
          · cases hk
          · obtain ⟨rfl, rfl⟩ := List.cons.inj heq
            rw [countP_cons_of_pos hx] at hk
            exact ⟨pre, post, rfl, ha, Nat.succ.inj hk⟩
    · rw [filter_cons_of_neg hx, ih]
      constructor
      · rintro ⟨pre, post, rfl, ha, rfl⟩
        exact ⟨x :: pre, post, rfl, ha, (countP_cons_of_neg hx).symm⟩
      · rintro ⟨_ | ⟨y, pre⟩, post, heq, ha, hk⟩
        · obtain ⟨rfl, -⟩ := List.cons.inj heq
          exact absurd ha hx
        · obtain ⟨rfl, rfl⟩ := List.cons.inj heq
          rw [countP_cons_of_neg hx] at hk
          exact ⟨pre, post, rfl, ha, hk⟩

/-- Those of `l` that are looked at and whose place is flagged; only those with `counts` have one. -/
def scan (counts looks : α → Bool) (flag : Nat → Bool) : List α → Nat → List α
  | [], _ => []
  | a :: l, k =>
    if counts a then
      if looks a && flag k then a :: scan counts looks flag l (k + 1)
      else scan counts looks flag l (k + 1)
    else scan counts looks flag l k

theorem mem_scan_list {counts looks : α → Bool} {flag : Nat → Bool} {l : List α} {k : Nat} :
    a ∈ scan counts looks flag l k ↔
      ∃ pre post, l = pre ++ a :: post ∧ counts a = true ∧ looks a = true ∧
        flag (k + pre.countP counts) = true := by
  induction l generalizing k with
  | nil => simp [scan]
  | cons x xs ih =>
    -- the element is the first one, or one of the rest
    have hsplit : (∃ pre post, x :: xs = pre ++ a :: post ∧ counts a = true ∧ looks a = true ∧
          flag (k + pre.countP counts) = true) ↔
        (x = a ∧ counts a = true ∧ looks a = true ∧ flag k = true) ∨
          ∃ pre post, xs = pre ++ a :: post ∧ counts a = true ∧ looks a = true ∧
            flag (k + (x :: pre).countP counts) = true := by
      constructor
      · rintro ⟨_ | ⟨y, pre⟩, post, heq, hrest⟩
        · exact .inl ⟨(List.cons.inj heq).1, hrest⟩
        · obtain ⟨rfl, rfl⟩ := List.cons.inj heq
          exact .inr ⟨pre, post, rfl, hrest⟩
      · rintro (⟨rfl, hrest⟩ | ⟨pre, post, rfl, hrest⟩)
        · exact ⟨[], xs, rfl, hrest⟩
        · exact ⟨x :: pre, post, rfl, hrest⟩
    rw [hsplit, scan]
    by_cases hx : counts x = true
    · rw [if_pos hx]
      have hshift : ∀ pre : List α, k + (x :: pre).countP counts = k + 1 + pre.countP counts := by
        intro pre
        rw [countP_cons_of_pos hx]
        omega
      simp only [hshift, ← ih]
      by_cases hflag : (looks x && flag k) = true
      · rw [if_pos hflag, mem_cons]
        obtain ⟨hlooks, hk⟩ := Bool.and_eq_true_iff.mp hflag
        refine or_congr ⟨?_, fun h => h.1.symm⟩ Iff.rfl
        rintro rfl
        exact ⟨rfl, hx, hlooks, hk⟩
      · rw [if_neg hflag]
        refine ⟨.inr, fun h => h.resolve_left ?_⟩
        rintro ⟨rfl, -, hlooks, hk⟩
        exact hflag (Bool.and_eq_true_iff.mpr ⟨hlooks, hk⟩)
    · rw [if_neg hx, ih]
      simp only [countP_cons_of_neg hx]
      refine ⟨.inr, fun h => h.resolve_left ?_⟩
      rintro ⟨rfl, hcounts, -⟩
      exact hx hcounts

end Lists

section Tables

variable {n : Nat} {p q : Fin n → Bool} {i j s : Fin n}

/-- How many slots below `i` have the property. -/
def countBelow (p : Fin n → Bool) (i : Fin n) : Nat := ((List.finRange n).take i).countP p

def countAll (p : Fin n → Bool) : Nat := (List.finRange n).countP p

/-- The slots before `i` are those below it. -/
theorem finRange_eq_append_iff {pre post : List (Fin n)} :
    List.finRange n = pre ++ i :: post ↔
      pre = (List.finRange n).take i ∧ post = (List.finRange n).drop (i + 1) := by
  constructor
  · intro h
    have hlen : pre.length < (List.finRange n).length := by
      rw [h, length_append, length_cons]
      omega
    have hget : (List.finRange n)[pre.length] = i := by
      simp [h]
    have hpos : pre.length = i := by
      rw [getElem_finRange] at hget
      exact congrArg Fin.val hget
    rw [h, ← hpos]
    simp
  · rintro ⟨rfl, rfl⟩
    have hlt : (i : Nat) < (List.finRange n).length := by
      rw [length_finRange]
      exact i.isLt
    have hget : (List.finRange n)[(i : Nat)] = i := by simp
    conv_lhs => rw [← take_append_drop i (List.finRange n), drop_eq_getElem_cons hlt, hget]

theorem getElem?_filter_finRange {k : Nat} :
    ((List.finRange n).filter p)[k]? = some i ↔ p i = true ∧ k = countBelow p i := by
  rw [getElem?_filter]
  constructor
  · rintro ⟨pre, post, h, hi, hk⟩
    obtain ⟨rfl, -⟩ := finRange_eq_append_iff.mp h
    exact ⟨hi, hk⟩
  · rintro ⟨hi, hk⟩
    exact ⟨_, _, finRange_eq_append_iff.mpr ⟨rfl, rfl⟩, hi, hk⟩

theorem mem_scan {counts looks : Fin n → Bool} {flag : Nat → Bool} {k : Nat} :
    i ∈ scan counts looks flag (List.finRange n) k ↔
      counts i = true ∧ looks i = true ∧ flag (k + countBelow counts i) = true := by
  rw [mem_scan_list]
  constructor
  · rintro ⟨pre, post, h, hrest⟩
    obtain ⟨rfl, -⟩ := finRange_eq_append_iff.mp h
    exact hrest
  · intro hrest
    exact ⟨_, _, finRange_eq_append_iff.mpr ⟨rfl, rfl⟩, hrest⟩

theorem mem_take_finRange : j ∈ (List.finRange n).take i ↔ j < i := by
  rw [mem_take_iff_getElem]
  simp only [getElem_finRange, length_finRange]
  constructor
  · rintro ⟨k, hk, rfl⟩
    show k < (i : Nat)
    omega
  · intro h
    exact ⟨j, by omega, rfl⟩

theorem mem_drop_finRange : j ∈ (List.finRange n).drop (i + 1) ↔ i < j := by
  rw [mem_drop_iff_getElem]
  simp only [getElem_finRange, length_finRange]
  constructor
  · rintro ⟨k, hk, rfl⟩
    show (i : Nat) < i + 1 + k
    omega
  · intro h
    exact ⟨j - (i + 1), by omega, Fin.ext (show i + 1 + (j - (i + 1)) = (j : Nat) by omega)⟩

theorem countAll_eq (p : Fin n → Bool) (i : Fin n) :
    countAll p = countBelow p i + (if p i then 1 else 0) +
      ((List.finRange n).drop (i + 1)).countP p := by
  have hsplit : List.finRange n = (List.finRange n).take i ++ i :: (List.finRange n).drop (i + 1) :=
    finRange_eq_append_iff.mpr ⟨rfl, rfl⟩
  unfold countAll countBelow
  conv_lhs => rw [hsplit, countP_append, countP_cons]
  omega

/-- Nothing above a free slot is counted: its place is behind the last. -/
theorem countAll_le_countBelow_iff (hi : p i = false) :
    countAll p ≤ countBelow p i ↔ ∀ j, i < j → p j = false := by
  rw [countAll_eq p i, hi]
  constructor
  · intro h j hj
    have hzero : ((List.finRange n).drop (i + 1)).countP p = 0 := by
      simp only [Bool.false_eq_true, if_false] at h
      omega
    exact Bool.eq_false_iff.mpr (countP_eq_zero.mp hzero j (mem_drop_finRange.mpr hj))
  · intro h
    have hzero : ((List.finRange n).drop (i + 1)).countP p = 0 :=
      countP_eq_zero.mpr fun j hj => Bool.eq_false_iff.mp (h j (mem_drop_finRange.mp hj))
    rw [hzero]
    simp

theorem countBelow_lt_countAll (hi : p i = true) : countBelow p i < countAll p := by
  rw [countAll_eq p i, if_pos hi]
  omega

theorem countP_update {l : List (Fin n)} (hl : l.Nodup) (hs : p s = false) :
    l.countP (Function.update p s true) = l.countP p + if s ∈ l then 1 else 0 := by
  induction l with
  | nil => rfl
  | cons x xs ih =>
    obtain ⟨hx, hxs⟩ := nodup_cons.mp hl
    rw [countP_cons, countP_cons, ih hxs]
    by_cases hxs' : x = s
    · subst hxs'
      simp [hs, hx]
    · simp [Function.update_of_ne hxs', Ne.symm hxs']
      omega

theorem countBelow_update (hs : p s = false) :
    countBelow (Function.update p s true) i = countBelow p i + if s < i then 1 else 0 := by
  unfold countBelow
  rw [countP_update ((nodup_finRange n).sublist (take_sublist _ _)) hs]
  simp only [mem_take_finRange]

theorem countAll_update (hs : p s = false) : countAll (Function.update p s true) = countAll p + 1 := by
  unfold countAll
  rw [countP_update (nodup_finRange n) hs, if_pos (mem_finRange s)]

/-- The same read the other way: a slot is left out. -/
theorem countBelow_update_false (hs : p s = true) :
    countBelow p i = countBelow (Function.update p s false) i + if s < i then 1 else 0 := by
  rw [← countBelow_update (Function.update_self s false p), Function.update_idem, ← hs,
    Function.update_eq_self]

theorem countAll_update_false (hs : p s = true) :
    countAll p = countAll (Function.update p s false) + 1 := by
  rw [← countAll_update (Function.update_self s false p), Function.update_idem, ← hs,
    Function.update_eq_self]

/-- The first one that is counted. -/
theorem exists_countBelow_eq_zero (h : 0 < countAll p) : ∃ i, p i = true ∧ countBelow p i = 0 := by
  unfold countAll at h
  rw [countP_eq_length_filter] at h
  obtain ⟨i, hi⟩ : ∃ i, ((List.finRange n).filter p)[0]? = some i :=
    ⟨_, getElem?_eq_getElem h⟩
  obtain ⟨hp, hzero⟩ := getElem?_filter_finRange.mp hi
  exact ⟨i, hp, hzero.symm⟩

end Tables

end Packetsonde.Lib
