import Packetsonde.Lib.Bytes

/-!
# Cutting objects out by counting braces

A loop that finds the objects of a JSON array by counting `{` and `}`, strings or not: an object
starts at a brace at depth 0 and ends where the depth is 0 again; a `]` at depth 0 ends the array. The
depth can go below 0, and comes back the same way.

`Closes t` says that `t` starts with a brace and the count over it comes back to 0 at its end and not
before; such a text is cut out as it is (`cutFirst_of_closes`).
-/

namespace Packetsonde.Lib

open List

/-! ## Texts that close -/

def braces (t : Bytes) : Int := t.count 123 - t.count 125

@[simp] theorem braces_nil : braces [] = 0 := rfl

theorem braces_append (t u : Bytes) : braces (t ++ u) = braces t + braces u := by
  unfold braces
  rw [count_append, count_append]
  omega

theorem braces_cons (c : UInt8) (t : Bytes) :
    braces (c :: t) = (if c = 123 then 1 else if c = 125 then -1 else 0) + braces t := by
  unfold braces
  by_cases h₁ : c = 123
  · subst h₁
    simp
    omega
  · by_cases h₂ : c = 125
    · subst h₂
      simp
      omega
    · simp [h₁, h₂]

/-- The braces of a text are balanced at its end and nowhere before it. -/
structure Closes (t : Bytes) : Prop where
  opens : t.head? = some 123
  balanced : braces t = 0
  inside : ∀ k, 0 < k → k < t.length → 0 < braces (t.take k)

instance (t : Bytes) : Decidable (Closes t) :=
  decidable_of_iff
    (t.head? = some 123 ∧ braces t = 0 ∧ ∀ k < t.length, 0 < k → 0 < braces (t.take k))
    ⟨fun h => ⟨h.1, h.2.1, fun k hpos hk => h.2.2 k hk hpos⟩,
      fun h => ⟨h.opens, h.balanced, fun k hk hpos => h.inside k hpos hk⟩⟩

/-- From a positive depth on, the count reaches 0 with the last byte. -/
structure ClosesFrom (depth : Int) (t : Bytes) : Prop where
  balanced : depth + braces t = 0
  inside : ∀ k < t.length, 0 < depth + braces (t.take k)

variable {t : Bytes} {depth : Int} {c : UInt8}

theorem Closes.tail (h : Closes t) : ∃ t', t = 123 :: t' ∧ ClosesFrom 1 t' := by
  obtain ⟨t', rfl⟩ := head?_eq_some_iff.mp h.opens
  have hopen : ∀ u, braces (123 :: u) = 1 + braces u := fun u => by rw [braces_cons, if_pos rfl]
  refine ⟨t', rfl, ?_, fun k hk => ?_⟩
  · rw [← hopen]
    exact h.balanced
  · have hin := h.inside (k + 1) (Nat.succ_pos k) (Nat.succ_lt_succ hk)
    rwa [take_succ_cons, hopen] at hin

theorem closes_cons (h : ClosesFrom 1 t) : Closes (123 :: t) := by
  have hopen : ∀ u, braces (123 :: u) = 1 + braces u := fun u => by rw [braces_cons, if_pos rfl]
  refine ⟨rfl, by rw [hopen]; exact h.balanced, fun k hpos hk => ?_⟩
  obtain ⟨j, rfl⟩ : ∃ j, k = j + 1 := ⟨k - 1, by omega⟩
  rw [take_succ_cons, hopen]
  exact h.inside j (Nat.lt_of_succ_lt_succ hk)

/-- One byte further. -/
theorem ClosesFrom.cons_iff :
    ClosesFrom depth (c :: t) ↔ 0 < depth ∧ ClosesFrom (depth + braces [c]) t := by
  have hstep : ∀ u, depth + braces (c :: u) = depth + braces [c] + braces u := by
    intro u
    have happ := braces_append [c] u
    rw [singleton_append] at happ
    rw [happ]
    omega
  constructor
  · intro h
    refine ⟨by simpa using h.inside 0 (Nat.succ_pos _), ⟨by rw [← hstep]; exact h.balanced, ?_⟩⟩
    intro k hk
    have hin := h.inside (k + 1) (Nat.succ_lt_succ hk)
    rwa [take_succ_cons, hstep] at hin
  · rintro ⟨hpos, h⟩
    refine ⟨by rw [hstep]; exact h.balanced, fun k hk => ?_⟩
    cases k with
    | zero => simpa using hpos
    | succ k =>
      rw [take_succ_cons, hstep]
      exact h.inside k (Nat.lt_of_succ_lt_succ hk)

theorem ClosesFrom.nil_iff : ClosesFrom depth [] ↔ depth = 0 := by
  constructor
  · intro h
    simpa using h.balanced
  · rintro rfl
    exact ⟨rfl, fun k hk => absurd hk (Nat.not_lt_zero k)⟩

/-- Only a closing brace at depth 1 leads to depth 0. -/
theorem depth_pos_of_not_end (hpos : 0 < depth) (h : ¬ (c = 125 ∧ depth = 1)) : 0 < depth + braces [c] := by
  rw [braces_cons, braces_nil]
  split
  · omega
  · split
    · rename_i hclose
      have hne : depth ≠ 1 := fun hd => h ⟨hclose, hd⟩
      omega
    · omega

/-! ## One object -/

/-- The text up to the brace that brings the count back to 0, or all of it. -/
def cutFirst : Int → Bytes → Bytes
  | _, [] => []
  | depth, c :: rest =>
    if c = 123 then c :: cutFirst (depth + 1) rest
    else if c = 125 then
      if depth - 1 = 0 then [c] else c :: cutFirst (depth - 1) rest
    else c :: cutFirst depth rest

theorem cutFirst_prefix (depth : Int) (t : Bytes) : cutFirst depth t <+: t := by
  induction t generalizing depth with
  | nil => exact prefix_rfl
  | cons c t ih =>
    rw [cutFirst]
    split
    · exact (prefix_cons_inj c).mpr (ih _)
    · split
      · split
        · exact (prefix_cons_inj c).mpr nil_prefix
        · exact (prefix_cons_inj c).mpr (ih _)
      · exact (prefix_cons_inj c).mpr (ih _)

theorem cutFirst_cons (h : ¬ (c = 125 ∧ depth = 1)) (rest : Bytes) :
    cutFirst depth (c :: rest) = c :: cutFirst (depth + braces [c]) rest := by
  rw [cutFirst, braces_cons, braces_nil]
  by_cases hopen : c = 123
  · rw [if_pos hopen, if_pos hopen]
    rfl
  · rw [if_neg hopen, if_neg hopen]
    by_cases hclose : c = 125
    · rw [if_pos hclose, if_pos hclose, if_neg (fun hd => h ⟨hclose, by omega⟩)]
      rfl
    · rw [if_neg hclose, if_neg hclose]
      simp

theorem cutFirst_of_closesFrom (h : ClosesFrom depth t) (hpos : 0 < depth)
    (rest : Bytes) : cutFirst depth (t ++ rest) = t := by
  induction t generalizing depth with
  | nil => exact absurd (ClosesFrom.nil_iff.mp h) (by omega)
  | cons c t ih =>
    obtain ⟨-, htail⟩ := ClosesFrom.cons_iff.mp h
    by_cases hend : c = 125 ∧ depth = 1
    · obtain ⟨rfl, rfl⟩ := hend
      cases t with
      | nil => rfl
      | cons d t => exact absurd (ClosesFrom.cons_iff.mp htail).1 (by decide)
    · rw [cons_append, cutFirst_cons hend, ih htail (depth_pos_of_not_end hpos hend)]

theorem cutFirst_of_closes (h : Closes t) (rest : Bytes) : cutFirst 0 (t ++ rest) = t := by
  obtain ⟨t', rfl, htail⟩ := h.tail
  rw [cons_append, cutFirst, if_pos rfl, Int.zero_add, cutFirst_of_closesFrom htail (by decide)]

/-- What is cut out closes, if it is not all. -/
theorem cutFirst_cases (hpos : 0 < depth) (t : Bytes) :
    cutFirst depth t = t ∨ ClosesFrom depth (cutFirst depth t) := by
  induction t generalizing depth with
  | nil => exact Or.inl rfl
  | cons c t ih =>
    by_cases hend : c = 125 ∧ depth = 1
    · obtain ⟨rfl, rfl⟩ := hend
      refine Or.inr ?_
      show ClosesFrom 1 [125]
      exact ClosesFrom.cons_iff.mpr ⟨by decide, ClosesFrom.nil_iff.mpr (by decide)⟩
    · rw [cutFirst_cons hend]
      rcases ih (depth_pos_of_not_end hpos hend) with hall | hcut
      · exact Or.inl (by rw [hall])
      · exact Or.inr (ClosesFrom.cons_iff.mpr ⟨hpos, hcut⟩)

end Packetsonde.Lib
