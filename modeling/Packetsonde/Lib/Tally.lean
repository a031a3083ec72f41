import Mathlib.Data.List.Induction
import Mathlib.Data.List.Nodup

/-!
# Tallies: how often each key was seen, in the order of the first sight

A program that counts keys in two parallel arrays looks a key up from the front, opens a new place
behind the others if it is not there, and counts the place up. `tally` is the table after a whole list
of keys. Its keys are those of the list, each once, and each has the number of its occurrences
(`tally_eq`), so a look-up in the table finds that number (`find_tally`).
-/

namespace Packetsonde.Lib

open List

variable {α : Type} [BEq α] [LawfulBEq α]

theorem eraseDups_concat (l : List α) (x : α) :
    (l ++ [x]).eraseDups = if x ∈ l then l.eraseDups else l.eraseDups ++ [x] := by
  rw [eraseDups_append]
  by_cases hx : x ∈ l
  · rw [if_pos hx]
    simp [List.removeAll, hx]
  · have hnew : [x].removeAll l = [x] := by simp [List.removeAll, hx]
    rw [if_neg hx, hnew]
    rfl

theorem nodup_eraseDups (l : List α) : l.eraseDups.Nodup := by
  induction l using List.reverseRecOn with
  | nil => exact nodup_nil
  | append_singleton l x ih =>
    rw [eraseDups_concat]
    by_cases hx : x ∈ l
    · rw [if_pos hx]
      exact ih
    · rw [if_neg hx]
      exact nodup_append.mpr ⟨ih, nodup_singleton x, fun y hy z hz => by
        rw [mem_singleton.mp hz]
        exact fun h => hx (mem_eraseDups.mp (h ▸ hy))⟩

variable [DecidableEq α]

def bump (k : α) : List (α × Nat) → List (α × Nat)
  | [] => [(k, 1)]
  | (a, n) :: t => if a = k then (a, n + 1) :: t else (a, n) :: bump k t

def tally (ks : List α) : List (α × Nat) := ks.foldl (fun t k => bump k t) []

/-- A table of distinct keys after one more is counted. -/
theorem bump_map {ks : List α} (hks : ks.Nodup) (c : α → Nat) (k : α) :
    bump k (ks.map fun x => (x, c x)) =
      if k ∈ ks then ks.map (fun x => (x, if x = k then c x + 1 else c x))
      else ks.map (fun x => (x, c x)) ++ [(k, 1)] := by
  induction ks with
  | nil => rfl
  | cons x ks ih =>
    obtain ⟨hx, hks⟩ := nodup_cons.mp hks
    rw [map_cons, bump]
    by_cases hxk : x = k
    · subst hxk
      have hrest : ks.map (fun y => (y, if y = x then c y + 1 else c y)) = ks.map fun y => (y, c y) := by
        refine map_congr_left fun y hy => ?_
        have hne : y ≠ x := fun h => hx (h ▸ hy)
        rw [if_neg hne]
      rw [if_pos rfl, if_pos mem_cons_self, map_cons, if_pos rfl, hrest]
    · have hmem : k ∈ x :: ks ↔ k ∈ ks := by
        rw [mem_cons, or_iff_right fun h => hxk h.symm]
      rw [if_neg hxk, ih hks]
      by_cases hk : k ∈ ks
      · rw [if_pos hk, if_pos (hmem.mpr hk), map_cons, if_neg hxk]
      · rw [if_neg hk, if_neg fun h => hk (hmem.mp h), cons_append]

/-- The keys in the order in which they first come, each with the number of its occurrences. -/
theorem tally_eq (ks : List α) : tally ks = ks.eraseDups.map fun k => (k, ks.count k) := by
  induction ks using List.reverseRecOn with
  | nil => rfl
  | append_singleton ks k ih =>
    have hstep : tally (ks ++ [k]) = bump k (tally ks) := by simp [tally]
    have hcount (x : α) : (ks ++ [k]).count x = if x = k then ks.count x + 1 else ks.count x := by
      rw [count_append, count_singleton]
      by_cases hx : x = k
      · simp [hx]
      · simp [hx, Ne.symm hx]
    rw [hstep, ih, bump_map (nodup_eraseDups _), eraseDups_concat]
    simp only [hcount]
    by_cases hk : k ∈ ks
    · rw [if_pos (mem_eraseDups.mpr hk), if_pos hk]
    · have hold : (ks.eraseDups.map fun x => (x, if x = k then ks.count x + 1 else ks.count x)) =
          ks.eraseDups.map fun x => (x, ks.count x) := by
        refine map_congr_left fun x hx => ?_
        have hne : x ≠ k := fun h => hk (h ▸ mem_eraseDups.mp hx)
        rw [if_neg hne]
      rw [if_neg fun h => hk (mem_eraseDups.mp h), if_neg hk, map_append, hold,
        map_singleton, if_pos rfl, count_eq_zero.mpr hk]

theorem nodup_tally (ks : List α) : ((tally ks).map Prod.fst).Nodup := by
  rw [tally_eq, map_map]
  exact (map_id ks.eraseDups).symm ▸ nodup_eraseDups ks

theorem mem_tally {ks : List α} {a : α} {n : Nat} : (a, n) ∈ tally ks ↔ a ∈ ks ∧ n = ks.count a := by
  simp only [tally_eq, mem_map, mem_eraseDups, Prod.mk.injEq]
  constructor
  · rintro ⟨k, hk, rfl, rfl⟩
    exact ⟨hk, rfl⟩
  · rintro ⟨ha, rfl⟩
    exact ⟨a, ha, rfl, rfl⟩

/-- A look-up in the table finds a key's count. -/
theorem find_tally {ks : List α} {k : α} (hk : k ∈ ks) :
    (tally ks).find? (·.1 == k) = some (k, ks.count k) := by
  obtain ⟨⟨a, n⟩, he⟩ : ∃ e, (tally ks).find? (·.1 == k) = some e := by
    rw [← Option.isSome_iff_exists, find?_isSome]
    exact ⟨(k, ks.count k), mem_tally.mpr ⟨hk, rfl⟩, BEq.rfl⟩
  have hak : a = k := by simpa using find?_some he
  have hn := (mem_tally.mp (mem_of_find?_eq_some he)).2
  rw [he, hn, hak]

end Packetsonde.Lib
