import Mathlib.Data.List.Basic
import Mathlib.Tactic

/-!
# Ring buffers

A fixed array of `N` slots that is overwritten in a circle: a write index `head` that wraps
and a fill count that saturates at `N`. What such a ring is *for* is remembering the last `N`
elements written, so the abstract view of a ring is its whole write history (a list, oldest
first), and the two are tied by `Ring.Models`.
-/

namespace Packetsonde.Lib

open List hiding Vector

/-- A ring of `N` slots. The write index is a `Fin`, so it never leaves the array. -/
structure Ring (α : Type) (N : Nat) where
  slots : Vector α N
  head : Fin N
  count : Nat
  deriving DecidableEq, Repr

namespace Ring

variable {α : Type} {N : Nat}

/-- A ring nothing has been written to; `z` is what the untouched slots hold. -/
def empty [NeZero N] (z : α) : Ring α N :=
  { slots := Vector.replicate N z, head := 0, count := 0 }

/-- Write `x` at the head, advance the head modulo `N`, saturate the count at `N`. -/
def push (r : Ring α N) (x : α) : Ring α N :=
  { slots := r.slots.set r.head x
    head := ⟨(r.head + 1) % N, Nat.mod_lt _ (Nat.lt_of_le_of_lt (Nat.zero_le _) r.head.isLt)⟩
    count := if r.count < N then r.count + 1 else r.count }

/-- The slots a scan over `0 .. count` reads. -/
def contents (r : Ring α N) : List α :=
  r.slots.toList.take r.count

/-! ## The write history a ring stands for -/

/-- `r` is the ring after writing the elements of `h`, oldest first: the last `N` positions
`k` of the history sit in slot `k % N`. -/
structure Models (r : Ring α N) (h : List α) : Prop where
  head_eq : r.head.val = h.length % N
  count_eq : r.count = min h.length N
  slot_eq : ∀ k (hk : k < h.length), h.length ≤ k + N →
    ∀ hs : k % N < N, r.slots[k % N] = h[k]

theorem models_empty [NeZero N] (z : α) : (empty z : Ring α N).Models [] where
  head_eq := by simp [empty]
  count_eq := by simp [empty]
  slot_eq := by
    intro k hk
    simp at hk

/-- Two history positions less than `N` apart never share a slot. -/
theorem mod_ne_of_lt {k n : Nat} (hkn : k < n) (hn : n < k + N) : k % N ≠ n % N := by
  intro heq
  have hdvd : N ∣ n - k := (Nat.modEq_iff_dvd' (Nat.le_of_lt hkn)).mp heq
  have hle := Nat.le_of_dvd (by omega) hdvd
  omega

theorem models_push {r : Ring α N} {h : List α} (hm : r.Models h) (x : α) :
    (r.push x).Models (h ++ [x]) where
  head_eq := by
    simp only [push, length_append, length_singleton, hm.head_eq]
    exact Nat.mod_add_mod _ _ _
  count_eq := by
    simp only [push, length_append, length_singleton, hm.count_eq]
    split <;> omega
  slot_eq := by
    intro k hk hlast hs
    simp only [length_append, length_singleton] at hk hlast
    simp only [push]
    rcases Nat.lt_or_ge k h.length with hlt | hge
    · -- an older position: its slot is not the one just overwritten
      have hne : k % N ≠ h.length % N := mod_ne_of_lt hlt (by omega)
      rw [getElem_append_left hlt, ← hm.slot_eq k hlt (by omega) hs]
      exact Vector.getElem_set_ne _ _ (by rw [hm.head_eq]; exact fun e => hne e.symm)
    · -- the position just written
      obtain rfl : k = h.length := by omega
      simp only [getElem_concat_length]
      have hhead := hm.head_eq
      simp only [← hhead]
      exact Vector.getElem_set_self _

/-! ## What can be read back -/

/-- An element with fewer than `N` writes after it is still in the ring. -/
theorem mem_contents_of_recent {r : Ring α N} {older newer : List α} {x : α}
    (hm : r.Models (older ++ x :: newer)) (hrecent : newer.length < N) :
    x ∈ r.contents := by
  have hs : older.length % N < N := Nat.mod_lt _ (by omega)
  have hslot := hm.slot_eq older.length (by simp) (by simp; omega) hs
  simp only [getElem_append_right (Nat.le_refl _), Nat.sub_self, getElem_cons_zero]
    at hslot
  have hcount : older.length % N < r.count := by
    rw [hm.count_eq]
    have := Nat.mod_le older.length N
    simp only [length_append, length_cons]
    omega
  rw [← hslot, contents, mem_take_iff_getElem]
  exact ⟨older.length % N, by simp; omega, by simp⟩

/-- Whatever a scan of the ring finds is one of the last `N` elements written. -/
theorem recent_of_mem_contents {r : Ring α N} {h : List α} {x : α}
    (hm : r.Models h) (hx : x ∈ r.contents) :
    ∃ older newer, h = older ++ x :: newer ∧ newer.length < N := by
  rw [contents, mem_take_iff_getElem] at hx
  obtain ⟨i, hi, hget⟩ := hx
  simp only [Vector.length_toList, hm.count_eq] at hi
  have hiN : i < N := by omega
  -- the history position last written to slot `i`
  obtain ⟨k, hk, hlast, hmod⟩ : ∃ k, k < h.length ∧ h.length ≤ k + N ∧ k % N = i := by
    refine ⟨i + N * ((h.length - 1 - i) / N), ?_, ?_, ?_⟩
    · have := Nat.mul_div_le (h.length - 1 - i) N
      omega
    · have := Nat.lt_mul_div_succ (h.length - 1 - i) (show 0 < N by omega)
      rw [Nat.mul_add] at this
      omega
    · rw [Nat.add_mul_mod_self_left, Nat.mod_eq_of_lt hiN]
  have hslot := hm.slot_eq k hk hlast (by omega)
  have hxk : h[k] = x := by
    rw [← hslot, ← hget]
    simp [hmod]
  refine ⟨h.take k, h.drop (k + 1), ?_, by simp; omega⟩
  rw [← hxk]
  exact (take_append_drop k h).symm.trans (by rw [drop_eq_getElem_cons hk])

end Ring

end Packetsonde.Lib
