import Mathlib.Data.List.Sort
import Mathlib.Algebra.BigOperators.Group.List.Basic
import Mathlib.Tactic

/-!
# Search trees by their in-order listing

A balanced tree that implements a map is known by the list of its nodes in the order of their keys.
`treeFind`, `treeInsert` and `treeModify` are the three things a caller does to it: look a key up,
insert a node, and write through the pointer a lookup returned.

The rules are stated for the listing as a whole: what each operation does to the keys, to
membership, and to a sum over the nodes.
-/

namespace Packetsonde.Lib

open List

section

variable {α κ : Type*} (key : α → κ) (cmp : κ → κ → Ordering)

/-- The node with key `k`. -/
def treeFind (k : κ) (t : List α) : Option α :=
  t.find? fun a => cmp k (key a) == .eq

/-- The tree with node `a` put where its key belongs. -/
def treeInsert (a : α) (t : List α) : List α :=
  t.orderedInsert (fun a b => (cmp (key a) (key b)).isLE) a

/-- The tree after `f` was written over the node with key `k`. -/
def treeModify (k : κ) (f : α → α) (t : List α) : List α :=
  t.map fun a => if cmp k (key a) == .eq then f a else a

section Lookup

variable {key cmp} {k : κ} {t : List α} {a : α}

theorem treeFind_cons (k : κ) (a : α) (t : List α) :
    treeFind key cmp k (a :: t) = if cmp k (key a) == .eq then some a else treeFind key cmp k t := by
  unfold treeFind
  rw [find?_cons]
  split <;> simp_all

theorem mem_of_treeFind (h : treeFind key cmp k t = some a) : a ∈ t :=
  mem_of_find?_eq_some h

variable [Std.LawfulEqCmp cmp]

theorem cmp_beq_eq {k k' : κ} : (cmp k k' == .eq) = true ↔ k = k' := by
  rw [beq_iff_eq, Std.LawfulEqCmp.compare_eq_iff_eq]

theorem treeFind_eq_none : treeFind key cmp k t = none ↔ k ∉ t.map key := by
  unfold treeFind
  rw [find?_eq_none, mem_map]
  constructor
  · rintro h ⟨a, ha, rfl⟩
    exact h a ha (cmp_beq_eq.mpr rfl)
  · intro h a ha heq
    exact h ⟨a, ha, (cmp_beq_eq.mp heq).symm⟩

theorem key_of_treeFind (h : treeFind key cmp k t = some a) : key a = k := by
  have hfound : (cmp k (key a) == .eq) = true := by
    unfold treeFind at h
    simpa using find?_some h
  exact (cmp_beq_eq.mp hfound).symm

end Lookup

/-! ## Insertion -/

theorem treeInsert_perm (a : α) (t : List α) : (treeInsert key cmp a t).Perm (a :: t) :=
  perm_orderedInsert _ a t

@[simp] theorem length_treeInsert (a : α) (t : List α) :
    (treeInsert key cmp a t).length = t.length + 1 := by
  rw [(treeInsert_perm key cmp a t).length_eq, length_cons]

@[simp] theorem mem_treeInsert {a b : α} {t : List α} :
    b ∈ treeInsert key cmp a t ↔ b = a ∨ b ∈ t := by
  rw [(treeInsert_perm key cmp a t).mem_iff, mem_cons]

theorem sum_treeInsert {M : Type*} [AddCommMonoid M] (g : α → M) (a : α) (t : List α) :
    ((treeInsert key cmp a t).map g).sum = g a + (t.map g).sum := by
  rw [((treeInsert_perm key cmp a t).map g).sum_eq, map_cons, sum_cons]

theorem nodup_treeInsert {a : α} {t : List α} (hnew : key a ∉ t.map key)
    (ht : (t.map key).Nodup) : ((treeInsert key cmp a t).map key).Nodup := by
  rw [((treeInsert_perm key cmp a t).map key).nodup_iff, map_cons, nodup_cons]
  exact ⟨hnew, ht⟩

section Modify

variable {key cmp}

theorem treeModify_cons (k : κ) (f : α → α) (a : α) (t : List α) :
    treeModify key cmp k f (a :: t) =
      (if cmp k (key a) == .eq then f a else a) :: treeModify key cmp k f t :=
  rfl

@[simp] theorem length_treeModify (k : κ) (f : α → α) (t : List α) :
    (treeModify key cmp k f t).length = t.length := by
  simp [treeModify]

theorem keys_treeModify {k : κ} {f : α → α} (hf : ∀ a, key (f a) = key a) (t : List α) :
    (treeModify key cmp k f t).map key = t.map key := by
  unfold treeModify
  rw [map_map]
  apply map_congr_left
  intro a _
  show key (if _ then f a else a) = key a
  split
  · exact hf a
  · rfl

variable [Std.LawfulEqCmp cmp]

/-- The nodes of the tree are the old ones under other keys, and the written one. -/
theorem mem_treeModify {k : κ} {f : α → α} {t : List α} {b : α} :
    b ∈ treeModify key cmp k f t ↔ (b ∈ t ∧ key b ≠ k) ∨ ∃ a ∈ t, key a = k ∧ b = f a := by
  unfold treeModify
  rw [mem_map]
  constructor
  · rintro ⟨a, ha, rfl⟩
    by_cases hk : k = key a
    · rw [if_pos (cmp_beq_eq.mpr hk)]
      exact .inr ⟨a, ha, hk.symm, rfl⟩
    · rw [if_neg (fun h => hk (cmp_beq_eq.mp h))]
      exact .inl ⟨ha, Ne.symm hk⟩
  · rintro (⟨hb, hk⟩ | ⟨a, ha, hk, rfl⟩)
    · exact ⟨b, hb, if_neg (fun h => hk (cmp_beq_eq.mp h).symm)⟩
    · exact ⟨a, ha, if_pos (cmp_beq_eq.mpr hk.symm)⟩

theorem treeModify_of_not_mem {k : κ} (f : α → α) {t : List α} (hk : k ∉ t.map key) :
    treeModify key cmp k f t = t := by
  unfold treeModify
  conv_rhs => rw [← map_id t]
  apply map_congr_left
  intro a ha
  apply if_neg
  intro h
  exact hk (cmp_beq_eq.mp h ▸ mem_map_of_mem ha)

/-- Writing the one node with key `k` changes a sum over the nodes by what it changes there. -/
theorem sum_treeModify {M : Type*} [AddCommMonoid M] (g : α → M) {k : κ} {f : α → α} {d : M}
    {t : List α} {a : α} (hnodup : (t.map key).Nodup) (ha : treeFind key cmp k t = some a)
    (hg : g (f a) = g a + d) :
    ((treeModify key cmp k f t).map g).sum = (t.map g).sum + d := by
  induction t with
  | nil => cases ha
  | cons b t ih =>
    rw [map_cons, nodup_cons] at hnodup
    by_cases hk : k = key b
    · -- the node is the first one: no other has its key
      rw [treeFind_cons, if_pos (cmp_beq_eq.mpr hk), Option.some.injEq] at ha
      subst ha
      have hrest : treeModify key cmp k f t = t := treeModify_of_not_mem f (hk ▸ hnodup.1)
      rw [treeModify_cons, if_pos (cmp_beq_eq.mpr hk), hrest, map_cons, sum_cons, hg,
        map_cons, sum_cons]
      exact add_right_comm _ _ _
    · have hne : ¬ (cmp k (key b) == .eq) = true := fun h => hk (cmp_beq_eq.mp h)
      rw [treeFind_cons, if_neg hne] at ha
      rw [treeModify_cons, if_neg hne, map_cons, sum_cons, ih hnodup.2 ha, map_cons,
        sum_cons, add_assoc]

end Modify

end

end Packetsonde.Lib
