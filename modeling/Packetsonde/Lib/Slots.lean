import Mathlib.Data.List.Nodup
import Mathlib.Data.Set.Disjoint
import Mathlib.Logic.Function.Basic
import Mathlib.Logic.Pairwise
import Mathlib.Order.CompletePartialOrder
import Mathlib.Data.Set.Lattice

/-!
# Slots and their outputs

A module with a fixed number of slots hands out values, each for one of its slots. `ofSlot` picks
those of one slot, in order.

Slots may also own things, and no two the same: `pairwise_disjoint_update_iff` is what has to be looked
at when one slot's things change.
-/

namespace Packetsonde.Lib

section Contents

variable {n : Nat} {α β : Type*}

theorem get_set_slot (v : Vector α n) (j i : Fin n) (a : α) :
    (v.set j a j.isLt).get i = if j = i then a else v.get i := by
  by_cases h : j = i
  · subst h
    rw [if_pos rfl]
    exact Vector.getElem_set_self j.isLt
  · rw [if_neg h]
    exact Vector.getElem_set_ne _ _ fun heq => h (Fin.ext heq)

/-- A property of the contents, after one was replaced. -/
theorem get_set_update (v : Vector α n) (j : Fin n) (a : α) (f : α → β) :
    (fun i => f ((v.set j a j.isLt).get i)) = Function.update (fun i => f (v.get i)) j (f a) := by
  funext i
  rw [get_set_slot]
  by_cases h : j = i
  · subst h
    rw [if_pos rfl, Function.update_self]
  · rw [if_neg h, Function.update_of_ne (Ne.symm h)]

@[simp] theorem get_map_slot (v : Vector α n) (f : α → β) (i : Fin n) : (v.map f).get i = f (v.get i) :=
  Vector.getElem_map f i.isLt

@[simp] theorem get_ofFn_slot (f : Fin n → α) (i : Fin n) : (Vector.ofFn f).get i = f i :=
  Vector.getElem_ofFn i.isLt

@[simp] theorem get_replicate_slot (a : α) (i : Fin n) : (Vector.replicate n a).get i = a :=
  Vector.getElem_replicate i.isLt

end Contents

section Owners

variable {ι α : Type*} [DecidableEq ι] {own : ι → Set α} {k : ι} {s : Set α}

/-- Only the slot that changes has to be compared with the others. -/
theorem pairwise_disjoint_update_iff (h : Pairwise (Function.onFun Disjoint own)) :
    Pairwise (Function.onFun Disjoint (Function.update own k s)) ↔
      ∀ j, j ≠ k → Disjoint s (own j) := by
  constructor
  · intro hup j hj
    have hd : Disjoint (Function.update own k s k) (Function.update own k s j) := hup hj.symm
    rwa [Function.update_self, Function.update_of_ne hj] at hd
  · intro hs i j hij
    show Disjoint (Function.update own k s i) (Function.update own k s j)
    by_cases hi : i = k
    · subst hi
      rw [Function.update_self, Function.update_of_ne hij.symm]
      exact hs j hij.symm
    · rw [Function.update_of_ne hi]
      by_cases hj : j = k
      · subst hj
        rw [Function.update_self]
        exact (hs i hi).symm
      · rw [Function.update_of_ne hj]
        exact h hij

end Owners

/-! ## Outputs -/

variable {ι α : Type*} [DecidableEq ι] {i : ι}

def ofSlot (i : ι) (outs : List (ι × α)) : List α :=
  (outs.filter fun p => p.1 = i).map Prod.snd

theorem mem_ofSlot {outs : List (ι × α)} {a : α} : a ∈ ofSlot i outs ↔ (i, a) ∈ outs := by
  unfold ofSlot
  constructor
  · intro h
    obtain ⟨⟨j, a'⟩, hmem, rfl⟩ := List.mem_map.mp h
    obtain ⟨hmem, hj⟩ := List.mem_filter.mp hmem
    rw [show j = i from of_decide_eq_true hj] at hmem
    exact hmem
  · intro h
    exact List.mem_map.mpr ⟨(i, a), List.mem_filter.mpr ⟨h, decide_eq_true rfl⟩, rfl⟩

theorem ofSlot_append (outs outs' : List (ι × α)) :
    ofSlot i (outs ++ outs') = ofSlot i outs ++ ofSlot i outs' := by
  unfold ofSlot
  rw [List.filter_append, List.map_append]

/-- Values all for one slot. -/
theorem ofSlot_tagged (j : ι) (outs : List α) :
    ofSlot i (outs.map fun a => (j, a)) = if j = i then outs else [] := by
  unfold ofSlot
  rw [List.filter_map, List.map_map]
  by_cases h : j = i
  · rw [if_pos h]
    simp [Function.comp_def, h]
  · rw [if_neg h]
    simp [Function.comp_def, h]

/-- Every slot in turn hands out its own. -/
theorem ofSlot_flatMap (f : ι → List α) {js : List ι} (hnodup : js.Nodup) (hmem : i ∈ js) :
    ofSlot i (js.flatMap fun j => (f j).map fun a => (j, a)) = f i := by
  induction js with
  | nil => cases hmem
  | cons j js ih =>
    rw [List.flatMap_cons, ofSlot_append, ofSlot_tagged]
    obtain ⟨hj, hnodup⟩ := List.nodup_cons.mp hnodup
    by_cases h : j = i
    · subst h
      -- the other slots have other numbers
      have hrest : ofSlot j (js.flatMap fun k => (f k).map fun a => (k, a)) = [] := by
        rw [List.eq_nil_iff_forall_not_mem]
        intro a ha
        obtain ⟨k, hk, hp⟩ := List.mem_flatMap.mp (mem_ofSlot.mp ha)
        obtain ⟨a', -, heq⟩ := List.mem_map.mp hp
        cases heq
        exact hj hk
      rw [if_pos rfl, hrest, List.append_nil]
    · rw [if_neg h, List.nil_append]
      exact ih hnodup ((List.mem_cons.mp hmem).resolve_left fun heq => h heq.symm)

end Packetsonde.Lib
