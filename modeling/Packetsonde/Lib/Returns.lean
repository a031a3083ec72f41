import Mathlib.Logic.Basic

/-!
# Computations that may fault

Where a model reads memory through checked accesses, `none` is a fault. `Returns m Q` says that `m` does not
fault and that what it returns has the property `Q`; `Returns.bind` is the rule for sequences.
-/

namespace Packetsonde.Lib

variable {α β : Type} {m : Option α} {a : α} {P Q : α → Prop}

/-- No fault, and a result with the property. -/
def Returns (m : Option α) (Q : α → Prop) : Prop := ∃ a, m = some a ∧ Q a

namespace Returns

theorem some (h : Q a) : Returns (Option.some a) Q := ⟨a, rfl, h⟩

theorem mono (h : Returns m P) (hPQ : ∀ a, P a → Q a) : Returns m Q := by
  obtain ⟨a, hm, ha⟩ := h
  exact ⟨a, hm, hPQ a ha⟩

theorem bind {k : α → Option β} {R : β → Prop} (h : Returns m P) (hk : ∀ a, P a → Returns (k a) R) :
    Returns (m >>= k) R := by
  obtain ⟨a, rfl, ha⟩ := h
  exact hk a ha

theorem map {f : α → β} {R : β → Prop} (h : Returns m P) (hf : ∀ a, P a → R (f a)) : Returns (m.map f) R := by
  obtain ⟨a, rfl, ha⟩ := h
  exact ⟨f a, rfl, hf a ha⟩

/-- A read inside the array. -/
theorem read {b : List α} {p : Nat} (h : p < b.length) : Returns b[p]? fun c => b[p]? = Option.some c :=
  ⟨b[p], List.getElem?_eq_getElem h, List.getElem?_eq_getElem h⟩

end Returns

end Packetsonde.Lib
