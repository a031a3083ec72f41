import Mathlib.Logic.Basic

/-!
# Infinite runs, and what they must come to

A run is a state for every time, made by a step function from a schedule of events. `LeadsTo P Q` says that
whenever `P` holds, `Q` holds then or later. It is proved of one kind of event that happens again and again
(`leadsTo_of_fair`), and put together by transitivity.
-/

namespace Packetsonde.Lib

section Runs

variable {S E : Type} (step : S → E → S) (s₀ : S) (sched : Nat → E)

def runAt : Nat → S
  | 0 => s₀
  | n + 1 => step (runAt n) (sched n)

/-- An event of a kind happens again and again. -/
def Recurs (F : E → Prop) : Prop := ∀ n, ∃ m, n ≤ m ∧ F (sched m)

end Runs

section LeadsTo

variable {S E : Type} {r : Nat → S} {P Q R : S → Prop}

/-- Whenever `P` holds, `Q` holds then or later. -/
def LeadsTo (r : Nat → S) (P Q : S → Prop) : Prop := ∀ n, P (r n) → ∃ m, n ≤ m ∧ Q (r m)

theorem LeadsTo.trans (h : LeadsTo r P Q) (h' : LeadsTo r Q R) : LeadsTo r P R := by
  intro n hn
  obtain ⟨m, hnm, hm⟩ := h n hn
  obtain ⟨k, hmk, hk⟩ := h' m hm
  exact ⟨k, Nat.le_trans hnm hmk, hk⟩

/-- What every step keeps, unless it comes to `Q`, holds until `Q` does. -/
theorem holds_until (hkeep : ∀ n, P (r n) → P (r (n + 1)) ∨ Q (r (n + 1))) {n m : Nat} (hnm : n ≤ m)
    (hn : P (r n)) : P (r m) ∨ ∃ k, n ≤ k ∧ Q (r k) := by
  induction hnm with
  | refl => exact .inl hn
  | @step m hle ih =>
    rcases ih with hm | hq
    · exact (hkeep m hm).imp id fun hq => ⟨m + 1, Nat.le_succ_of_le hle, hq⟩
    · exact .inr hq

/-- The first time from `n` on. -/
theorem exists_first {T : Nat → Prop} {n m : Nat} (hnm : n ≤ m) (hm : T m) :
    ∃ k, n ≤ k ∧ T k ∧ ∀ j, n ≤ j → j < k → ¬ T j := by
  induction m using Nat.strongRecOn with
  | ind m ih =>
    by_cases hearlier : ∃ j, n ≤ j ∧ j < m ∧ T j
    · obtain ⟨j, hnj, hjm, hj⟩ := hearlier
      exact ih j hjm hnj hj
    · exact ⟨m, hnm, hm, fun j hnj hjm hj => hearlier ⟨j, hnj, hjm, hj⟩⟩

/-- An event that happens again and again comes to `Q`, and the others keep `P` or come to `Q`. -/
theorem leadsTo_of_fair {sched : Nat → E} {F : E → Prop} (hfair : Recurs sched F)
    (hkeep : ∀ n, P (r n) → P (r (n + 1)) ∨ Q (r (n + 1)))
    (hgo : ∀ n, P (r n) → F (sched n) → Q (r (n + 1))) : LeadsTo r P Q := by
  intro n hn
  obtain ⟨m, hnm, hm⟩ := hfair n
  rcases holds_until hkeep hnm hn with hp | hq
  · exact ⟨m + 1, Nat.le_succ_of_le hnm, hgo m hp hm⟩
  · exact hq

end LeadsTo

end Packetsonde.Lib
