import Mathlib.Logic.Relation

/-!
# Programs that pass a state and can stop

A stateful routine that either returns a value, stops with an error, or runs out of the step bound
its model was given is a function from a state to an `Outcome` and the state it leaves behind.
The state survives an error: what the routine did before it stopped stays done.

Two ways to reason about such programs, each with a rule for `>>=`:

* `Chain R F U m s`: what the run of `m` from `s` does is a chain of atomic actions of `R`, with an
  action of `F` as the last one where it fails, and ends in `U` where the bound cuts it off. A
  property that the actions preserve survives the whole run (`Chain.invariant`).
* `Triple P m Q E`: a pre- and postcondition, `E` being what holds where `m` stops early.
-/

namespace Packetsonde.Lib

/-- How a program ended: with a value, with an error, or without an answer in the given bound. -/
inductive Outcome (α : Type) where
  | ok (a : α)
  | err
  | fuel
  deriving DecidableEq, Repr

/-- A fallible computation in two parts succeeds when both do. -/
theorem except_bind_eq_ok {ε α β : Type} {x : Except ε α} {f : α → Except ε β} {b : β} :
    (x >>= f) = .ok b ↔ ∃ a, x = .ok a ∧ f a = .ok b := by
  cases x <;> simp [bind, Except.bind]

/-- It fails where the first part does, or else where the second one does. -/
theorem except_bind_eq_error {ε α β : Type} {x : Except ε α} {f : α → Except ε β} {e : ε} :
    (x >>= f) = .error e ↔ x = .error e ∨ ∃ a, x = .ok a ∧ f a = .error e := by
  cases x <;> simp [bind, Except.bind]

/-- A program over the state `S`. -/
def Prog (S α : Type) : Type := S → Outcome α × S

namespace Prog

variable {S S₁ S₂ α β : Type}

instance : Monad (Prog S) where
  pure a := fun s => (.ok a, s)
  bind m f := fun s =>
    match m s with
    | (.ok a, s') => f a s'
    | (.err, s') => (.err, s')
    | (.fuel, s') => (.fuel, s')

def gets (f : S → α) : Prog S α := fun s => (.ok (f s), s)

def modify (f : S → S) : Prog S Unit := fun s => (.ok (), f s)

def fail : Prog S α := fun s => (.err, s)

/-- Give up: the bound on the number of steps is used up. -/
def outOfFuel : Prog S α := fun s => (.fuel, s)

@[simp] theorem run_pure (a : α) (s : S) : (pure a : Prog S α) s = (.ok a, s) := rfl
@[simp] theorem run_gets (f : S → α) (s : S) : gets f s = (.ok (f s), s) := rfl
@[simp] theorem run_modify (f : S → S) (s : S) : modify f s = (.ok (), f s) := rfl
@[simp] theorem run_fail (s : S) : (fail : Prog S α) s = (.err, s) := rfl
@[simp] theorem run_outOfFuel (s : S) : (outOfFuel : Prog S α) s = (.fuel, s) := rfl

theorem run_bind (m : Prog S α) (f : α → Prog S β) (s : S) :
    (m >>= f) s = match m s with
      | (.ok a, s') => f a s'
      | (.err, s') => (.err, s')
      | (.fuel, s') => (.fuel, s') := rfl

/-- Sequencing after a program whose run is known to return. -/
theorem run_bind_ok {m : Prog S α} {f : α → Prog S β} {s s' : S} {a : α}
    (h : m s = (.ok a, s')) : (m >>= f) s = f a s' := by
  rw [run_bind, h]

theorem run_bind_err {m : Prog S α} {f : α → Prog S β} {s s' : S} (h : m s = (.err, s')) :
    (m >>= f) s = (.err, s') := by
  rw [run_bind, h]

theorem run_bind_fuel {m : Prog S α} {f : α → Prog S β} {s : S} (h : (m s).1 = .fuel) :
    ((m >>= f) s).1 = .fuel := by
  rw [run_bind]
  rcases hr : m s with ⟨_ | _ | _, s'⟩ <;> simp_all

/-- Either the first program returned and the second took over, or the first one's early end is
the end of both. -/
theorem run_bind_cases (m : Prog S α) (f : α → Prog S β) (s : S) :
    (∃ a s', m s = (.ok a, s') ∧ (m >>= f) s = f a s') ∨
    (∃ s', m s = (.err, s') ∧ (m >>= f) s = (.err, s')) ∨
    (∃ s', m s = (.fuel, s') ∧ (m >>= f) s = (.fuel, s')) := by
  rw [run_bind]
  rcases m s with ⟨_ | _ | _, s'⟩
  · exact .inl ⟨_, s', rfl, rfl⟩
  · exact .inr (.inl ⟨s', rfl, rfl⟩)
  · exact .inr (.inr ⟨s', rfl, rfl⟩)

/-! ## Runs as chains of actions -/

/-- From `s`, a chain of `R` actions leads to the end state of `r`. Where `r` is an error, one last
action of `F` comes on top; where the bound is used up, the state satisfies `U`. -/
def EndsBy (R F : S → S → Prop) (U : S → Prop) (s : S) (r : Outcome α × S) : Prop :=
  match r with
  | (.ok _, s') => Relation.ReflTransGen R s s'
  | (.err, s') => ∃ t, Relation.ReflTransGen R s t ∧ F t s'
  | (.fuel, s') => Relation.ReflTransGen R s s' ∧ U s'

/-- What the run of `m` from `s` does to the state is such a chain. -/
def Chain (R F : S → S → Prop) (U : S → Prop) (m : Prog S α) (s : S) : Prop :=
  EndsBy R F U s (m s)

section Chain

variable {R F : S → S → Prop} {U : S → Prop} {m : Prog S α} {f : α → Prog S β} {s s' : S} {a : α}

/-- Some actions in front. -/
theorem EndsBy.prepend {r : Outcome α × S} (hs : Relation.ReflTransGen R s s')
    (h : EndsBy R F U s' r) : EndsBy R F U s r := by
  rcases r with ⟨_ | _ | _, t⟩
  · exact hs.trans h
  · obtain ⟨u, hu, hF⟩ := h
    exact ⟨u, hs.trans hu, hF⟩
  · exact ⟨hs.trans h.1, h.2⟩

theorem Chain.of_ok (h : m s = (.ok a, s')) (hR : Relation.ReflTransGen R s s') :
    Chain R F U m s := by
  rw [Chain, h]
  exact hR

theorem Chain.of_err (h : m s = (.err, s')) (hF : F s s') : Chain R F U m s := by
  rw [Chain, h]
  exact ⟨s, .refl, hF⟩

theorem Chain.pure (a : α) (s : S) : Chain R F U (Pure.pure a) s := .of_ok rfl .refl

theorem Chain.outOfFuel (hU : U s) : Chain R F U (outOfFuel : Prog S α) s := by
  rw [Chain, run_outOfFuel]
  exact ⟨.refl, hU⟩

theorem Chain.bind (hm : Chain R F U m s)
    (hf : ∀ a s', m s = (.ok a, s') → Chain R F U (f a) s') : Chain R F U (m >>= f) s := by
  rw [Chain] at hm ⊢
  rcases run_bind_cases m f s with ⟨a, t, h, hb⟩ | ⟨t, h, hb⟩ | ⟨t, h, hb⟩ <;> rw [h] at hm <;>
    rw [hb]
  · exact (hf a t h).prepend hm
  · exact hm
  · exact hm

/-- Sequencing after a program that is some actions long. -/
theorem Chain.ok_bind (h : m s = (.ok a, s')) (hR : Relation.ReflTransGen R s s')
    (hf : Chain R F U (f a) s') : Chain R F U (m >>= f) s := by
  rw [Chain, run_bind_ok h]
  exact EndsBy.prepend hR hf

/-- Sequencing after a single action. -/
theorem Chain.step_bind (h : m s = (.ok a, s')) (hR : R s s') (hf : Chain R F U (f a) s') :
    Chain R F U (m >>= f) s :=
  .ok_bind h (.single hR) hf

/-- Sequencing after a program that leaves the state alone. -/
theorem Chain.read_bind (h : m s = (.ok a, s)) (hf : Chain R F U (f a) s) :
    Chain R F U (m >>= f) s :=
  .ok_bind h .refl hf

/-- A first program that fails is the end of the whole. -/
theorem Chain.err_bind (h : m s = (.err, s')) (hF : F s s') : Chain R F U (m >>= f) s :=
  Chain.bind (.of_err h hF) fun a t ht => by simp [h] at ht

/-- What every action preserves holds at the end of a chain. -/
theorem invariant_of_reachable {I : S → Prop} (hR : ∀ s s', R s s' → I s → I s')
    (h : Relation.ReflTransGen R s s') (hs : I s) : I s' := by
  induction h with
  | refl => exact hs
  | tail _ hstep ih => exact hR _ _ hstep ih

/-- What every action preserves, and every last action turns into `E`, holds where the run ends:
as `I` if it returned, as `E` in any case. -/
theorem Chain.invariant {I E : S → Prop} (h : Chain R F U m s)
    (hR : ∀ s s', R s s' → I s → I s') (hF : ∀ s s', F s s' → I s → E s')
    (hIE : ∀ s, I s → E s) (hs : I s) : E (m s).2 := by
  rw [Chain] at h
  rcases hr : m s with ⟨_ | _ | _, s'⟩ <;> rw [hr] at h
  · exact hIE _ (invariant_of_reachable hR h hs)
  · obtain ⟨t, ht, hlast⟩ := h
    exact hF _ _ hlast (invariant_of_reachable hR ht hs)
  · exact hIE _ (invariant_of_reachable hR h.1 hs)

/-- The invariant itself, and the bound, where the bound cut the run off. -/
theorem Chain.invariant_fuel {I : S → Prop} (h : Chain R F U m s)
    (hR : ∀ s s', R s s' → I s → I s') (hs : I s) (hrun : m s = (.fuel, s')) : I s' ∧ U s' := by
  rw [Chain, hrun] at h
  exact ⟨invariant_of_reachable hR h.1 hs, h.2⟩

end Chain

/-! ## Pre- and postconditions -/

/-- From `P`, the program `m` either returns a value and a state that satisfy `Q`, or stops in a
state that satisfies `E`. -/
def Triple (P : S → Prop) (m : Prog S α) (Q : α → S → Prop) (E : S → Prop) : Prop :=
  ∀ s, P s → match m s with
    | (.ok a, s') => Q a s'
    | (.err, s') => E s'
    | (.fuel, s') => E s'

section Triple

variable {P : S → Prop} {m : Prog S α} {f : α → Prog S β} {E : S → Prop}

theorem Triple.pure {Q : α → S → Prop} {a : α} (h : ∀ s, P s → Q a s) :
    Triple P (Pure.pure a) Q E := h

theorem Triple.gets {g : S → α} {Q : α → S → Prop} (h : ∀ s, P s → Q (g s) s) :
    Triple P (gets g) Q E := h

theorem Triple.modify {g : S → S} {Q : Unit → S → Prop} (h : ∀ s, P s → Q () (g s)) :
    Triple P (modify g) Q E := h

theorem Triple.bind {R : α → S → Prop} {Q : β → S → Prop} (hm : Triple P m R E)
    (hf : ∀ a, Triple (R a) (f a) Q E) : Triple P (m >>= f) Q E := by
  intro s hs
  have h := hm s hs
  rcases run_bind_cases m f s with ⟨a, s', he, hb⟩ | ⟨s', he, hb⟩ | ⟨s', he, hb⟩ <;>
    rw [he] at h <;> rw [hb]
  · exact hf a s' h
  · exact h
  · exact h

end Triple

end Prog

end Packetsonde.Lib
