import Packetsonde.Lib.Prog
import Packetsonde.Recipe.Build

/-!
# What the schema walker has checked

`build_step` types every binding a recipe declares and every use of one. `Step.Checked` is what it
has verified about a step under the declarations before it, and `buildSteps_ok` says that a parsed
recipe is checked and that the walker's table is exactly the list of its declarations
(`stepsDecls`), in order. `StaticRun` takes it from there.
-/

namespace Packetsonde.Recipe

open Packetsonde.Lib

/-! ## Checked steps -/

mutual

/-- A step whose binding fields have the types the opcode needs, under the declarations `Γ`. -/
def Step.Checked (Γ : List (Bytes × Bt)) : Step → Prop
  | .connect _ _ _ _ _ => True
  | .send conn _ => typeIn Γ conn = .conn
  | .recv conn _ _ _ => typeIn Γ conn = .conn
  | .close conn => typeIn Γ conn = .conn
  | .matchIn in_ _ _ => typeIn Γ in_ = .bytes ∨ typeIn Γ in_ = .string
  | .matchAny any _ _ => typeIn Γ any = .strlist
  | .if_ _ then_ => StepsChecked Γ then_
  | .emit _ _ _ _ _ => True
  | .tlsUpgrade conn _ _ _ => typeIn Γ conn = .conn
  | .tlsEnum _ _ _ _ _ => True

/-- Each step under the declarations of those before it. -/
def StepsChecked (Γ : List (Bytes × Bt)) : List Step → Prop
  | [] => True
  | s :: ss => s.Checked Γ ∧ StepsChecked (Γ ++ s.decls) ss

end

/-! ## The walker -/

variable {t t' : BtTable} {o : Jv} {r : Step × BtTable} {schema : Int32}

theorem btDeclare_ok {name : Bytes} {ty : Bt}
    (h : btDeclare t name ty = .ok t') : t'.e = t.e ++ [(name, ty)] := by
  rw [btDeclare] at h
  split at h
  · simp at h
  · split at h
    · simp at h
    · obtain rfl := Except.ok.inj h
      rfl

theorem btDeclareAll_ok {decls : List (Bytes × Bt)}
    (h : btDeclareAll t decls = .ok t') : t'.e = t.e ++ decls := by
  induction decls generalizing t with
  | nil =>
    obtain rfl := Except.ok.inj h
    simp
  | cons d decls ih =>
    obtain ⟨t₁, h₁, h₂⟩ := except_bind_eq_ok.mp h
    rw [ih h₂, btDeclare_ok h₁, List.append_assoc]
    rfl

theorem connField_ok {ctx conn : Bytes} (h : connField o t ctx = .ok conn) : typeIn t.e conn = .conn := by
  obtain ⟨c, -, h⟩ := except_bind_eq_ok.mp h
  split at h
  · simp at h
  · rename_i hty
    obtain rfl := Except.ok.inj h
    exact not_not.mp hty

/-- What one step's walk yields: a checked step, and its declarations at the end of the table. -/
def StepBuilt (t : BtTable) (r : Step × BtTable) : Prop :=
  r.1.Checked t.e ∧ r.2.e = t.e ++ r.1.decls

theorem buildConnect_ok {op : Bytes} (h : buildConnect op o t = .ok r) : StepBuilt t r := by
  simp only [buildConnect, except_bind_eq_ok] at h
  obtain ⟨_, -, _, -, _, -, _, -, _, -, out, -, t', hdecl, h⟩ := h
  obtain rfl := Except.ok.inj h
  exact ⟨trivial, btDeclare_ok hdecl⟩

theorem buildSend_ok (h : buildSend o t = .ok r) :
    StepBuilt t r := by
  simp only [buildSend, except_bind_eq_ok] at h
  obtain ⟨conn, hconn, _, -, h⟩ := h
  obtain rfl := Except.ok.inj h
  exact ⟨connField_ok hconn, (List.append_nil _).symm⟩

theorem buildRecv_ok (h : buildRecv o t = .ok r) :
    StepBuilt t r := by
  simp only [buildRecv, except_bind_eq_ok] at h
  obtain ⟨conn, hconn, _, -, _, -, out, -, t', hdecl, h⟩ := h
  obtain rfl := Except.ok.inj h
  exact ⟨connField_ok hconn, btDeclare_ok hdecl⟩

theorem buildClose_ok (h : buildClose o t = .ok r) :
    StepBuilt t r := by
  simp only [buildClose, except_bind_eq_ok] at h
  obtain ⟨conn, hconn, h⟩ := h
  obtain rfl := Except.ok.inj h
  exact ⟨connField_ok hconn, (List.append_nil _).symm⟩

theorem buildMatchAny_ok (h : buildMatchAny schema o t = .ok r) : StepBuilt t r := by
  rw [buildMatchAny] at h
  split at h
  · simp at h
  obtain ⟨any, -, h⟩ := except_bind_eq_ok.mp h
  split at h
  · simp at h
  rename_i hty
  obtain ⟨regex, -, h⟩ := except_bind_eq_ok.mp h
  split at h
  · obtain rfl := Except.ok.inj h
    exact ⟨not_not.mp hty, (List.append_nil _).symm⟩
  · obtain ⟨t', hdecl, h⟩ := except_bind_eq_ok.mp h
    obtain rfl := Except.ok.inj h
    exact ⟨not_not.mp hty, btDeclare_ok hdecl⟩

theorem buildCaptures_ok {items : List Jv} {i : Nat} {cs : List Capture}
    (h : buildCaptures i items t = .ok (cs, t')) :
    t'.e = t.e ++ cs.map fun c => (c.name, c.as.bt) := by
  induction items generalizing i t cs with
  | nil =>
    simp only [buildCaptures, Except.ok.injEq, Prod.mk.injEq] at h
    obtain ⟨rfl, rfl⟩ := h
    simp
  | cons item items ih =>
    cases item with
    | obj ms =>
      simp only [buildCaptures, except_bind_eq_ok] at h
      obtain ⟨name, -, asS, -, as, -, t₁, hdecl, ⟨cs', t₂⟩, hrest, h⟩ := h
      simp only [Except.ok.injEq, Prod.mk.injEq] at h
      obtain ⟨rfl, rfl⟩ := h
      rw [ih hrest, btDeclare_ok hdecl]
      simp
    | _ => simp [buildCaptures] at h

theorem buildMatchIn_ok (h : buildMatchIn o t = .ok r) : StepBuilt t r := by
  obtain ⟨in_, -, h⟩ := except_bind_eq_ok.mp h
  split at h
  · simp at h
  rename_i hty
  have hchecked : typeIn t.e in_ = .bytes ∨ typeIn t.e in_ = .string := by
    by_contra hne
    exact hty (not_or.mp hne)
  obtain ⟨regex, -, h⟩ := except_bind_eq_ok.mp h
  split at h
  · obtain rfl := Except.ok.inj h
    exact ⟨hchecked, (List.append_nil _).symm⟩
  · obtain ⟨⟨cs, t'⟩, hcaps, h⟩ := except_bind_eq_ok.mp h
    obtain rfl := Except.ok.inj h
    exact ⟨hchecked, buildCaptures_ok hcaps⟩
  · simp at h

theorem buildEmit_ok {kindPrefix : Bytes} (h : buildEmit kindPrefix o t = .ok r) : StepBuilt t r := by
  simp only [buildEmit, except_bind_eq_ok] at h
  obtain ⟨_, -, _, -, _, -, _, -, h⟩ := h
  split at h
  · simp at h
  split at h
  · simp at h
  simp only [except_bind_eq_ok] at h
  obtain ⟨_, -, _, -, h⟩ := h
  split at h
  · obtain rfl := Except.ok.inj h
    exact ⟨trivial, (List.append_nil _).symm⟩
  · obtain ⟨_, -, h⟩ := except_bind_eq_ok.mp h
    obtain rfl := Except.ok.inj h
    exact ⟨trivial, (List.append_nil _).symm⟩
  · simp at h

theorem buildTlsUpgrade_ok (h : buildTlsUpgrade schema o t = .ok r) : StepBuilt t r := by
  rw [buildTlsUpgrade] at h
  split at h
  · simp at h
  simp only [except_bind_eq_ok] at h
  obtain ⟨conn, hconn, _, -, _, -, _, -, t', hdecl, h⟩ := h
  obtain rfl := Except.ok.inj h
  exact ⟨connField_ok hconn, btDeclareAll_ok hdecl⟩

theorem buildTlsEnum_ok (h : buildTlsEnum schema o t = .ok r) : StepBuilt t r := by
  rw [buildTlsEnum] at h
  split at h
  · simp at h
  simp only [except_bind_eq_ok] at h
  obtain ⟨_, -, _, -, _, -, _, -, _, -, _, -, t', hdecl, h⟩ := h
  obtain rfl := Except.ok.inj h
  exact ⟨trivial, btDeclareAll_ok hdecl⟩

mutual

/-- A step that is built is checked, whatever is nested in it. -/
theorem buildStep_ok (schema : Int32) (kindPrefix : Bytes) :
    ∀ (o : Jv) (t : BtTable) (r : Step × BtTable),
      buildStep schema kindPrefix o t = .ok r → StepBuilt t r
  | .obj ms, t, r, h => by
    rw [buildStep] at h
    obtain ⟨op, -, h⟩ := except_bind_eq_ok.mp h
    split at h
    · exact buildConnect_ok h
    split at h
    · exact buildSend_ok h
    split at h
    · exact buildRecv_ok h
    split at h
    · exact buildClose_ok h
    split at h
    · rw [buildMatch] at h
      split at h
      · exact buildMatchAny_ok h
      · exact buildMatchIn_ok h
    split at h
    · exact buildEmit_ok h
    split at h
    · obtain ⟨cond, -, h⟩ := except_bind_eq_ok.mp h
      obtain ⟨⟨then_, t'⟩, hthen, h⟩ := except_bind_eq_ok.mp h
      obtain rfl := Except.ok.inj h
      exact buildThen_ok schema kindPrefix ms t _ hthen
    split at h
    · exact buildTlsUpgrade_ok h
    split at h
    · exact buildTlsEnum_ok h
    · simp at h
  | .null, _, _, h => by simp [buildStep] at h
  | .bool _, _, _, h => by simp [buildStep] at h
  | .int _, _, _, h => by simp [buildStep] at h
  | .str _, _, _, h => by simp [buildStep] at h
  | .arr _, _, _, h => by simp [buildStep] at h

theorem buildThen_ok (schema : Int32) (kindPrefix : Bytes) :
    ∀ (ms : List (Bytes × Jv)) (t : BtTable) (r : List Step × BtTable),
      buildThen schema kindPrefix ms t = .ok r →
        StepsChecked t.e r.1 ∧ r.2.e = t.e ++ stepsDecls r.1
  | [], _, _, h => by simp [buildThen] at h
  | (key, v) :: ms, t, r, h => by
    rw [buildThen] at h
    split at h
    · exact buildStepsArray_ok schema kindPrefix v t r h
    · exact buildThen_ok schema kindPrefix ms t r h

theorem buildStepsArray_ok (schema : Int32) (kindPrefix : Bytes) :
    ∀ (v : Jv) (t : BtTable) (r : List Step × BtTable),
      buildStepsArray schema kindPrefix v t = .ok r →
        StepsChecked t.e r.1 ∧ r.2.e = t.e ++ stepsDecls r.1
  | .arr items, t, r, h => by
    rw [buildStepsArray] at h
    exact buildSteps_ok schema kindPrefix items t r h
  | .null, _, _, h => by simp [buildStepsArray] at h
  | .bool _, _, _, h => by simp [buildStepsArray] at h
  | .int _, _, _, h => by simp [buildStepsArray] at h
  | .str _, _, _, h => by simp [buildStepsArray] at h
  | .obj _, _, _, h => by simp [buildStepsArray] at h

/-- **What the walker accepts is checked**, and its table is the list of the declarations. -/
theorem buildSteps_ok (schema : Int32) (kindPrefix : Bytes) :
    ∀ (items : List Jv) (t : BtTable) (r : List Step × BtTable),
      buildSteps schema kindPrefix items t = .ok r →
        StepsChecked t.e r.1 ∧ r.2.e = t.e ++ stepsDecls r.1
  | [], t, r, h => by
    rw [buildSteps] at h
    obtain rfl := Except.ok.inj h
    exact ⟨trivial, (List.append_nil _).symm⟩
  | o :: os, t, r, h => by
    rw [buildSteps] at h
    obtain ⟨⟨s, t₁⟩, hs, h⟩ := except_bind_eq_ok.mp h
    obtain ⟨⟨ss, t₂⟩, hss, h⟩ := except_bind_eq_ok.mp h
    obtain rfl := Except.ok.inj h
    obtain ⟨hchecked, htable⟩ := buildStep_ok schema kindPrefix o t _ hs
    obtain ⟨hrest, htable'⟩ := buildSteps_ok schema kindPrefix os t₁ _ hss
    dsimp only at hchecked htable hrest htable'
    refine ⟨⟨hchecked, htable ▸ hrest⟩, ?_⟩
    rw [htable', htable, List.append_assoc]
    rfl

end

end Packetsonde.Recipe
