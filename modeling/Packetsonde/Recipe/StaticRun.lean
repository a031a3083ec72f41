import Packetsonde.Recipe.Actions
import Packetsonde.Recipe.Static

/-!
# The static check of recipes is sound

The interpreter keeps its own table of bindings and looks names up again. While a checked recipe
runs, the names and types bound so far are a sublist of what has been declared so far: steps that
are skipped, matches without a match and failed handshakes only leave names out
(`runSteps_typed`).

From that follows that nothing is bound twice, that the table of 64 never overflows, and that a
lookup which finds something finds it with its declared type (`static_check_sound`).
-/

namespace Packetsonde.Recipe

open Packetsonde.Lib
open Packetsonde.Lib.Prog
open List

variable {σ α β : Type}

/-! ## Diagnostics that say nothing about types -/

/-- Whatever the computation fails with is of the given kind. -/
def Raises {ε : Type} (p : ε → Prop) (x : Except ε α) : Prop := ∀ e, x = .error e → p e

section Raises

variable {ε : Type} {p : ε → Prop} {x : Except ε α} {f : α → Except ε β}

theorem Raises.ok (a : α) : Raises p (.ok a) := fun _ h => nomatch h

theorem Raises.error {e : ε} (h : p e) : Raises p (.error e : Except ε α) :=
  fun _ he => Except.error.inj he ▸ h

theorem Raises.bind (hx : Raises p x) (hf : ∀ a, Raises p (f a)) : Raises p (x >>= f) := by
  intro e h
  rcases except_bind_eq_error.mp h with h | ⟨a, -, h⟩
  · exact hx e h
  · exact hf a e h

end Raises

variable {target : Target} {bs : List RtBinding} {name tmpl out : Bytes} {e : RtErr} {ref : Ref} {cap : Nat}
    {fs : List EmitField} {ty : Bt}

def Silent (e : RtErr) : Prop := e.aboutTypes = false

/-- The same where a failure may come without a diagnostic. -/
def AllSilent (e : Option RtErr) : Prop := ∀ e' ∈ e, Silent e'

theorem Raises.mapError {x : Except RtErr α} (hx : Raises Silent x) : Raises AllSilent (x.mapError some) := by
  cases x with
  | ok a => exact .ok a
  | error e => exact .error fun e' he => hx e' (congrArg _ (Option.some.inj he))

theorem renderBinding_silent : Raises Silent (renderBinding target bs name) := by
  rw [renderBinding]
  split
  · exact .ok _
  split
  · exact .ok _
  split <;> first | exact .ok _ | exact .error rfl

theorem expandFrom_silent {fuel : Nat} : Raises Silent (expandFrom target bs fuel tmpl) := by
  induction fuel generalizing tmpl with
  | zero => exact .ok _
  | succ fuel ih =>
    cases tmpl with
    | nil => exact .ok _
    | cons c p =>
      rw [expandFrom]
      split
      · exact ih.bind fun _ => .ok _
      split
      · exact ih.bind fun _ => .ok _
      split
      · exact .error rfl
      split
      · exact .error rfl
      exact renderBinding_silent.bind fun _ => ih.bind fun _ => .ok _

theorem expandTemplate_silent : Raises Silent (expandTemplate target bs tmpl) := by
  rw [expandTemplate]
  split
  · exact expandFrom_silent
  · exact .ok _

theorem wholeInt_silent {text : Bytes} (h : Silent e) : Raises Silent (wholeInt text e) := by
  rw [wholeInt]
  split
  · exact .ok _
  · exact .error h

theorem resolveAsInt_silent : Raises Silent (resolveAsInt target bs ref) := by
  have hexpanded : Raises Silent (do
      let s ← expandTemplate target bs ref.text
      wholeInt s (.expandedNotAnInteger s)) := expandTemplate_silent.bind fun _ => wholeInt_silent rfl
  rw [resolveAsInt]
  split
  · exact wholeInt_silent rfl
  split
  · split
    · exact .ok _
    split
    · exact .ok _
    · exact hexpanded
  · exact hexpanded

theorem resolveAsBool_silent : Raises Silent (resolveAsBool target bs ref) := by
  refine expandTemplate_silent.bind fun s => ?_
  split
  · exact .ok _
  split
  · exact .ok _
  · exact .error rfl

theorem orOverflow_silent (r : Option Bytes) : Raises AllSilent (orOverflow r) := by
  cases r with
  | none => exact .error nofun
  | some t => exact .ok t

theorem appendValue_silent {f : EmitField} : Raises AllSilent (appendValue target bs cap out f) := by
  rw [appendValue]
  split
  · exact resolveAsInt_silent.mapError.bind fun _ => orOverflow_silent _
  · exact resolveAsBool_silent.mapError.bind fun _ => orOverflow_silent _
  · exact expandTemplate_silent.mapError.bind fun _ => orOverflow_silent _

theorem appendFields_silent {sep out : Bytes} :
    Raises AllSilent (appendFields target bs cap sep out fs) := by
  induction fs generalizing sep out with
  | nil => exact .ok _
  | cons f fs ih =>
    exact (orOverflow_silent _).bind fun _ => (orOverflow_silent _).bind fun _ =>
      (orOverflow_silent _).bind fun _ => appendValue_silent.bind fun _ => ih

theorem buildEvidenceJson_silent : Raises AllSilent (buildEvidenceJson target bs cap fs) := by
  rw [buildEvidenceJson]
  split
  · exact .ok _
  · exact (orOverflow_silent _).bind fun _ => appendFields_silent.bind fun _ => orOverflow_silent _

theorem condHolds_silent {env : Env σ} {cond : Cond} : Raises Silent (condHolds env cond bs) := by
  cases cond <;> simp only [condHolds]
  all_goals
    repeat' split
  all_goals
    first | exact .ok _ | exact .error rfl

/-! ## Typed states -/

/-- The run has passed a step that declares `d` without binding it. -/
def LeftOutIn (trace : List Event) (d : Bytes × Bt) : Prop :=
  ∃ why, .leftOut why ∈ trace ∧ d ∈ why.decls

/-- Nothing is bound to the name, because the step that declares it was passed. -/
def Absent (rt : Rt σ) (name : Bytes) : Prop :=
  rtLookup rt.bs name = none ∧ ∃ ty, LeftOutIn rt.trace (name, ty)

/-- The bindings of the state are among the declarations `Γ`, in their order; what is missing has
been left out; and nothing has gone wrong. -/
structure Typed (Γ : List (Bytes × Bt)) (rt : Rt σ) : Prop where
  sublist : (rt.bs.map RtBinding.sig).Sublist Γ
  complete : ∀ d ∈ Γ, d ∈ rt.bs.map RtBinding.sig ∨ LeftOutIn rt.trace d
  err : rt.err = none

/-- A diagnostic that is no sign of a mistyped or overfull table: the binding it complains about
is absent. -/
def ErrSound (rt : Rt σ) : Option RtErr → Prop
  | some .bindingOverflow => False
  | some (.badConn _ conn) => Absent rt conn
  | some (.matchInType _) => False
  | some (.matchAnyType name) => Absent rt name
  | _ => True

/-- The state of a run that has ended, for the declarations `Δ` of the whole recipe. -/
structure Ended (Δ : List (Bytes × Bt)) (rt : Rt σ) : Prop where
  sublist : (rt.bs.map RtBinding.sig).Sublist Δ
  err : ErrSound rt rt.err

theorem errSound_of_not_aboutTypes {rt : Rt σ} (h : e.aboutTypes = false) :
    ErrSound rt (some e) := by
  cases e <;> simp_all [ErrSound, RtErr.aboutTypes]

theorem LeftOutIn.append {trace : List Event} {d : Bytes × Bt} (h : LeftOutIn trace d)
    (evs : List Event) : LeftOutIn (trace ++ evs) d := by
  obtain ⟨why, hmem, hd⟩ := h
  exact ⟨why, mem_append_left evs hmem, hd⟩

theorem ErrSound.append {rt rt' : Rt σ} {e : Option RtErr} (h : ErrSound rt e) (evs : List Event)
    (hbs : rt'.bs = rt.bs) (htrace : rt'.trace = rt.trace ++ evs) : ErrSound rt' e := by
  have habsent : ∀ {name}, Absent rt name → Absent rt' name := by
    rintro name ⟨hlook, ty, hleft⟩
    exact ⟨hbs ▸ hlook, ty, htrace ▸ hleft.append evs⟩
  rw [ErrSound.eq_def] at h ⊢
  split at h
  · exact h
  · exact habsent h
  · exact h
  · exact habsent h
  · trivial

theorem typeIn_of_mem {Γ : List (Bytes × Bt)}
    (hnodup : (Γ.map Prod.fst).Nodup) (h : (name, ty) ∈ Γ) : typeIn Γ name = ty := by
  induction Γ with
  | nil => simp at h
  | cons d Γ ih =>
    rw [map_cons, nodup_cons] at hnodup
    rw [typeIn, find?_cons]
    rcases mem_cons.mp h with rfl | h
    · simp
    · have hne : d.1 ≠ name := fun heq => hnodup.1 (heq ▸ mem_map_of_mem h)
      simpa [hne, typeIn] using ih hnodup.2 h

theorem mem_of_typeIn {Γ : List (Bytes × Bt)} (hty : typeIn Γ name = ty)
    (hne : ty ≠ .none) : (name, ty) ∈ Γ := by
  rw [typeIn] at hty
  split at hty
  · rename_i name' ty' hfind
    have hname : name' = name := by simpa using find?_some hfind
    rw [← hname, ← hty]
    exact mem_of_find?_eq_some hfind
  · exact absurd hty.symm hne

theorem sig_mem_of_rtLookup {v : RtVal}
    (h : rtLookup bs name = some v) : (name, v.type) ∈ bs.map RtBinding.sig := by
  rw [rtLookup, Option.map_eq_some_iff] at h
  obtain ⟨b, hb, rfl⟩ := h
  have hname : b.name = name := by simpa using find?_some hb
  exact hname ▸ mem_map_of_mem (mem_of_find?_eq_some hb)

theorem not_sig_mem_of_rtLookup
    (h : rtLookup bs name = none) (ty : Bt) : (name, ty) ∉ bs.map RtBinding.sig := by
  intro hmem
  obtain ⟨b, hb, hsig⟩ := mem_map.mp hmem
  rw [rtLookup, Option.map_eq_none_iff, find?_eq_none] at h
  exact h b hb (decide_eq_true (congrArg Prod.fst hsig))

section Run

variable {t : BtTable} {Γ Γ' : List (Bytes × Bt)}

theorem left_prefix (h : Γ ++ Γ' <+: t.e) : Γ <+: t.e := (prefix_append Γ _).trans h

theorem Typed.ended {rt : Rt σ} (h : Typed Γ rt) (hΓ : Γ <+: t.e) : Ended t.e rt :=
  ⟨h.sublist.trans hΓ.sublist, by rw [h.err]; trivial⟩

/-- Only the bindings' names and types, the trace and the diagnostic matter. -/
theorem Typed.of_eq {rt rt' : Rt σ} (h : Typed Γ rt) (evs : List Event)
    (hsig : rt'.bs.map RtBinding.sig = rt.bs.map RtBinding.sig)
    (htrace : rt'.trace = rt.trace ++ evs) (herr : rt'.err = rt.err) : Typed Γ rt' := by
  refine ⟨hsig ▸ h.sublist, fun d hd => ?_, herr.trans h.err⟩
  rw [hsig, htrace]
  exact (h.complete d hd).imp_right (·.append evs)

variable {name conn : Bytes} {v : RtVal} {e : RtErr}

/-- A name that is found has the type it was declared with. -/
theorem Typed.type_of_rtLookup (hΓ : Γ <+: t.e) {rt : Rt σ}
    (h : Typed Γ rt) (hlook : rtLookup rt.bs name = some v) :
    typeIn Γ name = v.type :=
  typeIn_of_mem (t.nodup.sublist (hΓ.sublist.map _)) (h.sublist.subset (sig_mem_of_rtLookup hlook))

/-- A declared name was left out if it is not found with its type. -/
theorem Typed.absent (hΓ : Γ <+: t.e) {rt : Rt σ} (h : Typed Γ rt) {ty : Bt} (hty : typeIn Γ name = ty)
    (hne : ty ≠ .none) (hnot : ∀ v, rtLookup rt.bs name = some v → v.type ≠ ty) : Absent rt name := by
  rcases hlook : rtLookup rt.bs name with _ | v
  · exact ⟨hlook, ty,
      (h.complete _ (mem_of_typeIn hty hne)).resolve_left (not_sig_mem_of_rtLookup hlook ty)⟩
  · exact absurd ((h.type_of_rtLookup hΓ hlook).symm.trans hty) (hnot v hlook)

/-- A program that takes states typed by `Γ` to states typed by `Γ'`. -/
abbrev TypedRun (Δ Γ Γ' : List (Bytes × Bt)) (m : Prog (Rt σ) α) : Prop :=
  Triple (Typed Γ) m (fun _ => Typed Γ') (Ended Δ)

/-- A failing end whose diagnostic is `e`, and that says nothing about types. -/
theorem Typed.ended_err {rt rt' : Rt σ} (h : Typed Γ rt) (hΓ : Γ <+: t.e)
    (hbs : rt'.bs = rt.bs) (herr : rt'.err = keepFirst rt.err e) (he : e.aboutTypes = false) :
    Ended t.e rt' := by
  refine ⟨?_, ?_⟩
  · rw [hbs]
    exact h.sublist.trans hΓ.sublist
  · rw [herr, h.err]
    exact errSound_of_not_aboutTypes he

theorem raise_typed (hΓ : Γ <+: t.e) (he : e.aboutTypes = false) :
    TypedRun t.e Γ Γ' (raise e : Prog (Rt σ) α) :=
  fun _ h => h.ended_err hΓ rfl rfl he

theorem reading_typed (hΓ : Γ <+: t.e) {f : List RtBinding → Except RtErr α}
    (he : ∀ (rt : Rt σ) e, Typed Γ rt → f rt.bs = .error e → ErrSound rt (some e)) :
    TypedRun t.e Γ Γ (reading f : Prog (Rt σ) α) := by
  intro rt h
  rcases hf : f rt.bs with e | a
  · rw [reading_error hf]
    refine ⟨h.sublist.trans hΓ.sublist, ?_⟩
    rw [h.err]
    exact he rt e h hf
  · rw [reading_ok hf]
    exact h

/-- The usual case: nothing the reading can report is about types. -/
theorem reading_typed' (hΓ : Γ <+: t.e) {f : List RtBinding → Except RtErr α}
    (he : ∀ bs, Raises Silent (f bs)) :
    TypedRun (σ := σ) t.e Γ Γ (reading f) :=
  reading_typed hΓ fun rt e _ h => errSound_of_not_aboutTypes (he rt.bs e h)

theorem provided_typed (hΓ : Γ <+: t.e) (callback : Option α) (name : Bytes) :
    TypedRun (σ := σ) t.e Γ Γ (provided callback name) := by
  cases callback with
  | none => exact raise_typed hΓ rfl
  | some f => exact Triple.pure fun _ h => h

theorem ioCall_typed (f : σ → α × σ) (event : α → Event) : TypedRun t.e Γ Γ (ioCall f event) :=
  fun _ h => h.of_eq [event _] rfl rfl rfl

theorem budgetTls_typed (env : Env σ) (hΓ : Γ <+: t.e) : TypedRun t.e Γ Γ (budgetTls env) := by
  intro rt h
  by_cases hbudget : rt.tlsProbesDone + 1 > env.budgets.maxTlsProbes
  · rw [budgetTls_exceeded hbudget]
    exact h.ended_err hΓ rfl rfl rfl
  · rw [budgetTls_within hbudget]
    exact h.of_eq [.budgetTls] rfl rfl rfl

theorem budgetStep_typed (env : Env σ) (hΓ : Γ <+: t.e) : TypedRun t.e Γ Γ (budgetStep env) := by
  intro rt h
  rcases budgetStep_cases env rt with ⟨-, hrun⟩ | ⟨reads, e, he, hrun⟩
  · rw [hrun]
    exact h.of_eq [.budgetStep] rfl rfl rfl
  · rw [hrun]
    exact h.ended_err hΓ rfl rfl he

/-- There is room for what is declared, so a declared binding is made. -/
theorem room_of_typed {d : Bytes × Bt} (hΓ : Γ ++ [d] <+: t.e)
    {rt : Rt σ} (h : Typed Γ rt) : rt.bs.length < rtBindingsMax := by
  have h₁ := h.sublist.length_le
  have h₂ := hΓ.length_le
  have h₃ : t.e.length ≤ rtBindingsMax := t.length_le
  rw [length_map] at h₁
  rw [length_append, length_singleton] at h₂
  omega

theorem Typed.bind {rt : Rt σ} (h : Typed Γ rt) (name : Bytes) (val : RtVal) :
    Typed (Γ ++ [(name, val.type)]) { rt with bs := rt.bs ++ [⟨name, val⟩] } := by
  refine ⟨?_, fun d hd => ?_, h.err⟩
  · rw [map_append]
    exact h.sublist.append (List.Sublist.refl _)
  · rw [map_append, mem_append]
    rcases mem_append.mp hd with hd | hd
    · exact (h.complete d hd).imp_left .inl
    · exact .inl (.inr hd)

theorem bindOrFail_typed (hΓ : Γ ++ [(name, v.type)] <+: t.e) :
    TypedRun (σ := σ) t.e Γ (Γ ++ [(name, v.type)]) (bindOrFail name v) := by
  intro rt h
  rw [bindOrFail_room (room_of_typed hΓ h)]
  exact h.bind name v

theorem rtBindNew_typed (hΓ : Γ ++ [(name, v.type)] <+: t.e) :
    TypedRun (σ := σ) t.e Γ (Γ ++ [(name, v.type)]) (rtBindNew name v) := by
  intro rt h
  rw [rtBindNew_room (room_of_typed hΓ h)]
  exact h.bind name v

/-- What a step leaves out counts as declared. -/
theorem leaveOut_typed (why : LeftOut) :
    TypedRun (σ := σ) t.e Γ (Γ ++ why.decls) (leaveOut why) := by
  refine Triple.modify fun rt h => ⟨?_, fun d hd => ?_, h.err⟩
  · exact h.sublist.trans (sublist_append_left Γ _)
  · rcases mem_append.mp hd with hd | hd
    · exact (h.complete d hd).imp_right (·.append _)
    · exact .inr ⟨why, mem_append_right _ (mem_singleton_self _), hd⟩

/-- A connection field that was checked is there with its type, or not there. -/
theorem connHandle_typed (hΓ : Γ <+: t.e) {op conn : Bytes}
    (hty : typeIn Γ conn = .conn) : TypedRun (σ := σ) t.e Γ Γ (connHandle op conn) := by
  refine Triple.bind (R := fun _ => Typed Γ) (reading_typed hΓ ?_) fun h =>
    Triple.bind (R := fun _ => Typed Γ) (Triple.modify fun rt h => h.of_eq [.found _ _] rfl rfl rfl)
      fun _ => Triple.pure fun _ h => h
  intro rt e hrt herr
  rw [connOf] at herr
  split at herr
  · simp at herr
  · rename_i hnot
    obtain rfl := Except.error.inj herr
    -- a value of type `conn` is a handle
    refine hrt.absent hΓ hty (by simp) fun v hlook hconn => ?_
    cases v <;> simp [RtVal.type] at hconn
    exact hnot _ hlook

/-! ## Handlers -/

theorem doConnect_typed (env : Env σ) (udp : Bool)
    (host port : Ref) (timeoutMs : Int32) (out : Bytes) (hΓ : Γ ++ [(out, .conn)] <+: t.e) :
    TypedRun t.e Γ (Γ ++ [(out, .conn)]) (doConnect env udp host port timeoutMs out) := by
  have hΓ₀ := left_prefix hΓ
  refine Triple.bind (reading_typed' hΓ₀ fun _ => expandTemplate_silent) fun hostS =>
    Triple.bind (reading_typed' hΓ₀ fun _ => resolveAsInt_silent) fun portI => ?_
  split
  · exact raise_typed hΓ₀ rfl
  cases udp
  all_goals
    refine Triple.bind (provided_typed hΓ₀ _ _) fun connect => Triple.bind (ioCall_typed _ _) fun fd => ?_
    split
    · exact raise_typed hΓ₀ rfl
    · exact bindOrFail_typed hΓ

theorem doSend_typed (env : Env σ) (hΓ : Γ <+: t.e)
    (hty : typeIn Γ conn = .conn) (bytes : SendBytes) :
    TypedRun t.e Γ Γ (doSend env conn bytes) := by
  refine Triple.bind (connHandle_typed hΓ hty) fun h => ?_
  rcases bytes with buf | text
  on_goal 1 => refine Triple.bind (R := fun _ => Typed Γ) (Triple.pure fun _ h => h) fun buf => ?_
  on_goal 2 => refine Triple.bind (reading_typed' hΓ fun _ => expandTemplate_silent) fun buf => ?_
  all_goals
    refine Triple.bind (provided_typed hΓ _ _) fun sendAll => Triple.bind (ioCall_typed _ _) fun rc => ?_
    split
    · exact raise_typed hΓ rfl
    · exact Triple.pure fun _ h => h

theorem recvLoop_typed (hΓ : Γ <+: t.e) (recvSome : σ → Int32 → Nat → Option Bytes × σ) (h : Int32)
    (until_ : Until) (cap rounds : Nat) (got : Bytes) :
    TypedRun t.e Γ Γ (recvLoop recvSome h until_ cap rounds got) := by
  induction rounds generalizing got with
  | zero => exact Triple.pure fun _ h => h
  | succ rounds ih =>
    rw [recvLoop]
    split
    · refine Triple.bind (ioCall_typed _ _) fun r => ?_
      split
      · exact raise_typed hΓ rfl
      · exact Triple.pure fun _ h => h
      · split
        · exact Triple.pure fun _ h => h
        · exact ih _
    · exact Triple.pure fun _ h => h

theorem doRecv_typed (env : Env σ) (hty : typeIn Γ conn = .conn)
    (until_ : Until) (maxBytes : Int32) (out : Bytes) (hΓ : Γ ++ [(out, .bytes)] <+: t.e) :
    TypedRun t.e Γ (Γ ++ [(out, .bytes)]) (doRecv env conn until_ maxBytes out) := by
  have hΓ₀ := left_prefix hΓ
  refine Triple.bind (connHandle_typed hΓ₀ hty) fun h => ?_
  split
  · exact raise_typed hΓ₀ rfl
  refine Triple.bind (R := fun _ => Typed Γ) (Triple.gets fun _ h => h) fun total => ?_
  split
  · exact raise_typed hΓ₀ rfl
  refine Triple.bind (provided_typed hΓ₀ _ _) fun recvSome =>
    Triple.bind (recvLoop_typed hΓ₀ _ _ _ _ _ _) fun got =>
      Triple.bind (R := fun _ => Typed Γ)
        (Triple.modify fun _ h => h.of_eq [] rfl (append_nil _).symm rfl) fun _ => ?_
  exact bindOrFail_typed (v := .bytes got) hΓ

theorem sig_markClosed (conn : Bytes) (bs : List RtBinding)
    (h : ∀ v, rtLookup bs conn = some v → v.type = .conn) :
    (markClosed conn bs).map RtBinding.sig = bs.map RtBinding.sig := by
  induction bs with
  | nil => rfl
  | cons b bs ih =>
    rw [markClosed]
    by_cases hname : b.name = conn
    · have hty := h b.val (by simp [rtLookup, hname])
      rw [if_pos hname]
      rw [map_cons, map_cons, RtBinding.sig, RtBinding.sig, hty]
      rfl
    · rw [if_neg hname, map_cons, map_cons, ih fun v hv => h v ?_]
      simpa [rtLookup, hname] using hv

theorem doClose_typed (env : Env σ) (hΓ : Γ <+: t.e)
    (hty : typeIn Γ conn = .conn) : TypedRun t.e Γ Γ (doClose env conn) := by
  have hclose : ∀ h, TypedRun t.e Γ Γ (closeHandle env h) := by
    intro h
    rw [closeHandle]
    split
    · exact ioCall_typed _ _
    · exact Triple.pure fun _ h => h
  refine Triple.bind (connHandle_typed hΓ hty) fun h => Triple.bind (hclose h) fun _ =>
    Triple.modify fun rt hrt => ?_
  have hconn : ∀ v, rtLookup rt.bs conn = some v → v.type = .conn := fun v hv =>
    (hrt.type_of_rtLookup hΓ hv).symm.trans hty
  exact hrt.of_eq [] (sig_markClosed conn rt.bs hconn) (append_nil _).symm rfl

theorem doMatchAny_typed (env : Env σ) {any : Bytes} (hty : typeIn Γ any = .strlist) (regex : Bytes)
    (out : Option Bytes) (hΓ : Γ ++ out.toList.map (fun name => (name, Bt.string)) <+: t.e) :
    TypedRun t.e Γ (Γ ++ out.toList.map fun name => (name, Bt.string))
      (doMatchAny env any regex out) := by
  have hΓ₀ := left_prefix hΓ
  refine Triple.bind (R := fun _ => Typed Γ) (reading_typed hΓ₀ ?_) fun items => ?_
  · intro rt e hrt herr
    split at herr
    · simp at herr
    · rename_i hnot
      obtain rfl := Except.error.inj herr
      refine hrt.absent hΓ₀ hty (by simp) fun v hlook hlist => ?_
      cases v <;> simp [RtVal.type] at hlist
      exact hnot _ hlook
  · split
    · exact raise_typed hΓ₀ rfl
    · split
      · exact bindOrFail_typed hΓ
      · exact Triple.pure fun _ h => by rwa [Option.toList_none, map_nil, append_nil]
      · exact leaveOut_typed (.unmatchedAny _)

theorem bindCaptures_typed (hay : Bytes)
    (captures : List Capture) (groups : List (Int × Int))
    (hΓ : Γ ++ captures.map (fun c => (c.name, c.as.bt)) <+: t.e) :
    TypedRun (σ := σ) t.e Γ (Γ ++ captures.map fun c => (c.name, c.as.bt))
      (bindCaptures hay captures groups) := by
  induction captures generalizing Γ groups with
  | nil => exact Triple.pure fun _ h => by rwa [map_nil, append_nil]
  | cons c cs ih =>
    rw [map_cons, ← singleton_append, ← append_assoc] at hΓ ⊢
    have hΓ₁ := left_prefix hΓ
    have hΓ₀ := left_prefix hΓ₁
    rw [bindCaptures]
    split
    · exact raise_typed hΓ₀ rfl
    · split
      · rename_i has
        rw [has] at hΓ hΓ₁ ⊢
        exact Triple.bind (bindOrFail_typed (v := .str _) hΓ₁) fun _ => ih _ hΓ
      · rename_i has
        rw [has] at hΓ hΓ₁ ⊢
        split
        · exact Triple.bind (bindOrFail_typed (v := .int 0) hΓ₁) fun _ =>
            raise_typed hΓ₁ rfl
        · exact Triple.bind (bindOrFail_typed (v := .int _) hΓ₁) fun _ => ih _ hΓ

theorem doMatchIn_typed (env : Env σ) {in_ : Bytes}
    (hty : typeIn Γ in_ = .bytes ∨ typeIn Γ in_ = .string) (regex : Bytes) (captures : List Capture)
    (hΓ : Γ ++ captures.map (fun c => (c.name, c.as.bt)) <+: t.e) :
    TypedRun t.e Γ (Γ ++ captures.map fun c => (c.name, c.as.bt))
      (doMatchIn env in_ regex captures) := by
  have hΓ₀ := left_prefix hΓ
  refine Triple.bind (R := fun _ => Typed Γ) (reading_typed hΓ₀ ?_) fun hay => ?_
  · intro rt e hrt herr
    rcases hlook : rtLookup rt.bs in_ with _ | v
    · rw [hlook] at herr
      obtain rfl := Except.error.inj herr
      trivial
    · have hv := hrt.type_of_rtLookup hΓ₀ hlook
      rw [hlook] at herr
      cases v <;> simp_all [RtVal.type]
  · split
    · exact raise_typed hΓ₀ rfl
    · split
      · exact leaveOut_typed (.unmatchedIn captures)
      · exact bindCaptures_typed hay captures _ hΓ

theorem doEmit_typed (env : Env σ) (hΓ : Γ <+: t.e) (kind severity confidence title : Bytes)
    (fields : List EmitField) :
    TypedRun t.e Γ Γ (doEmit env kind severity confidence title fields) := by
  refine Triple.bind (reading_typed' hΓ fun _ => expandTemplate_silent) fun titleS =>
    Triple.bind
      (R := fun json rt => Typed Γ rt ∧
        buildEvidenceJson env.target rt.bs evidenceCap fields = json)
      (Triple.gets fun _ h => ⟨h, rfl⟩) fun json => ?_
  rcases json with (_ | e) | evidence
  · exact fun rt h => h.1.ended_err hΓ (e := .evidenceOverflow) rfl rfl rfl
  · -- the first diagnostic stays
    intro rt ⟨h, hjson⟩
    refine h.ended_err hΓ rfl ?_ (buildEvidenceJson_silent _ hjson e rfl)
    change keepFirst (keepFirst rt.err e) .evidenceOverflow = keepFirst rt.err e
    rw [h.err]
    rfl
  · dsimp only
    split
    · exact Triple.modify fun _ h => h.1.of_eq [] rfl (append_nil _).symm rfl
    · exact Triple.pure fun _ h => h.1

theorem bindAll_typed (required : Nat) (new : List RtBinding)
    (hΓ : Γ ++ new.map RtBinding.sig <+: t.e) :
    TypedRun (σ := σ) t.e Γ (Γ ++ new.map RtBinding.sig) (bindAll required new) := by
  induction new generalizing Γ required with
  | nil =>
    rw [bindAll]
    exact Triple.pure fun _ h => by rwa [map_nil, append_nil]
  | cons b new ih =>
    rw [map_cons, ← singleton_append, ← append_assoc] at hΓ ⊢
    have hΓ₁ := left_prefix hΓ
    cases required with
    | zero => exact Triple.bind (rtBindNew_typed hΓ₁) fun _ => ih 0 hΓ
    | succ required => exact Triple.bind (bindOrFail_typed hΓ₁) fun _ => ih required hΓ

theorem doTlsUpgrade_typed (env : Env σ) (hty : typeIn Γ conn = .conn) (sni : Ref)
    (alpn : Option (List Bytes)) (timeoutMs : Int32) (hΓ : Γ ++ tlsBindings <+: t.e) :
    TypedRun t.e Γ (Γ ++ tlsBindings) (doTlsUpgrade env conn sni alpn timeoutMs) := by
  have hΓ₀ := left_prefix hΓ
  refine Triple.bind (connHandle_typed hΓ₀ hty) fun h =>
    Triple.bind (provided_typed hΓ₀ _ _) fun tlsUpgrade =>
      Triple.bind (provided_typed hΓ₀ _ _) fun tlsSession =>
        Triple.bind (budgetTls_typed env hΓ₀) fun _ =>
          Triple.bind (reading_typed' hΓ₀ fun _ => expandTemplate_silent) fun sniS =>
            Triple.bind (ioCall_typed _ _) fun rc => ?_
  split
  · exact leaveOut_typed .handshakeFailed
  · refine Triple.bind (ioCall_typed _ _) fun session => ?_
    split
    · exact raise_typed hΓ₀ rfl
    · exact bindAll_typed 2 (tlsInfoBindings _) hΓ

theorem peelLoop_typed (env : Env σ) (hΓ : Γ <+: t.e)
    (tlsProbe : Bytes → Bytes → σ → Option TlsProbeResult × σ) (proto : Bytes) (fuel : Nat)
    (p : Peel) (acc : Accepted) : TypedRun t.e Γ Γ (peelLoop env tlsProbe proto fuel p acc) := by
  induction fuel generalizing p acc with
  | zero => exact fun rt h => h.ended hΓ
  | succ fuel ih =>
    rw [peelLoop]
    refine Triple.bind (Triple.bind (budgetTls_typed env hΓ) fun _ => ioCall_typed _ _) fun r => ?_
    split
    · exact Triple.pure fun _ h => h
    · split
      · exact Triple.pure fun _ h => h
      · exact ih _ _

theorem enumLoop_typed (env : Env σ) (hΓ : Γ <+: t.e)
    (tlsProbe : Bytes → Bytes → σ → Option TlsProbeResult × σ) (fuel : Nat) (protos : List Bytes)
    (acc : Accepted) : TypedRun t.e Γ Γ (enumLoop env tlsProbe fuel protos acc) := by
  induction protos generalizing acc with
  | nil => exact Triple.pure fun _ h => h
  | cons proto protos ih =>
    exact Triple.bind (peelLoop_typed env hΓ tlsProbe proto fuel peelStart acc) ih

theorem doTlsEnum_typed (env : Env σ) (fuel : Nat)
    (host port : Ref) (protocols : List Bytes) (starttls : Option Bytes) (timeoutMs : Int32)
    (hΓ : Γ ++ tlsEnumBindings <+: t.e) :
    TypedRun t.e Γ (Γ ++ tlsEnumBindings)
      (doTlsEnum env fuel host port protocols starttls timeoutMs) := by
  have hΓ₀ := left_prefix hΓ
  refine Triple.bind (provided_typed hΓ₀ _ _) fun tlsProbe =>
    Triple.bind (reading_typed' hΓ₀ fun _ => expandTemplate_silent) fun hostS =>
      Triple.bind (reading_typed' hΓ₀ fun _ => resolveAsInt_silent) fun portI =>
        Triple.bind (enumLoop_typed env hΓ₀ _ _ _ _) fun acc => ?_
  rw [tlsEnumBindings, ← singleton_append, ← append_assoc] at hΓ ⊢
  exact Triple.bind (bindOrFail_typed (v := .strlist acc.protos) <| left_prefix hΓ) fun _ =>
    bindOrFail_typed (v := .strlist acc.ciphers) hΓ

/-! ## Runs -/

mutual

/-- A checked step keeps the state typed and adds at most its own declarations. -/
theorem doStep_typed (env : Env σ) (fuel : Nat) (s : Step) (Γ : List (Bytes × Bt)) (hs : s.Checked Γ)
    (hΓ : Γ ++ s.decls <+: t.e) : TypedRun t.e Γ (Γ ++ s.decls) (doStep env fuel s) := by
  cases s with
  | connect udp host port timeoutMs out =>
    exact doConnect_typed env udp host port timeoutMs out hΓ
  | send conn bytes =>
    rw [Step.decls, append_nil] at hΓ ⊢
    exact doSend_typed env hΓ hs bytes
  | recv conn until_ maxBytes out => exact doRecv_typed env hs until_ maxBytes out hΓ
  | close conn =>
    rw [Step.decls, append_nil] at hΓ ⊢
    exact doClose_typed env hΓ hs
  | matchIn in_ regex captures => exact doMatchIn_typed env hs regex captures hΓ
  | matchAny any regex out => exact doMatchAny_typed env hs regex out hΓ
  | emit kind severity confidence title fields =>
    rw [Step.decls, append_nil] at hΓ ⊢
    exact doEmit_typed env hΓ kind severity confidence title fields
  | if_ cond then_ =>
    have hΓ₀ := left_prefix hΓ
    refine Triple.bind (reading_typed' hΓ₀ fun _ => condHolds_silent) fun holds => ?_
    split
    · exact runSteps_typed env fuel then_ Γ hs hΓ
    · exact leaveOut_typed (.untaken then_)
  | tlsUpgrade conn sni alpn timeoutMs =>
    exact doTlsUpgrade_typed env hs sni alpn timeoutMs hΓ
  | tlsEnum host port protocols starttls timeoutMs =>
    exact doTlsEnum_typed env fuel host port protocols starttls timeoutMs hΓ

/-- Checked steps one after the other. -/
theorem runSteps_typed (env : Env σ) (fuel : Nat) (ss : List Step) (Γ : List (Bytes × Bt))
    (hss : StepsChecked Γ ss) (hΓ : Γ ++ stepsDecls ss <+: t.e) :
    TypedRun t.e Γ (Γ ++ stepsDecls ss) (runSteps env fuel ss) := by
  cases ss with
  | nil => exact Triple.pure fun _ h => by rwa [stepsDecls, append_nil]
  | cons s ss =>
    rw [stepsDecls, ← append_assoc] at hΓ ⊢
    have hΓ₁ := left_prefix hΓ
    have hΓ₀ := left_prefix hΓ₁
    exact Triple.bind (budgetStep_typed env hΓ₀) fun _ =>
      Triple.bind (R := fun _ => Typed Γ) (Triple.modify fun _ h => h.of_eq [.enter s] rfl rfl rfl)
        fun _ => Triple.bind (doStep_typed env fuel s Γ hss.1 hΓ₁) fun _ =>
          runSteps_typed env fuel ss (Γ ++ s.decls) hss.2 hΓ

end

end Run

/-! ## Parsed recipes -/

/-- The walker's table for the steps of a parsed recipe. -/
theorem parsed_steps {json : Bytes} {r : PsRecipe} (hparse : psRecipeParseJson json = .ok r) :
    ∃ root rest stepsV t, parseValue json = .ok (root, rest) ∧
      jvObjGet root (asc "steps") = some stepsV ∧
      buildStepsArray r.schema r.kindPrefix stepsV btEmpty = .ok (r.steps, t) := by
  rw [psRecipeParseJson] at hparse
  split at hparse
  · simp at hparse
  rename_i root rest hvalue
  rw [buildRecipe.eq_def] at hparse
  split at hparse
  · obtain ⟨schema, -, hparse⟩ := except_bind_eq_ok.mp hparse
    split at hparse
    · simp at hparse
    obtain ⟨name, -, hparse⟩ := except_bind_eq_ok.mp hparse
    obtain ⟨version, -, hparse⟩ := except_bind_eq_ok.mp hparse
    obtain ⟨kindPrefix, -, hparse⟩ := except_bind_eq_ok.mp hparse
    split at hparse
    · simp at hparse
    rename_i stepsV hsteps
    obtain ⟨⟨steps, t⟩, hbuild, hparse⟩ := except_bind_eq_ok.mp hparse
    obtain rfl := Except.ok.inj hparse
    exact ⟨_, rest, stepsV, t, hvalue, hsteps, hbuild⟩
  · simp at hparse

/-- A run of checked steps ends typed by the walker's table, whichever way it ends. -/
theorem psRecipeRun_ended (host : Host σ) (r : PsRecipe) (fuel : Nat) (w : σ) {stepsV : Jv}
    {t : BtTable}
    (hbuild : buildStepsArray r.schema r.kindPrefix stepsV btEmpty = .ok (r.steps, t)) :
    Ended t.e (psRecipeRun host r fuel w).2 := by
  obtain ⟨hchecked, hdecls⟩ := buildStepsArray_ok _ _ _ _ _ hbuild
  obtain ⟨rt, w', sweep, hrun, hend, -, -⟩ := psRecipeRun_end host r fuel w
  have htyped := runSteps_typed { host with budgets := r.budgets } fuel
    r.steps [] hchecked (by rw [hdecls]; exact prefix_refl _) (rtInit w)
    ⟨List.Sublist.refl _, by simp, rfl⟩
  have hended : Ended t.e rt := by
    rw [hrun] at htyped
    rcases hout : (psRecipeRun host r fuel w).1 with _ | _ | _ <;> rw [hout] at htyped
    · refine htyped.ended ?_
      rw [hdecls]
      exact prefix_refl _
    · exact htyped
    · exact htyped
  -- the sweep only adds to the trace
  rw [hend]
  exact ⟨hended.sublist, hended.err.append sweep rfl rfl⟩

/-- **The static check is sound.** Whatever the backend does in a run of a parsed recipe: no name
is bound twice, what is bound has the type `build_step` declared for it, the table does not
overflow, and a diagnostic about the type of a binding only comes up where the binding is absent,
because the step that declares it sat in an untaken `if`, was a match without a match or a failed
handshake. Bindings are never taken back, so the final table holds all that was ever bound. -/
theorem static_check_sound (host : Host σ) {json : Bytes} {r : PsRecipe}
    (hparse : psRecipeParseJson json = .ok r) (fuel : Nat) (w : σ) :
    ((psRecipeRun host r fuel w).2.bs.map (·.name)).Nodup ∧
    (∃ root rest stepsV t, parseValue json = .ok (root, rest) ∧
      jvObjGet root (asc "steps") = some stepsV ∧
      buildStepsArray r.schema r.kindPrefix stepsV btEmpty = .ok (r.steps, t) ∧
      ∀ b ∈ (psRecipeRun host r fuel w).2.bs, btLookup t b.name = b.val.type) ∧
    (psRecipeRun host r fuel w).2.err ≠ some .bindingOverflow ∧
    (∀ op conn, (psRecipeRun host r fuel w).2.err = some (.badConn op conn) →
      Absent (psRecipeRun host r fuel w).2 conn) ∧
    (∀ name, (psRecipeRun host r fuel w).2.err ≠ some (.matchInType name)) ∧
    (∀ name, (psRecipeRun host r fuel w).2.err = some (.matchAnyType name) →
      Absent (psRecipeRun host r fuel w).2 name) := by
  obtain ⟨root, rest, stepsV, t, hvalue, hsteps, hbuild⟩ := parsed_steps hparse
  have hended := psRecipeRun_ended host r fuel w hbuild
  have herr := hended.err
  refine ⟨?_, ⟨root, rest, stepsV, t, hvalue, hsteps, hbuild, fun b hb => ?_⟩, fun h => ?_,
    fun op conn h => ?_, fun name h => ?_, fun name h => ?_⟩
  · have hnames := hended.sublist.map Prod.fst
    rw [map_map] at hnames
    exact t.nodup.sublist hnames
  · exact typeIn_of_mem t.nodup (hended.sublist.subset (mem_map_of_mem hb))
  all_goals
    rw [h] at herr
    exact herr

/-- A recipe that sends on a connection it only opens if the peer says `x`. -/
def untakenJson : Bytes :=
  asc "\x7b\"schema\":1,\"name\":\"u\",\"version\":1,\"kind_prefix\":\"u\",\"steps\":[" ++
  asc "\x7b\"op\":\"connect_tcp\",\"host\":\"h\",\"port\":25,\"timeout_ms\":9,\"out\":\"c\"\x7d," ++
  asc "\x7b\"op\":\"recv\",\"conn\":\"c\",\"until\":\"newline\"," ++
  asc "\"max_bytes\":9,\"out\":\"l\"\x7d," ++
  asc "\x7b\"op\":\"if\",\"cond\":\"equals\",\"binding\":\"l\",\"literal\":\"x\",\"then\":[" ++
  asc "\x7b\"op\":\"connect_tcp\",\"host\":\"h\",\"port\":26,\"timeout_ms\":9," ++
  asc "\"out\":\"d\"\x7d]\x7d," ++
  asc "\x7b\"op\":\"send\",\"conn\":\"d\",\"bytes\":\"y\"\x7d]\x7d"

/-- The peer says something else, and the send is refused. -/
theorem untaken_send_refused :
    ∃ r, psRecipeParseJson untakenJson = .ok r ∧
      (psRecipeRun (streamHost 9) r 0 (asc "a\n")).2.err = some (.badConn (asc "send") (asc "d")) ∧
      Absent (psRecipeRun (streamHost 9) r 0 (asc "a\n")).2 (asc "d") := by
  obtain ⟨r, hparse, herr⟩ := exists_parsed untakenJson
    (P := fun r => (psRecipeRun (streamHost 9) r 0 (asc "a\n")).2.err
      = some (.badConn (asc "send") (asc "d"))) (by decide +kernel)
  exact ⟨r, hparse, herr,
    (static_check_sound (streamHost 9) hparse 0 (asc "a\n")).2.2.2.1 _ _ herr⟩

end Packetsonde.Recipe
