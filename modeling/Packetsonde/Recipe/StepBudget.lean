import Packetsonde.Recipe.Actions

/-!
# Step and handshake budgets, and termination

`budget_step` and `budget_tls` increment an `int` and refuse when it has passed its maximum. Both
counters are shared by every nesting level and every loop of a run, so the number of step handlers
and the number of TLS handshakes are bounded by the two maxima, and the cipher-peeling loop, which
nothing else is sure to stop, ends.

The argument needs the counter to be the number of increments. It is, until it has been
incremented `INT_MAX` times: a maximum of `INT_MAX` is never passed, the counter wraps, and the
loop can go on for ever (`endless_peeling`). Any smaller maximum stops the counter before that.
-/

namespace Packetsonde.Recipe

open Packetsonde.Lib
open Packetsonde.Lib.Prog

variable {σ : Type}

/-! ## What is counted -/

/-- How often `budget_step` was called. -/
def stepTicks (trace : List Event) : Nat :=
  trace.countP fun e => match e with
    | .budgetStep => true
    | _ => false

def handlersRun (trace : List Event) : Nat :=
  trace.countP fun e => match e with
    | .enter _ => true
    | _ => false

/-- How often `tls_upgrade` and `tls_probe` were called. -/
def tlsCalls (trace : List Event) : Nat :=
  trace.countP fun e => match e with
    | .tlsUpgrade _ => true
    | .tlsProbe _ _ => true
    | _ => false

/-- `INT_MAX`. -/
def intMax : Nat := 2147483647

/-- The maximum is one a C `int` can pass, or the counter was not incremented more than `INT_MAX`
times. -/
def CanPass (max : Int32) (ticks : Nat) : Prop := max ≠ Int32.maxValue ∨ ticks ≤ intMax

/-- A budget counter that is true to the number of its increments, each of which let at most one
call through. -/
structure Counted (max counter : Int32) (ticks calls : Nat) : Prop where
  counter_eq : counter = Int32.ofNat ticks
  calls_le : calls ≤ ticks
  ticks_le : CanPass max ticks → (ticks : Int) ≤ Max.max 0 max.toInt

theorem counted_zero (max : Int32) : Counted max 0 0 0 :=
  ⟨rfl, Nat.le_refl _, fun _ => by simp⟩

theorem toInt_lt_intMax {max : Int32} (h : max ≠ Int32.maxValue) : max.toInt < intMax := by
  have hle := max.toInt_le
  have hne : max.toInt ≠ Int32.maxValue.toInt := fun heq => h (Int32.toInt_inj.mp heq)
  rw [Int32.toInt_maxValue] at hle hne
  simp only [intMax]
  omega

/-- Under `CanPass` the counter has not wrapped when the next increment comes. -/
theorem Counted.ticks_lt {max counter : Int32} {ticks calls : Nat}
    (h : Counted max counter ticks calls) (hpass : CanPass max (ticks + 1)) : ticks < intMax := by
  rcases hpass with hne | hle
  · have hlt := toInt_lt_intMax hne
    have hticks := h.ticks_le (.inl hne)
    simp only [intMax] at hlt ⊢
    omega
  · omega

/-- One increment that was let through. -/
theorem Counted.tick {max counter : Int32} {ticks calls : Nat}
    (h : Counted max counter ticks calls) (hbudget : ¬ counter + 1 > max) {k : Nat} (hk : k ≤ 1) :
    Counted max (counter + 1) (ticks + 1) (calls + k) where
  counter_eq := by
    rw [h.counter_eq, Int32.ofNat_add]
    rfl
  calls_le := by
    have := h.calls_le
    omega
  ticks_le := by
    intro hpass
    have hlt := h.ticks_lt hpass
    have hval : (counter + 1).toInt = ((ticks + 1 : Nat) : Int) := by
      have : counter + 1 = Int32.ofNat (ticks + 1) := by rw [h.counter_eq, Int32.ofNat_add]; rfl
      rw [this, Int32.toInt_ofNat_of_lt (by simp only [intMax] at hlt; omega)]
    have hle : (counter + 1).toInt ≤ max.toInt := by
      simpa [Int32.lt_iff_toInt_lt] using hbudget
    omega

/-- What a counter says about the calls once the run has ended. -/
def CallBound (max : Int32) (ticks calls : Nat) : Prop :=
  CanPass max ticks → (calls : Int) ≤ Max.max 0 max.toInt

theorem Counted.bound {max counter : Int32} {ticks calls : Nat}
    (h : Counted max counter ticks calls) : CallBound max ticks calls := by
  intro hpass
  have h₁ := h.ticks_le hpass
  have h₂ := h.calls_le
  omega

/-- A last increment that was refused. -/
theorem Counted.bound_refused {max counter : Int32} {ticks calls : Nat}
    (h : Counted max counter ticks calls) : CallBound max (ticks + 1) calls := by
  intro hpass
  exact h.bound (hpass.imp id (by omega))

/-! ## Every action is counted -/

structure BudgetInv (env : Env σ) (rt : Rt σ) : Prop where
  steps : Counted env.budgets.maxSteps rt.stepsDone (stepTicks rt.trace) (handlersRun rt.trace)
  tls : Counted env.budgets.maxTlsProbes rt.tlsProbesDone (tlsTicks rt.trace) (tlsCalls rt.trace)

/-- What holds of the trace once the run has ended. -/
structure BudgetBound (env : Env σ) (trace : List Event) : Prop where
  steps : CallBound env.budgets.maxSteps (stepTicks trace) (handlersRun trace)
  tls : CallBound env.budgets.maxTlsProbes (tlsTicks trace) (tlsCalls trace)

theorem BudgetInv.bound {env : Env σ} {rt : Rt σ} (h : BudgetInv env rt) :
    BudgetBound env rt.trace := ⟨h.steps.bound, h.tls.bound⟩

def Event.uncounted : Event → Bool
  | .budgetStep | .budgetTls | .enter _ | .tlsUpgrade _ | .tlsProbe _ _ => false
  | _ => true

/-- Uncounted events at the end of a trace leave all four numbers as they are. -/
theorem counts_append {evs : List Event} (hevs : ∀ e ∈ evs, e.uncounted = true)
    (trace : List Event) :
    stepTicks (trace ++ evs) = stepTicks trace ∧ handlersRun (trace ++ evs) = handlersRun trace ∧
      tlsTicks (trace ++ evs) = tlsTicks trace ∧ tlsCalls (trace ++ evs) = tlsCalls trace := by
  have hzero : ∀ p : Event → Bool, (∀ e, p e = true → e.uncounted = false) →
      (trace ++ evs).countP p = trace.countP p := by
    intro p hp
    have hnone : evs.countP p = 0 := by
      refine List.countP_eq_zero.mpr fun e he hpe => ?_
      have hcounted := hevs e he
      rw [hp e hpe] at hcounted
      exact absurd hcounted (by decide)
    rw [List.countP_append, hnone, Nat.add_zero]
  refine ⟨hzero _ ?_, hzero _ ?_, hzero _ ?_, hzero _ ?_⟩ <;>
    · intro e
      cases e <;> simp [Event.uncounted]

theorem RecvTrace.uncounted {recvSome : σ → Int32 → Nat → Option Bytes × σ} {h : Int32}
    {until_ : Until} {cap : Nat} {got kept : Bytes} {evs : List Event}
    (htrace : RecvTrace recvSome h until_ cap got evs kept) :
    ∀ e ∈ evs, e.uncounted = true := by
  induction htrace with
  | full => simp
  | eof => simp [Event.uncounted]
  | cut => simp [Event.uncounted]
  | more _ _ _ _ _ ih => exact List.forall_mem_cons.mpr ⟨rfl, ih⟩

theorem RecvBroken.uncounted {recvSome : σ → Int32 → Nat → Option Bytes × σ} {h : Int32}
    {until_ : Until} {cap : Nat} {got : Bytes} {evs : List Event}
    (htrace : RecvBroken recvSome h until_ cap got evs) :
    ∀ e ∈ evs, e.uncounted = true := by
  induction htrace with
  | error => simp [Event.uncounted]
  | more _ _ _ _ ih => exact List.forall_mem_cons.mpr ⟨rfl, ih⟩

/-- An action with uncounted events only keeps the invariant. -/
theorem BudgetInv.of_uncounted {env : Env σ} {rt s : Rt σ} (h : BudgetInv env rt)
    (evs : List Event) (hevs : ∀ e ∈ evs, e.uncounted = true)
    (htrace : s.trace = rt.trace ++ evs) (hsteps : s.stepsDone = rt.stepsDone)
    (htls : s.tlsProbesDone = rt.tlsProbesDone) : BudgetInv env s := by
  obtain ⟨h₁, h₂, h₃, h₄⟩ := counts_append hevs rt.trace
  constructor
  · rw [htrace, hsteps, h₁, h₂]
    exact h.steps
  · rw [htrace, htls, h₃, h₄]
    exact h.tls

/-- Both counters stay true, action by action. -/
theorem BudgetInv.step {env : Env σ} {rt rt' : Rt σ} (hstep : Action env rt rt')
    (h : BudgetInv env rt) : BudgetInv env rt' := by
  cases hstep with
  | entered s hbudget =>
    refine ⟨?_, ?_⟩
    · simpa [stepTicks, handlersRun] using h.steps.tick hbudget (Nat.le_refl 1)
    · simpa [tlsTicks, tlsCalls] using h.tls
  | counted hbudget =>
    refine ⟨?_, ?_⟩
    · simpa [stepTicks, handlersRun] using h.steps
    · simpa [tlsTicks, tlsCalls] using h.tls.tick hbudget (Nat.zero_le 1)
  | upgraded w conn hd hbudget =>
    refine ⟨?_, ?_⟩
    · simpa [stepTicks, handlersRun] using h.steps
    · simpa [tlsTicks, tlsCalls] using h.tls.tick hbudget (Nat.le_refl 1)
  | probed w proto excl hbudget =>
    refine ⟨?_, ?_⟩
    · simpa [stepTicks, handlersRun] using h.steps
    · simpa [tlsTicks, tlsCalls] using h.tls.tick hbudget (Nat.le_refl 1)
  | received w conn hd until_ maxBytes recvSome evs got _ _ _ _ _ htrace =>
    exact h.of_uncounted evs htrace.uncounted rfl rfl rfl
  | opened w fd => exact h.of_uncounted [.connect fd] (by simp [Event.uncounted]) rfl rfl rfl
  | found conn hd => exact h.of_uncounted [.found conn hd] (by simp [Event.uncounted]) rfl rfl rfl
  | leftOut why => exact h.of_uncounted [.leftOut why] (by simp [Event.uncounted]) rfl rfl rfl
  | sent w conn buf hd =>
    exact h.of_uncounted [.sendAll hd buf] (by simp [Event.uncounted]) rfl rfl rfl
  | closed w conn hd =>
    exact h.of_uncounted [.closeConn hd] (by simp [Event.uncounted]) rfl rfl rfl
  | session w conn hd =>
    exact h.of_uncounted [.tlsSession hd] (by simp [Event.uncounted]) rfl rfl rfl
  | dropped => exact ⟨h.steps, h.tls⟩
  | bound => exact ⟨h.steps, h.tls⟩
  | unbound => exact ⟨h.steps, h.tls⟩
  | emitted => exact ⟨h.steps, h.tls⟩

theorem BudgetInv.bound_of_uncounted {env : Env σ} {rt : Rt σ} (h : BudgetInv env rt)
    (evs : List Event) (hevs : ∀ e ∈ evs, e.uncounted = true) :
    BudgetBound env (rt.trace ++ evs) :=
  BudgetInv.bound (h.of_uncounted evs hevs (s := { rt with trace := rt.trace ++ evs }) rfl rfl rfl)

theorem BudgetInv.stop {env : Env σ} {rt rt' : Rt σ} (hstop : Stop env rt rt')
    (h : BudgetInv env rt) : BudgetBound env rt'.trace := by
  cases hstop with
  | failed => exact h.bound
  | stepRefused =>
    refine ⟨?_, ?_⟩
    · simpa [stepTicks, handlersRun] using h.steps.bound_refused
    · simpa [tlsTicks, tlsCalls] using h.tls.bound
  | tlsRefused =>
    refine ⟨?_, ?_⟩
    · simpa [stepTicks, handlersRun] using h.steps.bound
    · simpa [tlsTicks, tlsCalls] using h.tls.bound_refused
  | connectFailed w fd e =>
    exact h.bound_of_uncounted [.connect fd] (by simp [Event.uncounted])
  | leaked w fd => exact h.bound_of_uncounted [.connect fd] (by simp [Event.uncounted])
  | recvBroken w conn hd until_ maxBytes recvSome evs e _ _ _ _ _ htrace =>
    exact h.bound_of_uncounted evs htrace.uncounted

/-! ## Whole runs -/

theorem uncounted_sweep (env : Env σ) (bs : List RtBinding) :
    ∀ e ∈ sweepEvents env bs, e.uncounted = true := by
  rw [sweepEvents]
  split
  · simp [Event.uncounted]
  · simp

/-- **Budgets and termination.** For every recipe, target, backend and clock: unless a counter whose
maximum is `INT_MAX` was incremented more than `INT_MAX` times, the run ends within any bound above
`INT_MAX`, at most `max_steps` step handlers were run and at most `max_tls_probes` handshakes were
made in it. -/
theorem run_within_budgets (host : Host σ) (r : PsRecipe) (fuel : Nat) (w : σ)
    (hfuel : intMax < fuel)
    (hsteps : CanPass r.budgets.maxSteps (stepTicks (psRecipeRun host r fuel w).2.trace))
    (htls : CanPass r.budgets.maxTlsProbes (tlsTicks (psRecipeRun host r fuel w).2.trace)) :
    (psRecipeRun host r fuel w).1 ≠ .fuel ∧
      (handlersRun (psRecipeRun host r fuel w).2.trace : Int) ≤ max 0 r.budgets.maxSteps.toInt ∧
      (tlsCalls (psRecipeRun host r fuel w).2.trace : Int)
        ≤ max 0 r.budgets.maxTlsProbes.toInt := by
  obtain ⟨rt, w', sweep, hrun, hend, -, hsweep⟩ := psRecipeRun_end host r fuel w
  set env : Env σ := { host with budgets := r.budgets } with henv
  have hacts := runSteps_acts env fuel r.steps (rtInit w)
  have hinit : BudgetInv env (rtInit w) := ⟨counted_zero _, counted_zero _⟩
  have hbound := Chain.invariant (E := fun rt => BudgetBound env rt.trace) hacts
    (fun _ _ => BudgetInv.step) (fun _ _ => BudgetInv.stop) (fun _ => BudgetInv.bound) hinit
  rw [hrun] at hbound
  -- the sweep adds nothing that is counted
  have huncounted : ∀ e ∈ sweep, e.uncounted = true := by
    rcases hsweep with rfl | rfl
    · simp
    · exact uncounted_sweep _ _
  obtain ⟨h₁, h₂, h₃, h₄⟩ := counts_append huncounted rt.trace
  rw [hend] at hsteps htls
  rw [hend]
  simp only [h₁, h₂, h₃, h₄] at hsteps htls ⊢
  refine ⟨fun hout => ?_, hbound.steps hsteps, hbound.tls htls⟩
  -- a loop cut off by the bound has counted more handshakes than the budget has
  rw [hout] at hrun
  obtain ⟨hinv, hticks⟩ := Chain.invariant_fuel hacts (fun _ _ => BudgetInv.step) hinit hrun
  have hle := hinv.tls.ticks_le htls
  have hmax := env.budgets.maxTlsProbes.toInt_lt
  simp only [intMax] at hfuel
  omega

/-! ## A server that never stops accepting -/

def turnCipher (turn : Bool) : Bytes := if turn then asc "AES128-SHA" else asc "AES256-SHA"

/-- Every handshake succeeds, with the other cipher than the last one. -/
def turnProbe (turn : Bool) : Option TlsProbeResult × Bool := (some ⟨true, turnCipher turn⟩, !turn)

def turnHost : Host Bool where
  target := ⟨asc "192.0.2.7", 443⟩
  io :=
    { connectTcp := none
      connectUdp := none
      sendAll := none
      recvSome := none
      closeConn := none
      tlsUpgrade := none
      tlsSession := none
      tlsProbe := some fun turn _ _ _ _ _ _ => turnProbe turn }
  regex := ⟨fun _ => true, fun _ _ _ => none⟩
  clock := fun _ => 0
  sink := true

/-- A recipe that enumerates ciphers once, with the given handshake budget. -/
def enumRecipe (maxTlsProbes : Int32) : PsRecipe where
  schema := 2
  name := asc "enum"
  version := 1
  description := none
  kindPrefix := asc "tls"
  defaultPort := 443
  budgets := { defaultBudgets with maxTlsProbes := maxTlsProbes }
  steps := [.tlsEnum ⟨.literal, asc "h"⟩ ⟨.literal, asc "443"⟩ [] none 1000]

/-- With the default budget the enumeration ends. -/
theorem default_budget_ends_peeling :
    intMax < intMax + 1 ∧ CanPass (enumRecipe 200).budgets.maxSteps
        (stepTicks (psRecipeRun turnHost (enumRecipe 200) (intMax + 1) true).2.trace) ∧
      CanPass (enumRecipe 200).budgets.maxTlsProbes
        (tlsTicks (psRecipeRun turnHost (enumRecipe 200) (intMax + 1) true).2.trace) ∧
      (psRecipeRun turnHost (enumRecipe 200) (intMax + 1) true).1 ≠ .fuel ∧
      (handlersRun (psRecipeRun turnHost (enumRecipe 200) (intMax + 1) true).2.trace : Int)
        ≤ max 0 (enumRecipe 200).budgets.maxSteps.toInt ∧
      (tlsCalls (psRecipeRun turnHost (enumRecipe 200) (intMax + 1) true).2.trace : Int)
        ≤ max 0 (enumRecipe 200).budgets.maxTlsProbes.toInt :=
  have hsteps : (enumRecipe 200).budgets.maxSteps ≠ Int32.maxValue := by decide
  have htls : (enumRecipe 200).budgets.maxTlsProbes ≠ Int32.maxValue := by decide
  ⟨Nat.lt_succ_self _, .inl hsteps, .inl htls,
    run_within_budgets turnHost (enumRecipe 200) (intMax + 1) true (Nat.lt_succ_self _)
      (.inl hsteps) (.inl htls)⟩

theorem turnCipher_ne_not (turn : Bool) : turnCipher turn ≠ turnCipher (!turn) := by
  cases turn <;> decide

/-- No `int` is above `INT_MAX`: the check never refuses, and the loop sees progress in every
round. -/
theorem peelLoop_endless (env : Env Bool) (hmax : env.budgets.maxTlsProbes = Int32.maxValue)
    (proto : Bytes) (fuel : Nat) (p : Peel) (acc : Accepted) (rt : Rt Bool)
    (hlast : turnCipher rt.io ≠ p.last) :
    (peelLoop env (fun _ _ turn => turnProbe turn) proto fuel p acc rt).1 = .fuel := by
  induction fuel generalizing p acc rt with
  | zero => rfl
  | succ fuel ih =>
    have hbudget : ¬ rt.tlsProbesDone + 1 > env.budgets.maxTlsProbes := by
      rw [hmax]
      exact Int32.not_lt.mpr (Int32.le_iff_toInt_le.mpr (Int32.toInt_le _))
    rcases probeOnce_cases env (fun _ _ turn => turnProbe turn) proto p.excl rt with
      ⟨e, hrun⟩ | ⟨-, hrun⟩
    · rw [probeOnce, run_bind_ok (budgetTls_within hbudget)] at hrun
      simp at hrun
    · have hcstr : cstr (turnCipher rt.io) = turnCipher rt.io := by cases rt.io <;> decide
      have hne : (turnCipher rt.io).isEmpty = false := by cases rt.io <;> decide
      have htake : (turnCipher rt.io).take 127 = turnCipher rt.io := by cases rt.io <;> decide
      rw [peelLoop, run_bind_ok hrun]
      simp only [turnProbe, hcstr, hne, hlast, Bool.not_true, Bool.false_or, decide_false,
        Bool.false_eq_true, if_false]
      refine ih _ _ _ ?_
      simp only [peelRound, htake]
      exact (turnCipher_ne_not rt.io).symm

/-- With a budget of `INT_MAX` handshakes the run does not end, whatever bound it is given. -/
theorem endless_peeling :
    ¬ ∃ fuel, (psRecipeRun turnHost (enumRecipe Int32.maxValue) fuel true).1 ≠ .fuel := by
  rintro ⟨fuel, hends⟩
  set env : Env Bool := { turnHost with budgets := (enumRecipe Int32.maxValue).budgets } with henv
  -- the handler never returns from the first protocol
  have hhandler : ∀ rt : Rt Bool, rt.io = true → (doTlsEnum env fuel ⟨.literal, asc "h"⟩
      ⟨.literal, asc "443"⟩ [] none 1000 rt).1 = .fuel := by
    intro rt hio
    rw [doTlsEnum, run_bind_ok (m := provided env.io.tlsProbe (asc "tls_probe")) rfl,
      run_bind_ok (reading_ok (a := asc "h") rfl), run_bind_ok (reading_ok (a := 443) rfl)]
    refine run_bind_fuel (run_bind_fuel (peelLoop_endless env rfl _ fuel _ _ rt ?_))
    rw [hio]
    decide
  have hstep : budgetStep env (rtInit true)
      = (.ok (), { rtInit true with stepsDone := 1, clockReads := 2, trace := [.budgetStep] }) := by
    rw [henv]
    rfl
  have hrun : (runSteps env fuel (enumRecipe Int32.maxValue).steps (rtInit true)).1 = .fuel := by
    rw [enumRecipe, runSteps, run_bind_ok hstep, run_bind_ok (run_modify _ _)]
    exact run_bind_fuel (hhandler _ rfl)
  rcases hend : runSteps env fuel (enumRecipe Int32.maxValue).steps (rtInit true) with ⟨o, rt⟩
  rw [hend] at hrun
  obtain rfl : o = .fuel := hrun
  exact hends (by rw [psRecipeRun, ← henv, hend])

end Packetsonde.Recipe
