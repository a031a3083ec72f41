import Packetsonde.Recipe.StaticRun

/-!
# The life of a connection

`ps_recipe_run` opens connections in `connect` steps, closes them in `close` steps and closes what
is left when it returns. At any moment a handle has been opened as often as it has been closed and
is held by an open binding (`LifeInv`), so the final sweep makes both numbers equal, on every exit
path. That uses the static check: an overfull table would lose the handle of a fresh connection.

`do_close` leaves the binding in place, with the handle -1, and its type is still `conn`. A later
step that names it passes the static check and calls the backend with -1 (`closed_then_read`).
As long as no step names a closed connection, every call is made on an open one
(`connections_closed_once`).
-/

namespace Packetsonde.Recipe

open Packetsonde.Lib
open Packetsonde.Lib.Prog
open List

variable {σ : Type}

/-! ## Handles in a trace -/

def Event.opens (h : Int32) : Event → Bool
  | .connect fd => fd = h
  | _ => false

/-- A call of `close_conn` with this handle. -/
def Event.closes (h : Int32) : Event → Bool
  | .closeConn fd => fd = h
  | _ => false

def Event.uses : Event → Option Int32
  | .sendAll h _ => some h
  | .recvSome h _ _ _ _ => some h
  | .closeConn h => some h
  | .tlsUpgrade h => some h
  | .tlsSession h => some h
  | _ => none

def opens (trace : List Event) (h : Int32) : Nat := trace.countP (Event.opens h)

/-- How often a handle was passed to `close_conn`. -/
def closes (trace : List Event) (h : Int32) : Nat := trace.countP (Event.closes h)

/-- After these calls the handle is open: returned by a connect and not yet closed. A backend may
hand out a handle again after it was closed. -/
def IsOpen (trace : List Event) (h : Int32) : Prop := 0 ≤ h ∧ closes trace h < opens trace h

/-- Every call on a connection is made on one that is open at that moment. -/
def UsesOpen (trace : List Event) : Prop :=
  ∀ before e after h, trace = before ++ e :: after → e.uses = some h → IsOpen before h

/-- The step found the connection it names with a handle: it has not been closed. -/
def Event.foundOpen : Event → Bool
  | .found _ h => 0 ≤ h
  | _ => true

def NamesOpen (trace : List Event) : Prop := ∀ e ∈ trace, e.foundOpen = true

instance (trace : List Event) : Decidable (NamesOpen trace) :=
  inferInstanceAs (Decidable (∀ e ∈ trace, e.foundOpen = true))

def Event.keeps (h : Int32) (e : Event) : Prop := e.opens h = false ∧ e.closes h = false

/-- An event on no connection. A failed connect has none. -/
def Event.offline : Event → Bool
  | .connect fd => fd < 0
  | .budgetStep => true
  | .budgetTls => true
  | .enter _ => true
  | .found _ _ => true
  | .leftOut _ => true
  | .tlsProbe _ _ => true
  | _ => false

variable {e : Event} {h : Int32} {evs t : List Event} {v : RtVal} {bs : List RtBinding} {conn got : Bytes}
    {until_ : Until} {cap : Nat}

theorem Event.offline_keeps (he : e.offline = true) (hh : 0 ≤ h) :
    e.keeps h := by
  cases e with
  | connect fd =>
    have hne : fd ≠ h := fun heq => Int32.not_le.mpr (of_decide_eq_true he) (heq ▸ hh)
    exact ⟨decide_eq_false hne, rfl⟩
  | budgetStep | budgetTls | enter | found | leftOut | tlsProbe => exact ⟨rfl, rfl⟩
  | sendAll | recvSome | closeConn | tlsUpgrade | tlsSession => cases he

theorem Event.offline_uses (he : e.offline = true) : e.uses = none := by
  cases e <;> first | rfl | cases he

@[simp] theorem opens_append (t evs : List Event) (h : Int32) :
    opens (t ++ evs) h = opens t h + opens evs h := countP_append

@[simp] theorem closes_append (t evs : List Event) (h : Int32) :
    closes (t ++ evs) h = closes t h + closes evs h := countP_append

theorem opens_eq_zero (hevs : ∀ e ∈ evs, e.keeps h) :
    opens evs h = 0 := by
  rw [opens, countP_eq_zero]
  intro e he
  simp [(hevs e he).1]

theorem closes_eq_zero (hevs : ∀ e ∈ evs, e.keeps h) :
    closes evs h = 0 := by
  rw [closes, countP_eq_zero]
  intro e he
  simp [(hevs e he).2]

theorem IsOpen.append (hopen : IsOpen t h) (hevs : ∀ e ∈ evs, e.keeps h) : IsOpen (t ++ evs) h := by
  refine ⟨hopen.1, ?_⟩
  rw [opens_append, closes_append, opens_eq_zero hevs, closes_eq_zero hevs]
  exact hopen.2

theorem namesOpen_append :
    NamesOpen (t ++ evs) ↔ NamesOpen t ∧ NamesOpen evs := by
  simp only [NamesOpen, mem_append, or_imp, forall_and]

/-- One more call. -/
theorem UsesOpen.concat (ht : UsesOpen t)
    (he : ∀ h, e.uses = some h → IsOpen t h) : UsesOpen (t ++ [e]) := by
  intro before e' after h heq huses
  rcases eq_nil_or_concat after with rfl | ⟨after', last, rfl⟩
  · obtain ⟨rfl, hlast⟩ := append_inj' heq rfl
    obtain rfl := singleton_injective hlast
    exact he h huses
  · rw [concat_eq_append, ← cons_append, ← append_assoc] at heq
    obtain ⟨rfl, -⟩ := append_inj' heq rfl
    exact ht before e' after' h rfl huses

theorem UsesOpen.append_unused (ht : UsesOpen t)
    (hevs : ∀ e ∈ evs, e.uses = none) : UsesOpen (t ++ evs) := by
  induction evs generalizing t with
  | nil => rwa [append_nil]
  | cons e evs ih =>
    obtain ⟨he, hrest⟩ := forall_mem_cons.mp hevs
    rw [← singleton_append, ← append_assoc]
    refine ih (ht.concat fun h huses => ?_) hrest
    rw [he] at huses
    cases huses

/-- Several calls on one connection that stay away from connect and close. -/
theorem UsesOpen.append (ht : UsesOpen t) (hopen : IsOpen t h)
    (hevs : ∀ e ∈ evs, e.keeps h ∧ e.uses = some h) : UsesOpen (t ++ evs) := by
  induction evs generalizing t with
  | nil => rwa [append_nil]
  | cons e evs ih =>
    obtain ⟨he, hrest⟩ := forall_mem_cons.mp hevs
    rw [← singleton_append, ← append_assoc]
    refine ih (ht.concat fun h' huses => ?_) (hopen.append (by simpa using he.1)) hrest
    obtain rfl := Option.some.inj (he.2.symm.trans huses)
    exact hopen

/-! ## Handles in the bindings -/

theorem openHandle_nonneg (hv : v.openHandle = some h) : 0 ≤ h := by
  cases v <;> simp only [RtVal.openHandle, reduceCtorEq] at hv
  split at hv
  · rename_i hge
    exact Option.some.inj hv ▸ hge
  · simp at hv

theorem openHandle_of_type (hty : v.type ≠ .conn) : v.openHandle = none := by
  cases v <;> first | rfl | exact absurd rfl hty

theorem openHandles_nonneg (hmem : h ∈ openHandles bs) :
    0 ≤ h := by
  obtain ⟨b, -, hb⟩ := mem_filterMap.mp hmem
  exact openHandle_nonneg hb

theorem openHandles_append (bs : List RtBinding) (b : RtBinding) :
    openHandles (bs ++ [b]) = openHandles bs ++ b.val.openHandle.toList := by
  rw [openHandles, filterMap_append]
  rcases hb : b.val.openHandle with _ | h <;> simp [openHandles, hb]

theorem mem_openHandles (hlook : rtLookup bs conn = some (.conn h)) (hh : 0 ≤ h) : h ∈ openHandles bs := by
  rw [rtLookup, Option.map_eq_some_iff] at hlook
  obtain ⟨b, hb, hval⟩ := hlook
  refine mem_filterMap.mpr ⟨b, mem_of_find?_eq_some hb, ?_⟩
  rw [hval]
  exact if_pos hh

/-- Closing a binding takes its handle from the open ones, once. -/
theorem count_openHandles_markClosed
    (hlook : rtLookup bs conn = some (.conn h)) {h' : Int32} (hh' : 0 ≤ h') :
    (openHandles bs).count h'
      = (openHandles (markClosed conn bs)).count h' + if h = h' then 1 else 0 := by
  induction bs with
  | nil => simp [rtLookup] at hlook
  | cons b bs ih =>
    rw [markClosed]
    by_cases hname : b.name = conn
    · have hval : b.val = .conn h := by simpa [rtLookup, hname] using hlook
      have hclosed : (RtVal.conn (-1)).openHandle = none := rfl
      rw [if_pos hname, openHandles, openHandles, filterMap_cons, filterMap_cons, hval,
        hclosed]
      by_cases hopen : h ≥ 0
      · simp [RtVal.openHandle, hopen, count_cons]
      · have hne : h ≠ h' := fun heq => hopen (heq ▸ hh')
        simp [RtVal.openHandle, hopen, hne]
    · have hrest : rtLookup bs conn = some (.conn h) := by simpa [rtLookup, hname] using hlook
      have hih := ih hrest
      rw [if_neg hname]
      rcases hb : b.val.openHandle with _ | fd
      · simpa [openHandles, filterMap_cons, hb] using hih
      · simp only [openHandles, filterMap_cons, hb, count_cons] at hih ⊢
        omega

/-! ## The invariant -/

/-- Every handle has been opened as often as it has been closed and is held by a binding; calls
were made on open connections, as long as the steps named open ones. -/
structure LifeInv (rt : Rt σ) : Prop where
  balance : ∀ h, 0 ≤ h → opens rt.trace h = closes rt.trace h + (openHandles rt.bs).count h
  uses : NamesOpen rt.trace → UsesOpen rt.trace

/-- A connection that a step found open is open. -/
theorem LifeInv.isOpen {rt : Rt σ} (hinv : LifeInv rt)
    (hlook : rtLookup rt.bs conn = some (.conn h)) (hfound : .found conn h ∈ rt.trace)
    (hnames : NamesOpen rt.trace) : IsOpen rt.trace h := by
  have hh : 0 ≤ h := of_decide_eq_true (hnames _ hfound)
  have hcount := count_pos_iff.mpr (mem_openHandles hlook hh)
  have hbalance := hinv.balance h hh
  exact ⟨hh, by omega⟩

/-- Events on no connection, where the open handles stay. -/
theorem LifeInv.of_offline {rt rt' : Rt σ} (hinv : LifeInv rt) (evs : List Event)
    (htrace : rt'.trace = rt.trace ++ evs) (hbs : openHandles rt'.bs = openHandles rt.bs)
    (hevs : ∀ e ∈ evs, e.offline = true) : LifeInv rt' := by
  have hkeeps : ∀ h, 0 ≤ h → ∀ e ∈ evs, e.keeps h :=
    fun h hh e he => Event.offline_keeps (hevs e he) hh
  refine ⟨fun h hh => ?_, fun hnames => ?_⟩
  · rw [htrace, hbs, opens_append, closes_append, opens_eq_zero (hkeeps h hh),
      closes_eq_zero (hkeeps h hh)]
    exact hinv.balance h hh
  · rw [htrace] at hnames ⊢
    exact (hinv.uses (namesOpen_append.mp hnames).1).append_unused fun e he =>
      Event.offline_uses (hevs e he)

/-- Calls on a connection the step found. -/
theorem LifeInv.of_use {rt rt' : Rt σ} (hinv : LifeInv rt)
    (hlook : rtLookup rt.bs conn = some (.conn h)) (hfound : .found conn h ∈ rt.trace)
    (evs : List Event) (htrace : rt'.trace = rt.trace ++ evs) (hbs : rt'.bs = rt.bs)
    (hevs : ∀ e ∈ evs, (∀ h, e.keeps h) ∧ e.uses = some h) : LifeInv rt' := by
  refine ⟨fun h' hh' => ?_, fun hnames => ?_⟩
  · have hkeeps : ∀ e ∈ evs, e.keeps h' := fun e he => (hevs e he).1 h'
    rw [htrace, hbs, opens_append, closes_append, opens_eq_zero hkeeps, closes_eq_zero hkeeps]
    exact hinv.balance h' hh'
  · rw [htrace] at hnames ⊢
    have hbefore := (namesOpen_append.mp hnames).1
    exact (hinv.uses hbefore).append (hinv.isOpen hlook hfound hbefore)
      fun e he => ⟨(hevs e he).1 h, (hevs e he).2⟩

/-- The handle of a fresh connection is held by its binding. -/
theorem LifeInv.opened {rt : Rt σ} (hinv : LifeInv rt) (w : σ) {fd : Int32} (hfd : ¬ fd < 0)
    (out : Bytes) :
    LifeInv { rt with
      io := w, bs := rt.bs ++ [⟨out, .conn fd⟩], trace := rt.trace ++ [.connect fd] } := by
  refine ⟨fun h hh => ?_, fun hnames => ?_⟩
  · have hheld : (RtVal.conn fd).openHandle = some fd := if_pos (Int32.not_lt.mp hfd)
    have hbalance := hinv.balance h hh
    rw [opens_append, closes_append, openHandles_append, hheld, count_append]
    simp only [opens, closes, countP_singleton, Event.opens, Event.closes, Option.toList_some,
      count_singleton, decide_eq_true_eq, beq_iff_eq, Bool.false_eq_true, if_false]
      at hbalance ⊢
    omega
  · exact (hinv.uses (namesOpen_append.mp hnames).1).append_unused (by simp [Event.uses])

/-- A close of a connection the step found. -/
theorem LifeInv.closed {rt : Rt σ} (hinv : LifeInv rt) (w : σ)
    (hlook : rtLookup rt.bs conn = some (.conn h)) (hfound : .found conn h ∈ rt.trace) :
    LifeInv { rt with
      io := w, bs := markClosed conn rt.bs, trace := rt.trace ++ [.closeConn h] } := by
  refine ⟨fun h' hh' => ?_, fun hnames => ?_⟩
  · have hbalance := hinv.balance h' hh'
    rw [count_openHandles_markClosed hlook hh'] at hbalance
    rw [opens_append, closes_append]
    simp only [opens, closes, countP_singleton, Event.opens, Event.closes, decide_eq_true_eq,
      Bool.false_eq_true, if_false] at hbalance ⊢
    omega
  · have hbefore := (namesOpen_append.mp hnames).1
    refine (hinv.uses hbefore).concat fun h' huses => ?_
    obtain rfl := Option.some.inj huses
    exact hinv.isOpen hlook hfound hbefore

theorem RecvTrace.uses {recvSome : σ → Int32 → Nat → Option Bytes × σ} {got kept : Bytes}
    (htrace : RecvTrace recvSome h until_ cap got evs kept) :
    ∀ e ∈ evs, (∀ h', e.keeps h') ∧ e.uses = some h := by
  induction htrace with
  | full => simp
  | eof => simp [Event.keeps, Event.opens, Event.closes, Event.uses]
  | cut => simp [Event.keeps, Event.opens, Event.closes, Event.uses]
  | more _ _ _ _ _ ih => exact forall_mem_cons.mpr ⟨⟨fun _ => ⟨rfl, rfl⟩, rfl⟩, ih⟩

theorem RecvBroken.uses {recvSome : σ → Int32 → Nat → Option Bytes × σ}
    (htrace : RecvBroken recvSome h until_ cap got evs) :
    ∀ e ∈ evs, (∀ h', e.keeps h') ∧ e.uses = some h := by
  induction htrace with
  | error => simp [Event.keeps, Event.opens, Event.closes, Event.uses]
  | more _ _ _ _ ih => exact forall_mem_cons.mpr ⟨⟨fun _ => ⟨rfl, rfl⟩, rfl⟩, ih⟩

/-- No action breaks the balance, if the backend has a `close_conn`. -/
theorem LifeInv.step {env : Env σ} (hclose : env.io.closeConn ≠ none) {rt rt' : Rt σ}
    (hstep : Action env rt rt') (hinv : LifeInv rt) : LifeInv rt' := by
  cases hstep with
  | opened w fd out hfd => exact hinv.opened w hfd out
  | closed w conn h hlook hfound => exact hinv.closed w hlook hfound
  | dropped conn hio => exact absurd hio hclose
  | sent w conn buf h hlook hfound =>
    exact hinv.of_use hlook hfound [.sendAll h buf] rfl rfl
      (by simp [Event.keeps, Event.opens, Event.closes, Event.uses])
  | received w conn h until_ maxBytes recvSome evs got hlook hfound _ _ _ htrace =>
    exact hinv.of_use hlook hfound evs rfl rfl htrace.uses
  | upgraded w conn h _ hlook hfound =>
    have hcounted : LifeInv { rt with
        tlsProbesDone := rt.tlsProbesDone + 1, trace := rt.trace ++ [.budgetTls] } :=
      hinv.of_offline [.budgetTls] rfl rfl (by simp [Event.offline])
    exact hcounted.of_use hlook (mem_append_left _ hfound) [.tlsUpgrade h] rfl rfl
      (by simp [Event.keeps, Event.opens, Event.closes, Event.uses])
  | session w conn h hlook hfound =>
    exact hinv.of_use hlook hfound [.tlsSession h] rfl rfl
      (by simp [Event.keeps, Event.opens, Event.closes, Event.uses])
  | bound b hty =>
    refine hinv.of_offline [] (append_nil _).symm ?_ (by simp)
    rw [openHandles_append, openHandle_of_type hty, Option.toList_none, append_nil]
  | unbound => exact hinv.of_offline [] (append_nil _).symm rfl (by simp)
  | emitted => exact hinv.of_offline [] (append_nil _).symm rfl (by simp)
  | entered s =>
    exact hinv.of_offline ([.budgetStep] ++ [.enter s]) (append_assoc _ _ _) rfl
      (by simp [Event.offline])
  | found conn h => exact hinv.of_offline [.found conn h] rfl rfl (by simp [Event.offline])
  | leftOut why => exact hinv.of_offline [.leftOut why] rfl rfl (by simp [Event.offline])
  | counted => exact hinv.of_offline [.budgetTls] rfl rfl (by simp [Event.offline])
  | probed w proto excl =>
    exact hinv.of_offline ([.budgetTls] ++ [.tlsProbe proto excl]) (append_assoc _ _ _) rfl
      (by simp [Event.offline])

/-- While a run goes on, the only diagnostic is that of an overfull table. -/
def Unbroken (rt : Rt σ) : Prop := ∀ e, rt.err = some e → e = .bindingOverflow

theorem Unbroken.step {env : Env σ} {rt rt' : Rt σ} (hstep : Action env rt rt')
    (h : Unbroken rt) : Unbroken rt' := by
  cases hstep with
  | unbound =>
    intro e he
    rcases herr : rt.err with _ | e'
    · simpa [herr, keepFirst] using he.symm
    · have : e' = e := by simpa [herr, keepFirst] using he
      exact this ▸ h e' herr
  | _ => exact h

/-- A failing end keeps the balance, unless the table was overfull. -/
theorem LifeInv.stop {env : Env σ} {rt rt' : Rt σ} (hstop : Stop env rt rt') (hinv : LifeInv rt)
    (hunbroken : Unbroken rt) : rt'.err = some .bindingOverflow ∨ LifeInv rt' := by
  cases hstop with
  | leaked =>
    left
    rcases herr : rt.err with _ | e
    · simp [keepFirst]
    · simp [keepFirst, hunbroken e herr]
  | failed => exact .inr (hinv.of_offline [] (append_nil _).symm rfl (by simp))
  | stepRefused => exact .inr (hinv.of_offline [.budgetStep] rfl rfl (by simp [Event.offline]))
  | tlsRefused => exact .inr (hinv.of_offline [.budgetTls] rfl rfl (by simp [Event.offline]))
  | connectFailed w fd e hfd =>
    exact .inr (hinv.of_offline [.connect fd] rfl rfl (by simpa [Event.offline] using hfd))
  | recvBroken w conn h until_ maxBytes recvSome evs e hlook hfound _ _ _ htrace =>
    exact .inr (hinv.of_use hlook hfound evs rfl rfl htrace.uses)

/-! ## The final sweep -/

theorem opens_map_closeConn (hs : List Int32) (h : Int32) : opens (hs.map .closeConn) h = 0 := by
  simp [opens, Event.opens, countP_map, Function.comp_def]

theorem closes_map_closeConn (hs : List Int32) (h : Int32) :
    closes (hs.map .closeConn) h = hs.count h := by
  rw [closes, countP_map, List.count]
  congr 1

/-- Closing everything that is open uses open connections only. -/
theorem UsesOpen.sweep {hs : List Int32} (ht : UsesOpen t)
    (hnonneg : ∀ h ∈ hs, 0 ≤ h) (hopen : ∀ h, 0 ≤ h → opens t h = closes t h + hs.count h) :
    UsesOpen (t ++ hs.map .closeConn) := by
  induction hs generalizing t with
  | nil => rwa [map_nil, append_nil]
  | cons h hs ih =>
    obtain ⟨hh, hrest⟩ := forall_mem_cons.mp hnonneg
    rw [map_cons, ← singleton_append, ← append_assoc]
    refine ih (ht.concat fun h' huses => ?_) hrest fun h' hh' => ?_
    · obtain rfl := Option.some.inj huses
      have := hopen h hh
      rw [count_cons_self] at this
      exact ⟨hh, by omega⟩
    · have := hopen h' hh'
      rw [opens_append, closes_append]
      simp only [opens, closes, countP_singleton, Event.opens, Event.closes, count_cons,
        decide_eq_true_eq, beq_iff_eq, Bool.false_eq_true, if_false] at this ⊢
      omega

/-! ## Whole runs -/

/-- The invariant where the steps end, before the sweep. -/
theorem runSteps_life (host : Host σ) {json : Bytes} {r : PsRecipe}
    (hparse : psRecipeParseJson json = .ok r) (fuel : Nat) (w : σ)
    (hclose : host.io.closeConn ≠ none) :
    LifeInv (runSteps { host with budgets := r.budgets } fuel r.steps (rtInit w)).2 := by
  obtain ⟨root, rest, stepsV, t, -, -, hbuild⟩ := parsed_steps hparse
  have herr := (psRecipeRun_ended host r fuel w hbuild).err
  obtain ⟨rt, w', sweep, hrun, hend, -, -⟩ := psRecipeRun_end host r fuel w
  have hinit : LifeInv (rtInit w) ∧ Unbroken (rtInit w) :=
    ⟨⟨fun _ _ => rfl, fun _ before e after h heq => by simp [rtInit] at heq⟩,
      fun e he => by simp [rtInit] at he⟩
  have hlife := Chain.invariant
    (runSteps_acts { host with budgets := r.budgets } fuel r.steps (rtInit w))
    (I := fun rt => LifeInv rt ∧ Unbroken rt)
    (E := fun rt => rt.err = some .bindingOverflow ∨ LifeInv rt)
    (fun _ _ hstep h => ⟨h.1.step hclose hstep, h.2.step hstep⟩)
    (fun _ _ hstop h => h.1.stop hstop h.2) (fun _ h => .inr h.1) hinit
  -- a parsed recipe does not overfill the table
  refine hlife.resolve_left fun hoverflow => ?_
  rw [hrun] at hoverflow
  rw [hend, hoverflow] at herr
  exact herr

/-- **The life of a connection.** When a run of a parsed recipe is over, on whichever path, every
handle has been closed exactly as often as it was returned by a connect. And if no step of the run
named a connection that was closed before, every call was made on an open connection. -/
theorem connections_closed_once (host : Host σ) {json : Bytes} {r : PsRecipe}
    (hparse : psRecipeParseJson json = .ok r) (fuel : Nat) (w : σ)
    (hclose : host.io.closeConn ≠ none) (hover : (psRecipeRun host r fuel w).1 ≠ .fuel) :
    (∀ h, 0 ≤ h →
      closes (psRecipeRun host r fuel w).2.trace h = opens (psRecipeRun host r fuel w).2.trace h) ∧
    (NamesOpen (psRecipeRun host r fuel w).2.trace →
      UsesOpen (psRecipeRun host r fuel w).2.trace) := by
  have hlife := runSteps_life host hparse fuel w hclose
  obtain ⟨rt, w', sweep, hrun, hend, hsweep, -⟩ := psRecipeRun_end host r fuel w
  rw [hrun] at hlife
  have hcalls : sweep = (openHandles rt.bs).map .closeConn := by
    rw [hsweep hover, sweepEvents, if_pos (Option.isSome_iff_ne_none.mpr hclose)]
  rw [hend, hcalls]
  refine ⟨fun h hh => ?_, fun hnames => ?_⟩
  · rw [opens_append, closes_append, opens_map_closeConn, closes_map_closeConn]
    exact (hlife.balance h hh).symm
  · exact (hlife.uses (namesOpen_append.mp hnames).1).sweep (fun h => openHandles_nonneg)
      hlife.balance

/-- A recipe that connects and then takes two more steps. -/
def lifecycleJson (second third : Bytes) : Bytes :=
  asc "\x7b\"schema\":1,\"name\":\"l\",\"version\":1,\"kind_prefix\":\"l\",\"steps\":[" ++
  asc "\x7b\"op\":\"connect_tcp\",\"host\":\"h\",\"port\":25,\"timeout_ms\":9,\"out\":\"c\"\x7d," ++
  second ++ asc "," ++ third ++ asc "]\x7d"

def recvJson : Bytes :=
  asc "\x7b\"op\":\"recv\",\"conn\":\"c\",\"until\":\"newline\",\"max_bytes\":9,\"out\":\"l\"\x7d"

def closeJson : Bytes := asc "\x7b\"op\":\"close\",\"conn\":\"c\"\x7d"

/-- Read and then closed, the connection is used while it is open. -/
theorem read_then_closed :
    ∃ r, psRecipeParseJson (lifecycleJson recvJson closeJson) = .ok r ∧
      closes (psRecipeRun (streamHost 9) r 0 (asc "a\n")).2.trace 3
        = opens (psRecipeRun (streamHost 9) r 0 (asc "a\n")).2.trace 3 ∧
      UsesOpen (psRecipeRun (streamHost 9) r 0 (asc "a\n")).2.trace := by
  obtain ⟨r, hparse, hover, hnames⟩ := exists_parsed (lifecycleJson recvJson closeJson)
    (P := fun r => (psRecipeRun (streamHost 9) r 0 (asc "a\n")).1 = .ok () ∧
      NamesOpen (psRecipeRun (streamHost 9) r 0 (asc "a\n")).2.trace) (by decide +kernel)
  have hlife := connections_closed_once (streamHost 9) hparse 0 (asc "a\n") nofun
    (by rw [hover]; nofun)
  exact ⟨r, hparse, hlife.1 3 (by decide), hlife.2 hnames⟩

/-- A call with a negative handle is on no open connection. -/
theorem not_usesOpen {trace : List Event} (he : e ∈ trace)
    (huses : e.uses = some h) (hneg : h < 0) : ¬ UsesOpen trace := by
  obtain ⟨before, after, rfl⟩ := append_of_mem he
  exact fun hall => Int32.not_le.mpr hneg (hall before e after h rfl huses).1

/-- Closed and then read: `recv_some` is called with -1. -/
theorem closed_then_read :
    ∃ r, psRecipeParseJson (lifecycleJson closeJson recvJson) = .ok r ∧
      (psRecipeRun (streamHost 9) r 0 (asc "a\n")).1 = .ok () ∧
      ¬ UsesOpen (psRecipeRun (streamHost 9) r 0 (asc "a\n")).2.trace := by
  obtain ⟨r, hparse, hover, hcall⟩ := exists_parsed (lifecycleJson closeJson recvJson)
    (P := fun r => (psRecipeRun (streamHost 9) r 0 (asc "a\n")).1 = .ok () ∧
      ∃ e ∈ (psRecipeRun (streamHost 9) r 0 (asc "a\n")).2.trace, e.uses = some (-1))
    (by decide +kernel)
  obtain ⟨e, he, huses⟩ := hcall
  exact ⟨r, hparse, hover, not_usesOpen he huses (by decide)⟩

end Packetsonde.Recipe
