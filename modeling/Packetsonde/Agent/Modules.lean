import Packetsonde.Lib.Scan
import Mathlib.Data.List.FinRange

/-!
# Packetsonde — the modules of the agent (`module.c`, the event loop and `on_ipc_frame` of `main.c`)

A module is initialised once, gets the packets, responses, jobs and ticks while its `enabled` flag is set, and
is shut down at the end. The flag says two things: a failed `init` clears it, and so does an operator who
switches the module off by `discovery.control`. It can be set again either way, and the end looks at it too: the
modules that were initialised are all shut down if and only if they are all switched on then.
-/

namespace Packetsonde.Agent

open Packetsonde.Lib

/-! ## The code -/

inductive Handler where
  | init
  | shutdown
  | onPacket
  | onJob
  | onResponse
  | tick
  deriving DecidableEq

/-- `ps_module_t`: `init` is what that function returns when it is called, if there is one, and `has` tells
which of the other pointers are not null. -/
structure Module where
  name : Bytes
  flags : UInt32
  init : Option Int32
  has : Handler → Bool

def Module.active (m : Module) : Bool := m.flags &&& 0x01 ≠ 0

def Module.passive (m : Module) : Bool := m.flags &&& 0x02 ≠ 0

/-- What reaches the agent. A `probe.request` is one job for each of its ports. -/
inductive ModuleEvent where
  | control (action moduleName : Bytes)
  | traceroute
  | probe
  | flowControl
  | packet
  | response
  | tick

variable {n : Nat} (reg : Fin n → Module)

/-- A loop over the registry that calls one function of the enabled modules it is meant for. -/
def callEach (enabled asks : Fin n → Bool) (h : Handler) : List (Fin n × Handler) :=
  ((List.finRange n).filter fun i => enabled i && asks i).map (·, h)

/-- `ps_module_registry_init_all`: the flags behind it. -/
def initAll (enabled : Fin n → Bool) : (Fin n → Bool) × List (Fin n × Handler) :=
  (fun i => enabled i && ((reg i).init == none || (reg i).init == some 0),
    callEach enabled (fun i => (reg i).init.isSome) .init)

/-- `ps_module_registry_shutdown_all`, from the last module to the first. -/
def shutdownAll (enabled : Fin n → Bool) : List (Fin n × Handler) :=
  (callEach enabled (fun i => (reg i).has .shutdown) .shutdown).reverse

def namedModule (name : Bytes) : Option (Fin n) := (List.finRange n).find? fun i => (reg i).name == name

/-- `discovery.control`; `list` and unknown actions change nothing. -/
def discoveryControl (action moduleName : Bytes) (enabled : Fin n → Bool) : Fin n → Bool :=
  if action = asc "enable" ∧ moduleName ≠ [] then fun i => enabled i || namedModule reg moduleName == some i
  else if action = asc "disable" ∧ moduleName ≠ [] then
    fun i => enabled i && namedModule reg moduleName != some i
  else if action = asc "enable_all" then fun i => enabled i || (reg i).passive
  else if action = asc "disable_all" then fun i => enabled i && !(reg i).passive
  else enabled

/-- What one event does to the flags, and the calls it leads to. -/
def moduleStep (enabled : Fin n → Bool) : ModuleEvent → (Fin n → Bool) × List (Fin n × Handler)
  | .control action moduleName => (discoveryControl reg action moduleName enabled, [])
  | .traceroute =>
    (enabled, callEach enabled
      (fun i => (reg i).has .onJob && (strstr (asc "traceroute") (reg i).name).isSome) .onJob)
  | .probe => (enabled, callEach enabled (fun i => (reg i).has .onJob) .onJob)
  | .flowControl =>
    (enabled, (callEach enabled
      (fun i => (reg i).has .onJob && (reg i).name == asc "flow_tracker") .onJob).take 1)
  | .packet =>
    (enabled, callEach enabled (fun i => (reg i).passive && (reg i).has .onPacket) .onPacket)
  | .response =>
    (enabled, callEach enabled (fun i => (reg i).active && (reg i).has .onResponse) .onResponse)
  | .tick => (enabled, callEach enabled (fun i => (reg i).has .tick) .tick)

def moduleRun (enabled : Fin n → Bool) : List ModuleEvent → (Fin n → Bool) × List (Fin n × Handler)
  | [] => (enabled, [])
  | e :: es =>
    let (enabled, calls) := moduleStep reg enabled e
    let (enabled, more) := moduleRun enabled es
    (enabled, calls ++ more)

/-- The flags at the end of the loop; `ps_module_registry_add` has set them all. -/
def flagsAtEnd (es : List ModuleEvent) : Fin n → Bool :=
  (moduleRun reg (initAll reg fun _ => true).1 es).1

/-- All calls from `ps_module_registry_init_all` to the end of `main`. -/
def agentCalls (es : List ModuleEvent) : List (Fin n × Handler) :=
  (initAll reg fun _ => true).2 ++ (moduleRun reg (initAll reg fun _ => true).1 es).2 ++
    shutdownAll reg (flagsAtEnd reg es)

/-! ## What is asked of it -/

/-- The `init` of the module returned an error. -/
def Module.Failed (m : Module) : Prop := ∃ rc, m.init = some rc ∧ rc ≠ 0

/-- Failed modules are left alone, and those that were initialised are shut down once. -/
structure Orderly (calls : List (Fin n × Handler)) : Prop where
  spared : ∀ i, (reg i).Failed → ∀ h, h ≠ .init → (i, h) ∉ calls
  once : ∀ i, (reg i).init = some 0 → (reg i).has .shutdown → calls.count (i, .shutdown) = 1

/-- The command does not switch on a module whose `init` failed. -/
def Spares : ModuleEvent → Prop
  | .control action moduleName =>
    (action = asc "enable" → moduleName ≠ [] → ∀ i, namedModule reg moduleName = some i → ¬ (reg i).Failed) ∧
    (action = asc "enable_all" → ∀ i, (reg i).passive → ¬ (reg i).Failed)
  | _ => True

/-! ## Modules that are off -/

def Off (enabled : Fin n → Bool) : Prop := ∀ i, (reg i).Failed → enabled i = false

variable {reg} {enabled asks : Fin n → Bool} {h k : Handler} {i : Fin n} {es : List ModuleEvent}

theorem mem_callEach : (i, k) ∈ callEach enabled asks h ↔ (enabled i ∧ asks i) ∧ h = k := by
  simp [callEach]

theorem off_initAll : Off reg (initAll reg enabled).1 := by
  rintro i ⟨rc, hrc, hne⟩
  simp [initAll, hrc, hne]

/-- A command leaves the failed modules off. -/
theorem off_discoveryControl {action moduleName : Bytes} (hoff : Off reg enabled)
    (hspares : Spares reg (.control action moduleName)) :
    Off reg (discoveryControl reg action moduleName enabled) := by
  intro i hfailed
  have hi := hoff i hfailed
  unfold discoveryControl
  split_ifs with h₁ h₂ h₃ h₄
  · -- the module that is switched on is another one
    have hne : namedModule reg moduleName ≠ some i := fun hfound =>
      hspares.1 h₁.1 h₁.2 i hfound hfailed
    simp [hi, hne]
  · simp [hi]
  · have hactive : (reg i).passive = false := Bool.eq_false_iff.mpr fun hp => hspares.2 h₃ i hp hfailed
    simp [hi, hactive]
  · simp [hi]
  · exact hi

/-- One event: the calls it leads to are of enabled modules, and none is a shutdown. -/
theorem moduleStep_calls (e : ModuleEvent) {c : Fin n × Handler} (hc : c ∈ (moduleStep reg enabled e).2) :
    enabled c.1 = true ∧ c.2 ≠ .shutdown := by
  obtain ⟨i, k⟩ := c
  cases e with
  | control action moduleName => cases hc
  | flowControl =>
    obtain ⟨⟨hen, -⟩, rfl⟩ := mem_callEach.mp (List.mem_of_mem_take hc)
    exact ⟨hen, Handler.noConfusion⟩
  | traceroute | probe | packet | response | tick =>
    obtain ⟨⟨hen, -⟩, rfl⟩ := mem_callEach.mp hc
    exact ⟨hen, Handler.noConfusion⟩

theorem step_off {e : ModuleEvent} (hoff : Off reg enabled) (hspares : Spares reg e) :
    Off reg (moduleStep reg enabled e).1 := by
  cases e with
  | control action moduleName => exact off_discoveryControl hoff hspares
  | traceroute | probe | flowControl | packet | response | tick => exact hoff

/-- The whole loop, by induction on the events: a failed module stays off and is not called. -/
theorem run_off (hoff : Off reg enabled) (hspares : ∀ e ∈ es, Spares reg e) :
    Off reg (moduleRun reg enabled es).1 ∧
      ∀ i, (reg i).Failed → ∀ k, (i, k) ∉ (moduleRun reg enabled es).2 := by
  induction es generalizing enabled with
  | nil => exact ⟨hoff, fun _ _ _ hc => by cases hc⟩
  | cons e es ih =>
    obtain ⟨he, hes⟩ := List.forall_mem_cons.mp hspares
    obtain ⟨hend, hcalls⟩ := ih (step_off hoff he) hes
    refine ⟨hend, fun i hfailed k hc => ?_⟩
    rcases List.mem_append.mp hc with hc | hc
    · have hen := (moduleStep_calls e hc).1
      rw [hoff i hfailed] at hen
      cases hen
    · exact hcalls i hfailed k hc

/-! ## The end -/

theorem run_no_shutdown : (i, Handler.shutdown) ∉ (moduleRun reg enabled es).2 := by
  induction es generalizing enabled with
  | nil => exact List.not_mem_nil
  | cons e es ih =>
    intro hc
    rcases List.mem_append.mp hc with hc | hc
    · exact (moduleStep_calls e hc).2 rfl
    · exact ih hc

theorem count_shutdownAll (hhas : (reg i).has .shutdown) :
    (shutdownAll reg enabled).count (i, .shutdown) = if enabled i then 1 else 0 := by
  have hinj : Function.Injective fun i : Fin n => (i, Handler.shutdown) := fun _ _ h => (Prod.mk.inj h).1
  have hnodup : (shutdownAll reg enabled).Nodup :=
    List.nodup_reverse.mpr (((List.nodup_finRange n).filter _).map hinj)
  rw [hnodup.count]
  refine if_congr ?_ rfl rfl
  rw [shutdownAll, List.mem_reverse, mem_callEach]
  simp [hhas]

/-- In the whole run a module is shut down as often as it is switched on at the end. -/
theorem count_agentCalls (hhas : (reg i).has .shutdown) :
    (agentCalls reg es).count (i, .shutdown) = if flagsAtEnd reg es i then 1 else 0 := by
  have hinit : (i, Handler.shutdown) ∉ (initAll reg fun _ => true).2 := fun hc =>
    absurd (mem_callEach.mp hc).2 (by decide)
  rw [agentCalls, List.count_append, List.count_append, List.count_eq_zero.mpr hinit,
    List.count_eq_zero.mpr run_no_shutdown, count_shutdownAll hhas, Nat.zero_add]

/-- **Failed modules are never called as long as no command switches one on; the others are then shut down
once each if and only if they are all switched on at the end.** -/
theorem run_orderly_iff {n : Nat} (reg : Fin n → Module) (es : List ModuleEvent)
    (hspares : ∀ e ∈ es, Spares reg e) :
    Orderly reg (agentCalls reg es) ↔
      ∀ i, (reg i).init = some 0 → (reg i).has .shutdown → flagsAtEnd reg es i = true := by
  obtain ⟨hend, hcalls⟩ := run_off off_initAll hspares
  constructor
  · intro h i hinit hhas
    have hone := h.once i hinit hhas
    rw [count_agentCalls hhas] at hone
    by_contra hflag
    rw [if_neg hflag] at hone
    cases hone
  · intro hflags
    refine ⟨fun i hfailed k hk hc => ?_, fun i hinit hhas => ?_⟩
    · rcases List.mem_append.mp hc with hc | hc
      · rcases List.mem_append.mp hc with hc | hc
        · exact hk (mem_callEach.mp hc).2.symm
        · exact hcalls i hfailed k hc
      · -- the flag is clear at the end as well
        obtain ⟨⟨hen, -⟩, -⟩ := mem_callEach.mp (List.mem_reverse.mp hc)
        exact absurd hen (by rw [flagsAtEnd, hend i hfailed]; decide)
    · rw [count_agentCalls hhas, if_pos (hflags i hinit hhas)]

/-- A listener that initialises and is shut down at the end, whatever `init` returns. -/
def listener (rc : Int32) : Module := ⟨asc "lldp", 0x02, some rc, fun _ => true⟩

/-- Behind it a listener that failed. -/
def listeners (i : Fin 2) : Module :=
  if i = 0 then listener 0 else { listener (-1) with name := asc "cdp" }

/-- The first one is switched off for a packet and on again for the next. -/
def switched : List ModuleEvent :=
  [.control (asc "disable") (asc "lldp"), .packet, .control (asc "enable") (asc "lldp"), .packet, .tick]

theorem switched_orderly :
    (listeners 1).Failed ∧ (∀ e ∈ switched, Spares listeners e) ∧
      Orderly listeners (agentCalls listeners switched) := by
  have hok : ¬ (listeners 0).Failed := by
    rintro ⟨rc, hrc, hne⟩
    exact hne (Option.some.inj hrc).symm
  have hnamed : namedModule listeners (asc "lldp") = some 0 := by decide
  have henable : Spares listeners (.control (asc "enable") (asc "lldp")) := by
    refine ⟨fun _ _ i hi => ?_, fun h => absurd h (by decide)⟩
    rw [hnamed] at hi
    cases hi
    exact hok
  have hdisable : Spares listeners (.control (asc "disable") (asc "lldp")) :=
    ⟨fun h => absurd h (by decide), fun h => absurd h (by decide)⟩
  have hspares : ∀ e ∈ switched, Spares listeners e := by
    simp only [switched, List.forall_mem_cons]
    exact ⟨hdisable, trivial, henable, trivial, trivial, by simp⟩
  exact ⟨⟨-1, rfl, by decide⟩, hspares, (run_orderly_iff _ _ hspares).mpr (by decide +kernel)⟩

/-- **`enable_all` brings a module whose `init` failed back, and `disable_all` keeps the others from being
shut down.** -/
theorem enabled_all_not_orderly :
    let reg : Fin 2 → Module := fun i => listener (if i = 0 then -1 else 0)
    let calls := agentCalls reg [.control (asc "enable_all") [], .packet, .control (asc "disable_all") []]
    (reg 0).Failed ∧ (0, .onPacket) ∈ calls ∧ (reg 1).init = some 0 ∧ (1, .shutdown) ∉ calls := by
  refine ⟨⟨-1, rfl, by decide⟩, ?_⟩
  decide +kernel

end Packetsonde.Agent
