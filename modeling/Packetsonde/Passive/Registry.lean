import Packetsonde.Priv.Protocol

/-!
# Packetsonde — captured frames on their way to the modules (`module.c`, `dispatch_priv_msg`)

The worker sends each frame of each open capture as one message, and the agent hands it to every enabled
passive module, with the handle of the capture it is from. A module gets the frames of all captures,
whatever it asked for itself.

`σ` is the state of a module and `ε` what it publishes. `visitModules_keeps` is the rule for invariants:
what one module keeps, a pass over all of them keeps; `runMsgs_keeps` says it of any number of messages.
-/

namespace Packetsonde.Passive

open Packetsonde.Lib

/-- A frame as `on_packet` gets it. -/
structure Captured where
  pkt : Bytes
  tsUsec : UInt64
  handleId : Int32
  deriving DecidableEq, Repr

/-- `struct ps_module_instance`: `state` is what `ctx.userdata` points to. -/
structure Instance (σ : Type) where
  enabled : Bool
  /-- The flag `PS_MOD_PASSIVE`. -/
  passive : Bool
  state : σ

section

variable {σ ε : Type}

/-- A pass over the registry: what a module does to its state and publishes, in order. -/
def visitModules (asks : Instance σ → Bool) (act : σ → σ × List ε) :
    List (Instance σ) → List (Instance σ) × List ε
  | [] => ([], [])
  | inst :: rest =>
    let (rest, more) := visitModules asks act rest
    if asks inst then
      let (state, events) := act inst.state
      ({ inst with state } :: rest, events ++ more)
    else (inst :: rest, more)

/-- The modules after `ps_module_registry_init_all`, where `true` stands for the module in question and
`init` is its state. -/
def initAll (init : σ) (mods : List (Instance Bool)) : List (Instance (Option σ)) :=
  mods.map fun m =>
    { enabled := m.enabled, passive := m.passive, state := if m.state then some init else none }

variable (onPacket : Captured → σ → σ × List ε)

/-- `ps_module_registry_dispatch_packet`. -/
def dispatchPacket (c : Captured) (reg : List (Instance σ)) : List (Instance σ) × List ε :=
  visitModules (fun inst => inst.enabled ∧ inst.passive) (onPacket c) reg

/-- The frame in a message, if it is one: eight bytes of time stamp stand in front of it. -/
def capturedOf (m : Priv.Msg) : Option Captured :=
  if m.opcode = Priv.opPacketData ∧ ¬ m.payload.length < 8 then
    some
      { pkt := m.payload.drop 8
        tsUsec := UInt64.ofNat (getLE (m.payload.take 8))
        handleId := Int32.ofInt m.handleId.toNat }
  else none

/-- `dispatch_priv_msg`, as far as passive modules are concerned. -/
def dispatchPrivMsg (m : Priv.Msg) (reg : List (Instance σ)) : List (Instance σ) × List ε :=
  match capturedOf m with
  | none => (reg, [])
  | some c => dispatchPacket onPacket c reg

/-- Messages one after another: the modules after them, and all that was published. -/
def runMsgs : List Priv.Msg → List (Instance σ) → List (Instance σ) × List ε
  | [], reg => (reg, [])
  | m :: ms, reg =>
    let (reg, events) := dispatchPrivMsg onPacket m reg
    let (reg, more) := runMsgs ms reg
    (reg, events ++ more)

variable {onPacket} {I : σ → Prop} {Q : ε → Prop}

/-- A pass keeps what each module keeps. The step may need more of a state than it keeps, such as a
condition on this frame: `C`. -/
theorem visitModules_keeps {C : σ → Prop} {asks : Instance σ → Bool} {act : σ → σ × List ε}
    (hstep : ∀ s, C s → I s → I (act s).1 ∧ ∀ e ∈ (act s).2, Q e) {reg : List (Instance σ)}
    (hcond : ∀ inst ∈ reg, C inst.state) (hreg : ∀ inst ∈ reg, I inst.state) :
    (∀ inst ∈ (visitModules asks act reg).1, I inst.state)
      ∧ ∀ e ∈ (visitModules asks act reg).2, Q e := by
  induction reg with
  | nil => exact ⟨hreg, fun e he => by cases he⟩
  | cons inst reg ih =>
    obtain ⟨hthis, hothers⟩ := List.forall_mem_cons.mp hcond
    obtain ⟨hinst, hrest⟩ := List.forall_mem_cons.mp hreg
    obtain ⟨hstates, hevents⟩ := ih hothers hrest
    obtain ⟨hnext, hnew⟩ := hstep inst.state hthis hinst
    unfold visitModules
    dsimp only
    split
    · exact ⟨List.forall_mem_cons.mpr ⟨hnext, hstates⟩, List.forall_mem_append.mpr ⟨hnew, hevents⟩⟩
    · exact ⟨List.forall_mem_cons.mpr ⟨hinst, hstates⟩, hevents⟩

theorem forall_mem_initAll {I : Option σ → Prop} {init : σ} (hnone : I none) (hinit : I (some init))
    (mods : List (Instance Bool)) : ∀ inst ∈ initAll init mods, I inst.state := by
  intro inst hinst
  obtain ⟨m, -, rfl⟩ := List.mem_map.mp hinst
  dsimp only
  split
  · exact hinit
  · exact hnone

theorem dispatchPrivMsg_keeps {C : Captured → σ → Prop} {m : Priv.Msg}
    (hstep : ∀ c s, capturedOf m = some c → C c s → I s →
      I (onPacket c s).1 ∧ ∀ e ∈ (onPacket c s).2, Q e) {reg : List (Instance σ)}
    (hcond : ∀ c, capturedOf m = some c → ∀ inst ∈ reg, C c inst.state)
    (hreg : ∀ inst ∈ reg, I inst.state) :
    (∀ inst ∈ (dispatchPrivMsg onPacket m reg).1, I inst.state)
      ∧ ∀ e ∈ (dispatchPrivMsg onPacket m reg).2, Q e := by
  unfold dispatchPrivMsg
  split
  · exact ⟨hreg, fun e he => by cases he⟩
  · rename_i c hc
    exact visitModules_keeps (fun s => hstep c s hc) (hcond c hc) hreg

theorem runMsgs_keeps {ms : List Priv.Msg}
    (hstep : ∀ m ∈ ms, ∀ c s, capturedOf m = some c → I s →
      I (onPacket c s).1 ∧ ∀ e ∈ (onPacket c s).2, Q e) {reg : List (Instance σ)}
    (hreg : ∀ inst ∈ reg, I inst.state) :
    (∀ inst ∈ (runMsgs onPacket ms reg).1, I inst.state)
      ∧ ∀ e ∈ (runMsgs onPacket ms reg).2, Q e := by
  induction ms generalizing reg with
  | nil => exact ⟨hreg, fun e he => by cases he⟩
  | cons m ms ih =>
    obtain ⟨hfirst, hrest⟩ := List.forall_mem_cons.mp hstep
    obtain ⟨hstates, hevents⟩ := dispatchPrivMsg_keeps (C := fun _ _ => True)
      (fun c s hc _ => hfirst c s hc) (fun _ _ _ _ => trivial) hreg
    obtain ⟨hstates', hevents'⟩ := ih hrest hstates
    exact ⟨hstates', List.forall_mem_append.mpr ⟨hevents, hevents'⟩⟩

/-- The handle of a capture is a number of 16 bits. -/
theorem handleId_nonneg {m : Priv.Msg} {c : Captured} (h : capturedOf m = some c) :
    c.handleId = Int32.ofInt m.handleId.toNat ∧ c.handleId ≠ -1 := by
  unfold capturedOf at h
  split at h
  · cases h
    refine ⟨rfl, fun heq => ?_⟩
    have hlt := m.handleId.toNat_lt
    have hvalue := congrArg Int32.toInt heq
    rw [Int32.toInt_ofInt_of_le (by omega) (by omega)] at hvalue
    have hneg : (-1 : Int32).toInt = -1 := by decide
    omega
  · cases h

end

end Packetsonde.Passive
