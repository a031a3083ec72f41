import Packetsonde.Recipe.Engine

/-!
# What a run of the interpreter can do, action by action

Every handler is taken apart once, here: whatever it does to the state is a chain of the atomic
actions of `Action`, and where it fails one of `Stop` comes last (`runSteps_acts`). Each result
about whole runs then only looks at one action at a time.

An action keeps together what belongs together in the code: a budget check and what it lets
through, a connect and the binding of its handle, all rounds of one receive loop. What an action
does to the backend's state is left open.
-/

namespace Packetsonde.Recipe

open Packetsonde.Lib
open Packetsonde.Lib.Prog

variable {σ α : Type}

/-! ## The receive loop -/

/-- The calls of one receive loop that ends with a result: `got` is held so far, `evs` are the
calls still made, `kept` is what the step keeps. Each chunk is something the backend returned for
the capacity it was given. -/
inductive RecvTrace (recvSome : σ → Int32 → Nat → Option Bytes × σ) (h : Int32) (until_ : Until)
    (cap : Nat) : (got : Bytes) → List Event → (kept : Bytes) → Prop where
  | full (got : Bytes) : RecvTrace recvSome h until_ cap got [] got
  | eof {got : Bytes} (hlt : got.length < cap) :
      RecvTrace recvSome h until_ cap got
        [.recvSome h until_ got.length (cap - got.length) (some [])] got
  | cut {got chunk kept : Bytes} {w : σ} (hlt : got.length < cap) (hne : chunk ≠ [])
      (hw : (recvSome w h (cap - got.length)).1 = some chunk)
      (hcut : untilCut until_ got chunk = some kept) :
      RecvTrace recvSome h until_ cap got
        [.recvSome h until_ got.length (cap - got.length) (some chunk)] kept
  | more {got chunk kept : Bytes} {evs : List Event} {w : σ} (hlt : got.length < cap)
      (hne : chunk ≠ []) (hw : (recvSome w h (cap - got.length)).1 = some chunk)
      (hcut : untilCut until_ got chunk = none)
      (hrest : RecvTrace recvSome h until_ cap (got ++ chunk) evs kept) :
      RecvTrace recvSome h until_ cap got
        (.recvSome h until_ got.length (cap - got.length) (some chunk) :: evs) kept

/-- The calls of a receive loop that ends with an I/O error. -/
inductive RecvBroken (recvSome : σ → Int32 → Nat → Option Bytes × σ) (h : Int32) (until_ : Until)
    (cap : Nat) : (got : Bytes) → List Event → Prop where
  | error {got : Bytes} (hlt : got.length < cap) :
      RecvBroken recvSome h until_ cap got [.recvSome h until_ got.length (cap - got.length) none]
  | more {got chunk : Bytes} {evs : List Event} {w : σ} (hlt : got.length < cap)
      (hne : chunk ≠ []) (hw : (recvSome w h (cap - got.length)).1 = some chunk)
      (hrest : RecvBroken recvSome h until_ cap (got ++ chunk) evs) :
      RecvBroken recvSome h until_ cap got
        (.recvSome h until_ got.length (cap - got.length) (some chunk) :: evs)

/-- The receive loop either returns what a `RecvTrace` keeps or breaks off with an I/O error; it
touches the backend, the trace and, in the second case, the diagnostic. -/
theorem recvLoop_spec (recvSome : σ → Int32 → Nat → Option Bytes × σ) (h : Int32)
    (until_ : Until) (cap rounds : Nat) (got : Bytes) (rt : Rt σ) :
    (∃ w evs kept, RecvTrace recvSome h until_ cap got evs kept ∧
      recvLoop recvSome h until_ cap rounds got rt
        = (.ok kept, { rt with io := w, trace := rt.trace ++ evs })) ∨
    (∃ w evs e, RecvBroken recvSome h until_ cap got evs ∧
      recvLoop recvSome h until_ cap rounds got rt
        = (.err, { rt with io := w, trace := rt.trace ++ evs, err := e })) := by
  induction rounds generalizing got rt with
  | zero =>
    exact .inl ⟨rt.io, [], got, .full got, by simp [recvLoop]⟩
  | succ rounds ih =>
    by_cases hlt : got.length < cap
    · rw [recvLoop, if_pos hlt, run_bind_ok (ioCall_run _ _ rt)]
      -- what the backend returns in this round
      rcases hw : (recvSome rt.io h (cap - got.length)).1 with _ | _ | ⟨c, rest⟩
      · exact .inr ⟨_, _, _, .error hlt, rfl⟩
      · exact .inl ⟨_, _, got, .eof hlt, rfl⟩
      have hne : c :: rest ≠ [] := List.cons_ne_nil c rest
      dsimp only
      rcases hcut : untilCut until_ got (c :: rest) with _ | kept
      · rcases ih (got ++ c :: rest) { rt with
            io := (recvSome rt.io h (cap - got.length)).2
            trace := rt.trace ++
              [.recvSome h until_ got.length (cap - got.length) (some (c :: rest))] }
          with ⟨w', evs, kept, htr, hrun⟩ | ⟨w', evs, e, htr, hrun⟩
        · exact .inl ⟨w', _, kept, .more hlt hne hw hcut htr, hrun.trans (by simp)⟩
        · exact .inr ⟨w', _, e, .more hlt hne hw htr, hrun.trans (by simp)⟩
      · exact .inl ⟨_, _, kept, .cut hlt hne hw hcut, rfl⟩
    · rw [recvLoop, if_neg hlt]
      exact .inl ⟨rt.io, [], got, .full got, by simp⟩

/-! ## Actions -/

/-- The atomic actions of a run. -/
inductive Action (env : Env σ) : Rt σ → Rt σ → Prop where
  | entered (rt : Rt σ) (s : Step) (hbudget : ¬ rt.stepsDone + 1 > env.budgets.maxSteps) :
      Action env rt
        { rt with
          stepsDone := rt.stepsDone + 1
          clockReads := rt.clockReads + 1
          trace := rt.trace ++ [.budgetStep] ++ [.enter s] }
  | opened (rt : Rt σ) (w : σ) (fd : Int32) (out : Bytes) (hfd : ¬ fd < 0)
      (hroom : rt.bs.length < rtBindingsMax) :
      Action env rt
        { rt with
          io := w
          bs := rt.bs ++ [⟨out, .conn fd⟩]
          trace := rt.trace ++ [.connect fd] }
  | found (rt : Rt σ) (conn : Bytes) (h : Int32) (hlook : rtLookup rt.bs conn = some (.conn h)) :
      Action env rt { rt with trace := rt.trace ++ [.found conn h] }
  | sent (rt : Rt σ) (w : σ) (conn buf : Bytes) (h : Int32)
      (hlook : rtLookup rt.bs conn = some (.conn h)) (hfound : .found conn h ∈ rt.trace) :
      Action env rt { rt with io := w, trace := rt.trace ++ [.sendAll h buf] }
  | received (rt : Rt σ) (w : σ) (conn : Bytes) (h : Int32) (until_ : Until) (maxBytes : Int32)
      (recvSome : σ → Int32 → Nat → Option Bytes × σ) (evs : List Event) (got : Bytes)
      (hlook : rtLookup rt.bs conn = some (.conn h)) (hfound : .found conn h ∈ rt.trace)
      (hrange : ¬ (maxBytes ≤ 0 ∨ maxBytes > env.budgets.maxRecvBytes))
      (hbudget : ¬ rt.recvBytesTotal + toSizeT maxBytes > toSizeT env.budgets.maxRecvBytes)
      (hio : env.io.recvSome = some recvSome)
      (htrace : RecvTrace recvSome h until_ (toSizeT maxBytes) [] evs got) :
      Action env rt
        { rt with
          io := w
          recvBytesTotal := rt.recvBytesTotal + got.length
          trace := rt.trace ++ evs }
  | closed (rt : Rt σ) (w : σ) (conn : Bytes) (h : Int32)
      (hlook : rtLookup rt.bs conn = some (.conn h)) (hfound : .found conn h ∈ rt.trace) :
      Action env rt
        { rt with
          io := w
          bs := markClosed conn rt.bs
          trace := rt.trace ++ [.closeConn h] }
  | dropped (rt : Rt σ) (conn : Bytes) (hio : env.io.closeConn = none) :
      Action env rt { rt with bs := markClosed conn rt.bs }
  | bound (rt : Rt σ) (b : RtBinding) (hty : b.val.type ≠ .conn)
      (hroom : rt.bs.length < rtBindingsMax) : Action env rt { rt with bs := rt.bs ++ [b] }
  | unbound (rt : Rt σ) (hfull : rtBindingsMax ≤ rt.bs.length) :
      Action env rt { rt with err := keepFirst rt.err .bindingOverflow }
  | leftOut (rt : Rt σ) (why : LeftOut) :
      Action env rt { rt with trace := rt.trace ++ [.leftOut why] }
  | emitted (rt : Rt σ) (f : Finding) : Action env rt { rt with findings := rt.findings ++ [f] }
  | counted (rt : Rt σ) (hbudget : ¬ rt.tlsProbesDone + 1 > env.budgets.maxTlsProbes) :
      Action env rt
        { rt with
          tlsProbesDone := rt.tlsProbesDone + 1
          trace := rt.trace ++ [.budgetTls] }
  | upgraded (rt : Rt σ) (w : σ) (conn : Bytes) (h : Int32)
      (hbudget : ¬ rt.tlsProbesDone + 1 > env.budgets.maxTlsProbes)
      (hlook : rtLookup rt.bs conn = some (.conn h)) (hfound : .found conn h ∈ rt.trace) :
      Action env rt
        { rt with
          io := w
          tlsProbesDone := rt.tlsProbesDone + 1
          trace := rt.trace ++ [.budgetTls] ++ [.tlsUpgrade h] }
  | session (rt : Rt σ) (w : σ) (conn : Bytes) (h : Int32)
      (hlook : rtLookup rt.bs conn = some (.conn h)) (hfound : .found conn h ∈ rt.trace) :
      Action env rt { rt with io := w, trace := rt.trace ++ [.tlsSession h] }
  | probed (rt : Rt σ) (w : σ) (proto excl : Bytes)
      (hbudget : ¬ rt.tlsProbesDone + 1 > env.budgets.maxTlsProbes) :
      Action env rt
        { rt with
          io := w
          tlsProbesDone := rt.tlsProbesDone + 1
          trace := rt.trace ++ [.budgetTls] ++ [.tlsProbe proto excl] }

/-- The last action of a run that fails. -/
inductive Stop (env : Env σ) : Rt σ → Rt σ → Prop where
  | failed (rt : Rt σ) (e : Option RtErr) : Stop env rt { rt with err := e }
  | stepRefused (rt : Rt σ) (reads : Nat) (e : Option RtErr) :
      Stop env rt
        { rt with
          stepsDone := rt.stepsDone + 1
          clockReads := reads
          err := e
          trace := rt.trace ++ [.budgetStep] }
  | tlsRefused (rt : Rt σ) (e : Option RtErr) :
      Stop env rt
        { rt with
          tlsProbesDone := rt.tlsProbesDone + 1
          err := e
          trace := rt.trace ++ [.budgetTls] }
  | connectFailed (rt : Rt σ) (w : σ) (fd : Int32) (e : Option RtErr) (hfd : fd < 0) :
      Stop env rt { rt with io := w, err := e, trace := rt.trace ++ [.connect fd] }
  | leaked (rt : Rt σ) (w : σ) (fd : Int32) (hfull : rtBindingsMax ≤ rt.bs.length) :
      Stop env rt
        { rt with
          io := w
          err := keepFirst rt.err .bindingOverflow
          trace := rt.trace ++ [.connect fd] }
  | recvBroken (rt : Rt σ) (w : σ) (conn : Bytes) (h : Int32) (until_ : Until) (maxBytes : Int32)
      (recvSome : σ → Int32 → Nat → Option Bytes × σ) (evs : List Event) (e : Option RtErr)
      (hlook : rtLookup rt.bs conn = some (.conn h)) (hfound : .found conn h ∈ rt.trace)
      (hrange : ¬ (maxBytes ≤ 0 ∨ maxBytes > env.budgets.maxRecvBytes))
      (hbudget : ¬ rt.recvBytesTotal + toSizeT maxBytes > toSizeT env.budgets.maxRecvBytes)
      (hio : env.io.recvSome = some recvSome)
      (htrace : RecvBroken recvSome h until_ (toSizeT maxBytes) [] evs) :
      Stop env rt { rt with io := w, err := e, trace := rt.trace ++ evs }

/-- What the run of a handler amounts to. A loop is only cut off after `fuel` handshakes. -/
abbrev Acts (env : Env σ) (fuel : Nat) (m : Prog (Rt σ) α) (rt : Rt σ) : Prop :=
  Chain (Action env) (Stop env) (fun rt' => fuel ≤ tlsTicks rt'.trace) m rt

section Primitives

variable {env : Env σ} {fuel : Nat} {β : Type} {rt : Rt σ}

theorem raise_run (e : RtErr) (rt : Rt σ) :
    (raise e : Prog (Rt σ) α) rt = (.err, { rt with err := keepFirst rt.err e }) := rfl

theorem raise_acts (e : RtErr) (rt : Rt σ) : Acts env fuel (raise e : Prog (Rt σ) α) rt :=
  .of_err (raise_run e rt) (.failed rt _)

theorem reading_ok {f : List RtBinding → Except RtErr α} {a : α} (hf : f rt.bs = .ok a) :
    reading f rt = (.ok a, rt) := by
  simp [reading, run_bind, hf]

theorem reading_error {f : List RtBinding → Except RtErr α} {e : RtErr} (hf : f rt.bs = .error e) :
    reading f rt = (.err, { rt with err := keepFirst rt.err e }) := by
  simp [reading, run_bind, hf, raise_run]

theorem reading_bind_acts {f : List RtBinding → Except RtErr α} {k : α → Prog (Rt σ) β}
    (h : ∀ a, f rt.bs = .ok a → Acts env fuel (k a) rt) : Acts env fuel (reading f >>= k) rt := by
  rcases hf : f rt.bs with e | a
  · exact Chain.err_bind (reading_error hf) (.failed rt _)
  · exact Chain.read_bind (reading_ok hf) (h a hf)

variable {name op conn : Bytes} {val : RtVal}

theorem provided_bind_acts {callback : Option α} {k : α → Prog (Rt σ) β}
    (h : ∀ f, callback = some f → Acts env fuel (k f) rt) :
    Acts env fuel (provided callback name >>= k) rt := by
  cases callback with
  | none => exact Chain.err_bind (raise_run _ rt) (.failed rt _)
  | some f => exact h f rfl

theorem rtBindNew_room (hroom : rt.bs.length < rtBindingsMax) :
    rtBindNew name val rt = (.ok true, { rt with bs := rt.bs ++ [⟨name, val⟩] }) := by
  rw [rtBindNew, if_neg (by omega)]

theorem rtBindNew_full (hfull : rtBindingsMax ≤ rt.bs.length) :
    rtBindNew name val rt = (.ok false, { rt with err := keepFirst rt.err .bindingOverflow }) := by
  rw [rtBindNew, if_pos hfull]

theorem bindOrFail_room (hroom : rt.bs.length < rtBindingsMax) :
    bindOrFail name val rt = (.ok (), { rt with bs := rt.bs ++ [⟨name, val⟩] }) := by
  rw [bindOrFail, run_bind_ok (rtBindNew_room hroom)]
  rfl

theorem bindOrFail_full (hfull : rtBindingsMax ≤ rt.bs.length) :
    bindOrFail name val rt = (.err, { rt with err := keepFirst rt.err .bindingOverflow }) := by
  rw [bindOrFail, run_bind_ok (rtBindNew_full hfull)]
  rfl

theorem bindOrFail_acts (name : Bytes) (val : RtVal) (hty : val.type ≠ .conn) (rt : Rt σ) :
    Acts env fuel (bindOrFail name val) rt := by
  by_cases hroom : rt.bs.length < rtBindingsMax
  · exact .of_ok (bindOrFail_room hroom) (.single (.bound rt _ hty hroom))
  · exact .of_err (bindOrFail_full (Nat.le_of_not_lt hroom)) (.failed rt _)

theorem rtBindNew_acts (name : Bytes) (val : RtVal) (hty : val.type ≠ .conn) (rt : Rt σ) :
    Acts env fuel (rtBindNew name val) rt := by
  by_cases hroom : rt.bs.length < rtBindingsMax
  · exact .of_ok (rtBindNew_room hroom) (.single (.bound rt _ hty hroom))
  · exact .of_ok (rtBindNew_full (Nat.le_of_not_lt hroom)) (.single (.unbound rt (by omega)))

theorem connHandle_found {h : Int32} (hlook : rtLookup rt.bs conn = some (.conn h)) :
    connHandle op conn rt = (.ok h, { rt with trace := rt.trace ++ [.found conn h] }) := by
  rw [connHandle, run_bind_ok (reading_ok (a := h) (by rw [connOf, hlook]))]
  rfl

theorem connHandle_bad (hlook : ∀ h, rtLookup rt.bs conn ≠ some (.conn h)) :
    connHandle op conn rt = (.err, { rt with err := keepFirst rt.err (.badConn op conn) }) := by
  refine run_bind_err (reading_error ?_)
  rw [connOf]
  split
  · rename_i h hl
    exact absurd hl (hlook h)
  · rfl

/-- A handler that works on a connection goes on with the handle it found. -/
theorem connHandle_bind_acts {k : Int32 → Prog (Rt σ) β} (hk : ∀ h rt, rtLookup rt.bs conn = some (.conn h) →
      .found conn h ∈ rt.trace → Acts env fuel (k h) rt) :
    Acts env fuel (connHandle op conn >>= k) rt := by
  by_cases hex : ∃ h, rtLookup rt.bs conn = some (.conn h)
  · obtain ⟨h, hlook⟩ := hex
    exact Chain.step_bind (connHandle_found hlook) (.found rt conn h hlook) (hk h _ hlook (by simp))
  · exact Chain.err_bind (connHandle_bad fun h hl => hex ⟨h, hl⟩) (.failed rt _)

theorem leaveOut_acts (why : LeftOut) (rt : Rt σ) : Acts env fuel (leaveOut why) rt :=
  .of_ok rfl (.single (.leftOut rt why))

theorem budgetTls_within (hbudget : ¬ rt.tlsProbesDone + 1 > env.budgets.maxTlsProbes) :
    budgetTls env rt
      = (.ok (), { rt with
          tlsProbesDone := rt.tlsProbesDone + 1, trace := rt.trace ++ [.budgetTls] }) := by
  simp [budgetTls, run_bind, hbudget]

theorem budgetTls_exceeded (hbudget : rt.tlsProbesDone + 1 > env.budgets.maxTlsProbes) :
    budgetTls env rt
      = (.err, { rt with
          tlsProbesDone := rt.tlsProbesDone + 1
          trace := rt.trace ++ [.budgetTls]
          err := keepFirst rt.err (.maxTlsProbes env.budgets.maxTlsProbes) }) := by
  simp [budgetTls, run_bind, hbudget, raise_run]

/-- `budget_step` lets the step through or refuses it, by the counter or by the clock. -/
theorem budgetStep_cases (env : Env σ) (rt : Rt σ) :
    (¬ rt.stepsDone + 1 > env.budgets.maxSteps ∧ budgetStep env rt
      = (.ok (), { rt with
          stepsDone := rt.stepsDone + 1
          clockReads := rt.clockReads + 1
          trace := rt.trace ++ [.budgetStep] })) ∨
    (∃ reads e, e.aboutTypes = false ∧ budgetStep env rt
      = (.err, { rt with
          stepsDone := rt.stepsDone + 1
          clockReads := reads
          trace := rt.trace ++ [.budgetStep]
          err := keepFirst rt.err e })) := by
  by_cases hsteps : rt.stepsDone + 1 > env.budgets.maxSteps
  · exact .inr ⟨rt.clockReads, .maxSteps env.budgets.maxSteps, rfl,
      by simp [budgetStep, run_bind, hsteps, raise_run]⟩
  · by_cases hclock :
        env.clock rt.clockReads - env.clock 0 > env.budgets.maxWallclockMs.toInt64
    · exact .inr ⟨rt.clockReads + 1, .maxWallclockMs env.budgets.maxWallclockMs, rfl,
        by simp [budgetStep, run_bind, hsteps, hclock, raise_run]⟩
    · exact .inl ⟨hsteps, by simp [budgetStep, run_bind, hsteps, hclock]⟩

theorem closeHandle_some {closeConn : σ → Int32 → σ} {h : Int32}
    (hio : env.io.closeConn = some closeConn) :
    closeHandle env h rt
      = (.ok (), { rt with io := closeConn rt.io h, trace := rt.trace ++ [.closeConn h] }) := by
  simp [closeHandle, hio, ioCall]

theorem closeHandle_none {h : Int32} (hio : env.io.closeConn = none) :
    closeHandle env h rt = (.ok (), rt) := by
  simp [closeHandle, hio]

end Primitives

section Handlers

variable {fuel : Nat}

variable (env : Env σ)

theorem doConnect_acts (udp : Bool) (host port : Ref) (timeoutMs : Int32)
    (out : Bytes) (rt : Rt σ) : Acts env fuel (doConnect env udp host port timeoutMs out) rt := by
  rw [doConnect]
  refine reading_bind_acts fun hostS _ => reading_bind_acts fun portI _ => ?_
  split
  · exact raise_acts _ rt
  cases udp
  all_goals
    refine provided_bind_acts fun connect _ => ?_
    dsimp only [Acts, Chain]
    rw [run_bind_ok (ioCall_run _ _ _)]
    split
    · next hneg => exact ⟨rt, .refl, .connectFailed rt _ _ _ hneg⟩
    · next hneg =>
      by_cases hroom : rt.bs.length < rtBindingsMax
      · rw [bindOrFail_room (by exact hroom)]
        exact .single (.opened rt _ _ out hneg hroom)
      · rw [bindOrFail_full (by exact Nat.le_of_not_lt hroom)]
        exact ⟨rt, .refl, .leaked rt _ _ (Nat.le_of_not_lt hroom)⟩

theorem doSend_acts (conn : Bytes) (bytes : SendBytes) (rt : Rt σ) :
    Acts env fuel (doSend env conn bytes) rt := by
  rw [doSend]
  refine connHandle_bind_acts fun h rt hlook hfound => ?_
  rcases bytes with buf | text
  on_goal 1 => refine Chain.read_bind rfl ?_
  on_goal 2 => refine reading_bind_acts fun buf _ => ?_
  all_goals
    refine provided_bind_acts fun sendAll _ => ?_
    refine Chain.step_bind rfl (.sent rt _ conn buf h hlook hfound) ?_
    split
    · exact raise_acts _ _
    · exact .pure _ _

theorem doRecv_acts (conn : Bytes) (until_ : Until) (maxBytes : Int32) (out : Bytes)
    (rt : Rt σ) : Acts env fuel (doRecv env conn until_ maxBytes out) rt := by
  rw [doRecv]
  refine connHandle_bind_acts fun h rt hlook hfound => ?_
  split
  · exact raise_acts _ _
  rename_i hrange
  refine Chain.read_bind (run_gets _ _) ?_
  split
  · exact raise_acts _ _
  rename_i hbudget
  refine provided_bind_acts fun recvSome hio => ?_
  rcases recvLoop_spec recvSome h until_ (toSizeT maxBytes) (toSizeT maxBytes) [] rt with
    ⟨w, evs, kept, htrace, hrun⟩ | ⟨w, evs, e, htrace, hrun⟩
  · rw [Acts, Chain, run_bind_ok hrun, run_bind_ok (run_modify _ _)]
    refine EndsBy.prepend (.single (Action.received rt w conn h until_ maxBytes recvSome evs kept
      hlook hfound hrange hbudget hio htrace)) ?_
    exact bindOrFail_acts _ _ (by simp [RtVal.type]) _
  · exact Chain.err_bind hrun
      (.recvBroken rt w conn h until_ maxBytes recvSome evs e hlook hfound hrange hbudget hio
        htrace)

theorem doClose_acts (conn : Bytes) (rt : Rt σ) :
    Acts env fuel (doClose env conn) rt := by
  rw [doClose]
  refine connHandle_bind_acts fun h rt hlook hfound => ?_
  rcases hio : env.io.closeConn with _ | closeConn
  · exact Chain.read_bind (closeHandle_none hio) (.of_ok rfl (.single (.dropped rt conn hio)))
  · rw [Acts, Chain, run_bind_ok (closeHandle_some hio), run_modify]
    exact .single (.closed rt _ conn h hlook hfound)

theorem doMatchAny_acts (any regex : Bytes) (out : Option Bytes) (rt : Rt σ) :
    Acts env fuel (doMatchAny env any regex out) rt := by
  rw [doMatchAny]
  refine reading_bind_acts fun items _ => ?_
  split
  · exact raise_acts _ rt
  · split
    · exact bindOrFail_acts _ _ (by simp [RtVal.type]) rt
    · exact .pure _ rt
    · exact leaveOut_acts _ rt

theorem bindCaptures_acts (hay : Bytes) (captures : List Capture)
    (groups : List (Int × Int)) (rt : Rt σ) :
    Acts env fuel (bindCaptures hay captures groups) rt := by
  induction captures generalizing groups rt with
  | nil => exact .pure _ rt
  | cons c cs ih =>
    rw [bindCaptures]
    split
    · exact raise_acts _ rt
    · split
      · exact Chain.bind (bindOrFail_acts _ _ (by simp [RtVal.type]) rt) fun _ rt' _ => ih _ rt'
      · split
        · exact Chain.bind (bindOrFail_acts _ _ (by simp [RtVal.type]) rt) fun _ rt' _ =>
            raise_acts _ rt'
        · exact Chain.bind (bindOrFail_acts _ _ (by simp [RtVal.type]) rt) fun _ rt' _ => ih _ rt'

theorem doMatchIn_acts (in_ regex : Bytes) (captures : List Capture) (rt : Rt σ) :
    Acts env fuel (doMatchIn env in_ regex captures) rt := by
  rw [doMatchIn]
  refine reading_bind_acts fun hay _ => ?_
  split
  · exact raise_acts _ rt
  · split
    · exact leaveOut_acts _ rt
    · exact bindCaptures_acts env hay captures _ rt

theorem doEmit_acts (kind severity confidence title : Bytes)
    (fields : List EmitField) (rt : Rt σ) :
    Acts env fuel (doEmit env kind severity confidence title fields) rt := by
  rw [doEmit]
  refine reading_bind_acts fun titleS _ => Chain.read_bind (run_gets _ rt) ?_
  split
  · rename_i e _
    cases e with
    | none => exact .of_err rfl (.failed rt _)
    | some e => exact .of_err rfl (.failed rt _)
  · split
    · exact .of_ok rfl (.single (.emitted rt _))
    · exact .pure _ rt

theorem bindAll_acts (required : Nat) (bindings : List RtBinding)
    (hty : ∀ b ∈ bindings, b.val.type ≠ .conn) (rt : Rt σ) :
    Acts env fuel (bindAll required bindings) rt := by
  induction bindings generalizing required rt with
  | nil => exact .pure _ rt
  | cons b bindings ih =>
    have hb : b.val.type ≠ .conn := hty b (by simp)
    have hrest : ∀ b' ∈ bindings, b'.val.type ≠ .conn := fun b' hb' => hty b' (by simp [hb'])
    cases required with
    | zero =>
      exact Chain.bind (rtBindNew_acts _ _ hb rt) fun _ rt' _ => ih 0 hrest rt'
    | succ required =>
      exact Chain.bind (bindOrFail_acts _ _ hb rt) fun _ rt' _ => ih required hrest rt'

theorem tlsInfoBindings_type {info : TlsInfo} {b : RtBinding} (hb : b ∈ tlsInfoBindings info) :
    b.val.type ≠ .conn := by
  have hsig : (tlsInfoBindings info).map (·.val.type) = tlsBindings.map Prod.snd := rfl
  have hmem : b.val.type ∈ tlsBindings.map Prod.snd :=
    hsig ▸ List.mem_map_of_mem hb
  intro hconn
  rw [hconn] at hmem
  exact absurd hmem (by decide)

/-- The second half of `do_tls_upgrade`, from the return code of the handshake on. -/
theorem tlsSession_acts (tlsSession : σ → Int32 → Option TlsInfo × σ) (conn : Bytes)
    (h rc : Int32) (rt : Rt σ) (hlook : rtLookup rt.bs conn = some (.conn h))
    (hfound : .found conn h ∈ rt.trace) :
    Acts env fuel (if rc ≠ 0 then leaveOut .handshakeFailed else do
      match ← ioCall (fun w => tlsSession w h) fun _ => .tlsSession h with
      | none => raise .tlsSession
      | some info => bindAll 2 (tlsInfoBindings info)) rt := by
  split
  · exact leaveOut_acts _ _
  · refine Chain.step_bind (ioCall_run _ _ _) (.session rt _ conn h hlook hfound) ?_
    split
    · exact raise_acts _ _
    · exact bindAll_acts env 2 _ (fun b hb => tlsInfoBindings_type hb) _

theorem doTlsUpgrade_acts (conn : Bytes) (sni : Ref) (alpn : Option (List Bytes))
    (timeoutMs : Int32) (rt : Rt σ) :
    Acts env fuel (doTlsUpgrade env conn sni alpn timeoutMs) rt := by
  rw [doTlsUpgrade]
  refine connHandle_bind_acts fun h rt hlook hfound => ?_
  refine provided_bind_acts fun tlsUpgrade _ => provided_bind_acts fun tlsSession _ => ?_
  by_cases hbudget : rt.tlsProbesDone + 1 > env.budgets.maxTlsProbes
  · exact Chain.err_bind (budgetTls_exceeded hbudget) (.tlsRefused rt _)
  rw [Acts, Chain, run_bind_ok (budgetTls_within hbudget)]
  -- the counter has moved: the handshake itself belongs to the same action
  rcases hsni : expandTemplate env.target rt.bs sni.text with e | sniS
  · rw [run_bind_err (reading_error hsni)]
    exact ⟨_, .single (.counted rt hbudget), .failed _ _⟩
  · rw [run_bind_ok (reading_ok hsni), run_bind_ok (ioCall_run _ _ _)]
    exact EndsBy.prepend
      (.single (Action.upgraded rt (tlsUpgrade rt.io h sniS alpn timeoutMs).2 conn h hbudget hlook
        hfound))
      (tlsSession_acts env tlsSession conn h _ _ hlook (by simp [hfound]))

variable (tlsProbe : Bytes → Bytes → σ → Option TlsProbeResult × σ)

/-- One round of the peeling loop is refused, or counted and made. -/
theorem probeOnce_cases (proto excl : Bytes) (rt : Rt σ) :
    (∃ e, probeOnce env tlsProbe proto excl rt
      = (.err, { rt with
          tlsProbesDone := rt.tlsProbesDone + 1
          trace := rt.trace ++ [.budgetTls]
          err := keepFirst rt.err e })) ∨
    (¬ rt.tlsProbesDone + 1 > env.budgets.maxTlsProbes ∧ probeOnce env tlsProbe proto excl rt
      = (.ok (tlsProbe proto excl rt.io).1, { rt with
          io := (tlsProbe proto excl rt.io).2
          tlsProbesDone := rt.tlsProbesDone + 1
          trace := rt.trace ++ [.budgetTls] ++ [.tlsProbe proto excl] })) := by
  by_cases hbudget : rt.tlsProbesDone + 1 > env.budgets.maxTlsProbes
  · exact .inl ⟨_, run_bind_err (budgetTls_exceeded hbudget)⟩
  · exact .inr ⟨hbudget, run_bind_ok (budgetTls_within hbudget)⟩

/-- The peeling loop counts a handshake in each round, so it is not cut off before all its rounds
are counted. -/
theorem peelLoop_acts (proto : Bytes) (rounds : Nat)
    (p : Peel) (acc : Accepted) (rt : Rt σ) (hrounds : fuel ≤ tlsTicks rt.trace + rounds) :
    Acts env fuel (peelLoop env tlsProbe proto rounds p acc) rt := by
  induction rounds generalizing p acc rt with
  | zero => exact .outOfFuel (by omega)
  | succ rounds ih =>
    rw [peelLoop]
    rcases probeOnce_cases env tlsProbe proto p.excl rt with ⟨e, hrun⟩ | ⟨hbudget, hrun⟩
    · exact Chain.err_bind hrun (.tlsRefused rt _)
    · refine Chain.step_bind hrun (.probed rt _ proto p.excl hbudget) ?_
      split
      · exact .pure _ _
      · split
        · exact .pure _ _
        · refine ih _ _ _ ?_
          simp only [tlsTicks, List.countP_append, List.countP_cons, List.countP_nil] at hrounds ⊢
          simp only [if_true, Bool.false_eq_true, if_false]
          omega

theorem enumLoop_acts (fuel : Nat) (protos : List Bytes)
    (acc : Accepted) (rt : Rt σ) : Acts env fuel (enumLoop env tlsProbe fuel protos acc) rt := by
  induction protos generalizing acc rt with
  | nil => exact .pure _ rt
  | cons proto protos ih =>
    exact Chain.bind (peelLoop_acts env tlsProbe proto fuel peelStart acc rt (by omega))
      fun acc' rt' _ => ih acc' rt'

theorem doTlsEnum_acts (fuel : Nat) (host port : Ref) (protocols : List Bytes)
    (starttls : Option Bytes) (timeoutMs : Int32) (rt : Rt σ) :
    Acts env fuel (doTlsEnum env fuel host port protocols starttls timeoutMs) rt := by
  rw [doTlsEnum]
  refine provided_bind_acts fun tlsProbe _ => reading_bind_acts fun hostS _ =>
    reading_bind_acts fun portI _ => ?_
  refine Chain.bind (enumLoop_acts env _ fuel _ _ rt) fun acc rt' _ => ?_
  exact Chain.bind (bindOrFail_acts _ _ (by simp [RtVal.type]) rt') fun _ rt'' _ =>
    bindOrFail_acts _ _ (by simp [RtVal.type]) rt''

end Handlers

/-! ## Runs -/

mutual

/-- Every step, whatever is nested in it, is a chain of actions. -/
theorem doStep_acts (env : Env σ) (fuel : Nat) (s : Step) (rt : Rt σ) :
    Acts env fuel (doStep env fuel s) rt := by
  cases s with
  | connect udp host port timeoutMs out => exact doConnect_acts env udp host port timeoutMs out rt
  | send conn bytes => exact doSend_acts env conn bytes rt
  | recv conn until_ maxBytes out => exact doRecv_acts env conn until_ maxBytes out rt
  | close conn => exact doClose_acts env conn rt
  | matchIn in_ regex captures => exact doMatchIn_acts env in_ regex captures rt
  | matchAny any regex out => exact doMatchAny_acts env any regex out rt
  | if_ cond then_ =>
    rw [doStep]
    refine reading_bind_acts fun taken _ => ?_
    split
    · exact runSteps_acts env fuel then_ rt
    · exact leaveOut_acts _ rt
  | emit kind severity confidence title fields =>
    exact doEmit_acts env kind severity confidence title fields rt
  | tlsUpgrade conn sni alpn timeoutMs => exact doTlsUpgrade_acts env conn sni alpn timeoutMs rt
  | tlsEnum host port protocols starttls timeoutMs =>
    exact doTlsEnum_acts env fuel host port protocols starttls timeoutMs rt

/-- **A run is a chain of actions.** -/
theorem runSteps_acts (env : Env σ) (fuel : Nat) (ss : List Step) (rt : Rt σ) :
    Acts env fuel (runSteps env fuel ss) rt := by
  cases ss with
  | nil => exact .pure _ rt
  | cons s ss =>
    rw [runSteps]
    rcases budgetStep_cases env rt with ⟨hbudget, hrun⟩ | ⟨reads, e, -, hrun⟩
    · rw [Acts, Chain, run_bind_ok hrun, run_bind_ok (run_modify _ _)]
      refine EndsBy.prepend (.single (Action.entered rt s hbudget)) ?_
      exact Chain.bind (doStep_acts env fuel s _) fun _ rt' _ => runSteps_acts env fuel ss rt'
    · exact Chain.err_bind hrun (.stepRefused rt reads _)

end

/-! ## The end of a run -/

/-- The handles the final sweep finds, in the order of the bindings. -/
def openHandles (bs : List RtBinding) : List Int32 := bs.filterMap (·.val.openHandle)

def sweepEvents (env : Env σ) (bs : List RtBinding) : List Event :=
  if env.io.closeConn.isSome then (openHandles bs).map .closeConn else []

theorem closeOpen_run (env : Env σ) (bs : List RtBinding) (rt : Rt σ) :
    ∃ w, closeOpen env bs rt
      = (.ok (), { rt with io := w, trace := rt.trace ++ sweepEvents env bs }) := by
  induction bs generalizing rt with
  | nil => exact ⟨rt.io, by simp [closeOpen, sweepEvents, openHandles]⟩
  | cons b bs ih =>
    rw [closeOpen]
    rcases hb : b.val.openHandle with _ | h
    · obtain ⟨w, hw⟩ := ih rt
      refine ⟨w, hw.trans ?_⟩
      simp [sweepEvents, openHandles, hb]
    · rcases hio : env.io.closeConn with _ | closeConn
      · obtain ⟨w, hw⟩ := ih rt
        refine ⟨w, (run_bind_ok (closeHandle_none hio)).trans (hw.trans ?_)⟩
        simp [sweepEvents, hio]
      · obtain ⟨w, hw⟩ := ih { rt with
          io := closeConn rt.io h, trace := rt.trace ++ [.closeConn h] }
        refine ⟨w, (run_bind_ok (closeHandle_some hio)).trans (hw.trans ?_)⟩
        simp [sweepEvents, openHandles, hio, hb]

/-- A run of `ps_recipe_run` is the run of its steps and, unless that was cut off, the final
sweep. -/
theorem psRecipeRun_end (host : Host σ) (r : PsRecipe) (fuel : Nat) (w : σ) :
    ∃ rt w' sweep,
      runSteps { host with budgets := r.budgets } fuel r.steps (rtInit w)
        = ((psRecipeRun host r fuel w).1, rt) ∧
      (psRecipeRun host r fuel w).2 = { rt with io := w', trace := rt.trace ++ sweep } ∧
      ((psRecipeRun host r fuel w).1 ≠ .fuel →
        sweep = sweepEvents { host with budgets := r.budgets } rt.bs) ∧
      (sweep = [] ∨ sweep = sweepEvents { host with budgets := r.budgets } rt.bs) := by
  rw [psRecipeRun]
  rcases hrun : runSteps { host with budgets := r.budgets } fuel r.steps (rtInit w) with
    ⟨_ | _ | _, rt⟩
  · obtain ⟨w', hw'⟩ := closeOpen_run { host with budgets := r.budgets } rt.bs rt
    exact ⟨rt, w', _, rfl, by simp only [hw'], fun _ => rfl, .inr rfl⟩
  · obtain ⟨w', hw'⟩ := closeOpen_run { host with budgets := r.budgets } rt.bs rt
    exact ⟨rt, w', _, rfl, by simp only [hw'], fun _ => rfl, .inr rfl⟩
  · exact ⟨rt, rt.io, [], rfl, by simp, fun h => absurd rfl h, .inl rfl⟩

end Packetsonde.Recipe
