import Packetsonde.Scan.Targets

/-!
# Packetsonde — the ICMP sweep (`probe/sweep.c`)

A sweep sends one echo to every target and then collects replies in one window. The sequence number of an
echo is the target's index, and `recv_one` goes by it alone: it looks neither at the source of a reply nor at
its identifier, and a target counts as up even if no echo was sent to it.

Whatever arrives, every target gets one result and the summary adds up (`emitResults_spec`). A target that is up
was named by a reply that was received in the window (`sweepLoop_heard`); that the reply is the target's own
holds in the runs in which only the targets answer: `sweep_results`.
-/

namespace Packetsonde.Scan

open Packetsonde.Lib
open Packetsonde.Probe (u8At u16At)
open List

/-! ## The code -/

/-- `AF_INET` and `AF_INET6`. -/
inductive Family where
  | inet
  | inet6
  deriving DecidableEq

structure Resolution where
  family : Family
  addr : Bytes
  ip : Bytes
  deriving DecidableEq

/-- `struct tgt`; an unresolved target has no `dst`. -/
structure Tgt where
  host : Bytes
  dst : Option Resolution
  sent : Int
  sentOk : Bool
  replied : Bool
  rtt : Int
  deriving DecidableEq

/-- What the system calls of a sweep give: `getaddrinfo` and `inet_ntop`, whether a socket of a family can be
opened, and for every target the clock before `sendto` and whether it succeeds. -/
structure SweepEnv where
  getaddrinfo : Bytes → Option Resolution
  opens : Family → Bool
  sendto : Nat → Int × Bool

structure Datagram where
  bytes : Bytes
  src : Bytes

/-- What `select` returns: an error, nothing within the time, or the datagrams that wait at the two sockets,
each with the clock when it is taken. -/
inductive Select where
  | interrupted
  | failed
  | elapsed
  | ready (d4 d6 : Option (Datagram × Int))

/-- One turn of the receiving loop: the clock, and what `select` returns. -/
structure SweepTurn where
  now : Int
  select : Select

/-- The loop over the arguments of `ps_probe_sweep_run`: the targets and the timeout, or what it returns. -/
def sweepArgs : List Bytes → List Bytes → Int32 → Except Int32 (List Bytes × Int32)
  | [], hosts, timeoutMs => .ok (hosts, timeoutMs)
  | arg :: args, hosts, timeoutMs =>
    if arg = asc "-t" ∨ arg = asc "--timeout" then
      match args with
      | [] => .ok (hosts, timeoutMs)
      | value :: args => sweepArgs args hosts (atoi value)
    else if arg = asc "-h" ∨ arg = asc "--help" then .error 0
    else if arg.head? = some 45 then .error 2
    else sweepArgs args (if hosts.length < 65535 then hosts ++ [arg] else hosts) timeoutMs

/-- The window, at least 100 and at most 120000 ms. -/
def clampTimeout (timeoutMs : Int32) : Int32 :=
  let timeoutMs := if timeoutMs < 100 then 100 else timeoutMs
  if timeoutMs > 120000 then 120000 else timeoutMs

def resolveTarget (env : SweepEnv) (host : Bytes) : Tgt where
  host := host
  dst := env.getaddrinfo host
  sent := 0
  sentOk := false
  replied := false
  rtt := 0

/-- Whether there is a socket of a family: it is opened only for a target that needs it. -/
def fdOpen (env : SweepEnv) (ts : List Tgt) (fam : Family) : Bool :=
  ts.any (fun t => t.dst.any (·.family = fam)) && env.opens fam

def sendEcho (env : SweepEnv) (fd : Family → Bool) (i : Nat) (t : Tgt) : Tgt :=
  match t.dst with
  | none => t
  | some a => if fd a.family then { t with sent := (env.sendto i).1, sentOk := (env.sendto i).2 } else t

/-- The ICMP message of a datagram; a raw IPv4 socket keeps the IP header. -/
def icmpOf (fam : Family) (r : Bytes) : Option Bytes :=
  if fam = .inet ∧ r.length ≥ 20 ∧ u8At r 0 &&& 0xf0 = 0x40 then
    let hl := (u8At r 0 &&& 0x0f).toNat * 4
    if r.length < hl + 8 then none else some (r.drop hl)
  else some r

def replyType : Family → UInt8
  | .inet => 0
  | .inet6 => 129

def echoReply (fam : Family) (r : Bytes) : Option Bytes :=
  if r = [] then none
  else
    match icmpOf fam r with
    | none => none
    | some icmp => if icmp.length < 8 then none else if u8At icmp 0 ≠ replyType fam then none else some icmp

/-- The targets while replies are collected, and `replied`. -/
structure Collected where
  targets : List Tgt
  replied : Nat

/-- `recv_one`: the datagram is cut to `rbuf`. -/
def recvOne (fam : Family) (d : Datagram) (now : Int) (c : Collected) : Collected :=
  match echoReply fam (d.bytes.take 2048) with
  | none => c
  | some icmp =>
    let idx := (u16At icmp 6).toNat
    match c.targets[idx]? with
    | none => c
    | some t =>
      if ¬ t.dst.any (·.family = fam) ∨ t.replied then c
      else ⟨c.targets.set idx { t with replied := true, rtt := now - t.sent }, c.replied + 1⟩

/-- `recv_one` if the socket is there and has a datagram. -/
def recvReady (fd : Family → Bool) (fam : Family) (d : Option (Datagram × Int)) (c : Collected) : Collected :=
  match d with
  | none => c
  | some (d, now) => if fd fam then recvOne fam d now c else c

def sweepLoop (fd : Family → Bool) (sentCount : Nat) (deadline : Int) : List SweepTurn → Collected → Collected
  | [], c => c
  | turn :: turns, c =>
    if ¬ c.replied < sentCount then c
    else if deadline - turn.now ≤ 0 then c
    else if ¬ fd .inet ∧ ¬ fd .inet6 then c
    else
      match turn.select with
      | .interrupted => sweepLoop fd sentCount deadline turns c
      | .failed | .elapsed => c
      | .ready d4 d6 =>
        sweepLoop fd sentCount deadline turns (recvReady fd .inet6 d6 (recvReady fd .inet d4 c))

inductive SweepFinding where
  | unresolved (host : Bytes)
  | up (host ip : Bytes) (rtt : Int)
  | down (host ip : Bytes)
  | summary (targets up down unresolved : Nat) (timeoutMs : Int32) (lossPct : Nat)
  deriving DecidableEq

def SweepFinding.kind : SweepFinding → Bytes
  | .unresolved _ => asc "probe.sweep.unresolved"
  | .up .. => asc "probe.sweep.up"
  | .down .. => asc "probe.sweep.down"
  | .summary .. => asc "probe.sweep.summary"

def resultOf (t : Tgt) : SweepFinding :=
  match t.dst with
  | none => .unresolved t.host
  | some a => if t.replied then .up t.host a.ip t.rtt else .down t.host a.ip

structure Emitted where
  findings : List SweepFinding
  up : Nat
  down : Nat
  unresolved : Nat

def emitResult (e : Emitted) (t : Tgt) : Emitted :=
  { findings := e.findings ++ [resultOf t]
    up := if t.dst.isSome ∧ t.replied then e.up + 1 else e.up
    down := if t.dst.isSome ∧ ¬ t.replied then e.down + 1 else e.down
    unresolved := if t.dst.isNone then e.unresolved + 1 else e.unresolved }

def emitResults (ts : List Tgt) : Emitted := ts.foldl emitResult ⟨[], 0, 0, 0⟩

/-- `ps_probe_sweep_run` behind its arguments: what it emits and returns. `start` is the clock when the
receive phase begins. -/
def sweepRun (env : SweepEnv) (hosts : List Bytes) (timeoutMs : Int32) (start : Int) (turns : List SweepTurn) :
    List SweepFinding × Int32 :=
  let timeoutMs := clampTimeout timeoutMs
  let ts := hosts.map (resolveTarget env)
  let fd := fdOpen env ts
  let ts := ts.mapIdx (sendEcho env fd)
  let sentCount := ts.countP (·.sentOk)
  let ts := (sweepLoop fd sentCount (start + timeoutMs.toInt * 1000) turns ⟨ts, 0⟩).targets
  let e := emitResults ts
  let total := if e.up + e.down = 0 then 1 else e.up + e.down
  let lossPct := if sentCount > 0 then 100 * e.down / total else 0
  (e.findings ++ [.summary hosts.length e.up e.down e.unresolved timeoutMs lossPct],
    if e.up > 0 ∨ hosts.length = 0 then 0 else 1)

/-- `ps_probe_sweep_run`. -/
def probeSweepRun (env : SweepEnv) (args : List Bytes) (start : Int) (turns : List SweepTurn) :
    List SweepFinding × Int32 :=
  if args = [] then ([], 2)
  else
    match sweepArgs args [] 2000 with
    | .error rc => ([], rc)
    | .ok (hosts, timeoutMs) => if hosts = [] then ([], 2) else sweepRun env hosts timeoutMs start turns

/-! ## One result for each target -/

/-- The result is about the target: up, down or unresolved. -/
def ResultFor (host : Bytes) : SweepFinding → Prop
  | .unresolved h => h = host
  | .up h _ _ => h = host
  | .down h _ => h = host
  | .summary .. => False

def SweepFinding.isUp : SweepFinding → Bool
  | .up .. => true
  | _ => false

def SweepFinding.isDown : SweepFinding → Bool
  | .down .. => true
  | _ => false

def SweepFinding.isUnresolved : SweepFinding → Bool
  | .unresolved _ => true
  | _ => false

theorem resultFor_resultOf (t : Tgt) : ResultFor t.host (resultOf t) := by
  unfold resultOf
  split
  · rfl
  · split <;> rfl

theorem isUp_resultOf (t : Tgt) : (resultOf t).isUp = (t.dst.isSome && t.replied) := by
  unfold resultOf
  cases t.dst with
  | none => rfl
  | some a => cases t.replied <;> rfl

theorem isDown_resultOf (t : Tgt) : (resultOf t).isDown = (t.dst.isSome && !t.replied) := by
  unfold resultOf
  cases t.dst with
  | none => rfl
  | some a => cases t.replied <;> rfl

theorem isUnresolved_resultOf (t : Tgt) : (resultOf t).isUnresolved = t.dst.isNone := by
  unfold resultOf
  cases t.dst with
  | none => rfl
  | some a => cases t.replied <;> rfl

/-- The emitting loop: one result for each target, and the counters count them. -/
theorem emitResults_spec (ts : List Tgt) :
    (emitResults ts).findings = ts.map resultOf ∧
      (emitResults ts).up = (ts.map resultOf).countP SweepFinding.isUp ∧
      (emitResults ts).down = (ts.map resultOf).countP SweepFinding.isDown ∧
      (emitResults ts).unresolved = (ts.map resultOf).countP SweepFinding.isUnresolved := by
  induction ts using List.reverseRecOn with
  | nil => exact ⟨rfl, rfl, rfl, rfl⟩
  | append_singleton ts t ih =>
    obtain ⟨hf, hu, hd, hx⟩ := ih
    have hstep : emitResults (ts ++ [t]) = emitResult (emitResults ts) t := by simp [emitResults]
    rw [hstep]
    refine ⟨by simp [emitResult, hf], ?_, ?_, ?_⟩
    · simp only [emitResult, hu, map_append, map_cons, map_nil, countP_append,
        countP_singleton, isUp_resultOf, Bool.and_eq_true]
      split <;> rfl
    · simp only [emitResult, hd, map_append, map_cons, map_nil, countP_append,
        countP_singleton, isDown_resultOf, Bool.and_eq_true, Bool.not_eq_true', Bool.not_eq_true]
      split <;> rfl
    · simp only [emitResult, hx, map_append, map_cons, map_nil, countP_append,
        countP_singleton, isUnresolved_resultOf]
      split <;> rfl

/-- Every result counts once. -/
theorem counts_results (fs : List SweepFinding) (hfs : ∀ f ∈ fs, ∃ host, ResultFor host f) :
    fs.countP SweepFinding.isUp + fs.countP SweepFinding.isDown + fs.countP SweepFinding.isUnresolved =
      fs.length := by
  induction fs with
  | nil => rfl
  | cons f fs ih =>
    have hrest := ih fun g hg => hfs g (mem_cons_of_mem _ hg)
    obtain ⟨host, hf⟩ := hfs f mem_cons_self
    simp only [countP_cons, length_cons]
    cases f with
    | summary => exact hf.elim
    | unresolved | up | down =>
      simp only [SweepFinding.isUp, SweepFinding.isDown, SweepFinding.isUnresolved, ↓reduceIte,
        Bool.false_eq_true]
      omega

/-! ## What a target that is up has heard -/

def SweepTurn.datagram (turn : SweepTurn) (fam : Family) : Option Datagram :=
  match turn.select with
  | .ready d4 d6 => (match fam with | .inet => d4 | .inet6 => d6).map Prod.fst
  | _ => none

/-- A datagram is an echo reply with the sequence number `i`. -/
def Names (fam : Family) (d : Datagram) (i : Nat) : Prop :=
  ∃ icmp, echoReply fam (d.bytes.take 2048) = some icmp ∧ (u16At icmp 6).toNat = i

/-- In some turn before the deadline, an echo reply with the sequence number `i` waits at the socket. -/
def Heard (fd : Family → Bool) (deadline : Int) (turns : List SweepTurn) (i : Nat) (fam : Family) : Prop :=
  fd fam = true ∧ ∃ turn ∈ turns, turn.now < deadline ∧ ∃ d, turn.datagram fam = some d ∧ Names fam d i

def Tgt.fixed (t : Tgt) : Bytes × Option Resolution × Bool := (t.host, t.dst, t.sentOk)

/-- A target is newly marked as replied only by a reply that names it, of its family. -/
def Marks (heard : Nat → Family → Prop) (ts ts' : List Tgt) : Prop :=
  ts'.map Tgt.fixed = ts.map Tgt.fixed ∧
    ∀ i t', ts'[i]? = some t' → t'.replied = true →
      (∃ t, ts[i]? = some t ∧ t.replied = true) ∨ ∃ a, t'.dst = some a ∧ heard i a.family

section Marks

variable {heard heard' : Nat → Family → Prop} {ts ts' ts'' : List Tgt}

theorem Marks.refl : Marks heard ts ts := ⟨rfl, fun _ t ht hr => .inl ⟨t, ht, hr⟩⟩

theorem fixed_get {i : Nat} {t t' : Tgt} (hfixed : ts'.map Tgt.fixed = ts.map Tgt.fixed)
    (ht : ts[i]? = some t) (ht' : ts'[i]? = some t') : t'.fixed = t.fixed := by
  have h := congrArg (·[i]?) hfixed
  simpa [getElem?_map, ht, ht'] using h

theorem Marks.trans (h : Marks heard ts ts') (h' : Marks heard ts' ts'') : Marks heard ts ts'' := by
  refine ⟨h'.1.trans h.1, fun i t'' ht'' hr => ?_⟩
  rcases h'.2 i t'' ht'' hr with ⟨t', ht', hr'⟩ | hheard
  · refine (h.2 i t' ht' hr').imp id fun ⟨a, ha, hheard⟩ => ⟨a, ?_, hheard⟩
    have hsame := fixed_get h'.1 ht' ht''
    rw [← ha]
    exact congrArg (·.2.1) hsame
  · exact .inr hheard

theorem Marks.mono (h : Marks heard ts ts') (hle : ∀ i fam, heard i fam → heard' i fam) : Marks heard' ts ts' :=
  ⟨h.1, fun i t' ht' hr => (h.2 i t' ht' hr).imp id fun ⟨a, ha, hh⟩ => ⟨a, ha, hle i a.family hh⟩⟩

end Marks

theorem marks_recvOne (fam : Family) (d : Datagram) (now : Int) (c : Collected) :
    Marks (fun i fam' => fam' = fam ∧ Names fam d i) c.targets (recvOne fam d now c).targets := by
  unfold recvOne
  split
  · exact .refl
  · next icmp hecho =>
    dsimp only
    split
    · exact .refl
    · next t ht =>
      split
      · exact .refl
      · next hnew =>
        obtain ⟨hfam, -⟩ := not_or.mp hnew
        obtain ⟨a, ha, hfam⟩ : ∃ a, t.dst = some a ∧ a.family = fam := by
          cases hdst : t.dst with
          | none => simp [hdst] at hfam
          | some a => exact ⟨a, rfl, by simpa [hdst] using hfam⟩
        obtain ⟨hlt, hget⟩ := List.getElem?_eq_some_iff.mp ht
        constructor
        · refine ext_getElem? fun i => ?_
          by_cases hi : (u16At icmp 6).toNat = i
          · subst hi
            simp [hlt, Tgt.fixed, hget]
          · simp [getElem?_set_ne hi]
        · intro i t' ht' hr
          by_cases hi : (u16At icmp 6).toNat = i
          · subst hi
            rw [getElem?_set_self hlt] at ht'
            obtain rfl := Option.some.inj ht'
            exact .inr ⟨a, ha, hfam, icmp, hecho, rfl⟩
          · rw [getElem?_set_ne hi] at ht'
            exact .inl ⟨t', ht', hr⟩

/-- One socket of a turn. -/
theorem marks_recvReady (fd : Family → Bool) {deadline : Int} {turns : List SweepTurn} {turn : SweepTurn}
    (hturn : turn ∈ turns) (hnow : turn.now < deadline) {fam : Family} {d : Option (Datagram × Int)}
    (hd : turn.datagram fam = d.map Prod.fst) (c : Collected) :
    Marks (Heard fd deadline turns) c.targets (recvReady fd fam d c).targets := by
  unfold recvReady
  split
  · exact .refl
  · next d now =>
    split
    · next hfd =>
      refine (marks_recvOne fam d now c).mono ?_
      rintro i _ ⟨rfl, hnames⟩
      exact ⟨hfd, turn, hturn, hnow, d, hd, hnames⟩
    · exact .refl

/-- A target that is up was named by a reply of its family, in the window. -/
theorem sweepLoop_heard (fd : Family → Bool) (sentCount : Nat) (deadline : Int) (turns : List SweepTurn)
    (c : Collected) :
    Marks (Heard fd deadline turns) c.targets (sweepLoop fd sentCount deadline turns c).targets := by
  induction turns generalizing c with
  | nil => exact .refl
  | cons turn turns ih =>
    have hmore : ∀ i fam, Heard fd deadline turns i fam → Heard fd deadline (turn :: turns) i fam :=
      fun i fam ⟨hfd, u, hu, hrest⟩ => ⟨hfd, u, mem_cons_of_mem _ hu, hrest⟩
    unfold sweepLoop
    split
    · exact .refl
    split
    · exact .refl
    next hrem =>
    split
    · exact .refl
    split
    · exact (ih c).mono hmore
    · exact .refl
    · exact .refl
    · next d4 d6 hsel =>
      have hnow : turn.now < deadline := by omega
      have hturn : turn ∈ turn :: turns := mem_cons_self
      have h4 := marks_recvReady fd hturn hnow
        (show turn.datagram .inet = d4.map Prod.fst by rw [SweepTurn.datagram, hsel]) c
      have h6 := marks_recvReady fd hturn hnow
        (show turn.datagram .inet6 = d6.map Prod.fst by rw [SweepTurn.datagram, hsel]) (recvReady fd .inet d4 c)
      exact (h4.trans h6).trans ((ih _).mono hmore)

/-! ## The result -/

def windowEnd (timeoutMs : Int32) (start : Int) : Int := start + (clampTimeout timeoutMs).toInt * 1000

/-- A reply of the target itself: from its address, with the identifier of this sweep's echoes and with the
target's sequence number. -/
def Answers (ident : Family → UInt16) (i : Nat) (a : Resolution) (d : Datagram) : Prop :=
  d.src = a.addr ∧ ∃ icmp, echoReply a.family (d.bytes.take 2048) = some icmp ∧
    u16At icmp 4 = ident a.family ∧ (u16At icmp 6).toNat = i

/-- What a sweep must tell: one result for each target, a summary that adds up, and up only of targets that
were sent an echo and answered it in the window. -/
structure SweepResults (env : SweepEnv) (ident : Family → UInt16) (hosts : List Bytes) (timeoutMs : Int32)
    (start : Int) (turns : List SweepTurn) : Prop where
  results : ∃ fs up down unresolved lossPct,
    (sweepRun env hosts timeoutMs start turns).1 =
      fs ++ [.summary hosts.length up down unresolved (clampTimeout timeoutMs) lossPct] ∧
    List.Forall₂ ResultFor hosts fs ∧ up = fs.countP SweepFinding.isUp ∧
    down = fs.countP SweepFinding.isDown ∧ unresolved = fs.countP SweepFinding.isUnresolved ∧
    up + down + unresolved = hosts.length
  up : ∀ (i : Nat) (host ip : Bytes) (rtt : Int),
    (sweepRun env hosts timeoutMs start turns).1[i]? = some (.up host ip rtt) →
    hosts[i]? = some host ∧ ∃ a, env.getaddrinfo host = some a ∧ (env.sendto i).2 = true ∧
      ∃ turn ∈ turns, turn.now < windowEnd timeoutMs start ∧ ∃ d, turn.datagram a.family = some d ∧
        Answers ident i a d

/-- Only the targets answer: an echo reply with the sequence number of a target, at the socket of its
family, comes from the target's address, has the sweep's identifier, and an echo was sent to the target. -/
def OnlyTargetsAnswer (env : SweepEnv) (ident : Family → UInt16) (hosts : List Bytes) (turn : SweepTurn) : Prop :=
  ∀ fam d, turn.datagram fam = some d →
    ∀ icmp, echoReply fam (d.bytes.take 2048) = some icmp →
      ∀ host a, hosts[(u16At icmp 6).toNat]? = some host → env.getaddrinfo host = some a → a.family = fam →
        d.src = a.addr ∧ u16At icmp 4 = ident fam ∧ (env.sendto (u16At icmp 6).toNat).2 = true

section Run

variable (env : SweepEnv) (hosts : List Bytes) (timeoutMs : Int32) (start : Int) (turns : List SweepTurn)

def sentTargets : List Tgt :=
  (hosts.map (resolveTarget env)).mapIdx (sendEcho env (fdOpen env (hosts.map (resolveTarget env))))

def sweptTargets : List Tgt :=
  (sweepLoop (fdOpen env (hosts.map (resolveTarget env))) ((sentTargets env hosts).countP (·.sentOk))
    (windowEnd timeoutMs start) turns ⟨sentTargets env hosts, 0⟩).targets

theorem sentTargets_get {i : Nat} {t : Tgt} (h : (sentTargets env hosts)[i]? = some t) :
    ∃ host, hosts[i]? = some host ∧ t.host = host ∧ t.dst = env.getaddrinfo host ∧ t.replied = false := by
  simp only [sentTargets, getElem?_mapIdx, getElem?_map, Option.map_eq_some_iff] at h
  obtain ⟨-, ⟨host, hhost, rfl⟩, rfl⟩ := h
  refine ⟨host, hhost, ?_⟩
  unfold sendEcho
  split
  · exact ⟨rfl, rfl, rfl⟩
  · split <;> exact ⟨rfl, rfl, rfl⟩

theorem length_sweptTargets : (sweptTargets env hosts timeoutMs start turns).length = hosts.length := by
  have h := congrArg List.length (sweepLoop_heard (fdOpen env (hosts.map (resolveTarget env)))
    ((sentTargets env hosts).countP (·.sentOk)) (windowEnd timeoutMs start) turns
    ⟨sentTargets env hosts, 0⟩).1
  simpa [sweptTargets, sentTargets] using h

theorem sweptTargets_get {i : Nat} {t : Tgt} (h : (sweptTargets env hosts timeoutMs start turns)[i]? = some t) :
    ∃ host, hosts[i]? = some host ∧ t.host = host ∧ t.dst = env.getaddrinfo host ∧
      (t.replied = true → ∃ a, t.dst = some a ∧
        Heard (fdOpen env (hosts.map (resolveTarget env))) (windowEnd timeoutMs start) turns i a.family) := by
  have hmarks := sweepLoop_heard (fdOpen env (hosts.map (resolveTarget env)))
    ((sentTargets env hosts).countP (·.sentOk)) (windowEnd timeoutMs start) turns ⟨sentTargets env hosts, 0⟩
  have hlen : i < (sentTargets env hosts).length := by
    have := (List.getElem?_eq_some_iff.mp h).1
    rw [length_sweptTargets] at this
    simpa [sentTargets] using this
  obtain ⟨t₀, ht₀⟩ : ∃ t₀, (sentTargets env hosts)[i]? = some t₀ := ⟨_, getElem?_eq_getElem hlen⟩
  obtain ⟨host, hhost, hname, hdst, hnot⟩ := sentTargets_get env hosts ht₀
  have hsame := fixed_get hmarks.1 ht₀ h
  refine ⟨host, hhost, ?_, ?_, fun hr => ?_⟩
  · exact (congrArg (·.1) hsame).trans hname
  · exact (congrArg (·.2.1) hsame).trans hdst
  · rcases hmarks.2 i t h hr with ⟨t₁, ht₁, hr₁⟩ | hheard
    · obtain rfl := Option.some.inj (ht₀.symm.trans ht₁)
      exact absurd (hnot.symm.trans hr₁) (by decide)
    · exact hheard

theorem sweepRun_findings :
    ∃ lossPct, (sweepRun env hosts timeoutMs start turns).1 =
      (sweptTargets env hosts timeoutMs start turns).map resultOf ++
        [.summary hosts.length
          (((sweptTargets env hosts timeoutMs start turns).map resultOf).countP SweepFinding.isUp)
          (((sweptTargets env hosts timeoutMs start turns).map resultOf).countP SweepFinding.isDown)
          (((sweptTargets env hosts timeoutMs start turns).map resultOf).countP SweepFinding.isUnresolved)
          (clampTimeout timeoutMs) lossPct] := by
  obtain ⟨hf, hu, hd, hx⟩ := emitResults_spec (sweptTargets env hosts timeoutMs start turns)
  rw [← hu, ← hd, ← hx, ← hf]
  exact ⟨_, rfl⟩

end Run

/-- In every run in which only the targets answer, the sweep tells what is so. -/
theorem sweep_results (env : SweepEnv) (ident : Family → UInt16) (hosts : List Bytes) (timeoutMs : Int32)
    (start : Int) (turns : List SweepTurn)
    (honly : ∀ turn ∈ turns, OnlyTargetsAnswer env ident hosts turn) :
    SweepResults env ident hosts timeoutMs start turns := by
  obtain ⟨lossPct, hfindings⟩ := sweepRun_findings env hosts timeoutMs start turns
  have hlen := length_sweptTargets env hosts timeoutMs start turns
  have hresults : List.Forall₂ ResultFor hosts ((sweptTargets env hosts timeoutMs start turns).map resultOf) := by
    refine forall₂_iff_get.mpr ⟨by rw [length_map, hlen], fun i hi hi' => ?_⟩
    rw [length_map] at hi'
    obtain ⟨host, hhost, hname, -⟩ :=
      sweptTargets_get env hosts timeoutMs start turns (getElem?_eq_getElem hi')
    have hsame : hosts.get ⟨i, hi⟩ = host := (List.getElem?_eq_some_iff.mp hhost).2
    rw [hsame, ← hname, get_eq_getElem, getElem_map]
    exact resultFor_resultOf _
  constructor
  · refine ⟨_, _, _, _, lossPct, hfindings, hresults, rfl, rfl, rfl, ?_⟩
    rw [counts_results, length_map, hlen]
    intro f hf
    obtain ⟨t, -, rfl⟩ := mem_map.mp hf
    exact ⟨t.host, resultFor_resultOf t⟩
  · intro i host ip rtt hup
    obtain ⟨t, ht, hresult⟩ : ∃ t, (sweptTargets env hosts timeoutMs start turns)[i]? = some t ∧
        resultOf t = .up host ip rtt := by
      rw [hfindings, getElem?_append] at hup
      split at hup
      · rw [getElem?_map, Option.map_eq_some_iff] at hup
        exact hup
      · exact absurd (mem_of_getElem? hup) (by simp)
    obtain ⟨name, hhost, hname, hdst, hheard⟩ := sweptTargets_get env hosts timeoutMs start turns ht
    obtain ⟨hreplied, rfl⟩ : t.replied = true ∧ t.host = host := by
      unfold resultOf at hresult
      split at hresult
      · cases hresult
      · split at hresult
        · next hr => exact ⟨hr, (SweepFinding.up.inj hresult).1⟩
        · cases hresult
    obtain ⟨a, ha, hfd, turn, hturn, hnow, d, hd, icmp, hecho, hseq⟩ := hheard hreplied
    subst hname
    have hresolved : env.getaddrinfo t.host = some a := hdst.symm.trans ha
    obtain ⟨hsrc, hident, hsent⟩ := honly turn hturn a.family d hd icmp hecho t.host a
      (by rw [hseq]; exact hhost) hresolved rfl
    rw [hseq] at hsent
    exact ⟨hhost, a, hresolved, hsent, turn, hturn, hnow, d, hd, hsrc, icmp, hecho, hident, hseq⟩

/-- One target and one echo reply with its sequence number 0, from the given source. -/
def oneTarget : SweepEnv where
  getaddrinfo := fun host => if host = asc "db1" then some ⟨.inet, [192, 0, 2, 1], asc "192.0.2.1"⟩ else none
  opens := fun _ => true
  sendto := fun _ => (0, true)

def oneReply (src : Bytes) (ident : UInt8) : List SweepTurn :=
  [⟨1000, .ready (some (⟨[0, 0, 0, 0, 0, ident, 0, 0], src⟩, 2500)) none⟩]

theorem oneTarget_db1 : oneTarget.getaddrinfo (asc "db1") = some ⟨.inet, [192, 0, 2, 1], asc "192.0.2.1"⟩ := by
  decide

theorem db1_answers :
    SweepResults oneTarget (fun _ => 7) [asc "db1", asc "nowhere"] 2000 0 (oneReply [192, 0, 2, 1] 7) ∧
      (sweepRun oneTarget [asc "db1", asc "nowhere"] 2000 0 (oneReply [192, 0, 2, 1] 7)).1 =
        [.up (asc "db1") (asc "192.0.2.1") 2500, .unresolved (asc "nowhere"),
          .summary 2 1 0 1 2000 0] := by
  refine ⟨sweep_results _ _ _ _ _ _ ?_, by decide +kernel⟩
  intro turn hturn fam d hd icmp hecho host a hhost ha hfam
  obtain rfl := mem_singleton.mp hturn
  cases fam with
  | inet6 => cases hd
  | inet =>
    obtain rfl := Option.some.inj hd
    have hmsg : echoReply .inet (([0, 0, 0, 0, 0, 7, 0, 0] : Bytes).take 2048) = some [0, 0, 0, 0, 0, 7, 0, 0] := by
      decide +kernel
    obtain rfl := Option.some.inj (hmsg.symm.trans hecho)
    have hseq : (u16At [0, 0, 0, 0, 0, 7, 0, 0] 6).toNat = 0 := by decide +kernel
    rw [hseq] at hhost
    obtain rfl := Option.some.inj hhost
    obtain rfl := Option.some.inj (oneTarget_db1.symm.trans ha)
    exact ⟨rfl, by decide +kernel, rfl⟩

/-- A host that was never asked answers for the target, with another identifier, and the target is up. -/
theorem stranger_answers :
    (sweepRun oneTarget [asc "db1"] 2000 0 (oneReply [198, 51, 100, 9] 99)).1 =
        [.up (asc "db1") (asc "192.0.2.1") 2500, .summary 1 1 0 0 2000 0] ∧
      ¬ SweepResults oneTarget (fun _ => 7) [asc "db1"] 2000 0 (oneReply [198, 51, 100, 9] 99) := by
  have hrun : (sweepRun oneTarget [asc "db1"] 2000 0 (oneReply [198, 51, 100, 9] 99)).1 =
      [.up (asc "db1") (asc "192.0.2.1") 2500, .summary 1 1 0 0 2000 0] := by decide +kernel
  refine ⟨hrun, fun h => ?_⟩
  obtain ⟨-, a, ha, -, turn, hturn, -, d, hd, hsrc, -⟩ :=
    h.up 0 (asc "db1") (asc "192.0.2.1") 2500 (by rw [hrun]; rfl)
  obtain rfl := mem_singleton.mp hturn
  obtain rfl := Option.some.inj (oneTarget_db1.symm.trans ha)
  obtain rfl := Option.some.inj hd
  exact absurd hsrc (by decide)

end Packetsonde.Scan
