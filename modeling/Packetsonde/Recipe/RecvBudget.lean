import Packetsonde.Recipe.Actions

/-!
# The receive budget

`do_recv` checks before it reads that the whole `max_bytes` of the step still fits the budget, and
afterwards adds what the step keeps to `recv_bytes_total`. What the step keeps is less than what
was read when the `until` condition fires inside a chunk: the newline and the `n_bytes` modes cut
the buffer there, and the bytes behind the cut have been read but are never counted. In a run without
such a call (`Event.pastCut`) the bytes read stay within the budget.
-/

namespace Packetsonde.Recipe

open Packetsonde.Lib
open Packetsonde.Lib.Prog
open List

variable {σ : Type}

/-! ## What a call delivers -/

/-- The bytes a call into the backend delivers through `recv_some`. -/
def Event.delivered : Event → Nat
  | .recvSome _ _ _ _ (some chunk) => chunk.length
  | _ => 0

def delivered (trace : List Event) : Nat := (trace.map Event.delivered).sum

@[simp] theorem delivered_nil : delivered [] = 0 := rfl

@[simp] theorem delivered_cons (e : Event) (trace : List Event) :
    delivered (e :: trace) = e.delivered + delivered trace := by
  simp [delivered]

@[simp] theorem delivered_append (t₁ t₂ : List Event) :
    delivered (t₁ ++ t₂) = delivered t₁ + delivered t₂ := by
  simp [delivered]

/-- The call delivered bytes behind the point where the step cuts: behind the first newline, or
behind the first `n_bytes` bytes. -/
def Event.pastCut : Event → Bool
  | .recvSome _ .newline _ _ (some chunk) => chunk.dropLast.contains 10
  | .recvSome _ (.nBytes n) held _ (some chunk) => toSizeT n < held + chunk.length
  | _ => false

def StopsAtCut (trace : List Event) : Prop := ∀ e ∈ trace, e.pastCut = false

instance (trace : List Event) : Decidable (StopsAtCut trace) :=
  inferInstanceAs (Decidable (∀ e ∈ trace, e.pastCut = false))

theorem stopsAtCut_append {t₁ t₂ : List Event} :
    StopsAtCut (t₁ ++ t₂) ↔ StopsAtCut t₁ ∧ StopsAtCut t₂ := by
  simp only [StopsAtCut, mem_append]
  exact ⟨fun h => ⟨fun e he => h e (.inl he), fun e he => h e (.inr he)⟩,
    fun h e he => he.elim (h.1 e) (h.2 e)⟩

theorem stopsAtCut_cons {e : Event} {trace : List Event} :
    StopsAtCut (e :: trace) ↔ e.pastCut = false ∧ StopsAtCut trace := by
  simp [StopsAtCut]

/-- A newline that only stands at the end of a chunk is the end of the chunk. -/
theorem idxOf_newline_add_one {chunk : Bytes} (hmem : 10 ∈ chunk)
    (hlast : chunk.dropLast.contains 10 = false) : chunk.idxOf 10 + 1 = chunk.length := by
  have hne : chunk ≠ [] := ne_nil_of_mem hmem
  have hnot : (10 : UInt8) ∉ chunk.dropLast := by simpa using hlast
  rw [← dropLast_append_getLast hne] at hmem ⊢
  rw [idxOf_append_of_notMem hnot]
  rw [mem_append, mem_singleton] at hmem
  obtain hlast : (10 : UInt8) = chunk.getLast hne := hmem.resolve_left hnot
  simp [← hlast]

/-- Where the chunk ends at the cut, the step keeps all of it. -/
theorem untilCut_exact {h : Int32} {until_ : Until} {got chunk kept : Bytes} {cap : Nat}
    (hcut : untilCut until_ got chunk = some kept)
    (hexact : (Event.recvSome h until_ got.length cap (some chunk)).pastCut = false) :
    kept = got ++ chunk := by
  cases until_ with
  | newline =>
    simp only [untilCut] at hcut
    split at hcut
    · rename_i hmem
      obtain rfl := Option.some.inj hcut
      rw [idxOf_newline_add_one hmem hexact, take_length]
    · simp at hcut
  | nBytes n =>
    simp only [untilCut] at hcut
    split at hcut
    · obtain rfl := Option.some.inj hcut
      have hle : got.length + chunk.length ≤ toSizeT n := by
        simpa [Event.pastCut] using hexact
      exact take_of_length_le (by rwa [length_append])
    · simp at hcut
  | regex pattern => simp [untilCut] at hcut

/-- In any case the step keeps no more than it read. -/
theorem untilCut_length_le {until_ : Until} {got chunk kept : Bytes}
    (hcut : untilCut until_ got chunk = some kept) :
    kept.length ≤ got.length + chunk.length := by
  cases until_ with
  | newline =>
    simp only [untilCut] at hcut
    split at hcut
    · obtain rfl := Option.some.inj hcut
      simp only [length_append, length_take]
      omega
    · simp at hcut
  | nBytes n =>
    simp only [untilCut] at hcut
    split at hcut
    · obtain rfl := Option.some.inj hcut
      simp only [length_append, length_take]
      omega
    · simp at hcut
  | regex pattern => simp [untilCut] at hcut

/-! ## One receive loop -/

/-- The backend never returns more than the capacity it was given. -/
def WithinCapacity (recvSome : σ → Int32 → Nat → Option Bytes × σ) : Prop :=
  ∀ w h cap chunk, (recvSome w h cap).1 = some chunk → chunk.length ≤ cap

section Loop

variable {recvSome : σ → Int32 → Nat → Option Bytes × σ} {h : Int32} {until_ : Until} {cap : Nat}
  {got kept : Bytes} {evs : List Event}

/-- Without a call past the cut, the loop keeps exactly what was delivered. -/
theorem RecvTrace.delivered_eq (htrace : RecvTrace recvSome h until_ cap got evs kept)
    (hexact : StopsAtCut evs) : got.length + delivered evs = kept.length := by
  induction htrace with
  | full got => simp
  | eof hlt => simp [Event.delivered]
  | cut hlt hne hw hcut =>
    rw [untilCut_exact hcut (stopsAtCut_cons.mp hexact).1]
    simp [Event.delivered]
  | more hlt hne hw hcut hrest ih =>
    have hlen := ih (stopsAtCut_cons.mp hexact).2
    rw [length_append] at hlen
    simp only [delivered_cons, Event.delivered]
    omega

/-- The loop keeps no more than its capacity. -/
theorem RecvTrace.kept_le (hio : WithinCapacity recvSome)
    (htrace : RecvTrace recvSome h until_ cap got evs kept) (hgot : got.length ≤ cap) :
    kept.length ≤ cap := by
  induction htrace with
  | full got => exact hgot
  | eof hlt => exact hgot
  | cut hlt hne hw hcut =>
    have hchunk := hio _ _ _ _ hw
    have hle := untilCut_length_le hcut
    omega
  | more hlt hne hw hcut hrest ih =>
    have hchunk := hio _ _ _ _ hw
    exact ih (by rw [length_append]; omega)

/-- A loop that breaks off has not read more than its capacity either. -/
theorem RecvBroken.delivered_le (hio : WithinCapacity recvSome)
    (htrace : RecvBroken recvSome h until_ cap got evs) (hgot : got.length ≤ cap) :
    got.length + delivered evs ≤ cap := by
  induction htrace with
  | error hlt => simpa [Event.delivered] using hgot
  | more hlt hne hw hrest ih =>
    have hchunk := hio _ _ _ _ hw
    have hle := ih (by rw [length_append]; omega)
    rw [length_append] at hle
    simp only [delivered_cons, Event.delivered]
    omega

end Loop

/-! ## Whole runs -/

theorem toSizeT_of_nonneg {i : Int32} (h : 0 ≤ i.toInt) : (toSizeT i : Int) = i.toInt := by
  have hlt := i.toInt_lt
  rw [toSizeT, Int.emod_eq_of_lt h (by omega), Int.toNat_of_nonneg h]

/-- What `do_recv` checks before it reads: the step's `max_bytes` fits what is left. -/
theorem recv_precheck {b m : Int32} {total : Nat} (hrange : ¬ (m ≤ 0 ∨ m > b))
    (hbudget : ¬ total + toSizeT m > toSizeT b) : ((total + toSizeT m : Nat) : Int) ≤ b.toInt := by
  have hpos : 0 < m.toInt := by
    have := not_or.mp hrange
    simpa [Int32.lt_iff_toInt_lt] using this.1
  have hle : m.toInt ≤ b.toInt := by
    have := not_or.mp hrange
    simpa [Int32.le_iff_toInt_le] using this.2
  have hb := toSizeT_of_nonneg (i := b) (by omega)
  omega

/-- The invariant: nothing is read yet or the counter is within the budget, and the counter is
what was read unless a call went past its cut. -/
structure RecvInv (env : Env σ) (rt : Rt σ) : Prop where
  within : rt.recvBytesTotal = 0 ∨ (rt.recvBytesTotal : Int) ≤ env.budgets.maxRecvBytes.toInt
  exact_ : StopsAtCut rt.trace → delivered rt.trace = rt.recvBytesTotal

/-- What is left of it once the run has ended, a broken-off loop included. -/
def RecvBound (env : Env σ) (rt : Rt σ) : Prop :=
  StopsAtCut rt.trace →
    delivered rt.trace = 0 ∨ (delivered rt.trace : Int) ≤ env.budgets.maxRecvBytes.toInt

theorem RecvInv.bound {env : Env σ} {rt : Rt σ} (h : RecvInv env rt) : RecvBound env rt := by
  intro hexact
  rw [h.exact_ hexact]
  exact h.within

/-- An action that delivers nothing and leaves the counter alone keeps the invariant. -/
theorem RecvInv.of_quiet {env : Env σ} {rt rt' : Rt σ} (h : RecvInv env rt) (evs : List Event)
    (htrace : rt'.trace = rt.trace ++ evs) (hquiet : delivered evs = 0)
    (htotal : rt'.recvBytesTotal = rt.recvBytesTotal) : RecvInv env rt' where
  within := by rw [htotal]; exact h.within
  exact_ := by
    rw [htrace, htotal]
    intro hexact
    rw [delivered_append, hquiet, Nat.add_zero]
    exact h.exact_ (stopsAtCut_append.mp hexact).1

/-- The counter stays true to what was read, action by action. -/
theorem RecvInv.step {env : Env σ} (hio : ∀ f, env.io.recvSome = some f → WithinCapacity f)
    {rt rt' : Rt σ} (hstep : Action env rt rt') (h : RecvInv env rt) : RecvInv env rt' := by
  cases hstep with
  | received w conn hd until_ maxBytes recvSome evs got _ _ hrange hbudget hrecv htrace =>
    have hpre := recv_precheck hrange hbudget
    have hkept := htrace.kept_le (hio _ hrecv) (Nat.zero_le _)
    refine ⟨.inr ?_, fun hexact => ?_⟩
    · show ((rt.recvBytesTotal + got.length : Nat) : Int) ≤ _
      omega
    · obtain ⟨hbefore, hloop⟩ := stopsAtCut_append.mp hexact
      have hlen := htrace.delivered_eq hloop
      rw [length_nil, Nat.zero_add] at hlen
      rw [delivered_append, h.exact_ hbefore, hlen]
  | entered => exact h.of_quiet ([.budgetStep] ++ [.enter _]) (append_assoc _ _ _) rfl rfl
  | opened => exact h.of_quiet [.connect _] rfl rfl rfl
  | found => exact h.of_quiet [.found _ _] rfl rfl rfl
  | sent => exact h.of_quiet [.sendAll _ _] rfl rfl rfl
  | closed => exact h.of_quiet [.closeConn _] rfl rfl rfl
  | dropped => exact h.of_quiet [] (append_nil _).symm rfl rfl
  | bound => exact h.of_quiet [] (append_nil _).symm rfl rfl
  | unbound => exact h.of_quiet [] (append_nil _).symm rfl rfl
  | leftOut => exact h.of_quiet [.leftOut _] rfl rfl rfl
  | emitted => exact h.of_quiet [] (append_nil _).symm rfl rfl
  | counted => exact h.of_quiet [.budgetTls] rfl rfl rfl
  | upgraded => exact h.of_quiet ([.budgetTls] ++ [.tlsUpgrade _]) (append_assoc _ _ _) rfl rfl
  | session => exact h.of_quiet [.tlsSession _] rfl rfl rfl
  | probed => exact h.of_quiet ([.budgetTls] ++ [.tlsProbe _ _]) (append_assoc _ _ _) rfl rfl

theorem RecvInv.stop {env : Env σ} (hio : ∀ f, env.io.recvSome = some f → WithinCapacity f)
    {rt rt' : Rt σ} (hstop : Stop env rt rt') (h : RecvInv env rt) : RecvBound env rt' := by
  cases hstop with
  | recvBroken w conn hd until_ maxBytes recvSome evs e _ _ hrange hbudget hrecv htrace =>
    intro hexact
    have hpre := recv_precheck hrange hbudget
    have hread := htrace.delivered_le (hio _ hrecv) (Nat.zero_le _)
    have hbefore := h.exact_ (stopsAtCut_append.mp hexact).1
    rw [length_nil, Nat.zero_add] at hread
    rw [delivered_append, hbefore]
    exact .inr (by omega)
  | failed => exact RecvInv.bound (h.of_quiet [] (append_nil _).symm rfl rfl)
  | stepRefused => exact RecvInv.bound (h.of_quiet [.budgetStep] rfl rfl rfl)
  | tlsRefused => exact RecvInv.bound (h.of_quiet [.budgetTls] rfl rfl rfl)
  | connectFailed => exact RecvInv.bound (h.of_quiet [.connect _] rfl rfl rfl)
  | leaked => exact RecvInv.bound (h.of_quiet [.connect _] rfl rfl rfl)

theorem delivered_sweep (env : Env σ) (bs : List RtBinding) :
    delivered (sweepEvents env bs) = 0 := by
  rw [sweepEvents]
  split
  · simp [delivered, Event.delivered, Function.comp_def]
  · rfl

/-- **The receive budget.** In every run, on every backend that keeps to the capacity it is given,
the bytes delivered through `recv_some` stay within `max_recv_bytes` as long as no call delivers
bytes behind the point where its step cuts. A budget that is not positive lets nothing through. -/
theorem received_within_budget (host : Host σ) (r : PsRecipe) (fuel : Nat) (w : σ)
    (hio : ∀ f, host.io.recvSome = some f → WithinCapacity f)
    (hexact : StopsAtCut (psRecipeRun host r fuel w).2.trace) :
    delivered (psRecipeRun host r fuel w).2.trace = 0 ∨
      (delivered (psRecipeRun host r fuel w).2.trace : Int) ≤ r.budgets.maxRecvBytes.toInt := by
  obtain ⟨rt, w', sweep, hrun, hend, -, hsweep⟩ := psRecipeRun_end host r fuel w
  have hinit : RecvInv { host with budgets := r.budgets } (rtInit w) := ⟨.inl rfl, fun _ => rfl⟩
  have hbound := Chain.invariant (runSteps_acts { host with budgets := r.budgets } fuel r.steps _)
    (fun _ _ hstep => RecvInv.step hio hstep) (fun _ _ hstop => RecvInv.stop hio hstop)
    (fun _ => RecvInv.bound) hinit
  rw [hrun] at hbound
  -- the sweep only closes
  have hquiet : delivered sweep = 0 := by
    rcases hsweep with rfl | rfl
    · rfl
    · exact delivered_sweep _ _
  rw [hend] at hexact ⊢
  rw [delivered_append, hquiet, Nat.add_zero]
  exact hbound (stopsAtCut_append.mp hexact).1

/-! ## A peer that sends two lines at once -/

theorem streamRecv_withinCapacity (size : Nat) : WithinCapacity (streamRecv size) := by
  intro w h cap chunk hchunk
  obtain rfl := Option.some.inj hchunk
  rw [length_take]
  omega

/-- A recipe that reads two lines of at most 9 bytes each, on a given budget. -/
def twoLinesJson (budget : Bytes) : Bytes :=
  asc "\x7b\"schema\":1,\"name\":\"b\",\"version\":1,\"kind_prefix\":\"b\"," ++
  asc "\"budgets\":\x7b\"max_recv_bytes\":" ++ budget ++ asc "\x7d,\"steps\":[" ++
  asc "\x7b\"op\":\"connect_tcp\",\"host\":\"h\",\"port\":25,\"timeout_ms\":9,\"out\":\"c\"\x7d," ++
  asc "\x7b\"op\":\"recv\",\"conn\":\"c\",\"until\":\"newline\"," ++
  asc "\"max_bytes\":9,\"out\":\"l1\"\x7d," ++
  asc "\x7b\"op\":\"recv\",\"conn\":\"c\",\"until\":\"newline\"," ++
  asc "\"max_bytes\":9,\"out\":\"l2\"\x7d]\x7d"

/-- Read byte by byte, the two lines of the peer are within the budget. -/
theorem bytewise_lines_within_budget :
    ∃ r, psRecipeParseJson (twoLinesJson (asc "10")) = .ok r ∧
      StopsAtCut (psRecipeRun (streamHost 1) r 0 (asc "a\nb\n")).2.trace ∧
      (delivered (psRecipeRun (streamHost 1) r 0 (asc "a\nb\n")).2.trace = 0 ∨
        (delivered (psRecipeRun (streamHost 1) r 0 (asc "a\nb\n")).2.trace : Int)
          ≤ r.budgets.maxRecvBytes.toInt) := by
  obtain ⟨r, hparse, hexact⟩ := exists_parsed (twoLinesJson (asc "10"))
    (P := fun r => StopsAtCut (psRecipeRun (streamHost 1) r 0 (asc "a\nb\n")).2.trace)
    (by decide +kernel)
  have hio : ∀ f, (streamHost 1).io.recvSome = some f → WithinCapacity f := by
    intro f hf
    obtain rfl := Option.some.inj hf
    exact streamRecv_withinCapacity 1
  exact ⟨r, hparse, hexact, received_within_budget (streamHost 1) r 0 _ hio hexact⟩

/-- Two chunks of 9 bytes, each an empty line and 8 bytes behind it: the recipe keeps 2 bytes and
reads 18, on a budget of 10. -/
theorem coalesced_lines_exceed_budget :
    WithinCapacity (streamRecv 9) ∧ ∃ r, psRecipeParseJson (twoLinesJson (asc "10")) = .ok r ∧
      r.budgets.maxRecvBytes.toInt
        < delivered (psRecipeRun (streamHost 9) r 0 (asc "\nxxxxxxxx\nyyyyyyyy")).2.trace :=
  ⟨streamRecv_withinCapacity 9, exists_parsed (twoLinesJson (asc "10")) (by decide +kernel)⟩

end Packetsonde.Recipe
