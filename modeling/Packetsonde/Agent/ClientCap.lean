import Mathlib.Data.List.Basic
import Mathlib.Tactic

/-!
# Packetsonde — the client cap (`network_listener.c`)

The accept thread and every session window take a client in the same way: `active_clients` is compared with
`max_clients`, then comes the TLS handshake, and only behind it the counter is raised and the session
thread created. The counter itself is exact at every moment. The cap is not: whoever is
between the test and the increment was admitted against a number that others still raise.

`client_cap` has the condition under which the cap holds: a client passes the test only while there is room
for those as well that have passed it before.
-/

namespace Packetsonde.Agent

/-! ## The code -/

/-- Where a thread that takes clients is: in `accept`, behind the test of the cap, behind the increment
(in `pthread_create`), or at its end. -/
inductive Admission where
  | waiting
  | admitted
  | counted
  | gone
  deriving DecidableEq

/-- `max_clients` and `active_clients`, the threads that take clients (the accept thread in front, then the
session windows), and how many session threads were created and have not finished. -/
structure Cap where
  maxClients : Int
  active : Int
  threads : List Admission
  running : Nat

/-- The atomic steps. `givesUp` is a failed handshake, a key that is not authorized or a failed `calloc`;
`leaves` is an `accept` that fails or times out, or the end of the loop. A session thread finishes with its
`atomic_fetch_sub`. -/
inductive CapEvent where
  | openWindow
  | test (i : Nat)
  | givesUp (i : Nat)
  | count (i : Nat)
  | create (i : Nat) (ok : Bool)
  | finish
  | leaves (i : Nat)

/-- A thread is done with a client: the accept thread goes on, a window is closed. -/
def afterClient (i : Nat) : Admission := if i = 0 then .waiting else .gone

def Cap.step (s : Cap) : CapEvent → Cap
  | .openWindow => { s with threads := s.threads ++ [.waiting] }
  | .test i =>
    if s.threads[i]? = some .waiting then
      { s with threads := s.threads.set i (if s.active ≥ s.maxClients then afterClient i else .admitted) }
    else s
  | .givesUp i =>
    if s.threads[i]? = some .admitted then { s with threads := s.threads.set i (afterClient i) } else s
  | .count i =>
    if s.threads[i]? = some .admitted then
      { s with active := s.active + 1, threads := s.threads.set i .counted }
    else s
  | .create i ok =>
    if s.threads[i]? = some .counted then
      if ok then { s with threads := s.threads.set i (afterClient i), running := s.running + 1 }
      else { s with threads := s.threads.set i (afterClient i), active := s.active - 1 }
    else s
  | .finish =>
    if s.running = 0 then s else { s with active := s.active - 1, running := s.running - 1 }
  | .leaves i =>
    if s.threads[i]? = some .waiting then { s with threads := s.threads.set i .gone } else s

def Cap.start (maxClients : Int) : Cap := ⟨maxClients, 0, [.waiting], 0⟩

def Cap.run (s : Cap) (es : List CapEvent) : Cap := es.foldl Cap.step s

/-! ## What is counted -/

/-- Session threads that are started and have not finished: those that run, and those whose creator has
counted them and is in `pthread_create`. -/
def Cap.sessions (s : Cap) : Nat := s.running + s.threads.count .counted

/-- Threads that have passed the test and not counted their client yet. -/
def Cap.pending (s : Cap) : Nat := s.threads.count .admitted

/-- Whoever passes the test finds room for the pending ones as well. -/
def Cap.Room (s : Cap) : CapEvent → Prop
  | .test _ => s.active < s.maxClients → s.active + s.pending < s.maxClients
  | _ => True

def Cap.Meets (s : Cap) : List CapEvent → Prop
  | [] => True
  | e :: es => s.Room e ∧ (s.step e).Meets es

section

variable {s : Cap} {i : Nat} {a b : Admission}

/-- Setting a thread moves it from one count to another. -/
theorem count_set (h : s.threads[i]? = some a) (c : Admission) :
    (s.threads.set i b).count c + (if a = c then 1 else 0) =
      s.threads.count c + if b = c then 1 else 0 := by
  obtain ⟨hi, ha⟩ := List.getElem?_eq_some_iff.mp h
  have hpos : a = c → 0 < s.threads.count c := by
    rintro rfl
    exact List.count_pos_iff.mpr (ha ▸ List.getElem_mem hi)
  rw [List.count_set hi, ha]
  by_cases hac : a = c
  · have := hpos hac
    simp only [hac, beq_self_eq_true, if_true, beq_iff_eq]
    omega
  · simp only [hac, beq_iff_eq, if_false]
    omega

theorem count_set_afterClient (h : s.threads[i]? = some a) {c : Admission} (hc : c = .admitted ∨ c = .counted) :
    (s.threads.set i (afterClient i)).count c + (if a = c then 1 else 0) = s.threads.count c := by
  have hne : afterClient i ≠ c := by
    unfold afterClient
    rcases hc with rfl | rfl <;> split <;> decide
  rw [count_set h, if_neg hne, Nat.add_zero]

/-- What a step can do: nothing that is counted, a client is admitted, one is counted, or one ends. -/
theorem step_cases (s : Cap) (e : CapEvent) : (s.step e).maxClients = s.maxClients ∧
    ((s.step e).active = s.active ∧ (s.step e).pending ≤ s.pending ∧ (s.step e).sessions = s.sessions ∨
      (∃ i, e = .test i) ∧ s.active < s.maxClients ∧ (s.step e).active = s.active ∧
        (s.step e).pending = s.pending + 1 ∧ (s.step e).sessions = s.sessions ∨
      (s.step e).active = s.active + 1 ∧ (s.step e).pending + 1 = s.pending ∧
        (s.step e).sessions = s.sessions + 1 ∨
      (s.step e).active + 1 = s.active ∧ (s.step e).pending = s.pending ∧
        (s.step e).sessions + 1 = s.sessions) := by
  have hsame (s : Cap) : s.active = s.active ∧ s.pending ≤ s.pending ∧ s.sessions = s.sessions :=
    ⟨rfl, Nat.le_refl _, rfl⟩
  cases e with
  | openWindow => exact ⟨rfl, .inl ⟨rfl, by simp [Cap.step, Cap.pending], by simp [Cap.step, Cap.sessions]⟩⟩
  | test i =>
    by_cases hi : s.threads[i]? = some .waiting
    · rw [Cap.step, if_pos hi]
      refine ⟨rfl, ?_⟩
      by_cases hfull : s.active ≥ s.maxClients
      · rw [if_pos hfull]
        have hadm := count_set_afterClient hi (.inl rfl)
        have hcnt := count_set_afterClient hi (.inr rfl)
        exact .inl ⟨rfl, hadm.le, congrArg (s.running + ·) hcnt⟩
      · rw [if_neg hfull]
        have hadm := count_set (b := .admitted) hi .admitted
        have hcnt := count_set (b := .admitted) hi .counted
        exact .inr (.inl ⟨⟨i, rfl⟩, Int.not_le.mp hfull, rfl, hadm, congrArg (s.running + ·) hcnt⟩)
    · rw [Cap.step, if_neg hi]
      exact ⟨rfl, .inl (hsame s)⟩
  | givesUp i =>
    by_cases hi : s.threads[i]? = some .admitted
    · rw [Cap.step, if_pos hi]
      have hadm := count_set_afterClient hi (.inl rfl)
      have hcnt := count_set_afterClient hi (.inr rfl)
      exact ⟨rfl, .inl ⟨rfl, Nat.le_of_succ_le hadm.le, congrArg (s.running + ·) hcnt⟩⟩
    · rw [Cap.step, if_neg hi]
      exact ⟨rfl, .inl (hsame s)⟩
  | count i =>
    by_cases hi : s.threads[i]? = some .admitted
    · rw [Cap.step, if_pos hi]
      have hadm := count_set (b := .counted) hi .admitted
      have hcnt := count_set (b := .counted) hi .counted
      exact ⟨rfl, .inr (.inr (.inl ⟨rfl, hadm, congrArg (s.running + ·) hcnt⟩))⟩
    · rw [Cap.step, if_neg hi]
      exact ⟨rfl, .inl (hsame s)⟩
  | create i ok =>
    by_cases hi : s.threads[i]? = some .counted
    · have hadm := count_set_afterClient hi (.inl rfl)
      have hcnt := count_set_afterClient hi (.inr rfl)
      rw [Cap.step, if_pos hi]
      cases ok with
      | true =>
        refine ⟨rfl, .inl ⟨rfl, hadm.le, ?_⟩⟩
        show s.running + 1 + _ = s.running + _
        rw [← hcnt]
        exact Nat.add_right_comm _ _ _
      | false =>
        exact ⟨rfl, .inr (.inr (.inr ⟨Int.sub_add_cancel _ _, hadm, congrArg (s.running + ·) hcnt⟩))⟩
    · rw [Cap.step, if_neg hi]
      exact ⟨rfl, .inl (hsame s)⟩
  | finish =>
    by_cases hrun : s.running = 0
    · rw [Cap.step, if_pos hrun]
      exact ⟨rfl, .inl (hsame s)⟩
    · rw [Cap.step, if_neg hrun]
      refine ⟨rfl, .inr (.inr (.inr ⟨Int.sub_add_cancel _ _, rfl, ?_⟩))⟩
      show s.running - 1 + s.threads.count .counted + 1 = s.running + s.threads.count .counted
      omega
  | leaves i =>
    by_cases hi : s.threads[i]? = some .waiting
    · rw [Cap.step, if_pos hi]
      have hadm := count_set (b := .gone) hi .admitted
      have hcnt := count_set (b := .gone) hi .counted
      exact ⟨rfl, .inl ⟨rfl, hadm.le, congrArg (s.running + ·) hcnt⟩⟩
    · rw [Cap.step, if_neg hi]
      exact ⟨rfl, .inl (hsame s)⟩

end

/-! ## Runs -/

/-- The counter is exact in every run; it stays below the cap if nobody is admitted over the pending ones. -/
theorem client_cap (maxClients : Int) (hmax : 0 ≤ maxClients) (es : List CapEvent) :
    ((Cap.start maxClients).run es).active = ((Cap.start maxClients).run es).sessions ∧
      ((Cap.start maxClients).Meets es → ((Cap.start maxClients).run es).active ≤ maxClients) := by
  -- the second part by the invariant that the pending ones fit as well
  have hexact : ∀ (es : List CapEvent) (s : Cap), s.active = s.sessions → (s.run es).active = (s.run es).sessions := by
    intro es
    induction es with
    | nil => exact fun s h => h
    | cons e es ih =>
      intro s h
      refine ih (s.step e) ?_
      have hstep := (step_cases s e).2
      omega
  have hfits : ∀ (es : List CapEvent) (s : Cap), s.active + s.pending ≤ s.maxClients → s.Meets es →
      (s.run es).active ≤ s.maxClients := by
    intro es
    induction es with
    | nil => exact fun s h _ => by simpa [Cap.run] using h.trans' (by omega)
    | cons e es ih =>
      intro s h hmeets
      obtain ⟨hsame, hstep⟩ := step_cases s e
      rw [← hsame]
      refine ih (s.step e) ?_ hmeets.2
      rcases hstep with hstep | ⟨⟨i, rfl⟩, hroom, hstep⟩ | hstep | hstep
      · omega
      · have hroom := hmeets.1 hroom
        omega
      · omega
      · omega
  exact ⟨hexact es _ rfl, hfits es _ (by simpa [Cap.start, Cap.pending] using hmax)⟩

/-- The accept thread counts its client before a window takes one; a third client is turned away. -/
def takesTurns : List CapEvent :=
  [.openWindow, .test 0, .count 0, .test 1, .create 0 true, .count 1, .create 1 true, .test 0]

theorem window_under_cap :
    (0 : Int) ≤ 2 ∧ (Cap.start 2).Meets takesTurns ∧ ((Cap.start 2).run takesTurns).active = 2 ∧
      ((Cap.start 2).run takesTurns).active ≤ 2 := by
  have hmeets : (Cap.start 2).Meets takesTurns :=
    ⟨trivial, fun _ => by decide, trivial, fun _ => by decide, trivial, trivial, trivial,
      fun hfree => absurd hfree (by decide), trivial⟩
  obtain ⟨hexact, hcap⟩ := client_cap 2 (by decide) takesTurns
  exact ⟨by decide, hmeets, hexact.trans (by decide), hcap hmeets⟩

/-- The accept thread and a window both see no client and admit one each. -/
theorem window_exceeds_cap :
    ((Cap.start 1).run [.openWindow, .test 0, .test 1, .count 0, .create 0 true, .count 1, .create 1 true]).active =
      2 := by
  decide

end Packetsonde.Agent
