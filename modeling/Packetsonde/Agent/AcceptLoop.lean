import Packetsonde.Lib.LeadsTo

/-!
# Packetsonde — the accept loop of the network listener (`network_listener.c`, `agent_transport.c`)

One thread accepts connections, makes the TLS handshake with each and hands those of authorized clients to
session threads. The handshake is made in the accepting thread (`ps_at_accept_fd` calls `SSL_accept` on a
blocking socket), so while it waits for a peer nobody else is accepted.

Peers, session threads and the accepting thread take steps in any order. The connections that are not served
yet are one queue, with the one in its handshake in front; a step only appends to it or takes its front away
(`step_quiet`, `threadStep_spec`). So a client comes to its turn if everyone in front of it goes on or gives
up, and never if one of them does neither: `handed_iff_none_stalls`.
-/

namespace Packetsonde.Agent

open Packetsonde.Lib
open List

/-! ## The code -/

/-- The peer of a connection: the messages of its handshake that it has not sent yet, whether it has closed
the connection, and whether its key is an authorized one. -/
structure Peer where
  need : Nat
  closed : Bool
  authorized : Bool

/-- `SSL_accept`: it returns when the peer has sent everything or has closed, and blocks otherwise. -/
def Peer.sslAccept (p : Peer) : Option Bool :=
  if p.need = 0 then some true else if p.closed then some false else none

inductive AcceptPhase where
  | inAccept
  | inHandshake (c : Nat)
  | exited
  deriving DecidableEq

/-- The listener: `struct nl_state`, the connections the kernel has queued, the peers, and the clients that
were handed to session threads. -/
structure Listener where
  maxClients : Int
  stop : Bool
  active : Int
  backlog : List Nat
  phase : AcceptPhase
  peer : Nat → Peer
  handed : List Nat

/-- What can happen next. `spawned` is whether `calloc` and `pthread_create` succeed. -/
inductive ListenerEvent where
  | connect (c : Nat)
  | send (c : Nat)
  | close (c : Nat)
  | sessionBegin
  | sessionEnd
  | shutdown
  | acceptError (eintr : Bool)
  | thread (spawned : Bool)

/-- `accept_thread_fn` up to the next call that may block. -/
def threadStep (s : Listener) (spawned : Bool) : Listener :=
  match s.phase with
  | .exited => s
  | .inAccept =>
    if s.stop then { s with phase := .exited }
    else
      match s.backlog with
      | [] => s
      | c :: rest =>
        if s.active ≥ s.maxClients then { s with backlog := rest }
        else { s with backlog := rest, phase := .inHandshake c }
  | .inHandshake c =>
    match (s.peer c).sslAccept with
    | none => s
    | some false => { s with phase := .inAccept }
    | some true =>
      if (s.peer c).authorized && spawned then
        { s with phase := .inAccept, active := s.active + 1, handed := s.handed ++ [c] }
      else { s with phase := .inAccept }

def Listener.setPeer (s : Listener) (c : Nat) (p : Peer) : Listener :=
  { s with peer := fun d => if d = c then p else s.peer d }

def listenerStep (s : Listener) : ListenerEvent → Listener
  | .connect c => { s with backlog := s.backlog ++ [c] }
  | .send c => s.setPeer c { s.peer c with need := (s.peer c).need - 1 }
  | .close c => s.setPeer c { s.peer c with closed := true }
  | .sessionBegin => { s with active := s.active + 1 }
  | .sessionEnd => { s with active := s.active - 1 }
  | .shutdown => { s with stop := true }
  | .acceptError eintr =>
    if s.phase = .inAccept ∧ ¬ eintr then { s with phase := .exited } else s
  | .thread spawned => threadStep s spawned

def Listener.start (maxClients : Int) (peer : Nat → Peer) : Listener where
  maxClients := maxClients
  stop := false
  active := 0
  backlog := []
  phase := .inAccept
  peer := peer
  handed := []

/-- The connections that were not served yet, the one in its handshake in front. -/
def Listener.queue (s : Listener) : List Nat :=
  match s.phase with
  | .inHandshake c => c :: s.backlog
  | _ => s.backlog

theorem queue_inAccept {s : Listener} (h : s.phase = .inAccept) : s.queue = s.backlog := by
  rw [Listener.queue, h]

theorem queue_inHandshake {s : Listener} {c : Nat} (h : s.phase = .inHandshake c) :
    s.queue = c :: s.backlog := by
  rw [Listener.queue, h]

/-! ## Schedules -/

/-- Nothing but the peers goes wrong: the agent is not shut down, and `accept`, `calloc` and
`pthread_create` do not fail. -/
def Healthy : ListenerEvent → Prop
  | .shutdown | .acceptError false | .thread false => False
  | _ => True

def IsThread (e : ListenerEvent) : Prop := e = .thread true

def Peer.Done (p : Peer) : Prop := p.need = 0 ∨ p.closed = true

/-- The listener waits for the peer, and the peer neither goes on to the end of its handshake nor closes. -/
def Stalls (r : Nat → Listener) (p : Nat) : Prop :=
  ∃ n, (r n).phase = .inHandshake p ∧ ∀ m, n ≤ m → ¬ ((r m).peer p).Done

/-- A client that does its part: it goes through a handshake the listener has begun, and it does not close
before that. -/
structure GoesThrough (r : Nat → Listener) (c : Nat) : Prop where
  answers : ∀ n, (r n).phase = .inHandshake c → ∃ m, n ≤ m ∧ ((r m).peer c).need = 0
  stays : ∀ n, ((r n).peer c).closed = true → ((r n).peer c).need = 0

section Steps

variable {s : Listener} {e : ListenerEvent}

theorem queue_append {s s' : Listener} {post : List Nat} (hphase : s'.phase = s.phase)
    (hback : s'.backlog = s.backlog ++ post) : s'.queue = s.queue ++ post := by
  unfold Listener.queue
  rw [hphase, hback]
  cases s.phase <;> rfl

/-- What is no step of the accepting thread leaves it where it is, and only appends connections. -/
theorem step_quiet (he : Healthy e) (hquiet : ¬ IsThread e) :
    (listenerStep s e).phase = s.phase ∧ (listenerStep s e).handed = s.handed ∧
      (listenerStep s e).stop = s.stop ∧
      ∃ post, (listenerStep s e).backlog = s.backlog ++ post ∧ ∀ c ∈ post, e = .connect c := by
  have hsame : ∃ post, s.backlog = s.backlog ++ post ∧ ∀ c ∈ post, e = .connect c :=
    ⟨[], (append_nil _).symm, fun _ h => nomatch h⟩
  cases e with
  | connect c => exact ⟨rfl, rfl, rfl, [c], rfl, fun d hd => by rw [mem_singleton.mp hd]⟩
  | shutdown => exact he.elim
  | acceptError eintr =>
    cases eintr with
    | false => exact he.elim
    | true =>
      rw [listenerStep, if_neg (by simp)]
      exact ⟨rfl, rfl, rfl, hsame⟩
  | thread spawned =>
    cases spawned with
    | false => exact he.elim
    | true => exact absurd rfl hquiet
  | send c | close c | sessionBegin | sessionEnd => exact ⟨rfl, rfl, rfl, hsame⟩

/-- A peer only goes on. -/
theorem peer_mono (p : Nat) :
    ((listenerStep s e).peer p).need ≤ (s.peer p).need ∧
      ((s.peer p).closed = true → ((listenerStep s e).peer p).closed = true) ∧
      ((listenerStep s e).peer p).authorized = (s.peer p).authorized := by
  have hsame : (s.peer p).need ≤ (s.peer p).need ∧ ((s.peer p).closed = true → (s.peer p).closed = true) ∧
      (s.peer p).authorized = (s.peer p).authorized := ⟨Nat.le_refl _, id, rfl⟩
  cases e with
  | send c | close c =>
    by_cases hpc : p = c
    · subst hpc
      simp [listenerStep, Listener.setPeer]
    · simp [listenerStep, Listener.setPeer, hpc]
  | acceptError eintr =>
    simp only [listenerStep]
    split <;> exact hsame
  | thread spawned =>
    simp only [listenerStep, threadStep]
    repeat' split
    all_goals exact hsame
  | connect c | sessionBegin | sessionEnd | shutdown => exact hsame

/-- What a step of the thread can do while it runs. -/
inductive ThreadStep (s : Listener) : Listener → Prop where
  | idle (hphase : s.phase = .inAccept) (hback : s.backlog = []) : ThreadStep s s
  | waits {c : Nat} (hphase : s.phase = .inHandshake c) (hdone : ¬ (s.peer c).Done) : ThreadStep s s
  | drops {c : Nat} {rest : List Nat} (hphase : s.phase = .inAccept) (hback : s.backlog = c :: rest)
      (hfull : s.maxClients ≤ s.active) : ThreadStep s { s with backlog := rest }
  | takes {c : Nat} {rest : List Nat} (hphase : s.phase = .inAccept) (hback : s.backlog = c :: rest)
      (hroom : s.active < s.maxClients) : ThreadStep s { s with backlog := rest, phase := .inHandshake c }
  | leaves {c : Nat} (hphase : s.phase = .inHandshake c) (hdone : (s.peer c).Done)
      (hnot : ¬ ((s.peer c).need = 0 ∧ (s.peer c).authorized = true)) :
      ThreadStep s { s with phase := .inAccept }
  | hands {c : Nat} (hphase : s.phase = .inHandshake c) (hneed : (s.peer c).need = 0)
      (hauth : (s.peer c).authorized = true) :
      ThreadStep s { s with phase := .inAccept, active := s.active + 1, handed := s.handed ++ [c] }

theorem threadStep_spec (hstop : s.stop = false) (hrun : s.phase ≠ .exited) :
    ThreadStep s (threadStep s true) := by
  unfold threadStep
  split
  · next hphase => exact absurd hphase hrun
  · next hphase =>
    rw [if_neg (by simp [hstop])]
    split
    · next hback => exact .idle hphase hback
    · next c rest hback =>
      split
      · next hfull => exact .drops hphase hback hfull
      · next hroom => exact .takes hphase hback (Int.not_le.mp hroom)
  · next c hphase =>
    unfold Peer.sslAccept
    by_cases hneed : (s.peer c).need = 0
    · rw [if_pos hneed]
      dsimp only
      split
      · next hauth => exact .hands hphase hneed (by simpa using hauth)
      · next hauth => exact .leaves hphase (.inl hneed) fun h => hauth (by simpa using h.2)
    · rw [if_neg hneed]
      by_cases hclosed : (s.peer c).closed = true
      · rw [if_pos hclosed]
        exact .leaves hphase (.inr hclosed) fun h => hneed h.1
      · rw [if_neg hclosed]
        exact .waits hphase fun h => h.elim hneed hclosed

/-- How a step of the thread changes the queue and who is handed over: nothing, the front is gone, or the
front is handed over. -/
theorem ThreadStep.queue_cases {s' : Listener} (h : ThreadStep s s') :
    s'.queue = s.queue ∧ s'.handed = s.handed ∨
    ∃ c rest, s.queue = c :: rest ∧ s'.queue = rest ∧ s'.phase = .inAccept ∧
      (s'.handed = s.handed ∨ s'.handed = s.handed ++ [c]) ∧
      ((s.peer c).Done ∨ s.phase = .inAccept ∧ s.maxClients ≤ s.active) := by
  cases h with
  | idle _ _ | waits _ _ => exact .inl ⟨rfl, rfl⟩
  | drops hphase hback hfull =>
    exact .inr ⟨_, _, (queue_inAccept hphase).trans hback, queue_inAccept hphase, hphase, .inl rfl,
      .inr ⟨hphase, hfull⟩⟩
  | takes hphase hback hroom =>
    exact .inl ⟨(queue_inHandshake rfl).trans ((queue_inAccept hphase).trans hback).symm, rfl⟩
  | leaves hphase hdone _ =>
    exact .inr ⟨_, _, queue_inHandshake hphase, rfl, rfl, .inl rfl, .inl hdone⟩
  | hands hphase hneed _ =>
    exact .inr ⟨_, _, queue_inHandshake hphase, rfl, rfl, .inr rfl, .inl (.inl hneed)⟩

theorem done_step {p : Nat} (h : (s.peer p).Done) (e : ListenerEvent) : ((listenerStep s e).peer p).Done := by
  obtain ⟨hneed, hclosed, -⟩ := peer_mono (s := s) (e := e) p
  rcases h with h0 | h0
  · exact .inl (Nat.le_zero.mp (h0 ▸ hneed))
  · exact .inr (hclosed h0)

end Steps

/-! ## Runs -/

def listenerRun (maxClients : Int) (peer : Nat → Peer) (sched : Nat → ListenerEvent) : Nat → Listener :=
  runAt listenerStep (.start maxClients peer) sched

section Runs

/-- The thread goes on running. -/
theorem step_running {s : Listener} {e : ListenerEvent} (he : Healthy e)
    (h : s.stop = false ∧ s.phase ≠ .exited) :
    (listenerStep s e).stop = false ∧ (listenerStep s e).phase ≠ .exited := by
  by_cases hthread : IsThread e
  · rw [hthread, listenerStep]
    generalize hs' : threadStep s true = s'
    cases hs' ▸ threadStep_spec h.1 h.2 with
    | idle _ _ | waits _ _ | drops _ _ _ => exact h
    | takes _ _ _ | leaves _ _ _ | hands _ _ _ => exact ⟨h.1, by simp⟩
  · obtain ⟨hphase, -, hstop, -⟩ := step_quiet (s := s) he hthread
    rw [hphase, hstop]
    exact h

/-- A run in which nothing but the peers goes wrong. -/
structure HealthyRun (sched : Nat → ListenerEvent) (r : Nat → Listener) : Prop where
  start : ∃ maxClients peer, r 0 = .start maxClients peer
  step : ∀ n, r (n + 1) = listenerStep (r n) (sched n)
  healthy : ∀ n, Healthy (sched n)

variable {sched : Nat → ListenerEvent} {r : Nat → Listener} (hr : HealthyRun sched r)
include hr

theorem done_mono {p n m : Nat} (hnm : n ≤ m) (h : ((r n).peer p).Done) : ((r m).peer p).Done := by
  induction hnm with
  | refl => exact h
  | @step m _ ih => exact hr.step m ▸ done_step ih (sched m)

theorem need_mono {p n m : Nat} (hnm : n ≤ m) (h : ((r n).peer p).need = 0) : ((r m).peer p).need = 0 := by
  induction hnm with
  | refl => exact h
  | @step m _ ih => exact hr.step m ▸ Nat.le_zero.mp (ih ▸ (peer_mono (e := sched m) p).1)

theorem authorized_eq (p n : Nat) : ((r n).peer p).authorized = ((r 0).peer p).authorized := by
  induction n with
  | zero => rfl
  | succ n ih => exact hr.step n ▸ (peer_mono (e := sched n) p).2.2.trans ih

theorem running (n : Nat) : (r n).stop = false ∧ (r n).phase ≠ .exited := by
  induction n with
  | zero =>
    obtain ⟨maxClients, peer, hstart⟩ := hr.start
    rw [hstart]
    exact ⟨rfl, by simp [Listener.start]⟩
  | succ n ih => exact hr.step n ▸ step_running (hr.healthy n) ih

theorem run_thread {n : Nat} (hthread : IsThread (sched n)) : ThreadStep (r n) (r (n + 1)) := by
  obtain ⟨hstop, hrun⟩ := running hr n
  rw [hr.step, hthread]
  exact threadStep_spec hstop hrun

theorem run_quiet {n : Nat} (hthread : ¬ IsThread (sched n)) :
    (r (n + 1)).phase = (r n).phase ∧ (r (n + 1)).handed = (r n).handed ∧
      ∃ post, (r (n + 1)).backlog = (r n).backlog ++ post ∧ (r (n + 1)).queue = (r n).queue ++ post ∧
        ∀ c ∈ post, sched n = .connect c := by
  rw [hr.step]
  obtain ⟨hphase, hhanded, -, post, hpost, hnew⟩ := step_quiet (s := r n) (hr.healthy n) hthread
  exact ⟨hphase, hhanded, post, hpost, queue_append hphase hpost, hnew⟩

/-- Whoever is queued or handed over has connected. -/
theorem connected {c n : Nat} (h : c ∈ (r n).queue ∨ c ∈ (r n).handed) : ∃ m < n, sched m = .connect c := by
  induction n with
  | zero =>
    obtain ⟨maxClients, peer, hstart⟩ := hr.start
    simp [hstart, Listener.start, Listener.queue] at h
  | succ n ih =>
    have hold : c ∈ (r n).queue ∨ c ∈ (r n).handed → ∃ m < n + 1, sched m = .connect c := by
      intro h
      obtain ⟨m, hm, hc⟩ := ih h
      exact ⟨m, Nat.lt_succ_of_lt hm, hc⟩
    by_cases hthread : IsThread (sched n)
    · refine hold ?_
      rcases (run_thread hr hthread).queue_cases with ⟨hq, hh⟩ | ⟨d, rest, hq, hq', -, hh, -⟩
      · rwa [hq, hh] at h
      · rw [hq]
        rw [hq'] at h
        rcases h with h | h
        · exact .inl (mem_cons_of_mem _ h)
        · rcases hh with hh | hh
          · exact .inr (hh ▸ h)
          · rw [hh, mem_append, mem_singleton] at h
            exact h.elim .inr fun hcd => .inl (hcd ▸ mem_cons_self)
    · obtain ⟨-, hh, post, -, hq, hnew⟩ := run_quiet hr hthread
      rw [hq, hh, mem_append] at h
      rcases h with (h | h) | h
      · exact hold (.inl h)
      · exact ⟨n, Nat.lt_succ_self n, hnew c h⟩
      · exact hold (.inr h)

section Client

variable {c : Nat}

/-- The client is queued behind `pre`. -/
def Behind (c : Nat) (pre : List Nat) (s : Listener) : Prop := ∃ post, s.queue = pre ++ c :: post

theorem Behind.quiet {pre : List Nat} {n : Nat} (hthread : ¬ IsThread (sched n))
    (h : Behind c pre (r n)) : Behind c pre (r (n + 1)) := by
  obtain ⟨post, hpost⟩ := h
  obtain ⟨-, -, more, -, hmore, -⟩ := run_quiet hr hthread
  exact ⟨post ++ more, by rw [hmore, hpost, append_assoc, cons_append]⟩

/-- The thread stays in a handshake until the peer is done. -/
theorem thread_handshake {p n : Nat} (hthread : IsThread (sched n)) (hphase : (r n).phase = .inHandshake p) :
    r (n + 1) = r n ∧ ¬ ((r n).peer p).Done ∨
    ((r n).peer p).Done ∧ (r (n + 1)).phase = .inAccept ∧ (r (n + 1)).backlog = (r n).backlog ∧
      (((r n).peer p).need = 0 → ((r n).peer p).authorized = true → p ∈ (r (n + 1)).handed) := by
  have hstep := run_thread hr hthread
  generalize r (n + 1) = s' at hstep
  have hpeer : ∀ {q}, (r n).phase = .inHandshake q → q = p := fun hq =>
    AcceptPhase.inHandshake.inj (hq.symm.trans hphase)
  cases hstep with
  | idle hp _ | drops hp _ _ | takes hp _ _ => exact nomatch hp.symm.trans hphase
  | waits hq hdone => exact .inl ⟨rfl, hpeer hq ▸ hdone⟩
  | leaves hq hdone hnot =>
    obtain rfl := hpeer hq
    exact .inr ⟨hdone, rfl, rfl, fun hneed hauth => absurd ⟨hneed, hauth⟩ hnot⟩
  | hands hq hneed _ =>
    obtain rfl := hpeer hq
    exact .inr ⟨.inl hneed, rfl, rfl, fun _ _ => mem_append_right _ (mem_singleton_self _)⟩

section Fair

variable (hfair : Recurs sched IsThread)

include hfair

/-- If the peer of a handshake is ever done, there is a step of the thread at which it is. Up to then the
handshake goes on and connections are only appended. -/
theorem handshake_ends {p n m : Nat} (hphase : (r n).phase = .inHandshake p)
    (hnm : n ≤ m) (hdone : ((r m).peer p).Done) :
    ∃ k, n ≤ k ∧ IsThread (sched k) ∧ (r k).phase = .inHandshake p ∧ ((r k).peer p).Done ∧
      ∃ post, (r k).backlog = (r n).backlog ++ post := by
  obtain ⟨l, hml, hl⟩ := hfair m
  obtain ⟨k, hnk, ⟨hthread, hk⟩, hfirst⟩ := exists_first
    (T := fun k => IsThread (sched k) ∧ ((r k).peer p).Done) (Nat.le_trans hnm hml) ⟨hl, done_mono hr hml hdone⟩
  have hstays : ∀ j, n ≤ j → j ≤ k → (r j).phase = .inHandshake p ∧
      ∃ post, (r j).backlog = (r n).backlog ++ post := by
    intro j hnj
    induction hnj with
    | refl => exact fun _ => ⟨hphase, [], (append_nil _).symm⟩
    | @step j hnj ih =>
      intro hjk
      obtain ⟨hphase, post, hpost⟩ := ih (Nat.le_of_succ_le hjk)
      by_cases hthread : IsThread (sched j)
      · rcases thread_handshake hr hthread hphase with ⟨hsame, -⟩ | ⟨hdone, -⟩
        · rw [hsame]
          exact ⟨hphase, post, hpost⟩
        · exact absurd ⟨hthread, hdone⟩ (hfirst j hnj hjk)
      · obtain ⟨hphase', -, more, hmore, -⟩ := run_quiet hr hthread
        exact ⟨hphase'.trans hphase, post ++ more, by rw [hmore, hpost, append_assoc]⟩
  obtain ⟨hphase', hpost⟩ := hstays k hnk (Nat.le_refl k)
  exact ⟨k, hnk, hthread, hphase', hk, hpost⟩

/-- The front of the queue makes room for the next one, if it does not stall. -/
theorem front_leaves {p : Nat} {pre : List Nat} (hp : ¬ Stalls r p) :
    LeadsTo r (fun s => s.phase = .inHandshake p ∧ Behind c (p :: pre) s)
      (fun s => s.phase = .inAccept ∧ Behind c pre s) := by
  rintro n ⟨hphase, post, hpost⟩
  obtain ⟨m, hnm, hdone⟩ : ∃ m, n ≤ m ∧ ((r m).peer p).Done :=
    Classical.byContradiction fun hnone => hp ⟨n, hphase, fun m hnm hdone => hnone ⟨m, hnm, hdone⟩⟩
  obtain ⟨k, hnk, hthread, hphase', hdone', more, hmore⟩ := handshake_ends hr hfair hphase hnm hdone
  rcases thread_handshake hr hthread hphase' with ⟨-, hnot⟩ | ⟨-, hphase'', hback, -⟩
  · exact absurd hdone' hnot
  · rw [queue_inHandshake hphase] at hpost
    refine ⟨k + 1, Nat.le_succ_of_le hnk, hphase'', post ++ more, ?_⟩
    have hrest : (r n).backlog = pre ++ c :: post := (List.cons.inj hpost).2
    rw [queue_inAccept hphase'', hback, hmore, hrest, append_assoc, cons_append]

/-- An authorized client that goes through its handshake is handed over. -/
theorem client_handed (hauth : ((r 0).peer c).authorized = true) (hgoes : GoesThrough r c) :
    LeadsTo r (fun s => s.phase = .inHandshake c) (fun s => c ∈ s.handed) := by
  intro n hphase
  obtain ⟨m, hnm, hneed⟩ := hgoes.answers n hphase
  obtain ⟨k, hnk, hthread, hphase', hdone, -⟩ := handshake_ends hr hfair hphase hnm (.inl hneed)
  rcases thread_handshake hr hthread hphase' with ⟨-, hnot⟩ | ⟨-, -, -, hhanded⟩
  · exact absurd hdone hnot
  · refine ⟨k + 1, Nat.le_succ_of_le hnk, hhanded (hdone.elim id (hgoes.stays k)) ?_⟩
    rw [authorized_eq hr]
    exact hauth

variable (hroom : ∀ n, c ∈ (r n).backlog → (r n).active < (r n).maxClients)

include hroom

/-- In `accept`, the next step of the thread takes the front of the queue. -/
theorem front_taken (pre : List Nat) :
    LeadsTo r (fun s => s.phase = .inAccept ∧ Behind c pre s)
      (fun s => (∃ x, s.phase = .inHandshake x) ∧ Behind c pre s) := by
  have hgo : ∀ n, (r n).phase = .inAccept ∧ Behind c pre (r n) → IsThread (sched n) →
      (∃ x, (r (n + 1)).phase = .inHandshake x) ∧ Behind c pre (r (n + 1)) := by
    rintro n ⟨hphase, post, hpost⟩ hthread
    have hback : (r n).backlog = pre ++ c :: post := (queue_inAccept hphase).symm.trans hpost
    have hlt := hroom n (by rw [hback]; simp)
    have hstep := run_thread hr hthread
    generalize r (n + 1) = s' at hstep
    cases hstep with
    | idle _ hnil => simp [hback] at hnil
    | waits hp _ | leaves hp _ _ | hands hp _ _ => exact nomatch hphase.symm.trans hp
    | drops _ _ hfull => exact absurd hlt (Int.not_lt.mpr hfull)
    | takes _ hback' _ =>
      exact ⟨⟨_, rfl⟩, post, (queue_inHandshake rfl).trans (hback'.symm.trans hback)⟩
  refine leadsTo_of_fair hfair (fun n hn => ?_) hgo
  by_cases hthread : IsThread (sched n)
  · exact .inr (hgo n hn hthread)
  · obtain ⟨hphase', -⟩ := run_quiet hr hthread
    exact .inl ⟨hphase'.trans hn.1, hn.2.quiet hr hthread⟩

/-- The thread comes to the handshake with the front of the queue. -/
theorem front_served (pre : List Nat) :
    LeadsTo r (Behind c pre)
      (fun s => s.phase = .inHandshake (pre.headD c) ∧ Behind c pre s) := by
  intro n hpos
  have hfront : ∀ {x m}, (r m).phase = .inHandshake x → Behind c pre (r m) → x = pre.headD c := by
    rintro x m hphase ⟨post, hpost⟩
    rw [queue_inHandshake hphase] at hpost
    cases pre with
    | nil => exact (List.cons.inj hpost).1
    | cons p pre => exact (List.cons.inj hpost).1
  cases hphase : (r n).phase with
  | exited => exact absurd hphase (running hr n).2
  | inHandshake x => exact ⟨n, Nat.le_refl n, hfront hphase hpos ▸ hphase, hpos⟩
  | inAccept =>
    obtain ⟨m, hnm, ⟨x, hx⟩, hpos'⟩ := front_taken hr hfair hroom pre n ⟨hphase, hpos⟩
    exact ⟨m, hnm, hfront hx hpos' ▸ hx, hpos'⟩

/-- A client behind peers that do not stall comes to its turn. -/
theorem waiting_handed (hauth : ((r 0).peer c).authorized = true) (hgoes : GoesThrough r c) {pre : List Nat}
    (hpre : ∀ p ∈ pre, ¬ Stalls r p) :
    LeadsTo r (Behind c pre) (fun s => c ∈ s.handed) := by
  induction pre with
  | nil =>
    intro n hpos
    obtain ⟨m, hnm, hphase, -⟩ := front_served hr hfair hroom [] n hpos
    obtain ⟨k, hmk, hk⟩ := client_handed hr hfair hauth hgoes m hphase
    exact ⟨k, Nat.le_trans hnm hmk, hk⟩
  | cons p pre ih =>
    have hserved := (front_served hr hfair hroom (p :: pre)).trans
      (front_leaves hr hfair (hpre p mem_cons_self))
    intro n hpos
    obtain ⟨m, hnm, -, hpos'⟩ := hserved n hpos
    obtain ⟨k, hmk, hk⟩ := ih (fun q hq => hpre q (mem_cons_of_mem _ hq)) m hpos'
    exact ⟨k, Nat.le_trans hnm hmk, hk⟩

end Fair

/-- Behind a peer that is never done, the client stays in the queue. -/
theorem never_handed {p n₀ : Nat}
    (hroom : ∀ n, c ∈ (r n).backlog → (r n).active < (r n).maxClients) (hstuck : ∀ n, ¬ ((r n).peer p).Done)
    (hstart : c ∉ (r n₀).handed ∧ ∃ pre mid, c ∉ pre ∧ Behind c (pre ++ p :: mid) (r n₀)) {n : Nat}
    (hn : n₀ ≤ n) : c ∉ (r n).handed ∧ ∃ pre mid, c ∉ pre ∧ Behind c (pre ++ p :: mid) (r n) := by
  induction hn with
  | refl => exact hstart
  | @step n _ ih =>
    obtain ⟨hnot, pre, mid, hpre, hpos⟩ := ih
    by_cases hthread : IsThread (sched n)
    · obtain ⟨post, hpost⟩ := hpos
      rcases (run_thread hr hthread).queue_cases with ⟨hq, hh⟩ | ⟨d, rest, hq, hq', -, hh, hwhy⟩
      · exact ⟨hh ▸ hnot, pre, mid, hpre, post, hq.trans hpost⟩
      · rw [hq] at hpost
        cases pre with
        | nil =>
          -- The front is the peer that is never done, and the listener is not full.
          obtain ⟨rfl, -⟩ := List.cons.inj hpost
          rcases hwhy with hdone | ⟨hphase, hfull⟩
          · exact absurd hdone (hstuck n)
          · refine absurd (hroom n ?_) (Int.not_lt.mpr hfull)
            rw [← queue_inAccept hphase, hq, hpost]
            simp
        | cons x pre =>
          obtain ⟨rfl, hrest⟩ := List.cons.inj hpost
          obtain ⟨hcd, hpre⟩ := ne_and_not_mem_of_not_mem_cons hpre
          refine ⟨?_, pre, mid, hpre, post, hq'.trans hrest⟩
          rcases hh with hh | hh
          · rwa [hh]
          · rw [hh, mem_append, mem_singleton]
            exact fun h => h.elim hnot hcd
    · obtain ⟨-, hh, -⟩ := run_quiet hr hthread
      exact ⟨hh ▸ hnot, pre, mid, hpre, hpos.quiet hr hthread⟩

end Client

end Runs

/-- An authorized client that connects once, does its part and finds room is handed to a session thread
exactly if no peer that was queued before it stalls in its handshake. -/
theorem handed_iff_none_stalls (maxClients : Int) (peer : Nat → Peer) (sched : Nat → ListenerEvent)
    (hhealthy : ∀ n, Healthy (sched n)) (hfair : Recurs sched IsThread) (c n₀ : Nat)
    (hconnect : ∀ n, sched n = .connect c ↔ n = n₀) (hauth : (peer c).authorized = true)
    (hgoes : GoesThrough (listenerRun maxClients peer sched) c)
    (hroom : ∀ n, c ∈ (listenerRun maxClients peer sched n).backlog →
      (listenerRun maxClients peer sched n).active < (listenerRun maxClients peer sched n).maxClients) :
    (∃ n, c ∈ (listenerRun maxClients peer sched n).handed) ↔
      ∀ p ∈ (listenerRun maxClients peer sched n₀).queue, ¬ Stalls (listenerRun maxClients peer sched) p := by
  have hr : HealthyRun sched (listenerRun maxClients peer sched) := ⟨⟨_, _, rfl⟩, fun _ => rfl, hhealthy⟩
  have hauth : ((listenerRun maxClients peer sched 0).peer c).authorized = true := hauth
  generalize listenerRun maxClients peer sched = r at *
  have hnew : ∀ {n}, n ≤ n₀ → c ∉ (r n).queue ∧ c ∉ (r n).handed := by
    intro n hn
    have hlate : ¬ ∃ m < n, sched m = .connect c := fun ⟨m, hm, hc⟩ => by
      have := (hconnect m).mp hc
      omega
    exact ⟨fun h => hlate (connected hr (.inl h)), fun h => hlate (connected hr (.inr h))⟩
  have hqueue : (r (n₀ + 1)).queue = (r n₀).queue ++ [c] := by
    rw [hr.step, (hconnect n₀).mpr rfl]
    exact queue_append rfl rfl
  constructor
  · rintro ⟨n, hn⟩ p hp ⟨n₁, -, hstall⟩
    have hstuck : ∀ n, ¬ ((r n).peer p).Done := fun n hdone =>
      hstall (max n n₁) (Nat.le_max_right _ _) (done_mono hr (Nat.le_max_left _ _) hdone)
    obtain ⟨pre, mid, hmid⟩ := append_of_mem hp
    have hpre : c ∉ pre := fun h => (hnew (Nat.le_refl n₀)).1 (hmid ▸ mem_append_left _ h)
    have hhanded : (r (n₀ + 1)).handed = (r n₀).handed := by
      rw [hr.step, (hconnect n₀).mpr rfl]
      rfl
    have hlate : n₀ + 1 ≤ n := Nat.lt_of_not_le fun hle => (hnew hle).2 hn
    refine (never_handed hr hroom hstuck ⟨?_, pre, mid, hpre, [], ?_⟩ hlate).1 hn
    · rw [hhanded]
      exact (hnew (Nat.le_refl n₀)).2
    · rw [hqueue, hmid]
  · intro hnone
    obtain ⟨m, -, hm⟩ := waiting_handed hr hfair hroom hauth hgoes hnone (n₀ + 1) ⟨[], by rw [hqueue]⟩
    exact ⟨m, hm⟩

/-- A stranger (0) with one message to send, and an authorized client (1) that has sent everything. -/
def twoPeers (c : Nat) : Peer := if c = 0 then ⟨1, false, false⟩ else ⟨0, false, true⟩

/-- Both connect, the stranger goes on once it is served, and the thread runs. -/
def servedSched : Nat → ListenerEvent
  | 0 => .connect 0
  | 1 => .connect 1
  | 3 => .send 0
  | _ => .thread true

def stalledSched : Nat → ListenerEvent
  | 0 => .connect 0
  | 1 => .connect 1
  | _ => .thread true

/-- Where a step of the thread changes nothing, and only the thread takes steps, the listener stays. -/
theorem listenerRun_rest {sched : Nat → ListenerEvent} {k : Nat} (hsched : ∀ n, sched (n + k) = .thread true)
    (hfix : threadStep (listenerRun 64 twoPeers sched k) true = listenerRun 64 twoPeers sched k) (n : Nat) :
    listenerRun 64 twoPeers sched (n + k) = listenerRun 64 twoPeers sched k := by
  induction n with
  | zero => rw [Nat.zero_add]
  | succ n ih =>
    rw [Nat.succ_add]
    show listenerStep (listenerRun 64 twoPeers sched (n + k)) (sched (n + k)) = _
    rw [ih, hsched]
    exact hfix

theorem servedSched_thread (n : Nat) : servedSched (n + 4) = .thread true := rfl

theorem served_healthy : HealthyRun servedSched (listenerRun 64 twoPeers servedSched) := by
  refine ⟨⟨_, _, rfl⟩, fun _ => rfl, fun n => ?_⟩
  match n with
  | 0 | 1 | 2 | 3 => trivial
  | n + 4 => trivial

theorem stalled_healthy : HealthyRun stalledSched (listenerRun 64 twoPeers stalledSched) := by
  refine ⟨⟨_, _, rfl⟩, fun _ => rfl, fun n => ?_⟩
  match n with
  | 0 | 1 => trivial
  | n + 2 => trivial

theorem client_served :
    (∃ n, 1 ∈ (listenerRun 64 twoPeers servedSched n).handed) ∧
      (listenerRun 64 twoPeers servedSched 1).queue = [0] := by
  refine ⟨(handed_iff_none_stalls 64 twoPeers servedSched served_healthy.healthy ?_ 1 1 ?_ rfl ⟨?_, ?_⟩ ?_).mpr ?_,
    rfl⟩
  · exact fun n => ⟨n + 4, Nat.le_add_right n 4, rfl⟩
  · intro n
    match n with
    | 0 | 1 | 2 | 3 => simp [servedSched]
    | n + 4 => simp [servedSched_thread]
  · exact fun n _ => ⟨n, Nat.le_refl n, need_mono served_healthy (Nat.zero_le n) rfl⟩
  · exact fun n _ => need_mono served_healthy (Nat.zero_le n) rfl
  · intro n _
    have hearly : ∀ n < 8, (listenerRun 64 twoPeers servedSched n).active <
        (listenerRun 64 twoPeers servedSched n).maxClients := by decide
    by_cases hn : n < 7
    · exact hearly n (by omega)
    · obtain ⟨k, rfl⟩ := Nat.exists_eq_add_of_le' (Nat.not_lt.mp hn)
      rw [listenerRun_rest (fun _ => rfl) rfl]
      exact hearly 7 (by decide)
  · rintro p hp ⟨n, -, hstall⟩
    obtain rfl : p = 0 := mem_singleton.mp hp
    exact hstall (max n 4) (Nat.le_max_left _ _) (done_mono served_healthy (Nat.le_max_right n 4) (.inl rfl))

/-- A stranger that connects and sends nothing locks the client out, for ever, with no session active. -/
theorem stalled_peer_locks_out :
    (∀ n, Healthy (stalledSched n)) ∧ Recurs stalledSched IsThread ∧ stalledSched 1 = .connect 1 ∧
      (twoPeers 1).authorized = true ∧ GoesThrough (listenerRun 64 twoPeers stalledSched) 1 ∧
      ∀ n, (listenerRun 64 twoPeers stalledSched n).active = 0 ∧
        1 ∉ (listenerRun 64 twoPeers stalledSched n).handed := by
  refine ⟨stalled_healthy.healthy, fun n => ⟨n + 2, Nat.le_add_right n 2, rfl⟩, rfl, rfl, ⟨?_, ?_⟩, ?_⟩
  · exact fun n _ => ⟨n, Nat.le_refl n, need_mono stalled_healthy (Nat.zero_le n) rfl⟩
  · exact fun n _ => need_mono stalled_healthy (Nat.zero_le n) rfl
  · intro n
    have hearly : ∀ n < 4, (listenerRun 64 twoPeers stalledSched n).active = 0 ∧
        1 ∉ (listenerRun 64 twoPeers stalledSched n).handed := by decide
    by_cases hn : n < 3
    · exact hearly n (by omega)
    · obtain ⟨k, rfl⟩ := Nat.exists_eq_add_of_le' (Nat.not_lt.mp hn)
      rw [listenerRun_rest (fun _ => rfl) rfl]
      exact hearly 3 (by decide)

end Packetsonde.Agent
