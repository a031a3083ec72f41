import Packetsonde.Lib.Slots
import Packetsonde.Probe.TcpProbe

/-!
# Packetsonde — the slots of the TCP scanner

`SlotStep` says once what an event can do to a slot: leave it alone, leave it idle, start a job in it
or complete the one that waits there. From it, a waiting slot holds the record of the last job that was
accepted into it (`accepted_of_waiting`), and `open` and `closed` come from a reply that was matched to that job by
its source port.

The match does not look at the responder: `parse_tcp_response_v4` writes its address to `src_addr`,
which nobody reads. So a result belongs to the endpoint it names as long as only that endpoint replies
to the port of the slot (`FromTarget`), and a reply that comes late, to the next job of the slot, is
taken for that job's (`late_reply_opens_next_job`).
-/

namespace Packetsonde.Probe

open Packetsonde.Lib

/-- The slot and the record of a job that `probe_on_job` accepts and sends a SYN for. -/
def TcpProbe.accepts (st : TcpProbe) : ProbeEvent → Option (Fin tcpProbeMaxJobs × ProbeJob)
  | .job job resolved sendRc now =>
    if handles job ∧ (st.onJob job resolved sendRc now).2 = 0 then
      st.findFreeJob.bind fun i => resolved.map fun dest => (i, waitingJob i job dest now)
    else none
  | _ => none

/-- The slot an event completes, with the verdict and what a banner connection would read. -/
def TcpProbe.completes (st : TcpProbe) (i : Fin tcpProbeMaxJobs) :
    ProbeEvent → Option (Verdict × Option Bytes)
  | .job .. => none
  | .response pkt socketId recv =>
    match st.matched pkt socketId with
    | none => none
    | some (j, verdict) => if j = i then some (verdict, recv) else none
  | .tick now => if timedOut (st.jobs.get i) now then some (.filtered, none) else none

/-- What an event can do to a slot: the record before and after it, and the messages. -/
inductive SlotStep (st : TcpProbe) (e : ProbeEvent) (i : Fin tcpProbeMaxJobs) :
    ProbeJob → List Report → Prop where
  | kept (hidle : st.completes i e = none) : SlotStep st e i (st.jobs.get i) []
  | unsent {job : ProbeJob} (hfree : (st.jobs.get i).state = .idle) (hjob : job.state = .idle) :
      SlotStep st e i job []
  | started {job : ProbeJob} (haccepts : st.accepts e = some (i, job))
      (hfree : (st.jobs.get i).state = .idle) : SlotStep st e i job []
  | completed {verdict : Verdict} {recv : Option Bytes}
      (hcompletes : st.completes i e = some (verdict, recv)) :
      SlotStep st e i (completeJob recv (st.jobs.get i) verdict).1
        (completeJob recv (st.jobs.get i) verdict).2.toList

section

variable {st : TcpProbe} {i : Fin tcpProbeMaxJobs}

theorem state_of_findFreeJob (h : st.findFreeJob = some i) : (st.jobs.get i).state = .idle := by
  unfold TcpProbe.findFreeJob at h
  simpa using List.find?_some h

theorem waiting_of_findJobBySrcPort {port : UInt16} (h : st.findJobBySrcPort port = some i) :
    (st.jobs.get i).state = .waiting ∧ tcpProbeSrcPort (st.jobs.get i).slotIndex = port := by
  unfold TcpProbe.findJobBySrcPort at h
  simpa using List.find?_some h

theorem waiting_of_slotOf {port : UInt16} (h : st.slotOf port = some i) :
    (st.jobs.get i).state = .waiting ∧ tcpProbeSrcPort (st.jobs.get i).slotIndex = port := by
  unfold TcpProbe.slotOf at h
  split at h
  · cases h
  split at h
  · cases h
  exact waiting_of_findJobBySrcPort h

/-- What a job can come to: nothing changes, its SYN is not sent, or it waits in a free slot. -/
theorem onJob_cases (st : TcpProbe) (job : PsJob) (resolved : Option Ipv4) (sendRc : Int32)
    (now : UInt64) :
    (st.onJob job resolved sendRc now).1 = st ∨
      (∃ j slot, st.findFreeJob = some j ∧ slot.state = .idle ∧
        (st.onJob job resolved sendRc now).1 = { st with jobs := st.jobs.set j slot j.isLt }) ∨
      (∃ j slot, st.findFreeJob = some j ∧ st.accepts (.job job resolved sendRc now) = some (j, slot) ∧
        (st.onJob job resolved sendRc now).1 = { st with jobs := st.jobs.set j slot j.isLt }) := by
  by_cases hhandles : TcpProbe.handles job = true
  case neg =>
    left
    unfold TcpProbe.onJob
    rw [if_pos hhandles]
  by_cases hsock : st.tcpSock4 < 0
  · left
    unfold TcpProbe.onJob
    rw [if_neg (not_not.mpr hhandles), if_pos hsock]
  cases hfree : st.findFreeJob with
  | none =>
    left
    unfold TcpProbe.onJob
    rw [if_neg (not_not.mpr hhandles), if_neg hsock, hfree]
  | some j =>
    cases resolved with
    | none =>
      left
      unfold TcpProbe.onJob
      rw [if_neg (not_not.mpr hhandles), if_neg hsock, hfree]
    | some dest =>
      right
      have hresult : st.onJob job (some dest) sendRc now =
          if sendRc < 0 then
            ({ st with
                jobs := st.jobs.set j
                  { TcpProbe.waitingJob j job dest now with state := .idle, sentUsec := 0 } }, -1)
          else ({ st with jobs := st.jobs.set j (TcpProbe.waitingJob j job dest now) }, 0) := by
        unfold TcpProbe.onJob
        rw [if_neg (not_not.mpr hhandles), if_neg hsock, hfree]
      by_cases hsend : sendRc < 0
      · left
        rw [if_pos hsend] at hresult
        exact ⟨j, _, rfl, rfl, by rw [hresult]⟩
      · right
        rw [if_neg hsend] at hresult
        refine ⟨j, TcpProbe.waitingJob j job dest now, rfl, ?_, by rw [hresult]⟩
        unfold TcpProbe.accepts
        dsimp only
        rw [if_pos ⟨hhandles, by rw [hresult]⟩, hfree]
        rfl

theorem step_job_slot (job : PsJob) (resolved : Option Ipv4) (sendRc : Int32) (now : UInt64) :
    SlotStep st (.job job resolved sendRc now) i
      ((st.onJob job resolved sendRc now).1.jobs.get i) [] := by
  have hkept : SlotStep st (.job job resolved sendRc now) i (st.jobs.get i) [] := .kept rfl
  -- the slot that is filled in, or another one
  have hset : ∀ {j : Fin tcpProbeMaxJobs} {slot : ProbeJob},
      (j = i → SlotStep st (.job job resolved sendRc now) i slot []) →
      SlotStep st (.job job resolved sendRc now) i ((st.jobs.set j slot j.isLt).get i) [] := by
    intro j slot hsame
    rw [get_set_slot]
    by_cases hj : j = i
    · rw [if_pos hj]
      exact hsame hj
    · rw [if_neg hj]
      exact hkept
  rcases onJob_cases st job resolved sendRc now with
    hsame | ⟨j, slot, hfree, hslot, hst⟩ | ⟨j, slot, hfree, haccepts, hst⟩
  · rw [hsame]
    exact hkept
  · rw [hst]
    apply hset
    rintro rfl
    exact .unsent (state_of_findFreeJob hfree) hslot
  · rw [hst]
    apply hset
    rintro rfl
    exact .started haccepts (state_of_findFreeJob hfree)

theorem step_slot (st : TcpProbe) (e : ProbeEvent) (i : Fin tcpProbeMaxJobs) :
    SlotStep st e i ((st.step e).1.jobs.get i) (ofSlot i (st.step e).2) := by
  cases e with
  | job job resolved sendRc now => exact step_job_slot job resolved sendRc now
  | response pkt socketId recv =>
    show SlotStep st _ i ((st.onResponse pkt socketId recv).1.jobs.get i)
      (ofSlot i (st.onResponse pkt socketId recv).2)
    unfold TcpProbe.onResponse
    cases hmatched : st.matched pkt socketId with
    | none => exact .kept (by simp [TcpProbe.completes, hmatched])
    | some m =>
      obtain ⟨j, verdict⟩ := m
      dsimp only
      rw [ofSlot_tagged]
      by_cases hj : j = i
      · subst hj
        have hcompletes : st.completes j (.response pkt socketId recv) = some (verdict, recv) := by
          simp [TcpProbe.completes, hmatched]
        rw [if_pos rfl, get_set_slot, if_pos rfl]
        exact .completed hcompletes
      · rw [if_neg hj, get_set_slot, if_neg hj]
        exact .kept (by simp [TcpProbe.completes, hmatched, hj])
  | tick now =>
    show SlotStep st _ i ((st.tick now).1.jobs.get i) (ofSlot i (st.tick now).2)
    unfold TcpProbe.tick
    dsimp only
    rw [ofSlot_flatMap _ (List.nodup_finRange _) (List.mem_finRange i)]
    have hslot : (st.jobs.map fun job => (TcpProbe.tickJob now job).1).get i =
        (TcpProbe.tickJob now (st.jobs.get i)).1 := get_map_slot _ _ i
    have hstep : SlotStep st (.tick now) i (TcpProbe.tickJob now (st.jobs.get i)).1
        (TcpProbe.tickJob now (st.jobs.get i)).2.toList := by
      unfold TcpProbe.tickJob
      by_cases hout : TcpProbe.timedOut (st.jobs.get i) now = true
      · rw [if_pos hout]
        exact .completed (if_pos hout)
      · rw [if_neg hout]
        exact .kept (if_neg hout)
    rw [← hslot] at hstep
    exact hstep

theorem waiting_of_matched {pkt : Bytes} {socketId : Int32} {verdict : Verdict}
    (h : st.matched pkt socketId = some (i, verdict)) : (st.jobs.get i).state = .waiting := by
  unfold TcpProbe.matched at h
  split at h
  · split at h
    · cases h
    · obtain ⟨j, hslot, heq⟩ := Option.map_eq_some_iff.mp h
      cases heq
      exact (waiting_of_slotOf hslot).1
  split at h
  · split at h
    · cases h
    · obtain ⟨j, hslot, heq⟩ := Option.map_eq_some_iff.mp h
      cases heq
      exact (waiting_of_slotOf hslot).1
  · cases h

/-- Only a waiting job is completed. -/
theorem waiting_of_completes {e : ProbeEvent} {c : Verdict × Option Bytes}
    (h : st.completes i e = some c) : (st.jobs.get i).state = .waiting := by
  cases e with
  | job job resolved sendRc now => cases h
  | response pkt socketId recv =>
    unfold TcpProbe.completes at h
    dsimp only at h
    cases hmatched : st.matched pkt socketId with
    | none =>
      rw [hmatched] at h
      cases h
    | some m =>
      obtain ⟨j, verdict⟩ := m
      rw [hmatched] at h
      dsimp only at h
      split at h
      · rename_i hj
        subst hj
        exact waiting_of_matched hmatched
      · cases h
  | tick now =>
    unfold TcpProbe.completes at h
    dsimp only at h
    split at h
    · rename_i hout
      unfold TcpProbe.timedOut at hout
      exact (of_decide_eq_true hout).1
    · cases h

end

/-! ## The job of a waiting slot -/

/-- In the run of `events` the slot was given to a job with the record `job`. -/
def AcceptedIn (start : TcpProbe) (events : List ProbeEvent) (i : Fin tcpProbeMaxJobs)
    (job : ProbeJob) (after : List ProbeEvent) : Prop :=
  ∃ before e, events = before ++ e :: after ∧ (start.run before).accepts e = some (i, job)

variable {e : ProbeEvent} {job : ProbeJob}

theorem accepts_eq {st : TcpProbe} {i : Fin tcpProbeMaxJobs} (h : st.accepts e = some (i, job)) :
    ∃ j resolved sendRc now dest, e = .job j resolved sendRc now ∧ resolved = some dest ∧
      job = TcpProbe.waitingJob i j dest now := by
  cases e with
  | response pkt socketId recv => cases h
  | tick now => cases h
  | job j resolved sendRc now =>
    unfold TcpProbe.accepts at h
    dsimp only at h
    split at h
    · obtain ⟨i', -, hdest⟩ := Option.bind_eq_some_iff.mp h
      obtain ⟨dest, hresolved, heq⟩ := Option.map_eq_some_iff.mp hdest
      cases heq
      exact ⟨j, resolved, sendRc, now, dest, rfl, hresolved, rfl⟩
    · cases h

theorem accepts_unpublished {st : TcpProbe} {i : Fin tcpProbeMaxJobs} (h : st.accepts e = some (i, job)) :
    job.resultPublished = false := by
  obtain ⟨j, resolved, sendRc, now, dest, -, -, rfl⟩ := accepts_eq h
  rfl

theorem completeJob_slot {recv : Option Bytes} {verdict : Verdict}
    (h : job.resultPublished = false) : (completeJob recv job verdict).1 = {} := by
  unfold completeJob
  rw [h, if_neg Bool.false_ne_true]

theorem TcpProbe.run_append (st : TcpProbe) (events : List ProbeEvent) (e : ProbeEvent) :
    st.run (events ++ [e]) = ((st.run events).step e).1 := by
  unfold TcpProbe.run
  rw [List.foldl_append]
  rfl

/-- A waiting slot holds the record of a job that was accepted into it. -/
theorem accepted_of_waiting {tcpSock4 icmpSock4 : Int32} (events : List ProbeEvent)
    (i : Fin tcpProbeMaxJobs)
    (h : (((TcpProbe.init tcpSock4 icmpSock4).run events).jobs.get i).state = .waiting) :
    ∃ after, AcceptedIn (.init tcpSock4 icmpSock4) events i
      (((TcpProbe.init tcpSock4 icmpSock4).run events).jobs.get i) after := by
  induction events using List.reverseRecOn with
  | nil =>
    have hidle : (((TcpProbe.init tcpSock4 icmpSock4).run []).jobs.get i).state = .idle := by
      simp [TcpProbe.run, TcpProbe.init]
    rw [hidle] at h
    cases h
  | append_singleton events e ih =>
    rw [TcpProbe.run_append] at h ⊢
    have hstep := step_slot ((TcpProbe.init tcpSock4 icmpSock4).run events) e i
    generalize (((TcpProbe.init tcpSock4 icmpSock4).run events).step e).1.jobs.get i = job
      at hstep h ⊢
    generalize ofSlot i _ = reports at hstep
    cases hstep with
    | kept hidle =>
      obtain ⟨after, before, e', rfl, haccepts⟩ := ih h
      exact ⟨after ++ [e], before, e', by simp, haccepts⟩
    | unsent hfree hjob =>
      rw [hjob] at h
      cases h
    | started haccepts hfree => exact ⟨[], events, e, by simp, haccepts⟩
    | completed hcompletes =>
      -- the job that waited is gone
      obtain ⟨after, before, e', -, haccepts⟩ := ih (waiting_of_completes hcompletes)
      rw [completeJob_slot (accepts_unpublished haccepts)] at h
      cases h

/-! ## Where open and closed come from -/

/-- The event is a `SYN`-`ACK` or `RST` of the endpoint the job probes. -/
def IsReplyOf (job : ProbeJob) : ProbeEvent → Prop
  | .response pkt _ _ => IsTcpReply pkt job.destSa job.tcpPort.toInt
  | _ => False

instance (job : ProbeJob) (e : ProbeEvent) : Decidable (IsReplyOf job e) :=
  match e with
  | .response .. => inferInstanceAs (Decidable (IsTcpReply ..))
  | .job .. => isFalse id
  | .tick .. => isFalse id

/-- A reply to the source port of a waiting slot comes from the endpoint its job probes. -/
def FromTarget (st : TcpProbe) : ProbeEvent → Prop
  | .response pkt socketId _ =>
    socketId = st.tcpSock4 → ∀ r, parseTcpResponseV4 pkt = some r →
      ∀ i : Fin tcpProbeMaxJobs, (st.jobs.get i).state = .waiting → r.dstPort = tcpProbeSrcPort i →
        IsTcpReply pkt (st.jobs.get i).destSa (st.jobs.get i).tcpPort.toInt
  | _ => True

section

variable {st : TcpProbe} {i : Fin tcpProbeMaxJobs}

/-- `open` and `closed` are made of a packet on the TCP socket, by its destination port. -/
theorem matched_tcp {pkt : Bytes} {socketId : Int32} {verdict : Verdict}
    (h : st.matched pkt socketId = some (i, verdict)) (hverdict : verdict ≠ .filtered) :
    socketId = st.tcpSock4 ∧ ∃ r, parseTcpResponseV4 pkt = some r ∧
      tcpProbeSrcPort (st.jobs.get i).slotIndex = r.dstPort := by
  unfold TcpProbe.matched at h
  split at h
  · rename_i hsock
    refine ⟨hsock, ?_⟩
    split at h
    · cases h
    · rename_i r hparse
      obtain ⟨j, hslot, heq⟩ := Option.map_eq_some_iff.mp h
      cases heq
      exact ⟨r, hparse, (waiting_of_slotOf hslot).2⟩
  split at h
  · split at h
    · cases h
    · obtain ⟨j, -, heq⟩ := Option.map_eq_some_iff.mp h
      cases heq
      exact absurd rfl hverdict
  · cases h

/-- A message is about the job that waited in the slot, and says what completed it. -/
theorem report_of_step {e : ProbeEvent} {r : Report} (h : (i, r) ∈ (st.step e).2) :
    r.job = st.jobs.get i ∧ ∃ recv, st.completes i e = some (r.verdict, recv) := by
  have hstep := step_slot st e i
  have hmem := mem_ofSlot.mpr h
  generalize (st.step e).1.jobs.get i = job at hstep
  generalize ofSlot i (st.step e).2 = reports at hstep hmem
  cases hstep with
  | kept | unsent | started => cases hmem
  | @completed verdict recv hcompletes =>
    unfold completeJob at hmem
    split at hmem
    · cases hmem
    · obtain ⟨text, -, rfl⟩ := Option.map_eq_some_iff.mp (Option.mem_toList.mp hmem)
      exact ⟨rfl, recv, hcompletes⟩

end

/-- `open` and `closed` are published for a job only after a `SYN`-`ACK` or `RST` of its endpoint
that came after its SYN. -/
def OpenClosedAfterReply (start : TcpProbe) (events : List ProbeEvent) : Prop :=
  ∀ before e after, events = before ++ e :: after →
    ∀ i r, (i, r) ∈ ((start.run before).step e).2 → r.verdict ≠ .filtered →
      ∃ since, AcceptedIn start before i r.job since ∧
        ∃ reply ∈ since ++ [e], IsReplyOf r.job reply

/-- Results belong to the endpoint probed in every run in which only the endpoints probed reply to
the ports of the slots. -/
theorem open_closed_after_reply (tcpSock4 icmpSock4 : Int32) (events : List ProbeEvent)
    (htarget : ∀ before e after, events = before ++ e :: after →
      FromTarget ((TcpProbe.init tcpSock4 icmpSock4).run before) e) :
    OpenClosedAfterReply (.init tcpSock4 icmpSock4) events := by
  intro before e after hsplit i r hmem hverdict
  obtain ⟨hjob, recv, hcompletes⟩ := report_of_step hmem
  have hwaiting := waiting_of_completes hcompletes
  obtain ⟨since, haccepted⟩ := accepted_of_waiting before i hwaiting
  rw [hjob]
  refine ⟨since, haccepted, e, by simp, ?_⟩
  -- the slot is found by the number in its record, which is its own
  have hindex : (((TcpProbe.init tcpSock4 icmpSock4).run before).jobs.get i).slotIndex = i := by
    obtain ⟨before', e', -, haccepts⟩ := haccepted
    obtain ⟨j, resolved, sendRc, now, dest, -, -, heq⟩ := accepts_eq haccepts
    rw [heq]
    rfl
  cases e with
  | job j resolved sendRc now => cases hcompletes
  | tick now =>
    unfold TcpProbe.completes at hcompletes
    dsimp only at hcompletes
    split at hcompletes
    · obtain ⟨hfiltered, -⟩ := Prod.mk.inj (Option.some.inj hcompletes)
      exact absurd hfiltered.symm hverdict
    · cases hcompletes
  | response pkt socketId recv' =>
    have htarget := htarget before _ after hsplit
    have hmatched : ((TcpProbe.init tcpSock4 icmpSock4).run before).matched pkt socketId
        = some (i, r.verdict) := by
      unfold TcpProbe.completes at hcompletes
      dsimp only at hcompletes
      split at hcompletes
      · cases hcompletes
      · rename_i j verdict hmatched
        split at hcompletes
        · rename_i hj
          obtain ⟨hv, -⟩ := Prod.mk.inj (Option.some.inj hcompletes)
          rw [hmatched, hj, hv]
        · cases hcompletes
    obtain ⟨hsock, response, hparse, hport⟩ := matched_tcp hmatched hverdict
    rw [hindex] at hport
    exact htarget hsock response hparse i hwaiting hport.symm

/-- A `SYN`-`ACK` of 10.0.0.`host`, port 22, to the source port of the first slot. -/
def synAckFrom (host : UInt8) : Bytes :=
  [0x45, 0, 0, 40, 0, 0, 0, 0, 64, 6, 0, 0, 10, 0, 0, host, 192, 168, 0, 9]
    ++ [0, 22, 0x50, 0x70, 0, 0, 0, 0, 0x50, 0x53, 0, 2, 0x50, 0x12, 0xff, 0xff, 0, 0, 0, 0]

/-- A job for port 22 of 10.0.0.`host`. -/
def sshJob (host : UInt8) (now : UInt64) : ProbeEvent :=
  .job { jobId := asc "j", destination := asc "target", tcpPort := 22 }
    (some (localHost host)) 40 now

def answeredScan : List ProbeEvent :=
  [sshJob 1 1000000, .response (synAckFrom 1) 3 none]

theorem answered_scan_after_reply :
    ((TcpProbe.init 3 4).reports answeredScan).map (fun p => p.2.verdict) = [.opened] ∧
      OpenClosedAfterReply (.init 3 4) answeredScan := by
  refine ⟨by decide +kernel, open_closed_after_reply 3 4 answeredScan ?_⟩
  intro before e after hsplit
  match before with
  | [] =>
    obtain ⟨rfl, -⟩ := List.cons.inj hsplit
    trivial
  | [j] =>
    obtain ⟨rfl, hrest⟩ := List.cons.inj hsplit
    obtain ⟨rfl, -⟩ := List.cons.inj hrest
    have hslots : ∀ i : Fin tcpProbeMaxJobs,
        (((TcpProbe.init 3 4).run [sshJob 1 1000000]).jobs.get i).state = .waiting →
        IsTcpReply (synAckFrom 1) (((TcpProbe.init 3 4).run [sshJob 1 1000000]).jobs.get i).destSa
          (((TcpProbe.init 3 4).run [sshJob 1 1000000]).jobs.get i).tcpPort.toInt := by
      decide
    intro _ r _ i hwaiting _
    exact hslots i hwaiting
  | _ :: _ :: _ =>
    have hlen := congrArg List.length hsplit
    simp [answeredScan] at hlen

/-- A job that times out, the next one in its slot, and then the reply to the first. -/
def lateReplyScan : List ProbeEvent :=
  [sshJob 1 1000000, .tick 5000000, sshJob 2 6000000, .response (synAckFrom 1) 3 none]

/-- The late reply is published as an open port of the second job's host. -/
theorem late_reply_opens_next_job : ¬ OpenClosedAfterReply (.init 3 4) lateReplyScan := by
  intro h
  have hreport : ∃ p ∈ (((TcpProbe.init 3 4).run (lateReplyScan.take 3)).step
      (.response (synAckFrom 1) 3 none)).2, p.2.verdict ≠ .filtered ∧
        ∀ e ∈ lateReplyScan, ¬ IsReplyOf p.2.job e := by
    decide +kernel
  obtain ⟨⟨i, r⟩, hmem, hverdict, hnone⟩ := hreport
  obtain ⟨since, ⟨before, e, hsince, -⟩, reply, hreply, hisReply⟩ :=
    h (lateReplyScan.take 3) (.response (synAckFrom 1) 3 none) [] rfl i r hmem hverdict
  refine hnone reply ?_ hisReply
  have hscan : lateReplyScan = before ++ e :: (since ++ [.response (synAckFrom 1) 3 none]) := by
    rw [← List.cons_append, ← List.append_assoc, ← hsince]
    rfl
  rw [hscan]
  exact List.mem_append_right _ (List.mem_cons_of_mem _ hreply)

end Packetsonde.Probe
