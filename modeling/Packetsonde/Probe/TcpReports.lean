import Packetsonde.Probe.TcpSlots

/-!
# Packetsonde — one result for each scan job

Behind the SYN of an accepted job the first event that completes it decides what is published: the
slot is emptied there, and nothing later can speak for the job (`reports_of_waiting`). Whether the one
message gets out depends on `buf[512]`: `ps_json_finish` fails if the text does not fit, and
`publish_result` then says nothing while the slot is freed all the same.

Without a banner the text always fits (`length_resultText_lt`). A banner is up to 255 bytes of the
peer's choice, each of which may take six in JSON.
-/

namespace Packetsonde.Probe

open Packetsonde.Lib
open Packetsonde.Central (PsJson sep_true sep_false flatMap_quoteChar_of_plain)
open List

/-! ## The text of a result -/

/-- The text `publish_result` puts together. -/
def resultText (job : ProbeJob) (verdict : Verdict) (banner : Bytes) : Bytes :=
  asc "\x7b\"job_id\":" ++ PsJson.quote (cstr job.jobId)
    ++ asc ",\"address\":" ++ PsJson.quote
      (cstr (if job.destAddrStr ≠ [] then job.destAddrStr else job.destination))
    ++ asc ",\"port\":" ++ decimal job.tcpPort.toInt ++ asc ",\"proto\":\"tcp\",\"state\":"
    ++ PsJson.quote (cstr verdict.text) ++ asc ",\"banner\":" ++ PsJson.quote (cstr banner)
    ++ asc "\x7d"

theorem holds_resultJson (job : ProbeJob) (verdict : Verdict) (banner : Bytes) :
    (resultJson job verdict banner).Holds 512 true (resultText job verdict banner) := by
  have hkeys : PsJson.quote (cstr (asc "job_id")) = asc "\"job_id\"" ∧
      PsJson.quote (cstr (asc "address")) = asc "\"address\"" ∧
      PsJson.quote (cstr (asc "port")) = asc "\"port\"" ∧
      PsJson.quote (cstr (asc "proto")) = asc "\"proto\"" ∧
      PsJson.quote (cstr (asc "tcp")) = asc "\"tcp\"" ∧
      PsJson.quote (cstr (asc "state")) = asc "\"state\"" ∧
      PsJson.quote (cstr (asc "banner")) = asc "\"banner\"" := by
    decide
  obtain ⟨h₁, h₂, h₃, h₄, h₅, h₆, h₇⟩ := hkeys
  have hjson := ((((((((@PsJson.holds_init 512 (by decide)).objectBegin).keyString
    (asc "job_id") job.jobId).keyString (asc "address")
    (if job.destAddrStr ≠ [] then job.destAddrStr else job.destination)).keyInt (asc "port")
    job.tcpPort.toInt).keyString (asc "proto") (asc "tcp")).keyString (asc "state")
    verdict.text).keyString (asc "banner") banner).objectEnd
  rw [h₁, h₂, h₃, h₄, h₅, h₆, h₇] at hjson
  have htexts : asc "\x7b\"job_id\":" = asc "\x7b" ++ (asc "\"job_id\"" ++ asc ":") ∧
      asc ",\"address\":" = asc "," ++ (asc "\"address\"" ++ asc ":") ∧
      asc ",\"port\":" = asc "," ++ (asc "\"port\"" ++ asc ":") ∧
      asc ",\"proto\":\"tcp\",\"state\":" = asc "," ++ (asc "\"proto\"" ++ (asc ":" ++
        (asc "\"tcp\"" ++ (asc "," ++ (asc "\"state\"" ++ asc ":"))))) ∧
      asc ",\"banner\":" = asc "," ++ (asc "\"banner\"" ++ asc ":") := by
    decide
  obtain ⟨t₁, t₂, t₃, t₄, t₅⟩ := htexts
  unfold resultText resultJson
  rw [t₁, t₂, t₃, t₄, t₅]
  simp only [sep_true, sep_false, append_assoc, nil_append] at hjson ⊢
  exact hjson

theorem publishResult_eq (job : ProbeJob) (verdict : Verdict) (banner : Bytes) :
    publishResult job verdict banner =
      if (resultText job verdict banner).length < 512 then some (resultText job verdict banner)
      else none := by
  have hpos : (resultText job verdict banner).length > 0 := by
    have hbrace : 0 < (asc "\x7b\"job_id\":").length := by decide
    unfold resultText
    simp only [length_append]
    omega
  unfold publishResult
  rw [(holds_resultJson job verdict banner).finish]
  split
  · exact Option.filter_some_pos (by simpa using hpos)
  · rfl

theorem length_inetNtop_le (a : Ipv4) : (inetNtop a).length ≤ 15 := by
  have hbyte : ∀ b : UInt8, (natDecimal b.toNat).length ≤ 3 := by
    intro b
    apply length_natDecimal_le
    have := b.toNat_lt
    omega
  have hdot : (asc ".").length = 1 := by decide
  have h₀ := hbyte a[0]
  have h₁ := hbyte a[1]
  have h₂ := hbyte a[2]
  have h₃ := hbyte a[3]
  unfold inetNtop
  simp only [length_append]
  omega

theorem plain_inetNtop (a : Ipv4) : Plain (inetNtop a) := by
  have hdigit : ∀ c : UInt8, isDigit c = true → c ≠ 34 ∧ c ≠ 92 ∧ 0x20 ≤ c :=
    forall_byte (by decide +kernel)
  have hdot : ∀ c ∈ asc ".", c ≠ 34 ∧ c ≠ 92 ∧ 0x20 ≤ c := by
    decide +kernel
  intro c hc
  unfold inetNtop at hc
  simp only [mem_append] at hc
  rcases hc with (((((hc | hc) | hc) | hc) | hc) | hc) | hc
  all_goals first
    | exact hdigit c (isDigit_of_mem_natDecimal hc)
    | exact hdot c hc

theorem length_decimal_le (i : Int32) : (decimal i.toInt).length ≤ 11 := by
  have hlow := i.le_toInt
  have hhigh := i.toInt_lt
  have habs : (natDecimal i.toInt.natAbs).length ≤ 10 := by
    apply length_natDecimal_le
    omega
  unfold decimal
  split
  · rw [length_cons]
    omega
  · omega

/-- Without a banner a result fits. -/
theorem length_resultText_lt (slot : Nat) (j : PsJob) (dest : Ipv4) (now : UInt64)
    (verdict : Verdict) :
    (resultText (TcpProbe.waitingJob slot j dest now) verdict []).length < 512 := by
  have hid : (PsJson.quote (cstr ((cstr j.jobId).take 63))).length ≤ 380 := by
    have hesc := PsJson.length_flatMap_quoteChar_le (cstr ((cstr j.jobId).take 63))
    have hcstr := length_cstr_le ((cstr j.jobId).take 63)
    have htake := length_take_le 63 (cstr j.jobId)
    rw [PsJson.length_quote]
    omega
  have haddr : (PsJson.quote (cstr (inetNtop dest))).length ≤ 17 := by
    have hplain : Plain (cstr (inetNtop dest)) := fun c hc =>
      plain_inetNtop dest c ((takeWhile_sublist _).subset hc)
    have hcstr := length_cstr_le (inetNtop dest)
    have hlen := length_inetNtop_le dest
    rw [PsJson.length_quote, flatMap_quoteChar_of_plain hplain]
    omega
  have haddrStr : (TcpProbe.waitingJob slot j dest now).destAddrStr ≠ [] := by
    intro hnil
    have := congrArg List.length hnil
    have hdot : (asc ".").length = 1 := by decide
    simp only [TcpProbe.waitingJob, inetNtop, length_append, length_nil] at this
    omega
  have hport := length_decimal_le (TcpProbe.waitingJob slot j dest now).tcpPort
  have hverdict : (PsJson.quote (cstr verdict.text)).length ≤ 10 := by
    cases verdict <;> decide
  have hfixed : (asc "\x7b\"job_id\":").length = 10 ∧ (asc ",\"address\":").length = 11 ∧
      (asc ",\"port\":").length = 8 ∧ (asc ",\"proto\":\"tcp\",\"state\":").length = 23 ∧
      (asc ",\"banner\":").length = 10 ∧ (PsJson.quote (cstr [])).length = 2 ∧
      (asc "\x7d").length = 1 := by decide
  obtain ⟨h₁, h₂, h₃, h₄, h₅, h₆, h₇⟩ := hfixed
  unfold resultText
  rw [if_pos haddrStr]
  simp only [length_append, h₁, h₂, h₃, h₄, h₅, h₆, h₇]
  have hid' : (PsJson.quote (cstr (TcpProbe.waitingJob slot j dest now).jobId)).length ≤ 380 := hid
  have haddr' : (PsJson.quote (cstr (TcpProbe.waitingJob slot j dest now).destAddrStr)).length ≤ 17 :=
    haddr
  omega

/-! ## What completes a job -/

/-- The verdict of a response to the source port of a slot. -/
def responseVerdict (tcpSock4 icmpSock4 : Int32) (i : Fin tcpProbeMaxJobs) :
    ProbeEvent → Option (Verdict × Option Bytes)
  | .response pkt socketId recv =>
    if socketId = tcpSock4 then
      match parseTcpResponseV4 pkt with
      | none => none
      | some r =>
        if r.dstPort = tcpProbeSrcPort i then some (if r.isRst then .closed else .opened, recv)
        else none
    else if socketId = icmpSock4 then
      match parseIcmpUnreachV4 pkt with
      | none => none
      | some port => if port = tcpProbeSrcPort i then some (.filtered, recv) else none
    else none
  | _ => none

/-- What an event makes of a job that waits in a slot. -/
def completion (tcpSock4 icmpSock4 : Int32) (i : Fin tcpProbeMaxJobs) (job : ProbeJob) :
    ProbeEvent → Option (Verdict × Option Bytes)
  | .tick now => if TcpProbe.timedOut job now then some (.filtered, none) else none
  | e => responseVerdict tcpSock4 icmpSock4 i e

/-- Waiting slots know their own number and have not been reported. -/
def Indexed (st : TcpProbe) : Prop :=
  ∀ i : Fin tcpProbeMaxJobs, (st.jobs.get i).state = .waiting →
    (st.jobs.get i).slotIndex = i ∧ (st.jobs.get i).resultPublished = false

theorem Indexed.step {st : TcpProbe} (h : Indexed st) (e : ProbeEvent) : Indexed (st.step e).1 := by
  intro i hwaiting
  have hstep := step_slot st e i
  generalize (st.step e).1.jobs.get i = job at hstep hwaiting ⊢
  generalize ofSlot i _ = reports at hstep
  cases hstep with
  | kept hidle => exact h i hwaiting
  | unsent hfree hjob =>
    rw [hjob] at hwaiting
    cases hwaiting
  | started haccepts hfree =>
    refine ⟨?_, accepts_unpublished haccepts⟩
    obtain ⟨j, resolved, sendRc, now, dest, -, -, rfl⟩ := accepts_eq haccepts
    rfl
  | completed hcompletes =>
    rw [completeJob_slot (h i (waiting_of_completes hcompletes)).2] at hwaiting
    cases hwaiting

theorem indexed_run (tcpSock4 icmpSock4 : Int32) (events : List ProbeEvent) :
    Indexed ((TcpProbe.init tcpSock4 icmpSock4).run events) := by
  induction events using List.reverseRecOn with
  | nil =>
    intro i hwaiting
    have hidle : (((TcpProbe.init tcpSock4 icmpSock4).run []).jobs.get i).state = .idle := by
      simp [TcpProbe.run, TcpProbe.init]
    rw [hidle] at hwaiting
    cases hwaiting
  | append_singleton events e ih =>
    rw [TcpProbe.run_append]
    exact ih.step e

theorem tcpProbeSrcPort_injective : ∀ i j : Fin tcpProbeMaxJobs,
    tcpProbeSrcPort i = tcpProbeSrcPort j → i = j := by
  decide

theorem tcpProbeSrcPort_range : ∀ i : Fin tcpProbeMaxJobs, tcpProbeSrcPort i ≠ 0 ∧
    ¬ (tcpProbeSrcPort i < tcpProbeBaseSrcPort ∨
      (tcpProbeSrcPort i).toNat ≥ tcpProbeBaseSrcPort.toNat + 16) := by
  decide

section

variable {st : TcpProbe} {i : Fin tcpProbeMaxJobs}

/-- The slot found for a port is the waiting one with that source port. -/
theorem findJobBySrcPort_eq (hst : Indexed st) (hwaiting : (st.jobs.get i).state = .waiting) :
    st.findJobBySrcPort (tcpProbeSrcPort i) = some i := by
  cases hfind : st.findJobBySrcPort (tcpProbeSrcPort i) with
  | none =>
    unfold TcpProbe.findJobBySrcPort at hfind
    have hnone := find?_eq_none.mp hfind i (mem_finRange i)
    refine absurd ?_ hnone
    rw [decide_eq_true_iff, (hst i hwaiting).1]
    exact ⟨hwaiting, rfl⟩
  | some j =>
    obtain ⟨hj, hport⟩ := waiting_of_findJobBySrcPort hfind
    rw [(hst j hj).1] at hport
    rw [tcpProbeSrcPort_injective j i hport]

theorem slotOf_iff (hst : Indexed st) (hwaiting : (st.jobs.get i).state = .waiting) {port : UInt16} :
    st.slotOf port = some i ↔ port = tcpProbeSrcPort i := by
  constructor
  · intro hslot
    have hport := (waiting_of_slotOf hslot).2
    rw [(hst i hwaiting).1] at hport
    exact hport.symm
  · rintro rfl
    obtain ⟨hzero, hrange⟩ := tcpProbeSrcPort_range i
    unfold TcpProbe.slotOf
    rw [if_neg hzero, if_neg hrange]
    exact findJobBySrcPort_eq hst hwaiting

/-- The slot of a port, told from the waiting one. -/
theorem verdict_of_slotOf (hst : Indexed st) (hwaiting : (st.jobs.get i).state = .waiting)
    (port : UInt16) (verdict : Verdict) (recv : Option Bytes) :
    (match (st.slotOf port).map fun j => (j, verdict) with
      | none => none
      | some (j, verdict) => if j = i then some (verdict, recv) else none) =
      if port = tcpProbeSrcPort i then some (verdict, recv) else none := by
  cases hslot : st.slotOf port with
  | none =>
    rw [if_neg fun hport => by
      rw [(slotOf_iff hst hwaiting).mpr hport] at hslot
      cases hslot]
    rfl
  | some j =>
    rw [Option.map_some]
    dsimp only
    by_cases hj : j = i
    · rw [if_pos hj, if_pos ((slotOf_iff hst hwaiting).mp (hj ▸ hslot))]
    · rw [if_neg hj, if_neg fun hport => by
        rw [(slotOf_iff hst hwaiting).mpr hport] at hslot
        exact hj (Option.some.inj hslot).symm]

/-- What completes the job of a waiting slot can be told from the job and the event. -/
theorem completes_eq (hst : Indexed st) (hwaiting : (st.jobs.get i).state = .waiting) (e : ProbeEvent) :
    st.completes i e = completion st.tcpSock4 st.icmpSock4 i (st.jobs.get i) e := by
  cases e with
  | job j resolved sendRc now => rfl
  | tick now => rfl
  | response pkt socketId recv =>
    unfold completion responseVerdict TcpProbe.completes TcpProbe.matched
    dsimp only
    by_cases htcp : socketId = st.tcpSock4
    · rw [if_pos htcp, if_pos htcp]
      cases parseTcpResponseV4 pkt with
      | none => rfl
      | some r => exact verdict_of_slotOf hst hwaiting r.dstPort _ recv
    rw [if_neg htcp, if_neg htcp]
    by_cases hicmp : socketId = st.icmpSock4
    · rw [if_pos hicmp, if_pos hicmp]
      cases parseIcmpUnreachV4 pkt with
      | none => rfl
      | some port => exact verdict_of_slotOf hst hwaiting port _ recv
    · rw [if_neg hicmp, if_neg hicmp]

/-- The sockets stay. -/
theorem step_sockets (st : TcpProbe) (e : ProbeEvent) :
    (st.step e).1.tcpSock4 = st.tcpSock4 ∧ (st.step e).1.icmpSock4 = st.icmpSock4 := by
  cases e with
  | job j resolved sendRc now =>
    rcases onJob_cases st j resolved sendRc now with
      hst | ⟨_, _, _, _, hst⟩ | ⟨_, _, _, _, hst⟩ <;>
    · show (st.onJob j resolved sendRc now).1.tcpSock4 = _ ∧ _
      rw [show (st.step (.job j resolved sendRc now)).1 = (st.onJob j resolved sendRc now).1 from rfl,
        hst]
      exact ⟨rfl, rfl⟩
  | tick now => exact ⟨rfl, rfl⟩
  | response pkt socketId recv =>
    show (st.onResponse pkt socketId recv).1.tcpSock4 = _ ∧
      (st.onResponse pkt socketId recv).1.icmpSock4 = _
    unfold TcpProbe.onResponse
    split <;> exact ⟨rfl, rfl⟩

def ProbeEvent.passive : ProbeEvent → Bool
  | .job .. => false
  | _ => true

variable {e : ProbeEvent} {after : List ProbeEvent}

theorem accepts_of_passive (h : e.passive = true) : st.accepts e = none := by
  cases e with
  | job j resolved sendRc now => cases h
  | response pkt socketId recv => rfl
  | tick now => rfl

/-- Without new jobs nothing is published about a slot that does not wait. -/
theorem reports_of_idle (hafter : ∀ e ∈ after, e.passive = true)
    (hidle : (st.jobs.get i).state ≠ .waiting) : ofSlot i (st.reports after) = [] := by
  induction after generalizing st with
  | nil => rfl
  | cons e after ih =>
    unfold TcpProbe.reports
    have hstep := step_slot st e i
    rw [ofSlot_append]
    have hrest : ((st.step e).1.jobs.get i).state ≠ .waiting →
        ofSlot i ((st.step e).1.reports after) = [] :=
      ih fun e' he' => hafter e' (mem_cons_of_mem _ he')
    generalize (st.step e).1.jobs.get i = job at hstep hrest
    generalize ofSlot i (st.step e).2 = reports at hstep ⊢
    cases hstep with
    | kept hcompletes => exact hrest hidle
    | unsent hfree hjob => exact hrest (by rw [hjob]; decide)
    | started haccepts hfree =>
      rw [accepts_of_passive (hafter e (mem_cons_self ..))] at haccepts
      cases haccepts
    | completed hcompletes => exact absurd (waiting_of_completes hcompletes) hidle

/-- What is published about a waiting job is what the first event that completes it says. -/
theorem reports_of_waiting (hst : Indexed st) (hwaiting : (st.jobs.get i).state = .waiting)
    (hafter : ∀ e ∈ after, e.passive = true) :
    ofSlot i (st.reports after) =
      match after.findSome? (completion st.tcpSock4 st.icmpSock4 i (st.jobs.get i)) with
      | none => []
      | some (verdict, recv) => (completeJob recv (st.jobs.get i) verdict).2.toList := by
  induction after generalizing st with
  | nil => rfl
  | cons e after ih =>
    unfold TcpProbe.reports
    have hstep := step_slot st e i
    have hcompletion := completes_eq hst hwaiting e
    obtain ⟨htcp, hicmp⟩ := step_sockets st e
    have hpassive : ∀ e' ∈ after, e'.passive = true :=
      fun e' he' => hafter e' (mem_cons_of_mem _ he')
    have hkept : ((st.step e).1.jobs.get i).state = .waiting →
        ofSlot i ((st.step e).1.reports after) =
          match after.findSome? (completion (st.step e).1.tcpSock4 (st.step e).1.icmpSock4 i
            ((st.step e).1.jobs.get i)) with
          | none => []
          | some (verdict, recv) => (completeJob recv ((st.step e).1.jobs.get i) verdict).2.toList :=
      fun hnext => ih (hst.step e) hnext hpassive
    have hdone : ((st.step e).1.jobs.get i).state ≠ .waiting →
        ofSlot i ((st.step e).1.reports after) = [] := reports_of_idle hpassive
    rw [htcp, hicmp] at hkept
    rw [ofSlot_append, findSome?_cons, ← hcompletion]
    generalize (st.step e).1.jobs.get i = job at hstep hkept hdone
    generalize ofSlot i (st.step e).2 = reports at hstep ⊢
    cases hstep with
    | kept hcompletes =>
      rw [hcompletes, nil_append]
      exact hkept hwaiting
    | unsent hfree hjob =>
      rw [hfree] at hwaiting
      cases hwaiting
    | started haccepts hfree =>
      rw [hfree] at hwaiting
      cases hwaiting
    | @completed verdict recv hcompletes =>
      have hslot : (completeJob recv (st.jobs.get i) verdict).1.state ≠ .waiting := by
        rw [completeJob_slot (hst i hwaiting).2]
        decide
      rw [hcompletes, hdone hslot, append_nil]

/-- An accepted job waits in its slot. -/
theorem step_of_accepts {job : ProbeJob} (h : st.accepts e = some (i, job)) :
    (st.step e).1.jobs.get i = job ∧ job.state = .waiting := by
  cases e with
  | response pkt socketId recv => cases h
  | tick now => cases h
  | job j resolved sendRc now =>
    unfold TcpProbe.accepts at h
    dsimp only at h
    split at h
    · rename_i hours
      obtain ⟨hhandles, hrc⟩ := hours
      obtain ⟨i', hfree, hdest⟩ := Option.bind_eq_some_iff.mp h
      obtain ⟨dest, rfl, heq⟩ := Option.map_eq_some_iff.mp hdest
      cases heq
      refine ⟨?_, rfl⟩
      show (st.onJob j (some dest) sendRc now).1.jobs.get i = _
      have hrefused : (-1 : Int32) ≠ 0 := by decide
      unfold TcpProbe.onJob at hrc ⊢
      rw [if_neg (not_not.mpr hhandles)] at hrc ⊢
      split at hrc
      · exact absurd hrc hrefused
      rename_i hsock
      rw [hfree] at hrc
      rw [if_neg hsock, hfree]
      dsimp only at hrc ⊢
      split at hrc
      · exact absurd hrc hrefused
      · rename_i hsent
        rw [if_neg hsent, get_set_slot, if_pos rfl]
    · cases h

end

/-! ## One message -/

theorem run_sockets (tcpSock4 icmpSock4 : Int32) (events : List ProbeEvent) :
    ((TcpProbe.init tcpSock4 icmpSock4).run events).tcpSock4 = tcpSock4 ∧
      ((TcpProbe.init tcpSock4 icmpSock4).run events).icmpSock4 = icmpSock4 := by
  induction events using List.reverseRecOn with
  | nil => exact ⟨rfl, rfl⟩
  | append_singleton events e ih =>
    obtain ⟨htcp, hicmp⟩ := step_sockets ((TcpProbe.init tcpSock4 icmpSock4).run events) e
    rw [TcpProbe.run_append]
    exact ⟨htcp.trans ih.1, hicmp.trans ih.2⟩

/-- A completed job is reported exactly if the text of its result fits the buffer. -/
theorem length_completeJob {job : ProbeJob} (h : job.resultPublished = false) (verdict : Verdict)
    (recv : Option Bytes) :
    (completeJob recv job verdict).2.toList.length = 1 ↔
      (resultText job verdict
        (if verdict = .opened ∧ isBannerPort job.tcpPort then grabBanner recv else [])).length
        < 512 := by
  unfold completeJob
  rw [h, if_neg Bool.false_ne_true]
  dsimp only
  rw [publishResult_eq]
  generalize (if verdict = .opened ∧ isBannerPort job.tcpPort then grabBanner recv else []) = banner
  have htext : resultText { job with resultPublished := true } verdict banner =
      resultText job verdict banner := rfl
  rw [htext]
  by_cases hfits : (resultText job verdict banner).length < 512
  · rw [if_pos hfits]
    exact iff_of_true rfl hfits
  · rw [if_neg hfits]
    exact iff_of_false Nat.zero_ne_one hfits

/-- The tick that comes three seconds after the SYN completes the job, unless the clock read 0. -/
theorem completion_of_tick {tcpSock4 icmpSock4 : Int32} {i : Fin tcpProbeMaxJobs} {job : ProbeJob}
    (hwaiting : job.state = .waiting) (hsent : job.sentUsec ≠ 0) {now : UInt64}
    (hnow : job.sentUsec.toNat + 3000000 ≤ now.toNat) :
    completion tcpSock4 icmpSock4 i job (.tick now) = some (.filtered, none) := by
  have hout : TcpProbe.timedOut job now = true := by
    unfold TcpProbe.timedOut
    rw [decide_eq_true_iff]
    refine ⟨hwaiting, hsent, ?_⟩
    rw [ge_iff_le, UInt64.le_iff_toNat_le,
      UInt64.toNat_sub_of_le _ _ (UInt64.le_iff_toNat_le.mpr (by omega)),
      show tcpProbeTimeoutUsec.toNat = 3000000 from rfl]
    omega
  exact if_pos hout

/-- A job that was accepted is reported once, in every sequence of responses and ticks with a tick
three seconds after its SYN, exactly if something completes it (the clock did not read 0 at the SYN,
or there is a response) and, should that be a `SYN`-`ACK` on a port whose banner is read, the result
fits the buffer with the banner. -/
theorem reported_once_iff (tcpSock4 icmpSock4 : Int32) (events : List ProbeEvent) (e : ProbeEvent)
    (i : Fin tcpProbeMaxJobs) (job : ProbeJob)
    (haccepts : ((TcpProbe.init tcpSock4 icmpSock4).run events).accepts e = some (i, job))
    (after : List ProbeEvent) (hafter : ∀ e ∈ after, e.passive = true)
    (htick : ∃ now, .tick now ∈ after ∧ job.sentUsec.toNat + 3000000 ≤ now.toNat) :
    (ofSlot i (((TcpProbe.init tcpSock4 icmpSock4).run (events ++ [e])).reports after)).length = 1 ↔
      (job.sentUsec ≠ 0 ∨ ∃ ev ∈ after, (responseVerdict tcpSock4 icmpSock4 i ev).isSome) ∧
        ∀ recv, after.findSome? (completion tcpSock4 icmpSock4 i job) = some (.opened, recv) →
          isBannerPort job.tcpPort → (resultText job .opened (grabBanner recv)).length < 512 := by
  obtain ⟨hslot, hwaiting⟩ := step_of_accepts haccepts
  obtain ⟨htcp, hicmp⟩ := run_sockets tcpSock4 icmpSock4 (events ++ [e])
  have hindexed := indexed_run tcpSock4 icmpSock4 (events ++ [e])
  have hjob : (((TcpProbe.init tcpSock4 icmpSock4).run (events ++ [e])).jobs.get i) = job := by
    rw [TcpProbe.run_append]
    exact hslot
  have hreports := reports_of_waiting hindexed (by rw [hjob]; exact hwaiting) hafter
  rw [htcp, hicmp, hjob] at hreports
  rw [hreports]
  obtain ⟨j, resolved, sendRc, now, dest, -, -, hrecord⟩ := accepts_eq haccepts
  have hunpublished := accepts_unpublished haccepts
  cases hfirst : after.findSome? (completion tcpSock4 icmpSock4 i job) with
  | none =>
    -- nothing completes the job: the tick does not count, and no response came
    have hnone := findSome?_eq_none_iff.mp hfirst
    refine iff_of_false (by simp) ?_
    rintro ⟨hsent | ⟨ev, hev, hsome⟩, -⟩
    · obtain ⟨tickNow, hmem, hlater⟩ := htick
      have := hnone _ hmem
      rw [completion_of_tick hwaiting hsent hlater] at this
      cases this
    · have := hnone ev hev
      cases ev with
      | job j resolved sendRc now => cases hsome
      | tick now => cases hsome
      | response pkt socketId recv =>
        rw [show completion tcpSock4 icmpSock4 i job (.response pkt socketId recv) =
          responseVerdict tcpSock4 icmpSock4 i (.response pkt socketId recv) from rfl] at this
        rw [this] at hsome
        cases hsome
  | some c =>
    obtain ⟨verdict, recv⟩ := c
    have hcompleted :
        job.sentUsec ≠ 0 ∨ ∃ ev ∈ after, (responseVerdict tcpSock4 icmpSock4 i ev).isSome := by
      obtain ⟨ev, hev, hcompletion⟩ := exists_of_findSome?_eq_some hfirst
      cases ev with
      | job j resolved sendRc now => cases hcompletion
      | response pkt socketId recv' =>
        right
        refine ⟨_, hev, ?_⟩
        rw [show responseVerdict tcpSock4 icmpSock4 i (.response pkt socketId recv') =
          completion tcpSock4 icmpSock4 i job (.response pkt socketId recv') from rfl, hcompletion]
        rfl
      | tick tickNow =>
        left
        unfold completion at hcompletion
        dsimp only at hcompletion
        split at hcompletion
        · rename_i hout
          unfold TcpProbe.timedOut at hout
          exact (of_decide_eq_true hout).2.1
        · cases hcompletion
    dsimp only
    rw [length_completeJob hunpublished, and_iff_right hcompleted]
    by_cases hbanner : verdict = .opened ∧ isBannerPort job.tcpPort = true
    · rw [if_pos hbanner]
      obtain ⟨rfl, hport⟩ := hbanner
      constructor
      · rintro hfits recv' heq -
        obtain ⟨-, hrecv⟩ := Prod.mk.inj (Option.some.inj heq)
        rw [← hrecv]
        exact hfits
      · exact fun h => h recv rfl hport
    · -- without a banner the text fits
      rw [if_neg hbanner]
      refine iff_of_true ?_ ?_
      · rw [hrecord]
        exact length_resultText_lt i j dest now verdict
      · intro recv' heq hport
        obtain ⟨hopened, -⟩ := Prod.mk.inj (Option.some.inj heq)
        exact absurd ⟨hopened, hport⟩ hbanner

/-- The record of `sshJob 1` in the first slot. -/
def sshWaiting : ProbeJob :=
  TcpProbe.waitingJob 0 { jobId := asc "j", destination := asc "target", tcpPort := 22 }
    #v[10, 0, 0, 1] 1000000

/-- The target replies and sends `banner` on the banner connection; a tick follows. -/
def replyAndTick (banner : Bytes) : List ProbeEvent :=
  [.response (synAckFrom 1) 3 (some banner), .tick 5000000]

theorem ssh_banner_reported_once :
    ((TcpProbe.init 3 4).run []).accepts (sshJob 1 1000000) = some (0, sshWaiting) ∧
      (ofSlot 0 (((TcpProbe.init 3 4).run ([] ++ [sshJob 1 1000000])).reports
        (replyAndTick (asc "SSH-2.0-OpenSSH_9.6\r\n")))).length = 1 := by
  have haccepts : ((TcpProbe.init 3 4).run []).accepts (sshJob 1 1000000) = some (0, sshWaiting) := by
    decide
  have hafter : ∀ e ∈ replyAndTick (asc "SSH-2.0-OpenSSH_9.6\r\n"), e.passive = true := by
    decide
  have htick : ∃ now, ProbeEvent.tick now ∈ replyAndTick (asc "SSH-2.0-OpenSSH_9.6\r\n") ∧
      sshWaiting.sentUsec.toNat + 3000000 ≤ now.toNat :=
    ⟨5000000, by decide, by decide⟩
  refine ⟨haccepts, (reported_once_iff 3 4 [] _ 0 sshWaiting haccepts _ hafter htick).mpr ?_⟩
  refine ⟨.inl (by decide), ?_⟩
  have hfirst : (replyAndTick (asc "SSH-2.0-OpenSSH_9.6\r\n")).findSome?
      (completion 3 4 0 sshWaiting) = some (.opened, some (asc "SSH-2.0-OpenSSH_9.6\r\n")) := by
    decide
  intro recv hrecv _
  obtain ⟨-, rfl⟩ := Prod.mk.inj (Option.some.inj (hfirst.symm.trans hrecv))
  decide

/-- A peer that sends 255 quotes: its open port is not reported, then or later. -/
theorem quoted_banner_not_reported :
    ((TcpProbe.init 3 4).run []).accepts (sshJob 1 1000000) = some (0, sshWaiting) ∧
      ofSlot 0 (((TcpProbe.init 3 4).run ([] ++ [sshJob 1 1000000])).reports
        (replyAndTick (List.replicate 255 34))) = [] := by
  decide +kernel

end Packetsonde.Probe
