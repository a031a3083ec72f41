import Packetsonde.Central.JsonWriter
import Packetsonde.Probe.Wire

/-!
# Packetsonde — the TCP SYN scanner (`tcp_probe.c`)

Sixteen slots, one job each. A job's SYN goes out from source port `0x5070 + slot`, and what comes
back is matched to a slot by that port alone. A job ends with the first reply, ICMP error or timeout,
and its slot is free again.

What the network and the system answer comes with the events: the address of `getaddrinfo`, the
result of `send_raw`, the clock, and what the banner connection reads. Log lines are left out.
-/

namespace Packetsonde.Probe

open Packetsonde.Lib
open Packetsonde.Central (PsJson)

abbrev tcpProbeMaxJobs : Nat := 16
def tcpProbeTimeoutUsec : UInt64 := 3 * 1000000
def tcpProbeBaseSrcPort : UInt16 := 0x5070

def icmpTypeDestUnreach : UInt8 := 3

def bannerPorts : List Int32 :=
  [21, 22, 25, 80, 110, 143, 443, 465, 587, 993, 995, 3306, 5432, 6379, 8080, 8443]

/-- `struct ps_job`. -/
structure PsJob where
  jobId : Bytes
  destination : Bytes
  method : Bytes := []
  maxHops : Int32 := 0
  tcpPort : Int32 := 0
  af : UInt8 := 0
  deriving DecidableEq, Repr

inductive ProbeState where
  | idle
  | waiting
  | done
  deriving DecidableEq, Repr

/-- `struct probe_job`. -/
structure ProbeJob where
  state : ProbeState := .idle
  slotIndex : Nat := 0
  jobId : Bytes := []
  destination : Bytes := []
  destAddrStr : Bytes := []
  tcpPort : Int32 := 0
  destSa : Ipv4 := Vector.replicate 4 0
  sentUsec : UInt64 := 0
  resultPublished : Bool := false
  deriving DecidableEq, Repr

/-- `struct tcp_probe_state`. -/
structure TcpProbe where
  tcpSock4 : Int32
  icmpSock4 : Int32
  jobs : Vector ProbeJob tcpProbeMaxJobs
  deriving DecidableEq, Repr

/-! ## Banner and result -/

/-- The `state` of a result. -/
inductive Verdict where
  | opened
  | closed
  | filtered
  deriving DecidableEq, Repr

def Verdict.text : Verdict → Bytes
  | .opened => asc "open"
  | .closed => asc "closed"
  | .filtered => asc "filtered"

def isBannerPort (port : Int32) : Bool := bannerPorts.contains port

/-- `grab_banner`: `recv` is what the connection reads, if it gets that far. Trailing control bytes
become terminators. -/
def grabBanner (recv : Option Bytes) : Bytes :=
  match recv with
  | none => []
  | some b => cstr (((b.take 255).reverse.dropWhile (· < 0x20)).reverse)

/-- What is put together by `publish_result`. -/
def resultJson (job : ProbeJob) (verdict : Verdict) (banner : Bytes) : PsJson :=
  (((((((PsJson.init 512).objectBegin.keyString (asc "job_id") job.jobId).keyString (asc "address")
    (if job.destAddrStr ≠ [] then job.destAddrStr else job.destination)).keyInt (asc "port")
    job.tcpPort.toInt).keyString (asc "proto") (asc "tcp")).keyString (asc "state")
    verdict.text).keyString (asc "banner") banner).objectEnd

/-- `publish_result`: the message on `probe.result`. -/
def publishResult (job : ProbeJob) (verdict : Verdict) (banner : Bytes) : Option Bytes :=
  (resultJson job verdict banner).finish.filter (·.length > 0)

structure Report where
  job : ProbeJob
  verdict : Verdict
  text : Bytes
  deriving DecidableEq, Repr

/-- `complete_job`: the slot after it, and the message. -/
def completeJob (recv : Option Bytes) (job : ProbeJob) (verdict : Verdict) :
    ProbeJob × Option Report :=
  if job.resultPublished then (job, none)
  else
    let banner := if verdict = .opened ∧ isBannerPort job.tcpPort then grabBanner recv else []
    ({}, (publishResult { job with resultPublished := true } verdict banner).map
      fun text => { job, verdict, text })

/-! ## Responses -/

/-- What `parse_tcp_response_v4` finds: the port it returns, `is_rst` and the responder. -/
structure TcpResponse where
  dstPort : UInt16
  isRst : Bool
  srcAddr : Ipv4
  deriving DecidableEq, Repr

/-- `parse_tcp_response_v4`. -/
def parseTcpResponseV4 (pkt : Bytes) : Option TcpResponse :=
  if pkt.length < 40 then none
  else
    let ipHl := headerLen pkt 0
    if ipHl + 20 > pkt.length then none
    else if u8At pkt 9 ≠ ipprotoTcp then none
    else if pkt.length - ipHl < 14 then none
    else
      let flags := u8At pkt (ipHl + 13)
      let isSynAck := flags &&& (tcpFlagSyn ||| tcpFlagAck) = tcpFlagSyn ||| tcpFlagAck
      let isRstFlag := flags &&& tcpFlagRst ≠ 0
      if ¬ isSynAck ∧ ¬ isRstFlag then none
      else some { dstPort := u16At pkt (ipHl + 2), isRst := isRstFlag, srcAddr := ipv4At pkt 12 }

/-- `parse_icmp_unreach_v4`. -/
def parseIcmpUnreachV4 (pkt : Bytes) : Option UInt16 :=
  if pkt.length < 20 then none
  else
    let icmp := headerLen pkt 0
    if icmp > pkt.length then none
    else if pkt.length - icmp < 8 + 20 + 8 then none
    else if u8At pkt icmp ≠ icmpTypeDestUnreach then none
    else
      let innerHl := headerLen pkt (icmp + 8)
      if 8 + innerHl + 8 > pkt.length - icmp then none
      else if u8At pkt (icmp + 8 + 9) ≠ ipprotoTcp then none
      else some (u16At pkt (icmp + 8 + innerHl))

/-! ## Jobs -/

def tcpProbeSrcPort (slot : Nat) : UInt16 := tcpProbeBaseSrcPort + UInt16.ofNat slot

namespace TcpProbe

/-- `probe_init`, with what `create_raw_socket` returned. -/
def init (tcpSock4 icmpSock4 : Int32) : TcpProbe where
  tcpSock4
  icmpSock4
  jobs := Vector.ofFn fun i => { slotIndex := i }

/-- `find_free_job`. -/
def findFreeJob (st : TcpProbe) : Option (Fin tcpProbeMaxJobs) :=
  (List.finRange tcpProbeMaxJobs).find? fun i => (st.jobs.get i).state = .idle

/-- `find_job_by_src_port`. -/
def findJobBySrcPort (st : TcpProbe) (srcPort : UInt16) : Option (Fin tcpProbeMaxJobs) :=
  (List.finRange tcpProbeMaxJobs).find? fun i =>
    (st.jobs.get i).state = .waiting ∧ tcpProbeSrcPort (st.jobs.get i).slotIndex = srcPort

def handles (job : PsJob) : Bool :=
  cstr job.method = [] ∨ cstr job.method = asc "probe" ∨ cstr job.method = asc "tcp"

/-- The record of a job whose SYN was sent from `slot` at `now`. -/
def waitingJob (slot : Nat) (job : PsJob) (dest : Ipv4) (now : UInt64) : ProbeJob where
  state := .waiting
  slotIndex := slot
  jobId := (cstr job.jobId).take 63
  destination := (cstr job.destination).take 255
  destAddrStr := inetNtop dest
  tcpPort := if job.tcpPort > 0 then job.tcpPort else 80
  destSa := dest
  sentUsec := now

/-- `probe_on_job`: `resolved` is the address of `getaddrinfo`, `sendRc` the result of
`send_raw`. -/
def onJob (job : PsJob) (resolved : Option Ipv4) (sendRc : Int32) (now : UInt64) (st : TcpProbe) :
    TcpProbe × Int32 :=
  if ¬ handles job then (st, 0)
  else if st.tcpSock4 < 0 then (st, -1)
  else
    match st.findFreeJob with
    | none => (st, -1)
    | some i =>
      match resolved with
      | none => (st, -1)
      | some dest =>
        let pj := waitingJob i job dest now
        -- a SYN that is not sent leaves the slot filled in but idle
        if sendRc < 0 then
          ({ st with jobs := st.jobs.set i { pj with state := .idle, sentUsec := 0 } }, -1)
        else ({ st with jobs := st.jobs.set i pj }, 0)

def slotOf (st : TcpProbe) (port : UInt16) : Option (Fin tcpProbeMaxJobs) :=
  if port = 0 then none
  else if port < tcpProbeBaseSrcPort ∨ port.toNat ≥ tcpProbeBaseSrcPort.toNat + 16 then none
  else st.findJobBySrcPort port

/-- The slot whose job a response is matched to, and what it makes of it. -/
def matched (st : TcpProbe) (pkt : Bytes) (socketId : Int32) :
    Option (Fin tcpProbeMaxJobs × Verdict) :=
  if socketId = st.tcpSock4 then
    match parseTcpResponseV4 pkt with
    | none => none
    | some r => (st.slotOf r.dstPort).map fun i => (i, if r.isRst then .closed else .opened)
  else if socketId = st.icmpSock4 then
    match parseIcmpUnreachV4 pkt with
    | none => none
    | some port => (st.slotOf port).map fun i => (i, .filtered)
  else none

/-- `probe_on_response`. -/
def onResponse (pkt : Bytes) (socketId : Int32) (recv : Option Bytes) (st : TcpProbe) :
    TcpProbe × List (Fin tcpProbeMaxJobs × Report) :=
  match st.matched pkt socketId with
  | none => (st, [])
  | some (i, verdict) =>
    let (slot, report) := completeJob recv (st.jobs.get i) verdict
    ({ st with jobs := st.jobs.set i slot }, report.toList.map fun r => (i, r))

/-- The test of `probe_tick`. -/
def timedOut (job : ProbeJob) (now : UInt64) : Bool :=
  job.state = .waiting ∧ job.sentUsec ≠ 0 ∧ now - job.sentUsec ≥ tcpProbeTimeoutUsec

/-- What `probe_tick` does to a slot; a timeout reads no banner. -/
def tickJob (now : UInt64) (job : ProbeJob) : ProbeJob × Option Report :=
  if timedOut job now then completeJob none job .filtered else (job, none)

/-- `probe_tick`. -/
def tick (now : UInt64) (st : TcpProbe) : TcpProbe × List (Fin tcpProbeMaxJobs × Report) :=
  ({ st with jobs := st.jobs.map fun job => (tickJob now job).1 },
    (List.finRange tcpProbeMaxJobs).flatMap fun i =>
      (tickJob now (st.jobs.get i)).2.toList.map fun r => (i, r))

end TcpProbe

/-! ## Runs -/

inductive ProbeEvent where
  | job (job : PsJob) (resolved : Option Ipv4) (sendRc : Int32) (now : UInt64)
  | response (pkt : Bytes) (socketId : Int32) (recv : Option Bytes)
  | tick (now : UInt64)
  deriving DecidableEq, Repr

def TcpProbe.step (st : TcpProbe) : ProbeEvent → TcpProbe × List (Fin tcpProbeMaxJobs × Report)
  | .job job resolved sendRc now => ((st.onJob job resolved sendRc now).1, [])
  | .response pkt socketId recv => st.onResponse pkt socketId recv
  | .tick now => st.tick now

def TcpProbe.run (st : TcpProbe) (events : List ProbeEvent) : TcpProbe :=
  events.foldl (fun st e => (st.step e).1) st

def TcpProbe.reports (st : TcpProbe) : List ProbeEvent → List (Fin tcpProbeMaxJobs × Report)
  | [] => []
  | e :: rest => (st.step e).2 ++ (st.step e).1.reports rest

end Packetsonde.Probe
