import Packetsonde.Flows.Table
import Packetsonde.Lib.Buffer

/-!
# Packetsonde — the NetFlow exporter (`netflow_export.c`)

`export_v5`, `export_v9` and `export_ipfix` cut a list of flows into datagrams. The clock and the
socket are a `World`: the `k`-th call of `now_sec` returns `clock k`, the `k`-th `sendto` succeeds
if `accepts k`. A `Session` is the exporter with what it read and sent so far; its log keeps every
`sendto`, successful or not.

`export_v9` and `export_ipfix` build a datagram in `buf[NF_MAX_PACKET]`, whose first contents the
`World` gives. A `Packet` is that buffer with `flowset_count`, and with the sets it was filled with.
The log has for each `sendto` both what was meant (`Datagram`) and the bytes it was given (`wire`).
The encoders' loops have as much fuel as there are flows: every turn sends a record.
-/

namespace Packetsonde.Flows

open Packetsonde.Lib

/-! ## Constants -/

def nfv5MaxRecords : Nat := 30
def nfv9HeaderLen : Nat := 20
def ipfixHeaderLen : Nat := 16
def templateIdV4 : UInt16 := 256
def templateIdV6 : UInt16 := 257
def templateResendPkts : UInt32 := 20
def templateResendSec : UInt32 := 300
def nfMaxPacket : Nat := 1400

structure TemplateField where
  type : UInt16
  length : UInt16
  deriving DecidableEq, Repr

def nf9InBytes : UInt16 := 1
def nf9InPkts : UInt16 := 2
def nf9Protocol : UInt16 := 4
def nf9Tos : UInt16 := 5
def nf9TcpFlags : UInt16 := 6
def nf9L4SrcPort : UInt16 := 7
def nf9Ipv4SrcAddr : UInt16 := 8
def nf9L4DstPort : UInt16 := 11
def nf9Ipv4DstAddr : UInt16 := 12
def nf9LastSwitched : UInt16 := 21
def nf9FirstSwitched : UInt16 := 22
def nf9Ipv6SrcAddr : UInt16 := 27
def nf9Ipv6DstAddr : UInt16 := 28
def nf9Ipv6FlowLabel : UInt16 := 31
def ipfixIeOctetTotalCount : UInt16 := 85
def ipfixIePacketTotalCount : UInt16 := 86
def ipfixIeFlowStartMs : UInt16 := 152
def ipfixIeFlowEndMs : UInt16 := 153

def tmplV4Fields : List TemplateField :=
  [⟨nf9Ipv4SrcAddr, 4⟩, ⟨nf9Ipv4DstAddr, 4⟩, ⟨nf9L4SrcPort, 2⟩, ⟨nf9L4DstPort, 2⟩,
    ⟨nf9Protocol, 1⟩, ⟨nf9InBytes, 4⟩, ⟨nf9InPkts, 4⟩, ⟨nf9TcpFlags, 1⟩, ⟨nf9Tos, 1⟩,
    ⟨nf9FirstSwitched, 4⟩, ⟨nf9LastSwitched, 4⟩]

def tmplV6Fields : List TemplateField :=
  [⟨nf9Ipv6SrcAddr, 16⟩, ⟨nf9Ipv6DstAddr, 16⟩, ⟨nf9L4SrcPort, 2⟩, ⟨nf9L4DstPort, 2⟩,
    ⟨nf9Protocol, 1⟩, ⟨nf9InBytes, 4⟩, ⟨nf9InPkts, 4⟩, ⟨nf9TcpFlags, 1⟩, ⟨nf9Ipv6FlowLabel, 4⟩,
    ⟨nf9FirstSwitched, 4⟩, ⟨nf9LastSwitched, 4⟩]

def ipfixV4Fields : List TemplateField :=
  [⟨nf9Ipv4SrcAddr, 4⟩, ⟨nf9Ipv4DstAddr, 4⟩, ⟨nf9L4SrcPort, 2⟩, ⟨nf9L4DstPort, 2⟩,
    ⟨nf9Protocol, 1⟩, ⟨nf9TcpFlags, 1⟩, ⟨nf9Tos, 1⟩, ⟨ipfixIeOctetTotalCount, 8⟩,
    ⟨ipfixIePacketTotalCount, 8⟩, ⟨ipfixIeFlowStartMs, 8⟩, ⟨ipfixIeFlowEndMs, 8⟩]

def ipfixV6Fields : List TemplateField :=
  [⟨nf9Ipv6SrcAddr, 16⟩, ⟨nf9Ipv6DstAddr, 16⟩, ⟨nf9L4SrcPort, 2⟩, ⟨nf9L4DstPort, 2⟩,
    ⟨nf9Protocol, 1⟩, ⟨nf9TcpFlags, 1⟩, ⟨nf9Ipv6FlowLabel, 4⟩, ⟨ipfixIeOctetTotalCount, 8⟩,
    ⟨ipfixIePacketTotalCount, 8⟩, ⟨ipfixIeFlowStartMs, 8⟩, ⟨ipfixIeFlowEndMs, 8⟩]

def tmplV4RecordLen : Nat := 31
def tmplV6RecordLen : Nat := 58
def ipfixV4RecLen : Nat := 47
def ipfixV6RecLen : Nat := 74

/-! ## Records -/

def putU16 (v : UInt16) : Bytes := putBE 2 v.toNat
def putU32 (v : UInt32) : Bytes := putBE 4 v.toNat
def putU64 (v : UInt64) : Bytes := putBE 8 v.toNat

/-- `dPkts` and `IN_PKTS`. -/
def Flow.packets32 (f : Flow) : UInt32 := f.packetCount.toUInt32

/-- `dOctets` and `IN_BYTES`. -/
def Flow.octets32 (f : Flow) : UInt32 := f.octetCount.toUInt32

def Flow.allFlags (f : Flow) : UInt8 := f.tcpFlags.forward ||| f.tcpFlags.reverse

/-- `flow_ts_to_uptime`. -/
def flowTsToUptime (bootTimeSec flowTsUsec : UInt64) : UInt32 :=
  let flowSec := flowTsUsec / 1000000
  if flowSec < bootTimeSec then 0
  else (flowSec - bootTimeSec).toUInt32 * 1000 + (flowTsUsec % 1000000 / 1000).toUInt32

def v5Record (boot : UInt64) (f : Flow) : Bytes :=
  f.key.srcAddr.toList.take 4 ++ f.key.dstAddr.toList.take 4 ++ putU32 0 ++ putU16 0 ++ putU16 0
    ++ putU32 f.packets32 ++ putU32 f.octets32
    ++ putU32 (flowTsToUptime boot f.flowStart) ++ putU32 (flowTsToUptime boot f.flowLast)
    ++ putU16 f.key.srcPort ++ putU16 f.key.dstPort ++ [0, f.allFlags, f.key.proto, f.key.tos]
    ++ putU16 0 ++ putU16 0 ++ [0, 0] ++ putU16 0

def writeV4DataRecord (boot : UInt64) (f : Flow) : Bytes :=
  f.key.srcAddr.toList.take 4 ++ f.key.dstAddr.toList.take 4 ++ putU16 f.key.srcPort
    ++ putU16 f.key.dstPort ++ [f.key.proto] ++ putU32 f.octets32 ++ putU32 f.packets32
    ++ [f.allFlags, f.key.tos]
    ++ putU32 (flowTsToUptime boot f.flowStart) ++ putU32 (flowTsToUptime boot f.flowLast)

def writeV6DataRecord (boot : UInt64) (f : Flow) : Bytes :=
  f.key.srcAddr.toList ++ f.key.dstAddr.toList ++ putU16 f.key.srcPort ++ putU16 f.key.dstPort
    ++ [f.key.proto] ++ putU32 f.octets32 ++ putU32 f.packets32 ++ [f.allFlags]
    ++ putU32 f.flowLabel
    ++ putU32 (flowTsToUptime boot f.flowStart) ++ putU32 (flowTsToUptime boot f.flowLast)

def writeIpfixV4Record (f : Flow) : Bytes :=
  f.key.srcAddr.toList.take 4 ++ f.key.dstAddr.toList.take 4 ++ putU16 f.key.srcPort
    ++ putU16 f.key.dstPort ++ [f.key.proto, f.allFlags, f.key.tos] ++ putU64 f.octetCount
    ++ putU64 f.packetCount ++ putU64 (f.flowStart / 1000) ++ putU64 (f.flowLast / 1000)

def writeIpfixV6Record (f : Flow) : Bytes :=
  f.key.srcAddr.toList ++ f.key.dstAddr.toList ++ putU16 f.key.srcPort ++ putU16 f.key.dstPort
    ++ [f.key.proto, f.allFlags] ++ putU32 f.flowLabel ++ putU64 f.octetCount
    ++ putU64 f.packetCount ++ putU64 (f.flowStart / 1000) ++ putU64 (f.flowLast / 1000)

/-! ## Datagrams -/

/-- A flow set of NetFlow v9, a set of IPFIX. -/
inductive FlowSet where
  | template (id : UInt16) (fields : List TemplateField)
  | data (id : UInt16) (flows : List Flow)
  deriving DecidableEq, Repr

inductive Datagram where
  | v5 (uptime unixSecs sequence : UInt32) (engineId : UInt8) (flows : List Flow)
  | v9 (uptime unixSecs sequence sourceId : UInt32) (sets : List FlowSet)
  | ipfix (exportTime sequence sourceId : UInt32) (sets : List FlowSet)
  deriving DecidableEq, Repr

namespace Datagram

def sequence : Datagram → UInt32
  | v5 _ _ seq _ _ => seq
  | v9 _ _ seq _ _ => seq
  | ipfix _ seq _ _ => seq

def sets : Datagram → List FlowSet
  | v5 .. => []
  | v9 _ _ _ _ sets => sets
  | ipfix _ _ _ sets => sets

end Datagram

def FlowSet.flows : FlowSet → List Flow
  | .template .. => []
  | .data _ flows => flows

def Datagram.records : Datagram → List Flow
  | .v5 _ _ _ _ flows => flows
  | .v9 _ _ _ _ sets => sets.flatMap FlowSet.flows
  | .ipfix _ _ _ sets => sets.flatMap FlowSet.flows

/-- `(n + 3) & ~3`. -/
def pad4 (n : Nat) : Nat := (n + 3) / 4 * 4

def fieldBytes (fields : List TemplateField) : Bytes :=
  fields.flatMap fun field => putU16 field.type ++ putU16 field.length

structure Packet where
  buf : Buffer
  flowsets : Nat := 0
  sets : List FlowSet := []

/-- Records are written while there is room. With the buffer, the flows that were written and those
that remain. -/
def fillRecords (recLen : Nat) (record : Flow → Bytes) :
    Buffer → List Flow → Buffer × List Flow × List Flow
  | b, [] => (b, [], [])
  | b, f :: flows =>
    if b.off + recLen ≤ nfMaxPacket then
      let (b, written, rest) := fillRecords recLen record (b.put (record f)) flows
      (b, f :: written, rest)
    else (b, [], f :: flows)

/-! ## The exporter -/

/-- `struct ps_nf_exporter` without the socket. -/
structure NfExporter where
  version : Int32
  sourceId : UInt32
  flowSequence : UInt32 := 0
  v9PktSequence : UInt32 := 0
  bootTimeSec : UInt64
  v9PktsSinceTemplate : UInt32 := 0
  v9LastTemplateSec : UInt64 := 0
  deriving DecidableEq, Repr

/-- `ps_nf_exporter_create`, where the address resolves and there is a socket. -/
def NfExporter.create (sourceId : UInt32) (version : Int32) (bootTimeSec : UInt64) :
    Option NfExporter :=
  if version ≠ 5 ∧ version ≠ 9 ∧ version ≠ 10 then none
  else some { version, sourceId, bootTimeSec }

structure World where
  clock : Nat → UInt32
  accepts : Nat → Bool
  /-- What is in `buf` when the `k`-th datagram is begun. -/
  stack : Nat → Vector UInt8 nfMaxPacket := fun _ => Vector.replicate nfMaxPacket 0

/-- A `sendto`: the datagram and its success, and how the datagram came about: the exporter when it
was begun, the time read then, and how many IPv6 flows the call has. There are no bytes if one was
written beyond the buffer. -/
structure Attempt where
  before : NfExporter
  now : UInt32
  v6Count : Nat
  datagram : Datagram
  wire : Option Bytes
  accepted : Bool
  deriving DecidableEq, Repr

structure Session where
  exp : NfExporter
  reads : Nat := 0
  log : List Attempt := []
  deriving DecidableEq, Repr

namespace Session

def nowSec (w : World) (s : Session) : UInt32 × Session :=
  (w.clock s.reads, { s with reads := s.reads + 1 })

/-- `sys_uptime_ms`. -/
def sysUptimeMs (w : World) (s : Session) : UInt32 × Session :=
  let (now, s) := s.nowSec w
  ((now - s.exp.bootTimeSec.toUInt32) * 1000, s)

/-- `send_udp`. -/
def sendUdp (w : World) (before : NfExporter) (now : UInt32) (v6Count : Nat) (datagram : Datagram)
    (wire : Option Bytes) (s : Session) : Bool × Session :=
  let accepted := w.accepts s.log.length
  (accepted, { s with log := s.log ++ [{ before, now, v6Count, datagram, wire, accepted }] })

end Session

def isV4 (f : Flow) : Bool := f.key.af == afInet
def isV6 (f : Flow) : Bool := f.key.af == afInet6

/-! ## NetFlow v5 -/

/-- The records of a packet with room for `batch`, and the flows behind them. -/
def fillV5 : Nat → List Flow → List Flow × List Flow
  | 0, flows => ([], flows)
  | _ + 1, [] => ([], [])
  | batch + 1, f :: flows =>
    if isV4 f then
      let (written, rest) := fillV5 batch flows
      (f :: written, rest)
    else fillV5 (batch + 1) flows

/-- The number of IPv4 flows the next packet takes. -/
def v5Batch (flows : List Flow) : Nat := min nfv5MaxRecords (flows.countP isV4)

def v5Bytes (boot : UInt64) (uptime unixSecs seq : UInt32) (engineId : UInt8) (written : List Flow) :
    Bytes :=
  putU16 5 ++ putBE 2 written.length ++ putU32 uptime ++ putU32 unixSecs ++ putU32 0 ++ putU32 seq
    ++ [0, engineId] ++ putU16 0 ++ written.flatMap (v5Record boot)

def exportV5Loop (w : World) : Nat → List Flow → Session → Nat → Session × Nat
  | 0, _, s, sent => (s, sent)
  | fuel + 1, flows, s, sent =>
    let batch := v5Batch flows
    -- no IPv4 flows in what remains: the scan went to the end
    if batch = 0 then (s, sent)
    else
      let before := s.exp
      let (uptime, s) := s.sysUptimeMs w
      let (unixSecs, s) := s.nowSec w
      let (written, rest) := fillV5 batch flows
      let datagram := .v5 uptime unixSecs s.exp.flowSequence s.exp.sourceId.toUInt8 written
      let wire := v5Bytes s.exp.bootTimeSec uptime unixSecs s.exp.flowSequence
        s.exp.sourceId.toUInt8 written
      let (accepted, s) := s.sendUdp w before unixSecs 0 datagram wire
      if accepted then
        let exp := { s.exp with
          flowSequence := s.exp.flowSequence + UInt32.ofNat written.length }
        exportV5Loop w fuel rest { s with exp } (sent + 1)
      else exportV5Loop w fuel rest s sent

def exportV5 (w : World) (flows : List Flow) (s : Session) : Session × Nat :=
  exportV5Loop w flows.length flows s 0

/-! ## NetFlow v9 -/

/-- `need_template`. -/
def needTemplate (now : UInt32) (exp : NfExporter) : Bool :=
  exp.v9PktsSinceTemplate ≥ templateResendPkts
    || now - exp.v9LastTemplateSec.toUInt32 ≥ templateResendSec
    || exp.v9LastTemplateSec == 0

def writeV9Header (nrecords : Nat) (uptime unixSecs sequence sourceId : UInt32) : Bytes :=
  putU16 9 ++ putBE 2 nrecords ++ putU32 uptime ++ putU32 unixSecs ++ putU32 sequence
    ++ putU32 sourceId

/-- `write_template_flowset` behind the offset; a set that does not fit is left out. -/
def Packet.writeTemplateFlowset (p : Packet) (id : UInt16) (fields : List TemplateField) : Packet :=
  let paddedLen := pad4 (4 + 4 + fields.length * 4)
  if paddedLen > nfMaxPacket - p.buf.off then p
  else
    let b := p.buf.put (putU16 0 ++ putBE 2 paddedLen ++ putU16 id ++ putBE 2 fields.length
      ++ fieldBytes fields)
    { buf := b.put (List.replicate (p.buf.off + paddedLen - b.off) 0)
      flowsets := p.flowsets + 1
      sets := p.sets ++ [.template id fields] }

/-- A data set: its header is written when the records and the padding are. -/
def Packet.v9DataSet (p : Packet) (id : UInt16) (recLen : Nat) (record : Flow → Bytes)
    (flows : List Flow) : Packet × List Flow :=
  let start := p.buf.off
  let (b, written, rest) := fillRecords recLen record (p.buf.seek (start + 4)) flows
  if written = [] then ({ p with buf := b.seek start }, rest)
  else
    let padded := pad4 (b.off - start)
    let b := b.put (List.replicate (start + padded - b.off) 0)
    ({ buf := b.patch start (putU16 id ++ putBE 2 (b.off - start))
       flowsets := p.flowsets + 1
       sets := p.sets ++ [.data id written] }, rest)

def beginV9 (stack : Vector UInt8 nfMaxPacket) (sendTmpl : Bool) (v6Count : Nat) : Packet :=
  let p : Packet := { buf := { mem := stack.toList, off := nfv9HeaderLen } }
  if sendTmpl then
    let p := p.writeTemplateFlowset templateIdV4 tmplV4Fields
    if v6Count > 0 then p.writeTemplateFlowset templateIdV6 tmplV6Fields else p
  else p

/-- One packet but for its header, and the flows that remain. -/
def buildV9 (stack : Vector UInt8 nfMaxPacket) (boot : UInt64) (sendTmpl : Bool) (v6Count : Nat)
    (v4 v6 : List Flow) : Packet × List Flow × List Flow :=
  let p := beginV9 stack sendTmpl v6Count
  let (p, v4) :=
    if v4 ≠ [] then p.v9DataSet templateIdV4 tmplV4RecordLen (writeV4DataRecord boot) v4 else (p, v4)
  let (p, v6) :=
    if v6 ≠ [] ∧ p.buf.off + 4 + tmplV6RecordLen ≤ nfMaxPacket then
      p.v9DataSet templateIdV6 tmplV6RecordLen (writeV6DataRecord boot) v6
    else (p, v6)
  (p, v4, v6)

def exportV9Loop (w : World) (uptime unixSecs : UInt32) (v6Count : Nat) :
    Nat → List Flow → List Flow → Session → Nat → Session × Nat
  | 0, _, _, s, sent => (s, sent)
  | fuel + 1, v4, v6, s, sent =>
    if v4 = [] ∧ v6 = [] then (s, sent)
    else
      let before := s.exp
      let (now, s) := s.nowSec w
      let sendTmpl := needTemplate now s.exp
      let exp :=
        if sendTmpl then
          { s.exp with v9PktsSinceTemplate := 0, v9LastTemplateSec := unixSecs.toUInt64 }
        else s.exp
      let (p, v4, v6) :=
        buildV9 (w.stack s.log.length) s.exp.bootTimeSec sendTmpl v6Count v4 v6
      if p.flowsets = 0 then ({ s with exp }, sent)
      else
        let datagram := .v9 uptime unixSecs s.exp.v9PktSequence s.exp.sourceId p.sets
        let hdr := writeV9Header p.flowsets uptime unixSecs s.exp.v9PktSequence s.exp.sourceId
        let (accepted, s) := { s with exp }.sendUdp w before now v6Count datagram
          (p.buf.patch 0 hdr).contents
        if accepted then
          let exp := { s.exp with
            v9PktSequence := s.exp.v9PktSequence + 1
            v9PktsSinceTemplate := s.exp.v9PktsSinceTemplate + 1 }
          exportV9Loop w uptime unixSecs v6Count fuel v4 v6 { s with exp } (sent + 1)
        else exportV9Loop w uptime unixSecs v6Count fuel v4 v6 s sent

def exportV9 (w : World) (flows : List Flow) (s : Session) : Session × Nat :=
  let (uptime, s) := s.sysUptimeMs w
  let (unixSecs, s) := s.nowSec w
  let v4 := flows.filter isV4
  let v6 := flows.filter isV6
  let (s, sent) := exportV9Loop w uptime unixSecs v6.length (v4.length + v6.length) v4 v6 s 0
  ({ s with exp := { s.exp with
      flowSequence := s.exp.flowSequence + UInt32.ofNat flows.length } }, sent)

/-! ## IPFIX -/

def ipfixHeader (off : Nat) (exportTime sequence sourceId : UInt32) : Bytes :=
  putU16 10 ++ putBE 2 off ++ putU32 exportTime ++ putU32 sequence ++ putU32 sourceId

def Packet.writeIpfixTemplate (p : Packet) (id : UInt16) (fields : List TemplateField) : Packet :=
  let setLen := 4 + 4 + fields.length * 4
  { p with
    buf := (p.buf.put (putU16 2 ++ putBE 2 setLen)).put (putU16 id ++ putBE 2 fields.length
      ++ fieldBytes fields)
    sets := p.sets ++ [.template id fields] }

/-- A data set: its header is written first, its length when the records are; a header with no record
behind it is taken back. -/
def Packet.ipfixDataSet (p : Packet) (id : UInt16) (recLen : Nat) (record : Flow → Bytes)
    (flows : List Flow) : Packet × List Flow :=
  if flows = [] then (p, flows)
  else
    let start := p.buf.off
    let b := p.buf.put (putU16 id)
    let lenPos := b.off
    let b := b.put (putU16 0)
    let recStart := b.off
    let (b, written, rest) := fillRecords recLen record b flows
    if b.off = recStart then ({ p with buf := b.seek start }, rest)
    else
      ({ p with
         buf := b.patch lenPos (putBE 2 (b.off - start))
         sets := p.sets ++ [.data id written] }, rest)

def beginIpfix (stack : Vector UInt8 nfMaxPacket) (sendTmpl : Bool) : Packet :=
  let p : Packet := { buf := { mem := stack.toList, off := ipfixHeaderLen } }
  if sendTmpl then
    (p.writeIpfixTemplate templateIdV4 ipfixV4Fields).writeIpfixTemplate templateIdV6 ipfixV6Fields
  else p

def buildIpfix (stack : Vector UInt8 nfMaxPacket) (sendTmpl : Bool) (v4 v6 : List Flow) :
    Packet × List Flow × List Flow :=
  let p := beginIpfix stack sendTmpl
  let (p, v4) := p.ipfixDataSet templateIdV4 ipfixV4RecLen writeIpfixV4Record v4
  let (p, v6) := p.ipfixDataSet templateIdV6 ipfixV6RecLen writeIpfixV6Record v6
  (p, v4, v6)

/-- `none` is the early `return -1`. -/
def exportIpfixLoop (w : World) (v6Count : Nat) :
    Nat → List Flow → List Flow → Session → Nat → Session × Option Nat
  | 0, _, _, s, sent => (s, some sent)
  | fuel + 1, v4, v6, s, sent =>
    if v4 = [] ∧ v6 = [] then (s, some sent)
    else
      let before := s.exp
      let (now, s) := s.nowSec w
      let sendTmpl := needTemplate now s.exp
      let (p, v4, v6) := buildIpfix (w.stack s.log.length) sendTmpl v4 v6
      let (exportTime, s) := s.nowSec w
      let datagram := .ipfix exportTime s.exp.flowSequence s.exp.sourceId p.sets
      let hdr := ipfixHeader p.buf.off exportTime s.exp.flowSequence s.exp.sourceId
      let (accepted, s) := s.sendUdp w before now v6Count datagram (p.buf.patch 0 hdr).contents
      if ¬ accepted then (s, none)
      else if sendTmpl then
        let (now, s) := s.nowSec w
        let exp := { s.exp with v9LastTemplateSec := now.toUInt64, v9PktsSinceTemplate := 0 }
        exportIpfixLoop w v6Count fuel v4 v6 { s with exp } (sent + 1)
      else
        let exp := { s.exp with v9PktsSinceTemplate := s.exp.v9PktsSinceTemplate + 1 }
        exportIpfixLoop w v6Count fuel v4 v6 { s with exp } (sent + 1)

def ipfixCollected (flows : List Flow) : List Flow :=
  (flows.filter fun f => isV4 f || isV6 f).take (nfv5MaxRecords * 32)

def exportIpfix (w : World) (flows : List Flow) (s : Session) : Session × Option Nat :=
  let v4 := (ipfixCollected flows).filter isV4
  let v6 := (ipfixCollected flows).filter isV6
  match exportIpfixLoop w v6.length (v4.length + v6.length) v4 v6 s 0 with
  | (s, none) => (s, none)
  | (s, some sent) =>
    ({ s with exp := { s.exp with
        flowSequence := s.exp.flowSequence + UInt32.ofNat flows.length } }, some sent)

/-- `ps_nf_exporter_send`; `none` is `-1`. -/
def Session.send (w : World) (flows : List Flow) (s : Session) : Session × Option Nat :=
  if flows = [] then (s, some 0)
  else if s.exp.version = 5 then
    let (s, sent) := exportV5 w flows s
    (s, some sent)
  else if s.exp.version = 10 then exportIpfix w flows s
  else
    let (s, sent) := exportV9 w flows s
    (s, some sent)

end Packetsonde.Flows
