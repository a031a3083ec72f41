import Packetsonde.Flows.Packet
import Packetsonde.Lib.Tree

/-!
# Packetsonde — the flow table (`flow_tracker.c`)

`ps_flow_table_process_packet`, `ps_flow_table_expire` and `ps_flow_table_snapshot`. The red-black
tree is its in-order listing (`Lib.Tree`), so a walk over the tree is a walk over the list and a
pass that stops at `max_out` takes the first flows in key order.

Counters are the source's `uint64_t`, `num_flows` and `max_flows` its `int`. Allocation always
succeeds, and `out` is an array.
-/

namespace Packetsonde.Flows

open Packetsonde.Lib

/-- An array of two, `[0]` forward and `[1]` reverse. -/
structure PerDirection (α : Type) where
  forward : α
  reverse : α
  deriving DecidableEq, Repr

/-- The array with `f` written over one of its two places. -/
def PerDirection.modify {α : Type} (p : PerDirection α) (d : Direction) (f : α → α) :
    PerDirection α :=
  match d with
  | .forward => { p with forward := f p.forward }
  | .reverse => { p with reverse := f p.reverse }

/-- `struct ps_flow`. -/
structure Flow where
  key : FlowKey
  packets : PerDirection UInt64
  octets : PerDirection UInt64
  tcpFlags : PerDirection UInt8
  flowStart : UInt64
  flowLast : UInt64
  flowLabel : UInt32
  deriving DecidableEq, Repr

/-- `f->packets[0] + f->packets[1]`. -/
def Flow.packetCount (f : Flow) : UInt64 := f.packets.forward + f.packets.reverse

/-- `f->octets[0] + f->octets[1]`. -/
def Flow.octetCount (f : Flow) : UInt64 := f.octets.forward + f.octets.reverse

/-- `struct ps_flow_table`; `flows` lists the tree in order. -/
structure FlowTable where
  flows : List Flow
  numFlows : Int32
  maxFlows : Int32
  trackLevel : Int32
  timeoutTcpEst : UInt64
  timeoutTcpShort : UInt64
  timeoutUdp : UInt64
  timeoutIcmp : UInt64
  timeoutGeneral : UInt64
  timeoutMaxLifetime : UInt64
  totalPackets : UInt64
  badPackets : UInt64
  flowsExpired : UInt64
  flowsDropped : UInt64
  deriving DecidableEq, Repr

def defaultMaxFlows : Int32 := 65536

/-- `ps_flow_table_create`. -/
def FlowTable.create (maxFlows trackLevel : Int32) : FlowTable :=
  { flows := []
    numFlows := 0
    maxFlows := if maxFlows > 0 then maxFlows else defaultMaxFlows
    trackLevel
    timeoutTcpEst := 3600 * 1000000
    timeoutTcpShort := 30 * 1000000
    timeoutUdp := 300 * 1000000
    timeoutIcmp := 60 * 1000000
    timeoutGeneral := 3600 * 1000000
    timeoutMaxLifetime := 86400 * 1000000
    totalPackets := 0
    badPackets := 0
    flowsExpired := 0
    flowsDropped := 0 }

/-! ## A packet -/

/-- What a packet does to the flow it belongs to. -/
def Flow.update (pp : ParsedPacket) (direction : Direction) (tsUsec : UInt64) (f : Flow) : Flow :=
  { f with
    packets := f.packets.modify direction (· + 1)
    octets := f.octets.modify direction (· + pp.payloadLen.toUInt64)
    tcpFlags := f.tcpFlags.modify direction (· ||| pp.tcpFlags)
    flowLast := tsUsec }

def Flow.start (key : FlowKey) (pp : ParsedPacket) (direction : Direction) (tsUsec : UInt64) :
    Flow :=
  { key
    packets := PerDirection.modify ⟨0, 0⟩ direction fun _ => 1
    octets := PerDirection.modify ⟨0, 0⟩ direction fun _ => pp.payloadLen.toUInt64
    tcpFlags := PerDirection.modify ⟨0, 0⟩ direction fun _ => pp.tcpFlags
    flowStart := tsUsec
    flowLast := tsUsec
    flowLabel := pp.flowLabel }

/-- `ps_flow_table_process_packet`. -/
def FlowTable.processPacket (ft : FlowTable) (pkt : Bytes) (tsUsec : UInt64) : FlowTable × Int32 :=
  if pkt.length = 0 then (ft, -1)
  else
    let ft := { ft with totalPackets := ft.totalPackets + 1 }
    match parseEthernet pkt with
    | none => ({ ft with badPackets := ft.badPackets + 1 }, -1)
    | some pp =>
      let (key, direction) := makeFlowKey pp ft.trackLevel
      match treeFind Flow.key flowCompare key ft.flows with
      | some _ =>
        ({ ft with
            flows := treeModify Flow.key flowCompare key (Flow.update pp direction tsUsec)
              ft.flows }, 0)
      | none =>
        if ft.numFlows ≥ ft.maxFlows then ({ ft with flowsDropped := ft.flowsDropped + 1 }, -1)
        else
          ({ ft with
              flows := treeInsert Flow.key flowCompare (Flow.start key pp direction tsUsec) ft.flows
              numFlows := ft.numFlows + 1 }, 0)

/-! ## Expiry -/

def thFin : UInt8 := 0x01
def thSyn : UInt8 := 0x02
def thRst : UInt8 := 0x04

/-- `flow_idle_timeout`. -/
def FlowTable.flowIdleTimeout (ft : FlowTable) (f : Flow) : UInt64 :=
  if f.key.proto = ipprotoTcp then
    let allFlags := f.tcpFlags.forward ||| f.tcpFlags.reverse
    if allFlags &&& (thFin ||| thRst) ≠ 0 then ft.timeoutTcpShort
    else if allFlags &&& thSyn = 0 then ft.timeoutGeneral
    else ft.timeoutTcpEst
  else if f.key.proto = ipprotoUdp then ft.timeoutUdp
  else if f.key.proto = ipprotoIcmp ∨ f.key.proto = ipprotoIcmpv6 then ft.timeoutIcmp
  else ft.timeoutGeneral

/-- `(now > t) ? (now - t) : 0`. -/
def elapsedSince (now t : UInt64) : UInt64 :=
  if now > t then now - t else 0

def FlowTable.isDue (ft : FlowTable) (nowUsec : UInt64) (f : Flow) : Bool :=
  elapsedSince nowUsec f.flowLast > ft.flowIdleTimeout f
    || elapsedSince nowUsec f.flowStart > ft.timeoutMaxLifetime

/-- The walk of the expiry pass with `expired` flows taken so far: the flows that stay and those
written to `out`. -/
def expireWalk (due : Flow → Bool) (maxOut : Int32) : Nat → List Flow → List Flow × List Flow
  | _, [] => ([], [])
  | expired, f :: rest =>
    if (expired : Int) ≥ maxOut.toInt then (f :: rest, [])
    else if due f then
      let (kept, out) := expireWalk due maxOut (expired + 1) rest
      (kept, f :: out)
    else
      let (kept, out) := expireWalk due maxOut expired rest
      (f :: kept, out)

/-- `ps_flow_table_expire`: the table after the pass, and what is in `out`. -/
def FlowTable.expire (ft : FlowTable) (nowUsec : UInt64) (maxOut : Int32) : FlowTable × List Flow :=
  let (kept, out) := expireWalk (ft.isDue nowUsec) maxOut 0 ft.flows
  ({ ft with
      flows := kept
      numFlows := ft.numFlows - Int32.ofNat out.length
      flowsExpired := ft.flowsExpired + UInt64.ofNat out.length }, out)

/-- `ps_flow_table_snapshot`. -/
def FlowTable.snapshot (ft : FlowTable) (lastExportUsec : UInt64) (maxOut : Int32) : List Flow :=
  (ft.flows.filter fun f => f.flowLast > lastExportUsec).take maxOut.toInt.toNat

/-! ## What a packet does

`PacketStep` says once what a packet can do to the table; the accounting below and the properties
of the module are read off it. -/

def flowKeyOf (trackLevel : Int32) (pkt : Bytes) : Option FlowKey :=
  (parseEthernet pkt).map fun pp => (makeFlowKey pp trackLevel).1

def FlowTable.counted (ft : FlowTable) : FlowTable :=
  { ft with totalPackets := ft.totalPackets + 1 }

inductive PacketStep (ft : FlowTable) (pkt : Bytes) (ts : UInt64) : FlowTable × Int32 → Prop where
  /-- An empty frame is refused before it is counted. -/
  | empty (hlen : pkt.length = 0) : PacketStep ft pkt ts (ft, -1)
  | bad (hlen : pkt.length ≠ 0) (hparse : parseEthernet pkt = none) :
      PacketStep ft pkt ts ({ ft.counted with badPackets := ft.badPackets + 1 }, -1)
  | update (hlen : pkt.length ≠ 0) {pp : ParsedPacket} (hparse : parseEthernet pkt = some pp)
      {key : FlowKey} {d : Direction} (hkey : makeFlowKey pp ft.trackLevel = (key, d)) {f : Flow}
      (hfind : treeFind Flow.key flowCompare key ft.flows = some f) :
      PacketStep ft pkt ts
        ({ ft.counted with
            flows := treeModify Flow.key flowCompare key (Flow.update pp d ts) ft.flows }, 0)
  /-- The first packet of a flow, in a full table. -/
  | full (hlen : pkt.length ≠ 0) {pp : ParsedPacket} (hparse : parseEthernet pkt = some pp)
      {key : FlowKey} {d : Direction} (hkey : makeFlowKey pp ft.trackLevel = (key, d))
      (hfind : treeFind Flow.key flowCompare key ft.flows = none) (hfull : ft.numFlows ≥ ft.maxFlows) :
      PacketStep ft pkt ts ({ ft.counted with flowsDropped := ft.flowsDropped + 1 }, -1)
  | start (hlen : pkt.length ≠ 0) {pp : ParsedPacket} (hparse : parseEthernet pkt = some pp)
      {key : FlowKey} {d : Direction} (hkey : makeFlowKey pp ft.trackLevel = (key, d))
      (hfind : treeFind Flow.key flowCompare key ft.flows = none) (hroom : ft.numFlows < ft.maxFlows) :
      PacketStep ft pkt ts
        ({ ft.counted with
            flows := treeInsert Flow.key flowCompare (Flow.start key pp d ts) ft.flows
            numFlows := ft.numFlows + 1 }, 0)

theorem processPacket_step (ft : FlowTable) (pkt : Bytes) (ts : UInt64) :
    PacketStep ft pkt ts (ft.processPacket pkt ts) := by
  unfold FlowTable.processPacket
  by_cases hlen : pkt.length = 0
  · rw [if_pos hlen]
    exact .empty hlen
  rw [if_neg hlen]
  dsimp only
  cases hparse : parseEthernet pkt with
  | none => exact .bad hlen hparse
  | some pp =>
    dsimp only
    cases hkey : makeFlowKey pp ft.trackLevel with
    | mk key d =>
      dsimp only
      cases hfind : treeFind Flow.key flowCompare key ft.flows with
      | some f => exact .update hlen hparse hkey hfind
      | none =>
        dsimp only
        by_cases hfull : ft.numFlows ≥ ft.maxFlows
        · rw [if_pos hfull]
          exact .full hlen hparse hkey hfind hfull
        · rw [if_neg hfull]
          exact .start hlen hparse hkey hfind (Int32.not_le.mp hfull)

end Packetsonde.Flows
