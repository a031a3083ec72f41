import Packetsonde.Probe.Wire

/-!
# Packetsonde — the traceroute of the command line (`lib/traceroute.c`)

A walk sends one probe for each TTL and reports one hop for it. What answers comes in on one ICMP
socket, which every trace of the host shares. The UDP and the TCP walk take the first datagram that is a
`Time Exceeded` or an `Unreachable`, without a look at the packet it quotes; the ICMP walk reads on until
a datagram carries its own identifier and the TTL as sequence number.

`Exchange` is one probe with what the walk read while it waited for that probe. A run keeps the list of
them, so that a hop can be held against the packets behind it (`Probe/WalkHops.lean`).

What the system answers is data of the run (`Net`). A round trip time is a difference of two clock
readings and given with the answer; `timeout_ms` only says how long the system waits and is left out.
-/

namespace Packetsonde.Probe.Walk

open Packetsonde.Lib
open Packetsonde.Probe

/-- `enum ps_tr_proto`. -/
inductive Proto where
  | udp
  | tcp
  | icmp
  deriving DecidableEq, Repr

/-- `enum ps_tr_mode`. -/
inductive Mode where
  | classic
  | paris
  | dublin
  deriving DecidableEq, Repr

/-- `struct ps_traceroute_opts`. -/
structure Opts where
  proto : Proto
  mode : Mode
  maxHops : Int32
  dstPort : UInt16
  flowCount : Int32
  maxGap : Int32
  deriving DecidableEq, Repr

/-- `struct ps_tr_hop`. -/
structure Hop where
  ttl : Nat
  addr : Bytes := []
  rttUs : Int := 0
  reachedDst : Bool := false
  deriving DecidableEq, Repr

abbrev tracerouteMaxHops : Nat := 64

def Opts.hops (opts : Opts) : Nat :=
  min tracerouteMaxHops (if opts.maxHops > 0 then opts.maxHops.toInt.toNat else 30)

def Opts.flows (opts : Opts) : Nat :=
  min 32 (if opts.flowCount > 0 then opts.flowCount.toInt.toNat else 8)

/-! ## The system -/

/-- What `recvfrom` returns. -/
structure Datagram where
  bytes : Bytes
  source : Ipv4
  deriving DecidableEq, Repr

/-- The header fields of a probe. The system fills in the source address and the IP identifier. -/
structure Sent where
  proto : Proto
  ttl : Nat
  src : Ipv4
  dst : Ipv4
  ipId : UInt16
  srcPort : UInt16
  dstPort : UInt16
  deriving DecidableEq, Repr

structure Exchange where
  probe : Sent
  /-- What was read from the ICMP socket, the last one first. -/
  answers : List Datagram := []
  /-- `connect` came to an end: the destination accepted the connection or refused it. -/
  accepted : Bool := false
  deriving DecidableEq, Repr

/-- The two sets as `select` leaves them, what is then read, and `SO_ERROR`. -/
structure Ready where
  icmp : Bool
  tcp : Bool
  answer : Option Datagram
  icmpRttUs : Int
  soError : Int32
  tcpRttUs : Int
  deriving DecidableEq, Repr

/-- `ps_tr_hop_cb`: the new state of the consumer, and whether the walk is to stop. -/
abbrev HopCb (σ : Type) := σ → Hop → σ × Bool

/-- `struct ps_tr_sink`, less the callback. -/
structure Sink where
  maxGap : Int32
  seenLive : Bool := false
  consecDead : Nat := 0
  stopped : Bool := false
  deriving DecidableEq, Repr

structure Run (σ : Type) where
  sink : Sink
  user : σ
  log : List Exchange := []

section

variable {σ : Type}

/-- The sink after a hop that the consumer took: `seen_live` and `consec_dead`. -/
def Sink.count (s : Sink) (hop : Hop) : Sink :=
  if hop.addr ≠ [] then { s with seenLive := true, consecDead := 0 }
  else { s with consecDead := s.consecDead + 1 }

/-- There is a limit on silent hops, and a hop that answered is that far back. -/
def Sink.gap (s : Sink) : Bool :=
  0 < s.maxGap ∧ s.seenLive ∧ s.maxGap.toInt ≤ s.consecDead

/-- `ps_tr_sink_emit`. -/
def sinkEmit (cb : HopCb σ) (r : Run σ) (hop : Hop) : Run σ × Bool :=
  if r.sink.stopped then (r, true)
  else
    match cb r.user hop with
    | (user, true) => ({ r with sink := { r.sink with stopped := true }, user }, true)
    | (user, false) =>
      let sink := r.sink.count hop
      if hop.reachedDst ∨ sink.gap then
        ({ r with sink := { sink with stopped := true }, user }, true)
      else ({ r with sink, user }, false)

def icmpUnreach : UInt8 := 3
def icmpTimxceed : UInt8 := 11
/-- `struct dublin_dedup`, with the consumer of the outer sink. -/
structure DublinDedup (σ : Type) where
  user : σ
  seen : List (Nat × Bytes) := []
  stop : Bool := false

/-- `dublin_cb`. -/
def dublinCb (cb : HopCb σ) : HopCb (DublinDedup σ) := fun d h =>
  if (h.ttl, h.addr) ∈ d.seen then (d, false)
  else if d.seen.length ≥ tracerouteMaxHops then ({ d with stop := true }, true)
  else
    let d := { d with seen := d.seen ++ [(h.ttl, h.addr)] }
    match cb d.user h with
    | (user, true) => ({ d with user, stop := true }, true)
    | (user, false) => ({ d with user }, false)

end

end Packetsonde.Probe.Walk
