import Packetsonde.Lib.Bytes

/-!
# Packetsonde — frames and flow keys (`flow_tracker.c`)

The parser of raw Ethernet frames (IPv4, IPv6 with its extension headers, one 802.1Q tag) and the
canonical flow key made from what it finds. A parser that returns `-1` is `none`; a result always
has `valid = 1`, which is therefore no field here. `pkt + off` with `len - off` is `pkt.drop off`:
the parser never looks behind `len`.
-/

namespace Packetsonde.Flows

open Packetsonde.Lib

def afInet : UInt8 := 2
def afInet6 : UInt8 := 10

/-! ## Constants -/

def ethHlen : Nat := 14
def ethPIp : UInt16 := 0x0800
def ethPIpv6 : UInt16 := 0x86DD
def ethP8021q : UInt16 := 0x8100

def ipprotoTcp : UInt8 := 6
def ipprotoUdp : UInt8 := 17
def ipprotoIcmp : UInt8 := 1
def ipprotoIcmpv6 : UInt8 := 58

def ip6NhHopByHop : UInt8 := 0
def ip6NhRouting : UInt8 := 43
def ip6NhFragment : UInt8 := 44
def ip6NhDestOpts : UInt8 := 60
def ip6NhAh : UInt8 := 51
def ip6NhEsp : UInt8 := 50
def ip6NhNone : UInt8 := 59

/-- `PS_TRACK_*`. -/
def trackIpProto : Int32 := 1
def trackIpProtoPort : Int32 := 2
def trackFull : Int32 := 3
def trackFullVlan : Int32 := 4

/-! ## Parsing -/

/-- `uint8_t src_addr[16]`; IPv4 uses the first four bytes. -/
abbrev Addr := Vector UInt8 16

/-- `struct parsed_packet`. -/
structure ParsedPacket where
  af : UInt8 := 0
  proto : UInt8 := 0
  srcAddr : Addr := Vector.replicate 16 0
  dstAddr : Addr := Vector.replicate 16 0
  srcPort : UInt16 := 0
  dstPort : UInt16 := 0
  vlanId : UInt16 := 0
  tos : UInt8 := 0
  flowLabel : UInt32 := 0
  /-- IP total length. -/
  payloadLen : UInt32 := 0
  tcpFlags : UInt8 := 0
  deriving DecidableEq, Repr

def readU16Be (p : Bytes) (off : Nat) : UInt16 :=
  (p.getD off 0).toUInt16 <<< 8 ||| (p.getD (off + 1) 0).toUInt16

/-- `memcpy` of `n` address bytes at `off` into sixteen zero bytes. -/
def addrAt (p : Bytes) (off n : Nat) : Addr :=
  Vector.ofFn fun i => if i.val < n then p.getD (off + i) 0 else 0

def isIpv6ExtHeader (nh : UInt8) : Bool :=
  nh == ip6NhHopByHop || nh == ip6NhRouting || nh == ip6NhFragment || nh == ip6NhDestOpts
    || nh == ip6NhAh

def parseTransport (pkt : Bytes) (proto : UInt8) (pp : ParsedPacket) : ParsedPacket :=
  if proto = ipprotoTcp ∧ pkt.length ≥ 14 then
    { pp with proto, srcPort := readU16Be pkt 0, dstPort := readU16Be pkt 2,
              tcpFlags := pkt.getD 13 0 }
  else if proto = ipprotoUdp ∧ pkt.length ≥ 4 then
    { pp with proto, srcPort := readU16Be pkt 0, dstPort := readU16Be pkt 2 }
  else { pp with proto }

def parseIpv4 (pkt : Bytes) (pp : ParsedPacket) : Option ParsedPacket :=
  let verIhl := pkt.getD 0 0
  let ihl := (verIhl &&& 0x0f).toNat * 4
  let totalLen := readU16Be pkt 2
  if pkt.length < 20 then none
  else if verIhl >>> 4 ≠ 4 then none
  else if ihl < 20 ∨ ihl > pkt.length then none
  else if totalLen.toNat < ihl then none
  else
    -- clamped to the captured length
    let totalLen := if totalLen.toNat > pkt.length then UInt16.ofNat pkt.length else totalLen
    let pp :=
      { pp with af := afInet, tos := pkt.getD 1 0, payloadLen := totalLen.toUInt32,
                srcAddr := addrAt pkt 12 4, dstAddr := addrAt pkt 16 4 }
    let proto := pkt.getD 9 0
    if pkt.length > ihl then some (parseTransport (pkt.drop ihl) proto pp)
    else some { pp with proto }

/-- The size of an extension header, by the number that announced it. -/
def extSize (nextHeader extLen : UInt8) : Nat :=
  if nextHeader = ip6NhFragment then 8
  else if nextHeader = ip6NhAh then (extLen.toNat + 2) * 4
  else (extLen.toNat + 1) * 8

/-- The walk over the extension headers, at most `safety` of them. -/
def skipExtHeaders (pkt : Bytes) : Nat → UInt8 → Nat → UInt8 × Nat
  | 0, nextHeader, offset => (nextHeader, offset)
  | safety + 1, nextHeader, offset =>
    if isIpv6ExtHeader nextHeader ∧ offset + 2 ≤ pkt.length then
      skipExtHeaders pkt safety (pkt.getD offset 0)
        (offset + extSize nextHeader (pkt.getD (offset + 1) 0))
    else (nextHeader, offset)

def parseIpv6 (pkt : Bytes) (pp : ParsedPacket) : Option ParsedPacket :=
  let b0 := pkt.getD 0 0
  let b1 := pkt.getD 1 0
  if pkt.length < 40 then none
  else if b0 >>> 4 ≠ 6 then none
  else
    let payloadLen := 40 + (readU16Be pkt 4).toUInt32
    let pp :=
      { pp with
        tos := (b0 &&& 0x0f) <<< 4 ||| b1 >>> 4
        flowLabel := (b1 &&& 0x0f).toUInt32 <<< 16 ||| (pkt.getD 2 0).toUInt32 <<< 8
          ||| (pkt.getD 3 0).toUInt32
        af := afInet6
        payloadLen := if payloadLen.toNat > pkt.length then UInt32.ofNat pkt.length else payloadLen
        srcAddr := addrAt pkt 8 16
        dstAddr := addrAt pkt 24 16 }
    let (nextHeader, offset) := skipExtHeaders pkt 10 (pkt.getD 6 0) 40
    -- nothing behind these can be parsed
    if nextHeader = ip6NhEsp ∨ nextHeader = ip6NhNone then some { pp with proto := nextHeader }
    else if offset < pkt.length then some (parseTransport (pkt.drop offset) nextHeader pp)
    else some { pp with proto := nextHeader }

/-- `parse_ethernet` behind the (possibly tagged) EtherType. -/
def parseIp (ethertype : UInt16) (payload : Bytes) (pp : ParsedPacket) : Option ParsedPacket :=
  if ethertype = ethPIp then parseIpv4 payload pp
  else if ethertype = ethPIpv6 then parseIpv6 payload pp
  else none

def parseEthernet (pkt : Bytes) : Option ParsedPacket :=
  let ethertype := readU16Be pkt 12
  let payload := pkt.drop ethHlen
  if pkt.length < ethHlen then none
  else if ethertype = ethP8021q then
    if payload.length < 4 then none
    else parseIp (readU16Be payload 2) (payload.drop 4) { vlanId := readU16Be payload 0 &&& 0x0FFF }
  else parseIp ethertype payload {}

/-! ## Flow keys -/

/-- `struct ps_flow_key`: the lower address is in `srcAddr`. -/
structure FlowKey where
  af : UInt8
  proto : UInt8
  srcAddr : Addr
  dstAddr : Addr
  srcPort : UInt16
  dstPort : UInt16
  vlanId : UInt16
  tos : UInt8
  deriving DecidableEq, Repr

/-- The index into the two counters of a flow: 0 forward, 1 reverse. -/
inductive Direction where
  | forward
  | reverse
  deriving DecidableEq, Repr

/-- `make_flow_key`. -/
def makeFlowKey (pp : ParsedPacket) (trackLevel : Int32) : FlowKey × Direction :=
  let addrLen := if pp.af = afInet then 4 else 16
  let cmp := compare (pp.srcAddr.toList.take addrLen) (pp.dstAddr.toList.take addrLen)
  let key : FlowKey :=
    { af := pp.af
      proto := if trackLevel ≥ trackIpProto then pp.proto else 0
      tos := if trackLevel ≥ trackFull then pp.tos else 0
      vlanId := if trackLevel ≥ trackFullVlan then pp.vlanId else 0
      srcAddr := addrAt pp.srcAddr.toList 0 addrLen
      dstAddr := addrAt pp.dstAddr.toList 0 addrLen
      srcPort := if trackLevel ≥ trackIpProtoPort then pp.srcPort else 0
      dstPort := if trackLevel ≥ trackIpProtoPort then pp.dstPort else 0 }
  if cmp = .lt ∨ (cmp = .eq ∧ pp.srcPort ≤ pp.dstPort) then (key, .forward)
  else
    ({ key with srcAddr := key.dstAddr, dstAddr := key.srcAddr,
                srcPort := key.dstPort, dstPort := key.srcPort }, .reverse)

def putU16Le (v : UInt16) : Bytes := [v.toUInt8, (v >>> 8).toUInt8]

/-- The bytes of a key in memory, with the padding byte `memset` left zero. -/
def keyBytes (k : FlowKey) : Bytes :=
  [k.af, k.proto] ++ k.srcAddr.toList ++ k.dstAddr.toList ++ putU16Le k.srcPort
    ++ putU16Le k.dstPort ++ putU16Le k.vlanId ++ [k.tos, 0]

/-- `flow_compare`: `memcmp` of two keys. -/
def flowCompare (a b : FlowKey) : Ordering :=
  compare (keyBytes a) (keyBytes b)

theorem putU16Le_injective {v w : UInt16} (h : putU16Le v = putU16Le w) : v = w := by
  unfold putU16Le at h
  injection h with hlow hrest
  injection hrest with hhigh _
  have hlow : v.toNat % 256 = w.toNat % 256 := by simpa using congrArg UInt8.toNat hlow
  have hhigh : v.toNat / 256 % 256 = w.toNat / 256 % 256 := by
    simpa [Nat.shiftRight_eq_div_pow] using congrArg UInt8.toNat hhigh
  apply UInt16.toNat_inj.mp
  have hv : v.toNat < 65536 := v.toNat_lt
  have hw : w.toNat < 65536 := w.toNat_lt
  omega

theorem keyBytes_injective : Function.Injective keyBytes := by
  intro a b h
  unfold keyBytes at h
  -- every field has its own fixed place
  simp only [List.cons_append, List.nil_append, List.append_assoc, List.cons.injEq] at h
  obtain ⟨haf, hproto, h⟩ := h
  obtain ⟨hsrc, h⟩ := List.append_inj h (by simp)
  obtain ⟨hdst, h⟩ := List.append_inj h (by simp)
  obtain ⟨hsport, h⟩ := List.append_inj h (by simp [putU16Le])
  obtain ⟨hdport, h⟩ := List.append_inj h (by simp [putU16Le])
  obtain ⟨hvlan, h⟩ := List.append_inj h (by simp [putU16Le])
  injection h with htos _
  cases a
  cases b
  simp only [FlowKey.mk.injEq]
  exact ⟨haf, hproto, Vector.toList_inj.mp hsrc, Vector.toList_inj.mp hdst,
    putU16Le_injective hsport, putU16Le_injective hdport, putU16Le_injective hvlan, htos⟩

instance : Std.LawfulEqCmp flowCompare where
  compare_self {k} := Std.ReflCmp.compare_self (a := keyBytes k)
  eq_of_compare h := keyBytes_injective (Std.LawfulEqCmp.eq_of_compare h)

end Packetsonde.Flows
