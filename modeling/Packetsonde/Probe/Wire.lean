import Packetsonde.Lib.Chars

/-!
# Packetsonde — what the probes send and receive

The fields that `tcp_probe.c` and `lib/traceroute.c` read from the raw packets that come back.
-/

namespace Packetsonde.Probe

open Packetsonde.Lib

abbrev Ipv4 := Vector UInt8 4

/-- `inet_ntop(AF_INET, …)`. -/
def inetNtop (a : Ipv4) : Bytes :=
  natDecimal a[0].toNat ++ asc "." ++ natDecimal a[1].toNat ++ asc "." ++ natDecimal a[2].toNat
    ++ asc "." ++ natDecimal a[3].toNat

def ipprotoTcp : UInt8 := 6

def tcpFlagSyn : UInt8 := 0x02
def tcpFlagRst : UInt8 := 0x04
def tcpFlagAck : UInt8 := 0x10

/-! ## Fields of a received packet -/

def u8At (pkt : Bytes) (off : Nat) : UInt8 := pkt.getD off 0

def u16At (pkt : Bytes) (off : Nat) : UInt16 :=
  UInt16.ofNat (getBE (bytesAt pkt off 2).toList)

def u32At (pkt : Bytes) (off : Nat) : UInt32 :=
  UInt32.ofNat (getBE (bytesAt pkt off 4).toList)

def ipv4At (pkt : Bytes) (off : Nat) : Ipv4 := bytesAt pkt off 4

/-- `(p[0] & 0x0f) * 4`. -/
def headerLen (pkt : Bytes) (off : Nat) : Nat := (u8At pkt off &&& 0x0f).toNat * 4

/-- The packet is a TCP segment with `SYN` and `ACK` or with `RST`, from `addr` and `port`. -/
structure IsTcpReply (pkt : Bytes) (addr : Ipv4) (port : Int) : Prop where
  header : 20 ≤ headerLen pkt 0
  whole : headerLen pkt 0 + 20 ≤ pkt.length
  tcp : u8At pkt 9 = ipprotoTcp
  source : ipv4At pkt 12 = addr
  sourcePort : (u16At pkt (headerLen pkt 0)).toNat = port
  flags :
    u8At pkt (headerLen pkt 0 + 13) &&& (tcpFlagSyn ||| tcpFlagAck) = tcpFlagSyn ||| tcpFlagAck ∨
      u8At pkt (headerLen pkt 0 + 13) &&& tcpFlagRst ≠ 0

instance (pkt : Bytes) (addr : Ipv4) (port : Int) : Decidable (IsTcpReply pkt addr port) :=
  decidable_of_iff (20 ≤ headerLen pkt 0 ∧ headerLen pkt 0 + 20 ≤ pkt.length ∧
      u8At pkt 9 = ipprotoTcp ∧ ipv4At pkt 12 = addr ∧
      ((u16At pkt (headerLen pkt 0)).toNat : Int) = port ∧
      (u8At pkt (headerLen pkt 0 + 13) &&& (tcpFlagSyn ||| tcpFlagAck) = tcpFlagSyn ||| tcpFlagAck ∨
        u8At pkt (headerLen pkt 0 + 13) &&& tcpFlagRst ≠ 0))
    ⟨fun ⟨h, w, t, s, p, f⟩ => ⟨h, w, t, s, p, f⟩, fun ⟨h, w, t, s, p, f⟩ => ⟨h, w, t, s, p, f⟩⟩

/-- The address 10.0.0.`host`. -/
def localHost (host : UInt8) : Ipv4 := #v[10, 0, 0, host]

end Packetsonde.Probe
