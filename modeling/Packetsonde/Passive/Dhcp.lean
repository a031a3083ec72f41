import Packetsonde.Central.JsonWriter
import Packetsonde.Lib.Scan
import Packetsonde.Passive.Registry
import Packetsonde.Probe.Wire

/-!
# Packetsonde — the DHCP listener (`dhcp_listener.c`)

The module reads the leases out of DHCPv4 ACKs and DHCPv6 Replies and publishes one event each. It takes
only frames of its own capture, `st->pcap_handle`. That is -1 from `dhcp_init` on: the module opens no
capture, since the agent opens one for all of them, and nobody else sets the field. A frame has the
handle of an open capture, so no frame gets past the comparison (**`lease_never_published`**); the
siblings that read the shared captures ignore the handle.

`dhcpEvent` is what the code behind the comparison makes of a frame. `inet_ntop` for IPv6 is a parameter.
-/

namespace Packetsonde.Passive

open Packetsonde.Lib
open Packetsonde.Probe (Ipv4 inetNtop u8At u16At u32At ipv4At headerLen)
open Packetsonde.Central (PsJson)

/-- `struct dhcp_state`. -/
structure DhcpState where
  pcapHandle : Int32
  packetsSeen : UInt64
  eventsPublished : UInt64
  deriving DecidableEq, Repr

/-- `dhcp_init`. -/
def dhcpInit : DhcpState := ⟨-1, 0, 0⟩

/-- `%02x`. -/
def hex2 (c : UInt8) : Bytes :=
  let digit := fun n : Nat => UInt8.ofNat (if n < 10 then 48 + n else 87 + n)
  [digit (c.toNat / 16), digit (c.toNat % 16)]

/-- `format_mac`, of the six bytes at an offset. -/
def formatMac (buf : Bytes) (off : Nat) : Bytes :=
  hex2 (u8At buf off) ++ asc ":" ++ hex2 (u8At buf (off + 1)) ++ asc ":" ++ hex2 (u8At buf (off + 2))
    ++ asc ":" ++ hex2 (u8At buf (off + 3)) ++ asc ":" ++ hex2 (u8At buf (off + 4)) ++ asc ":"
    ++ hex2 (u8At buf (off + 5))

def dhcpJson (mac assignedIp hostname : Bytes) (leaseSeconds : UInt32) (serverIp proto : Bytes) :
    Option Bytes :=
  (((((((PsJson.init 512).objectBegin.keyString (asc "mac") mac).keyString
    (asc "assigned_ip") assignedIp).keyString (asc "hostname") hostname).keyInt
    (asc "lease_seconds") leaseSeconds.toNat).keyString (asc "server_ip") serverIp).keyString
    (asc "proto") proto).objectEnd.finish

/-! ## DHCPv4 -/

def dhcp4OptHostname : UInt8 := 12
def dhcp4OptLeaseTime : UInt8 := 51
def dhcp4OptMsgType : UInt8 := 53
def dhcp4OptServerId : UInt8 := 54
def dhcp4OptEnd : UInt8 := 255
def dhcp4OptPad : UInt8 := 0
def dhcp4MsgAck : UInt8 := 5

structure Options4 where
  msgType : UInt8 := 0
  leaseTime : UInt32 := 0
  serverIp : Ipv4 := Vector.replicate 4 0
  hostname : Bytes := []
  deriving DecidableEq, Repr

def Options4.read (o : Options4) (opt : UInt8) (data : Bytes) : Options4 :=
  if opt = dhcp4OptMsgType then
    if data.length ≥ 1 then { o with msgType := u8At data 0 } else o
  else if opt = dhcp4OptHostname then { o with hostname := data.take 63 }
  else if opt = dhcp4OptLeaseTime then
    if data.length ≥ 4 then { o with leaseTime := u32At data 0 } else o
  else if opt = dhcp4OptServerId then
    if data.length ≥ 4 then { o with serverIp := ipv4At data 0 } else o
  else o

/-- The loop over the options; `fuel` is a bound on the bytes left. -/
def walkOptions4 : Nat → Bytes → Options4 → Options4
  | 0, _, o => o
  | _ + 1, [], o => o
  | fuel + 1, opt :: rest, o =>
    if opt = dhcp4OptPad then walkOptions4 fuel rest o
    else if opt = dhcp4OptEnd then o
    else
      match rest with
      | [] => o
      | olen :: rest =>
        if olen.toNat > rest.length then o
        else walkOptions4 fuel (rest.drop olen.toNat) (o.read opt (rest.take olen.toNat))

/-- `parse_dhcp4`: the event for a DHCP payload. -/
def parseDhcp4 (dhcp : Bytes) : Option Bytes :=
  if dhcp.length < 241 then none
  else if u32At dhcp 236 ≠ 0x63825363 then none
  else
    let o := walkOptions4 dhcp.length (dhcp.drop 240) {}
    if o.msgType ≠ dhcp4MsgAck then none
    else
      dhcpJson (formatMac dhcp 28) (inetNtop (ipv4At dhcp 16)) o.hostname o.leaseTime
        (inetNtop o.serverIp) (asc "v4")

/-! ## DHCPv6 -/

def dhcp6MsgReply : UInt8 := 7
def dhcp6OptClientid : UInt16 := 1
def dhcp6OptIaNa : UInt16 := 3
def dhcp6OptIaaddr : UInt16 := 5

structure Options6 where
  address : Option (Vector UInt8 16) := none
  validLifetime : UInt32 := 0
  mac : Option Bytes := none
  deriving DecidableEq, Repr

/-- Options of a 16-bit type and a 16-bit length, each handed to `read`, up to the first that does not
fit. -/
def walkOptions6 (read : UInt16 → Bytes → Options6 → Options6) : Nat → Bytes → Options6 → Options6
  | 0, _, o => o
  | fuel + 1, rest, o =>
    if rest.length < 4 then o
    else
      let len := (u16At rest 2).toNat
      let rest' := rest.drop 4
      if len > rest'.length then o
      else walkOptions6 read fuel (rest'.drop len) (read (u16At rest 0) (rest'.take len) o)

/-- An option inside `IA_NA`. -/
def readIaaddr (type : UInt16) (data : Bytes) (o : Options6) : Options6 :=
  if type = dhcp6OptIaaddr ∧ data.length ≥ 24 then
    { o with address := some (bytesAt data 0 16), validLifetime := u32At data 20 }
  else o

/-- The hardware address in a DUID with a link-layer address. -/
def duidMac (data : Bytes) : Option Bytes :=
  if u16At data 0 = 1 then if data.length ≥ 14 then some (formatMac data 8) else none
  else if u16At data 0 = 3 then if data.length ≥ 10 then some (formatMac data 4) else none
  else none

def readOption6 (type : UInt16) (data : Bytes) (o : Options6) : Options6 :=
  if type = dhcp6OptIaNa ∧ data.length ≥ 12 then
    walkOptions6 readIaaddr data.length (data.drop 12) o
  else if type = dhcp6OptClientid ∧ data.length ≥ 4 then
    match duidMac data with
    | some mac => { o with mac := some mac }
    | none => o
  else o

section

variable (inetNtop6 : Vector UInt8 16 → Bytes)

/-- `parse_dhcp6`. -/
def parseDhcp6 (dhcp6 : Bytes) : Option Bytes :=
  if dhcp6.length < 4 then none
  else if u8At dhcp6 0 ≠ dhcp6MsgReply then none
  else
    let o := walkOptions6 readOption6 dhcp6.length (dhcp6.drop 4) {}
    match o.address with
    | none => none
    | some address =>
      dhcpJson (o.mac.getD []) (inetNtop6 address) [] o.validLifetime [] (asc "v6")

/-! ## Frames -/

/-- The event for a frame: `dhcp_on_packet` behind the test of the handle. -/
def dhcpEvent (pkt : Bytes) : Option Bytes :=
  if pkt.length < 15 then none
  else if u16At pkt 12 = 0x0800 then
    if pkt.length < 14 + 20 + 8 then none
    else
      let hl := headerLen pkt 14
      if u8At pkt (14 + 9) ≠ 17 then none
      else if 14 + hl + 8 > pkt.length then none
      else
        let dport := u16At pkt (14 + hl + 2)
        if dport ≠ 67 ∧ dport ≠ 68 then none
        else if 14 + hl + 8 ≥ pkt.length then none
        else parseDhcp4 (pkt.drop (14 + hl + 8))
  else if u16At pkt 12 = 0x86DD then
    if pkt.length < 14 + 40 + 8 then none
    else if u8At pkt (14 + 6) ≠ 17 then none
    else
      let dport := u16At pkt (14 + 40 + 2)
      if dport ≠ 546 ∧ dport ≠ 547 then none
      else if 14 + 40 + 8 ≥ pkt.length then none
      else parseDhcp6 inetNtop6 (pkt.drop (14 + 40 + 8))
  else none

/-- `dhcp_on_packet`. -/
def dhcpOnPacket (c : Captured) (st : DhcpState) : DhcpState × List Bytes :=
  if c.handleId ≠ st.pcapHandle then (st, [])
  else
    let st := { st with packetsSeen := st.packetsSeen + 1 }
    match dhcpEvent inetNtop6 c.pkt with
    | none => (st, [])
    | some text => ({ st with eventsPublished := st.eventsPublished + 1 }, [text])

/-- `on_packet` in a registry where `none` is a module other than the listener. -/
def dhcpDispatch (c : Captured) : Option DhcpState → Option DhcpState × List Bytes
  | none => (none, [])
  | some st => ((dhcpOnPacket inetNtop6 c st).1, (dhcpOnPacket inetNtop6 c st).2)

/-! ## Every run -/

/-- The listener has no capture of its own. -/
def Unbound (s : Option DhcpState) : Prop := ∀ st, s = some st → st.pcapHandle = -1

/-- The handle of the listener stays what it was, and nothing equals it. -/
theorem dhcpDispatch_keeps {m : Priv.Msg} {c : Captured} (hc : capturedOf m = some c)
    {s : Option DhcpState} (hs : Unbound s) :
    Unbound (dhcpDispatch inetNtop6 c s).1 ∧ ∀ text ∈ (dhcpDispatch inetNtop6 c s).2, False := by
  have hne := (handleId_nonneg hc).2
  cases s with
  | none => exact ⟨hs, fun text htext => by cases htext⟩
  | some st =>
    have hhandle := hs st rfl
    have hskip : dhcpOnPacket inetNtop6 c st = (st, []) := by
      unfold dhcpOnPacket
      rw [if_pos (by rw [hhandle]; exact hne)]
    simp only [dhcpDispatch, hskip]
    exact ⟨hs, fun text htext => by cases htext⟩

/-- One event, with the client and the address that was assigned. -/
def PublishesLease (events : List Bytes) (client address : Bytes) : Prop :=
  ∃ text, events = [text] ∧ asc "\"mac\":" ++ quoted client <:+: text
    ∧ asc "\"assigned_ip\":" ++ quoted address <:+: text

/-- Whatever modules are enabled, whatever the captures have delivered before, and whatever a message of
the worker holds: the listener publishes no lease for it. -/
theorem lease_never_published (mods : List (Instance Bool)) (msgs : List Priv.Msg) (m : Priv.Msg)
    (client address : Bytes) :
    ¬ PublishesLease (dispatchPrivMsg (dhcpDispatch inetNtop6) m
      (runMsgs (dhcpDispatch inetNtop6) msgs (initAll dhcpInit mods)).1).2 client address := by
  have hrun : ∀ inst ∈ (runMsgs (dhcpDispatch inetNtop6) msgs (initAll dhcpInit mods)).1,
      Unbound inst.state :=
    (runMsgs_keeps (Q := fun _ => False) (fun _ _ _ _ hc hs => dhcpDispatch_keeps inetNtop6 hc hs)
      (forall_mem_initAll (by rintro st ⟨⟩) (by rintro st ⟨⟩; rfl) mods)).1
  have hnone := (dispatchPrivMsg_keeps (C := fun _ _ => True) (m := m) (Q := fun _ => False)
    (fun _ _ hc _ hs => dhcpDispatch_keeps inetNtop6 hc hs) (fun _ _ _ _ => trivial) hrun).2
  rintro ⟨text, heq, -⟩
  exact hnone text (by rw [heq]; exact List.mem_singleton_self text)

end

/-- A DHCPv4 ACK for the client 02:00:00:00:00:07, which gets 192.0.2.7. -/
def ackFrame : Bytes :=
  [0x02, 0, 0, 0, 0, 0x07, 0x02, 0, 0, 0, 0, 0x01, 0x08, 0x00]
    ++ [0x45, 0, 1, 16, 0, 0, 0, 0, 64, 17, 0, 0, 192, 0, 2, 1, 192, 0, 2, 7]
    ++ [0, 67, 0, 68, 0, 252, 0, 0]
    ++ [2, 1, 6, 0, 0, 0, 0, 9, 0, 0, 0, 0, 0, 0, 0, 0, 192, 0, 2, 7, 192, 0, 2, 1, 0, 0, 0, 0]
    ++ [0x02, 0, 0, 0, 0, 0x07] ++ List.replicate 202 0 ++ [0x63, 0x82, 0x53, 0x63]
    ++ [53, 1, 5, 255]

/-- The worker's message for it, from the capture with handle 1. -/
def ackMsg : Priv.Msg where
  opcode := Priv.opPacketData
  status := 0
  handleId := 1
  payload := putLE 8 1000 ++ ackFrame

/-- The lease is there to be read, and the freshly initialised listener does not publish it. -/
theorem ack_not_published :
    PublishesLease (dhcpEvent (fun _ => []) ackFrame).toList (asc "02:00:00:00:00:07")
        (asc "192.0.2.7")
      ∧ ¬ PublishesLease (dispatchPrivMsg (dhcpDispatch fun _ => []) ackMsg
        (initAll dhcpInit [⟨true, true, true⟩])).2 (asc "02:00:00:00:00:07") (asc "192.0.2.7") := by
  constructor
  · have htext : dhcpEvent (fun _ => []) ackFrame = some (
        asc "\x7b\"mac\":\"02:00:00:00:00:07\",\"assigned_ip\":\"192.0.2.7\",\"hostname\":\"\","
          ++ asc "\"lease_seconds\":0,\"server_ip\":\"0.0.0.0\",\"proto\":\"v4\"\x7d") := by
      decide +kernel
    rw [htext]
    exact ⟨_, rfl, by decide +kernel, by decide +kernel⟩
  · have hnone : (dispatchPrivMsg (dhcpDispatch fun _ => []) ackMsg
        (initAll dhcpInit [⟨true, true, true⟩])).2 = [] := by decide +kernel
    rintro ⟨text, heq, -⟩
    rw [hnone] at heq
    cases heq

end Packetsonde.Passive
