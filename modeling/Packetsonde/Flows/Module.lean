import Packetsonde.Flows.Exporter

/-!
# Packetsonde — the flow tracker module (`flow_tracker_mod.c`)

The callbacks the agent's main loop runs: jobs that start and stop captures, captured packets, ticks
that expire and snapshot the table, and the shutdown that flushes it. The flow table and the exporter
are those of `Flows.Table` and `Flows.Exporter`; the status messages and log lines are left out.
-/

namespace Packetsonde.Flows

open Packetsonde.Lib

def ftModMaxFlows : Int32 := 65536
def ftModTrackLevel : Int32 := trackIpProtoPort
def ftModExpireIntervalUs : UInt64 := 10 * 1000000
def ftModExpireBatch : Int32 := 256
def ftModMaxInterfaces : Nat := 8

/-- `struct ft_capture_slot`; a slot without a handle is inactive. -/
structure CaptureSlot where
  pcapHandle : Int32 := -1
  interface : Bytes := []
  deriving DecidableEq, Repr

/-- `struct flow_mod_state`. -/
structure FlowMod where
  table : FlowTable
  exporter : Session
  lastExpireTime : UInt64 := 0
  lastSnapshotTime : UInt64 := 0
  slots : List CaptureSlot
  activeCount : Int32 := 0
  deriving DecidableEq, Repr

namespace FlowMod

/-- `ft_mod_init` with the version and source id of the environment. -/
def init (sourceId : UInt32) (version : Int32) (bootTimeSec : UInt64) : Option FlowMod :=
  match NfExporter.create sourceId version bootTimeSec with
  | none => none
  | some exp => some
    { table := .create ftModMaxFlows ftModTrackLevel
      exporter := { exp }
      slots := List.replicate ftModMaxInterfaces {} }

/-- The index of `find_slot_by_iface`. -/
def findSlotByIface (st : FlowMod) (iface : Bytes) : Option Nat :=
  st.slots.findIdx? fun slot => slot.pcapHandle ≥ 0 ∧ slot.interface = iface

/-- The index of `find_free_slot`. -/
def findFreeSlot (st : FlowMod) : Option Nat :=
  st.slots.findIdx? fun slot => slot.pcapHandle < 0

/-- `ft_mod_on_job`: the action is in `job_id`, the interface in `destination`. `openPcap` is the
answer of the privileged worker. -/
def onJob (openPcap : Bytes → Int32) (method action iface : Bytes) (st : FlowMod) :
    FlowMod × Int32 :=
  if method ≠ asc "flow_control" then (st, 0)
  else if action = asc "start" ∧ iface ≠ [] then
    match st.findSlotByIface iface with
    | some _ => (st, 0)
    | none =>
      match st.findFreeSlot with
      | none => (st, -1)
      | some i =>
        let handle := openPcap iface
        if handle < 0 then (st, -1)
        else
          -- `strncpy` into an array of 64
          let slot := { pcapHandle := handle, interface := iface.take 63 }
          ({ st with slots := st.slots.set i slot, activeCount := st.activeCount + 1 }, 0)
  else if action = asc "stop" ∧ iface ≠ [] then
    match st.findSlotByIface iface with
    | none => (st, 0)
    | some i => ({ st with slots := st.slots.set i {}, activeCount := st.activeCount - 1 }, 0)
  else if action = asc "stop_all" then
    ({ st with
        slots := st.slots.map fun slot => if slot.pcapHandle ≥ 0 then {} else slot
        activeCount := 0 }, 0)
  else if action = asc "status" then (st, 0)
  else (st, -1)

/-- `ft_mod_on_packet`. -/
def onPacket (pkt : Bytes) (tsUsec : UInt64) (handleId : Int32) (st : FlowMod) : FlowMod :=
  if st.slots.any fun slot => slot.pcapHandle = handleId then
    { st with table := (st.table.processPacket pkt tsUsec).1 }
  else st

def tooEarly (st : FlowMod) (nowUsec : UInt64) : Bool :=
  st.lastExpireTime ≠ 0 ∧ nowUsec - st.lastExpireTime < ftModExpireIntervalUs

/-- `ft_mod_tick`. -/
def tick (w : World) (nowUsec : UInt64) (st : FlowMod) : FlowMod :=
  if st.tooEarly nowUsec then st
  else
    let (table, expired) := st.table.expire nowUsec ftModExpireBatch
    let exporter := if expired ≠ [] then (st.exporter.send w expired).1 else st.exporter
    let active := table.snapshot st.lastSnapshotTime ftModExpireBatch
    let exporter := if active ≠ [] then (exporter.send w active).1 else exporter
    { st with table, exporter, lastExpireTime := nowUsec, lastSnapshotTime := nowUsec }

/-- `UINT64_MAX`. -/
def flushTs : UInt64 := 0xFFFFFFFFFFFFFFFF

/-- The loop of the flush: passes of the expiry until one is not full. -/
def flushLoop (w : World) : Nat → FlowTable → Session → FlowTable × Session
  | 0, table, exporter => (table, exporter)
  | fuel + 1, table, exporter =>
    let (table, expired) := table.expire flushTs ftModExpireBatch
    let exporter := if expired ≠ [] then (exporter.send w expired).1 else exporter
    if expired.length = 256 then flushLoop w fuel table exporter else (table, exporter)

/-- `ft_mod_shutdown`: the table and the exporter when they are destroyed. Every full pass removes
256 flows. -/
def shutdown (w : World) (st : FlowMod) : FlowTable × Session :=
  flushLoop w (st.table.flows.length + 1) st.table st.exporter

end FlowMod

inductive ModEvent where
  | job (openPcap : Bytes → Int32) (method action iface : Bytes)
  | packet (pkt : Bytes) (tsUsec : UInt64) (handleId : Int32)
  | tick (nowUsec : UInt64)

def FlowMod.step (w : World) (st : FlowMod) : ModEvent → FlowMod
  | .job openPcap method action iface => (st.onJob openPcap method action iface).1
  | .packet pkt ts handle => st.onPacket pkt ts handle
  | .tick now => st.tick w now

def FlowMod.run (w : World) (st : FlowMod) (events : List ModEvent) : FlowMod :=
  events.foldl (FlowMod.step w) st

theorem FlowMod.run_append (w : World) (st : FlowMod) (events : List ModEvent) (e : ModEvent) :
    st.run w (events ++ [e]) = (st.run w events).step w e := by
  unfold FlowMod.run
  rw [List.foldl_append]
  rfl

/-- The flow that receives a packet, if the module counts it: the handle is one of its captures and
the table takes the packet. -/
def FlowMod.receives (st : FlowMod) (pkt : Bytes) (tsUsec : UInt64) (handleId : Int32) :
    Option FlowKey :=
  if (st.slots.any fun slot => slot.pcapHandle = handleId)
      ∧ (st.table.processPacket pkt tsUsec).2 = 0 then
    flowKeyOf st.table.trackLevel pkt
  else none

def FlowMod.expiredBy (st : FlowMod) (now : UInt64) : List Flow :=
  (st.table.expire now ftModExpireBatch).2

def FlowMod.snapshotBy (st : FlowMod) (now : UInt64) : List Flow :=
  (st.table.expire now ftModExpireBatch).1.snapshot st.lastSnapshotTime ftModExpireBatch

/-! ## What the callbacks leave alone -/

section

variable {w : World} {st : FlowMod}

/-- A job touches neither the table nor the exporter. -/
theorem onJob_table (openPcap : Bytes → Int32) (method action iface : Bytes) :
    (st.onJob openPcap method action iface).1.table = st.table ∧
      (st.onJob openPcap method action iface).1.exporter = st.exporter := by
  unfold FlowMod.onJob
  split
  · exact ⟨rfl, rfl⟩
  split
  · split
    · exact ⟨rfl, rfl⟩
    · split
      · exact ⟨rfl, rfl⟩
      · dsimp only
        split <;> exact ⟨rfl, rfl⟩
  split
  · split <;> exact ⟨rfl, rfl⟩
  split
  · exact ⟨rfl, rfl⟩
  split <;> exact ⟨rfl, rfl⟩

theorem tick_table (w : World) (st : FlowMod) (now : UInt64) (hrun : st.tooEarly now = false) :
    (st.tick w now).table = (st.table.expire now ftModExpireBatch).1 := by
  unfold FlowMod.tick
  rw [hrun]
  rfl

theorem tick_tooEarly (w : World) (st : FlowMod) (now : UInt64) (hearly : st.tooEarly now = true) :
    st.tick w now = st := by
  unfold FlowMod.tick
  rw [if_pos hearly]

/-! ## What a packet does to the flows -/

/-- The flows after a packet that a flow receives. -/
inductive Reception (st : FlowMod) (pkt : Bytes) (ts : UInt64) (key : FlowKey) (flows : List Flow) :
    Prop where
  | update {pp : ParsedPacket} {d : Direction} (hparse : parseEthernet pkt = some pp)
      (hkey : makeFlowKey pp st.table.trackLevel = (key, d)) {f : Flow}
      (hfind : treeFind Flow.key flowCompare key st.table.flows = some f)
      (hflows : flows =
        treeModify Flow.key flowCompare key (Flow.update pp d ts) st.table.flows)
  | start {pp : ParsedPacket} {d : Direction} (hparse : parseEthernet pkt = some pp)
      (hkey : makeFlowKey pp st.table.trackLevel = (key, d))
      (hfind : treeFind Flow.key flowCompare key st.table.flows = none)
      (hflows : flows =
        treeInsert Flow.key flowCompare (Flow.start key pp d ts) st.table.flows)

variable {pkt : Bytes} {ts : UInt64} {handle : Int32}

theorem onPacket_of_receives {key : FlowKey} (h : st.receives pkt ts handle = some key) :
    Reception st pkt ts key (st.onPacket pkt ts handle).table.flows := by
  unfold FlowMod.receives at h
  obtain ⟨⟨hslot, htaken⟩, hkey⟩ := Option.ite_none_right_eq_some.mp h
  unfold FlowMod.onPacket
  rw [if_pos hslot]
  have hstep := processPacket_step st.table pkt ts
  dsimp only
  generalize st.table.processPacket pkt ts = r at hstep htaken ⊢
  have hrefused : (-1 : Int32) ≠ 0 := by decide
  cases hstep with
  | empty | bad | full => exact absurd htaken hrefused
  | @update hlen pp hparse key' d hkey' f hfind =>
    unfold flowKeyOf at hkey
    rw [hparse, Option.map_some, hkey', Option.some.injEq] at hkey
    subst hkey
    exact .update hparse hkey' hfind rfl
  | @start hlen pp hparse key' d hkey' hfind hroom =>
    unfold flowKeyOf at hkey
    rw [hparse, Option.map_some, hkey', Option.some.injEq] at hkey
    subst hkey
    exact .start hparse hkey' hfind rfl

/-- A packet no flow receives leaves the flows alone. -/
theorem onPacket_of_receives_none (h : st.receives pkt ts handle = none) :
    (st.onPacket pkt ts handle).table.flows = st.table.flows := by
  unfold FlowMod.receives at h
  unfold FlowMod.onPacket
  by_cases hslot : (st.slots.any fun slot => slot.pcapHandle = handle) = true
  · rw [if_pos hslot]
    have hstep := processPacket_step st.table pkt ts
    by_cases htaken : (st.table.processPacket pkt ts).2 = 0
    · rw [if_pos ⟨hslot, htaken⟩] at h
      unfold flowKeyOf at h
      rw [Option.map_eq_none_iff] at h
      dsimp only
      generalize st.table.processPacket pkt ts = r at hstep ⊢
      cases hstep with
      | empty | bad => rfl
      | update hlen hparse | full hlen hparse | start hlen hparse =>
        rw [h] at hparse
        cases hparse
    · dsimp only
      generalize st.table.processPacket pkt ts = r at hstep htaken ⊢
      cases hstep with
      | empty | bad | full => rfl
      | update | start => exact absurd rfl htaken
  · rw [if_neg hslot]

end

/-- A module of NetFlow v9 with a capture on `eth0`. -/
def capturing : FlowMod where
  table := .create ftModMaxFlows ftModTrackLevel
  exporter := { exp := { version := 9, sourceId := 0x5053, bootTimeSec := 0 } }
  slots := { pcapHandle := 0, interface := asc "eth0" } :: List.replicate 7 {}
  activeCount := 1

def idleMod : FlowMod :=
  { capturing with slots := List.replicate 8 {}, activeCount := 0 }

end Packetsonde.Flows
