import Packetsonde.Flows.Table
import Mathlib.Data.UInt

/-!
# Packetsonde — what the flow table accounts for

A run of the table is a list of calls. Next to the table it collects the flows `expire` returned and
the IP lengths of the accepted packets; `Accounted` is what these add up to after the run. The
conservation laws, the count of nodes and the distinctness of the keys are kept by every call
(`Kept.step`).

The time stamps are not: a packet of an active flow sets `flow_last` whatever it was before, so a
flow that gets a packet from before its start ends before it began. That is the only way it can
(`accounted_iff`).
-/

namespace Packetsonde.Flows

open Packetsonde.Lib
open List

def packetsOf (flows : List Flow) : UInt64 := (flows.map Flow.packetCount).sum
def octetsOf (flows : List Flow) : UInt64 := (flows.map Flow.octetCount).sum

/-! ## The expiry pass -/

/-- The pass splits the flows into those that stay and those it returns. -/
theorem expireWalk_perm (due : Flow → Bool) (maxOut : Int32) (n : Nat) (flows : List Flow) :
    ((expireWalk due maxOut n flows).1 ++ (expireWalk due maxOut n flows).2).Perm flows := by
  induction flows generalizing n with
  | nil => exact .nil
  | cons f rest ih =>
    unfold expireWalk
    split
    · rw [append_nil]
    · split
      · exact perm_middle.trans ((ih (n + 1)).cons f)
      · exact (ih n).cons f

/-- The flows that stay keep their order. -/
theorem expireWalk_sublist (due : Flow → Bool) (maxOut : Int32) (n : Nat) (flows : List Flow) :
    (expireWalk due maxOut n flows).1.Sublist flows := by
  induction flows generalizing n with
  | nil => exact .slnil
  | cons f rest ih =>
    unfold expireWalk
    split
    · exact .refl _
    · split
      · exact (ih (n + 1)).cons f
      · exact (ih n).cons_cons f

variable {due : Flow → Bool} {maxOut : Int32} {n : Nat} {f : Flow} {ft : FlowTable} {now : UInt64}

/-- The pass returns flows that are due. -/
theorem due_of_mem_expireWalk {flows : List Flow} (h : f ∈ (expireWalk due maxOut n flows).2) : due f := by
  induction flows generalizing n with
  | nil => cases h
  | cons g rest ih =>
    unfold expireWalk at h
    split at h
    · cases h
    · split at h
      · rename_i hdue
        rcases mem_cons.mp h with rfl | hrest
        · exact hdue
        · exact ih hrest
      · exact ih h

/-- It returns every flow that is due, or fills `out`. -/
theorem kept_expireWalk (due : Flow → Bool) (maxOut : Int32) (n : Nat) (flows : List Flow) :
    (∀ f ∈ (expireWalk due maxOut n flows).1, due f = false) ∨
      maxOut.toInt ≤ n + (expireWalk due maxOut n flows).2.length := by
  induction flows generalizing n with
  | nil =>
    left
    rintro f ⟨⟩
  | cons g rest ih =>
    unfold expireWalk
    split
    · rename_i hfull
      exact .inr (by simpa using hfull)
    · split
      · rcases ih (n + 1) with hkept | hfull
        · exact .inl hkept
        · right
          dsimp only
          rw [length_cons]
          push_cast at hfull ⊢
          omega
      · rename_i hnot
        rcases ih n with hkept | hfull
        · left
          intro f hf
          rcases mem_cons.mp hf with rfl | hrest
          · exact Bool.not_eq_true _ ▸ hnot
          · exact hkept f hrest
        · exact .inr hfull

/-- `out` is never overrun. -/
theorem length_expireWalk_le {flows : List Flow} (hn : n ≤ maxOut.toInt) :
    n + (expireWalk due maxOut n flows).2.length ≤ maxOut.toInt := by
  induction flows generalizing n with
  | nil =>
    rw [show (expireWalk due maxOut n []).2 = [] from rfl, length_nil]
    simpa using hn
  | cons g rest ih =>
    unfold expireWalk
    split
    · simpa using hn
    · split
      · have hrest := @ih (n + 1) (by push_cast; omega)
        dsimp only
        rw [length_cons]
        push_cast at hrest ⊢
        omega
      · exact ih hn

theorem due_of_mem_expire (h : f ∈ (ft.expire now maxOut).2) : ft.isDue now f = true :=
  due_of_mem_expireWalk h

theorem expire_perm (ft : FlowTable) (now : UInt64) (maxOut : Int32) :
    ((ft.expire now maxOut).1.flows ++ (ft.expire now maxOut).2).Perm ft.flows :=
  expireWalk_perm _ _ _ _

theorem expire_sublist (ft : FlowTable) (now : UInt64) (maxOut : Int32) :
    (ft.expire now maxOut).1.flows.Sublist ft.flows :=
  expireWalk_sublist _ _ _ _

theorem mem_expire_of_due (hf : f ∈ ft.flows) (hdue : ft.isDue now f = true) (maxOut : Int32) :
    f ∈ (ft.expire now maxOut).2 ∨ maxOut.toInt ≤ (ft.expire now maxOut).2.length := by
  rcases kept_expireWalk (ft.isDue now) maxOut 0 ft.flows with hkept | hfull
  · left
    have hmem := (expire_perm ft now maxOut).mem_iff.mpr hf
    refine (mem_append.mp hmem).resolve_left fun hstays => ?_
    exact Bool.false_ne_true ((hkept f hstays).symm.trans hdue)
  · rw [Nat.cast_zero, zero_add] at hfull
    exact .inr hfull

/-- The flows that stay and those returned have the packets and the octets there were. -/
theorem sum_expire (count : Flow → UInt64) (ft : FlowTable) (now : UInt64) (maxOut : Int32) :
    ((ft.expire now maxOut).1.flows.map count).sum + ((ft.expire now maxOut).2.map count).sum =
      (ft.flows.map count).sum := by
  rw [← sum_append, ← map_append]
  exact ((expire_perm ft now maxOut).map count).sum_eq

/-! ## A packet -/

theorem update_packetCount (pp : ParsedPacket) (d : Direction) (ts : UInt64) (f : Flow) :
    (f.update pp d ts).packetCount = f.packetCount + 1 := by
  cases d <;> simp only [Flow.packetCount, Flow.update, PerDirection.modify] <;> ac_rfl

theorem update_octetCount (pp : ParsedPacket) (d : Direction) (ts : UInt64) (f : Flow) :
    (f.update pp d ts).octetCount = f.octetCount + pp.payloadLen.toUInt64 := by
  cases d <;> simp only [Flow.octetCount, Flow.update, PerDirection.modify] <;> ac_rfl

theorem start_packetCount (key : FlowKey) (pp : ParsedPacket) (d : Direction) (ts : UInt64) :
    (Flow.start key pp d ts).packetCount = 1 := by
  cases d <;> rfl

theorem start_octetCount (key : FlowKey) (pp : ParsedPacket) (d : Direction) (ts : UInt64) :
    (Flow.start key pp d ts).octetCount = pp.payloadLen.toUInt64 := by
  cases d <;> simp [Flow.octetCount, Flow.start, PerDirection.modify]

theorem keys_update {key : FlowKey} {pp : ParsedPacket} {d : Direction} {ts : UInt64} {flows : List Flow} :
    (treeModify Flow.key flowCompare key (Flow.update pp d ts) flows).map Flow.key =
      flows.map Flow.key := by
  apply keys_treeModify
  intro f
  rfl

/-! ## Distinct keys -/

variable {ft : FlowTable} {pkt : Bytes}

theorem distinct_processPacket (h : (ft.flows.map Flow.key).Nodup) (pkt : Bytes)
    (ts : UInt64) : ((ft.processPacket pkt ts).1.flows.map Flow.key).Nodup := by
  have hstep := processPacket_step ft pkt ts
  generalize ft.processPacket pkt ts = r at hstep ⊢
  cases hstep with
  | empty | bad | full => exact h
  | update hlen hparse hkey hfind =>
    show ((treeModify _ _ _ _ ft.flows).map Flow.key).Nodup
    rw [keys_update]
    exact h
  | start hlen hparse hkey hfind hroom =>
    exact nodup_treeInsert _ _ (treeFind_eq_none.mp hfind) h

theorem distinct_expire (h : (ft.flows.map Flow.key).Nodup) (now : UInt64)
    (maxOut : Int32) : ((ft.expire now maxOut).1.flows.map Flow.key).Nodup :=
  h.sublist ((expire_sublist ft now maxOut).map Flow.key)

/-! ## Runs -/

inductive Call where
  | processPacket (pkt : Bytes) (tsUsec : UInt64)
  | expire (nowUsec : UInt64) (maxOut : Int32)
  deriving DecidableEq, Repr

/-- The table, the flows `expire` returned so far, and the IP lengths of the accepted packets. -/
structure Ledger where
  table : FlowTable
  returned : List Flow := []
  acceptedOctets : UInt64 := 0

def ipLength (pkt : Bytes) : UInt64 :=
  match parseEthernet pkt with
  | none => 0
  | some pp => pp.payloadLen.toUInt64

def Ledger.step (l : Ledger) : Call → Ledger
  | .processPacket pkt ts =>
    let (table, rc) := l.table.processPacket pkt ts
    { l with
      table
      acceptedOctets := if rc = 0 then l.acceptedOctets + ipLength pkt else l.acceptedOctets }
  | .expire now maxOut =>
    let (table, out) := l.table.expire now maxOut
    { l with table, returned := l.returned ++ out }

def Ledger.run (l : Ledger) (calls : List Call) : Ledger :=
  calls.foldl Ledger.step l

/-- Every packet and every octet is in one place, and the nodes of the tree are counted. -/
structure Kept (l : Ledger) : Prop where
  packets : l.table.totalPackets = l.table.badPackets + l.table.flowsDropped
    + packetsOf l.table.flows + packetsOf l.returned
  octets : l.acceptedOctets = octetsOf l.table.flows + octetsOf l.returned
  count : l.table.numFlows.toInt = l.table.flows.length
  bounded : l.table.numFlows ≤ l.table.maxFlows
  distinct : (l.table.flows.map Flow.key).Nodup

/-- `Kept`, and no flow ends before it starts. -/
structure Accounted (l : Ledger) : Prop extends Kept l where
  ordered : ∀ f ∈ l.table.flows ++ l.returned, f.flowStart ≤ f.flowLast

/-! ## Conservation -/

theorem kept_create (maxFlows trackLevel : Int32) :
    Kept { table := .create maxFlows trackLevel } where
  packets := rfl
  octets := rfl
  count := rfl
  bounded := by
    show (0 : Int32) ≤ if maxFlows > 0 then maxFlows else defaultMaxFlows
    split
    · exact Int32.le_of_lt ‹_›
    · decide
  distinct := nodup_nil

theorem ipLength_of_parse {pp : ParsedPacket} (h : parseEthernet pkt = some pp) :
    ipLength pkt = pp.payloadLen.toUInt64 := by
  rw [ipLength, h]

variable {l : Ledger}

theorem Kept.processPacket (h : Kept l) (pkt : Bytes) (ts : UInt64) :
    Kept (l.step (.processPacket pkt ts)) := by
  have hstep := processPacket_step l.table pkt ts
  have hdistinct := distinct_processPacket h.distinct pkt ts
  unfold Ledger.step
  dsimp only
  generalize l.table.processPacket pkt ts = r at hstep hdistinct ⊢
  have hpackets := h.packets
  have hoctets := h.octets
  cases hstep with
  | empty hlen => exact { h with }
  | bad hlen hparse =>
    refine { h with packets := ?_ }
    dsimp only [FlowTable.counted]
    rw [hpackets]
    ac_rfl
  | full hlen hparse hkey hfind hfull =>
    refine { h with packets := ?_ }
    dsimp only [FlowTable.counted]
    rw [hpackets]
    ac_rfl
  | @update hlen pp hparse key d hkey f hfind =>
    refine { packets := ?_, octets := ?_, count := ?_, bounded := h.bounded, distinct := hdistinct }
      <;> dsimp only [FlowTable.counted]
    · rw [packetsOf, sum_treeModify Flow.packetCount h.distinct hfind (update_packetCount pp d ts f), hpackets,
        packetsOf]
      ac_rfl
    · rw [if_pos rfl, octetsOf, sum_treeModify Flow.octetCount h.distinct hfind (update_octetCount pp d ts f),
        ipLength_of_parse hparse, hoctets, octetsOf]
      ac_rfl
    · rw [length_treeModify]
      exact h.count
  | @start hlen pp hparse key d hkey hfind hroom =>
    have hlt := Int32.lt_iff_toInt_lt.mp hroom
    -- below `max_flows` the count cannot overflow
    have hsucc : (l.table.numFlows + 1).toInt = l.table.numFlows.toInt + 1 := by
      have hmax := l.table.maxFlows.toInt_lt
      have hmin := l.table.numFlows.le_toInt
      rw [Int32.toInt_add, show (1 : Int32).toInt = 1 from rfl]
      apply Int.bmod_eq_of_le <;> omega
    refine { packets := ?_, octets := ?_, count := ?_, bounded := ?_, distinct := hdistinct }
      <;> dsimp only [FlowTable.counted]
    · rw [packetsOf, sum_treeInsert, start_packetCount, hpackets, packetsOf]
      ac_rfl
    · rw [if_pos rfl, octetsOf, sum_treeInsert, start_octetCount, ipLength_of_parse hparse, hoctets, octetsOf]
      ac_rfl
    · rw [length_treeInsert, hsucc, h.count]
      push_cast
      rfl
    · rw [Int32.le_iff_toInt_le, hsucc]
      omega

theorem Kept.expire (h : Kept l) (now : UInt64) (maxOut : Int32) :
    Kept (l.step (.expire now maxOut)) := by
  have hlen : (l.table.expire now maxOut).1.flows.length + (l.table.expire now maxOut).2.length =
      l.table.flows.length := by
    rw [← length_append]
    exact (expire_perm l.table now maxOut).length_eq
  have hcount : (l.table.expire now maxOut).1.numFlows.toInt =
      (l.table.expire now maxOut).1.flows.length := by
    -- no more flows leave than are there, so the subtraction does not wrap
    show (l.table.numFlows - Int32.ofNat (l.table.expire now maxOut).2.length).toInt = _
    have hc := h.count
    have hmax := l.table.numFlows.toInt_lt
    have hout : (Int32.ofNat (l.table.expire now maxOut).2.length).toInt =
        (l.table.expire now maxOut).2.length := by
      apply Int32.toInt_ofNat_of_lt
      omega
    rw [Int32.toInt_sub, hout, hc]
    rw [Int.bmod_eq_of_le] <;> omega
  constructor
  · show l.table.totalPackets = l.table.badPackets + l.table.flowsDropped
      + packetsOf (l.table.expire now maxOut).1.flows
      + packetsOf (l.returned ++ (l.table.expire now maxOut).2)
    rw [h.packets, packetsOf, ← sum_expire Flow.packetCount l.table now maxOut]
    unfold packetsOf
    rw [map_append, sum_append]
    ac_rfl
  · show l.acceptedOctets = octetsOf (l.table.expire now maxOut).1.flows
      + octetsOf (l.returned ++ (l.table.expire now maxOut).2)
    rw [h.octets, octetsOf, ← sum_expire Flow.octetCount l.table now maxOut]
    unfold octetsOf
    rw [map_append, sum_append]
    ac_rfl
  · exact hcount
  · show (l.table.expire now maxOut).1.numFlows ≤ l.table.maxFlows
    have hb := Int32.le_iff_toInt_le.mp h.bounded
    rw [Int32.le_iff_toInt_le, hcount]
    have hc := h.count
    omega
  · exact distinct_expire h.distinct now maxOut

theorem Kept.step (h : Kept l) (c : Call) : Kept (l.step c) := by
  cases c with
  | processPacket pkt ts => exact h.processPacket pkt ts
  | expire now maxOut => exact h.expire now maxOut

/-! ## Time stamps -/

theorem Ledger.run_append (l : Ledger) (calls : List Call) (c : Call) :
    l.run (calls ++ [c]) = (l.run calls).step c := by
  unfold Ledger.run
  rw [foldl_append]
  rfl

def Ordered (l : Ledger) : Prop :=
  ∀ f ∈ l.table.flows ++ l.returned, f.flowStart ≤ f.flowLast

/-- The packet is stamped no earlier than the start of the active flow it belongs to. -/
def NotBeforeStart (ft : FlowTable) (pkt : Bytes) (ts : UInt64) : Prop :=
  ∀ f ∈ ft.flows, flowKeyOf ft.trackLevel pkt = some f.key → f.flowStart ≤ ts

theorem Ordered.expire (h : Ordered l) (now : UInt64) (maxOut : Int32) :
    Ordered (l.step (.expire now maxOut)) := by
  intro f hf
  apply h
  have hmem : f ∈ (l.table.expire now maxOut).1.flows ++ (l.returned ++ (l.table.expire now maxOut).2) :=
    hf
  have hperm := (expire_perm l.table now maxOut).mem_iff (a := f)
  simp only [mem_append] at hmem hperm ⊢
  rcases hmem with hkept | hreturned | hout
  · exact .inl (hperm.mp (.inl hkept))
  · exact .inr hreturned
  · exact .inl (hperm.mp (.inr hout))

theorem Ordered.processPacket (h : Ordered l) {ts : UInt64}
    (hts : NotBeforeStart l.table pkt ts) : Ordered (l.step (.processPacket pkt ts)) := by
  have hstep := processPacket_step l.table pkt ts
  intro f hf
  have hmem : f ∈ (l.table.processPacket pkt ts).1.flows ++ l.returned := hf
  generalize l.table.processPacket pkt ts = r at hstep hmem
  cases hstep with
  | empty | bad | full => exact h f hmem
  | @update hlen pp hparse key d hkey g hfind =>
    rcases mem_append.mp hmem with hactive | hreturned
    · rcases mem_treeModify.mp hactive with ⟨hold, _⟩ | ⟨a, ha, hka, rfl⟩
      · exact h f (mem_append_left _ hold)
      · -- the updated flow keeps its start, and ends with this packet
        apply hts a ha
        rw [flowKeyOf, hparse, Option.map_some, hkey, hka]
    · exact h f (mem_append_right _ hreturned)
  | @start hlen pp hparse key d hkey hfind hroom =>
    rcases mem_append.mp hmem with hactive | hreturned
    · rcases (mem_treeInsert _ _).mp hactive with rfl | hold
      · exact UInt64.le_refl ts
      · exact h f (mem_append_left _ hold)
    · exact h f (mem_append_right _ hreturned)

/-- A packet from before the start of its flow leaves the flow ending before it starts. -/
theorem notBeforeStart_of_ordered {ts : UInt64}
    (h : Ordered (l.step (.processPacket pkt ts))) : NotBeforeStart l.table pkt ts := by
  intro a ha hka
  have hstep := processPacket_step l.table pkt ts
  have hflows : ∀ f ∈ (l.table.processPacket pkt ts).1.flows, f.flowStart ≤ f.flowLast :=
    fun f hf => h f (mem_append_left _ hf)
  have hmem : a.key ∈ l.table.flows.map Flow.key := mem_map_of_mem ha
  have hnone {pp : ParsedPacket} {key : FlowKey} {d : Direction} (hparse : parseEthernet pkt = some pp)
      (hkey : makeFlowKey pp l.table.trackLevel = (key, d)) : key = a.key := by
    rw [flowKeyOf, hparse, Option.map_some, hkey] at hka
    exact Option.some.inj hka
  generalize l.table.processPacket pkt ts = r at hstep hflows
  -- only the update finds a flow with the key of the packet
  cases hstep with
  | empty hlen =>
    have hnil : pkt = [] := length_eq_zero_iff.mp hlen
    subst hnil
    cases hka
  | bad hlen hparse =>
    rw [flowKeyOf, hparse] at hka
    cases hka
  | full hlen hparse hkey hfind hfull =>
    exact absurd (hnone hparse hkey ▸ hmem) (treeFind_eq_none.mp hfind)
  | start hlen hparse hkey hfind hroom =>
    exact absurd (hnone hparse hkey ▸ hmem) (treeFind_eq_none.mp hfind)
  | @update hlen pp hparse key d hkey g hfind =>
    exact hflows (a.update pp d ts)
      (mem_treeModify.mpr (.inr ⟨a, ha, (hnone hparse hkey).symm, rfl⟩))

/-- After every call of a run the table accounts for what it was given, if and only if no packet of
an active flow is stamped before the start of that flow. -/
theorem accounted_iff (maxFlows trackLevel : Int32) (calls : List Call) :
    (∀ done, done <+: calls →
        Accounted (Ledger.run { table := .create maxFlows trackLevel } done)) ↔
      ∀ done pkt ts, done ++ [.processPacket pkt ts] <+: calls →
        NotBeforeStart (Ledger.run { table := .create maxFlows trackLevel } done).table pkt ts := by
  constructor
  · intro h done pkt ts hprefix
    apply notBeforeStart_of_ordered
    rw [← Ledger.run_append]
    exact (h _ hprefix).ordered
  · intro h done
    -- induction on the calls made so far
    induction done using List.reverseRecOn with
    | nil =>
      intro _
      exact { kept_create maxFlows trackLevel with ordered := by intro f hf; cases hf }
    | append_singleton done c ih =>
      intro hprefix
      have hdone := ih ((prefix_append done [c]).trans hprefix)
      rw [Ledger.run_append]
      refine { hdone.toKept.step c with ordered := ?_ }
      cases c with
      | processPacket pkt ts => exact Ordered.processPacket hdone.ordered (h done pkt ts hprefix)
      | expire now maxOut => exact Ordered.expire hdone.ordered now maxOut

/-- A UDP packet from 10.0.0.1:5000 to 10.0.0.2:53 with nothing in it. -/
def udpFrame : Bytes :=
  List.replicate 12 0 ++ [0x08, 0x00]
    ++ [0x45, 0, 0, 28, 0, 0, 0, 0, 64, 17, 0, 0, 10, 0, 0, 1, 10, 0, 0, 2]
    ++ [0x13, 0x88, 0, 53, 0, 8, 0, 0]

/-- Two packets of one flow, the second stamped five microseconds before the first. -/
theorem backdated_packet_not_accounted :
    ¬ Accounted (Ledger.run { table := .create 0 trackIpProtoPort }
        [.processPacket udpFrame 1000010, .processPacket udpFrame 1000005]) := by
  intro h
  have hbad : ∃ f ∈ (Ledger.run { table := .create 0 trackIpProtoPort }
      [.processPacket udpFrame 1000010, .processPacket udpFrame 1000005]).table.flows,
      ¬ f.flowStart ≤ f.flowLast := by decide +kernel
  obtain ⟨f, hf, hlast⟩ := hbad
  exact hlast (h.ordered f (mem_append_left _ hf))

end Packetsonde.Flows
