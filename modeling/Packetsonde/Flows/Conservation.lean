import Packetsonde.Flows.Accounting
import Packetsonde.Flows.Sequence
import Packetsonde.Flows.Module

/-!
# Packetsonde — what the collector can add up

A tick exports the flows it expires, and then, without removing them, the active flows that changed
since the last tick. The counters of a flow run from its first packet on, so a flow that was active at
a tick is exported with all its packets there and again later. `Books` keeps, next to the module, the
packets the flows received, the flows that were expired and those that were only snapshotted.

`Balanced` is the conservation law of the run: what a key received is what its flows hold and what
was expired. The records exported are the expired flows, the snapshots, and what the last flush finds
in the table. It finds every flow that was last seen an hour, the longest idle timeout, before its own
time stamp; with such stamps the sums of a collector are right exactly for the keys that no tick
snapshots (`exports_each_packet_once_iff`).
-/

namespace Packetsonde.Flows

open Packetsonde.Lib
open List

/-! ## Counters -/

/-- The counters the exporter adds up for a flow are below `2^32`. -/
def Flow.Small (f : Flow) : Prop :=
  f.packetCount.toNat < 2 ^ 32 ∧ f.octetCount.toNat < 2 ^ 32

instance (f : Flow) : Decidable f.Small :=
  inferInstanceAs (Decidable (_ ∧ _))

/-- A counter of the flows: its value, and what a frame adds to it. -/
structure Counter where
  ofFlow : Flow → UInt64
  ofPacket : Bytes → UInt64
  ofFlow_lt : ∀ f : Flow, f.Small → (ofFlow f).toNat < 2 ^ 32
  ofPacket_lt : ∀ pkt, (ofPacket pkt).toNat < 2 ^ 32
  start : ∀ {pkt : Bytes} {pp : ParsedPacket} (key : FlowKey) (d : Direction) (ts : UInt64),
    parseEthernet pkt = some pp → ofFlow (Flow.start key pp d ts) = ofPacket pkt
  update : ∀ {pkt : Bytes} {pp : ParsedPacket} (d : Direction) (ts : UInt64) (f : Flow),
    parseEthernet pkt = some pp → ofFlow (f.update pp d ts) = ofFlow f + ofPacket pkt

theorem ipLength_lt (pkt : Bytes) : (ipLength pkt).toNat < 2 ^ 32 := by
  unfold ipLength
  split
  · decide
  · rename_i pp _
    rw [UInt32.toNat_toUInt64]
    exact pp.payloadLen.toNat_lt

def packetCounter : Counter where
  ofFlow := Flow.packetCount
  ofPacket _ := 1
  ofFlow_lt _ h := h.1
  ofPacket_lt _ := by decide
  start key d ts _ := start_packetCount key _ d ts
  update d ts f _ := update_packetCount _ d ts f

def octetCounter : Counter where
  ofFlow := Flow.octetCount
  ofPacket := ipLength
  ofFlow_lt _ h := h.2
  ofPacket_lt := ipLength_lt
  start key d ts h := (start_octetCount key _ d ts).trans (ipLength_of_parse h).symm
  update d ts f h := by rw [update_octetCount, ipLength_of_parse h]

def Counter.total (c : Counter) (key : FlowKey) (flows : List Flow) : Nat :=
  ((flows.filter fun f => f.key = key).map fun f => (c.ofFlow f).toNat).sum

/-- What the records of a key add up to: `dPkts` and `dOctets`, `IN_PKTS` and `IN_BYTES` have 32
bits. -/
def Counter.exported (c : Counter) (key : FlowKey) (records : List Flow) : Nat :=
  ((records.filter fun f => f.key = key).map fun f => (c.ofFlow f).toUInt32.toNat).sum

def Counter.received (c : Counter) (key : FlowKey) (packets : List (FlowKey × Bytes)) : Nat :=
  ((packets.filter fun p => p.1 = key).map fun p => (c.ofPacket p.2).toNat).sum

/-! ## Runs -/

/-- The module, the packets its flows received, the flows its ticks expired and those they
snapshotted. -/
structure Books where
  mod : FlowMod
  received : List (FlowKey × Bytes) := []
  expired : List Flow := []
  snapshots : List Flow := []

def Books.step (w : World) (b : Books) (e : ModEvent) : Books :=
  let mod := b.mod.step w e
  match e with
  | .job .. => { b with mod }
  | .packet pkt ts handle =>
    match b.mod.receives pkt ts handle with
    | none => { b with mod }
    | some key => { b with mod, received := b.received ++ [(key, pkt)] }
  | .tick now =>
    if b.mod.tooEarly now then { b with mod }
    else
      { b with
        mod
        expired := b.expired ++ b.mod.expiredBy now
        snapshots := b.snapshots ++ b.mod.snapshotBy now }

def Books.run (w : World) (st : FlowMod) (events : List ModEvent) : Books :=
  events.foldl (Books.step w) { mod := st }

/-- The packets and the octets of the records of a key are those it received. -/
def Conserved (key : FlowKey) (records : List Flow) (packets : List (FlowKey × Bytes)) : Prop :=
  packetCounter.exported key records = packetCounter.received key packets ∧
    octetCounter.exported key records = octetCounter.received key packets

theorem Books.run_append (w : World) (st : FlowMod) (events : List ModEvent) (e : ModEvent) :
    Books.run w st (events ++ [e]) = (Books.run w st events).step w e := by
  unfold Books.run
  rw [foldl_append]
  rfl

theorem Books.run_mod (w : World) (st : FlowMod) (events : List ModEvent) :
    (Books.run w st events).mod = st.run w events := by
  induction events using List.reverseRecOn with
  | nil => rfl
  | append_singleton events e ih =>
    rw [Books.run_append, FlowMod.run_append, ← ih]
    unfold Books.step
    split
    · rfl
    · split <;> rfl
    · split <;> rfl

/-! ## Sums over the flows of a key -/

section

variable {c : Counter} {key : FlowKey}

theorem Counter.total_eq (c : Counter) (key : FlowKey) (flows : List Flow) :
    c.total key flows = (flows.map fun f => if f.key = key then (c.ofFlow f).toNat else 0).sum := by
  unfold Counter.total
  induction flows with
  | nil => rfl
  | cons f flows ih =>
    rw [map_cons, sum_cons, ← ih, filter_cons]
    by_cases hf : f.key = key <;> simp [hf]

theorem Counter.total_append (fs gs : List Flow) :
    c.total key (fs ++ gs) = c.total key fs + c.total key gs := by
  unfold Counter.total
  rw [filter_append, map_append, sum_append]

theorem Counter.total_perm {fs gs : List Flow} (h : fs.Perm gs) :
    c.total key fs = c.total key gs :=
  ((h.filter _).map _).sum_eq

theorem Counter.total_of_not_mem {flows : List Flow} (h : key ∉ flows.map Flow.key) :
    c.total key flows = 0 := by
  have hnone : (flows.filter fun f => f.key = key) = [] := by
    rw [filter_eq_nil_iff]
    intro f hf hkey
    exact h (mem_map.mpr ⟨f, hf, of_decide_eq_true hkey⟩)
  unfold Counter.total
  rw [hnone]
  rfl

theorem Counter.received_append (ps qs : List (FlowKey × Bytes)) :
    c.received key (ps ++ qs) = c.received key ps + c.received key qs := by
  unfold Counter.received
  rw [filter_append, map_append, sum_append]

theorem Counter.received_singleton (key' : FlowKey) (pkt : Bytes) :
    c.received key [(key', pkt)] = if key' = key then (c.ofPacket pkt).toNat else 0 := by
  unfold Counter.received
  by_cases h : key' = key <;> simp [h]

theorem Counter.toNat_update {pkt : Bytes} {pp : ParsedPacket} (d : Direction) (ts : UInt64)
    {f : Flow} (hf : f.Small) (hparse : parseEthernet pkt = some pp) :
    (c.ofFlow (f.update pp d ts)).toNat = (c.ofFlow f).toNat + (c.ofPacket pkt).toNat := by
  have hflow := c.ofFlow_lt f hf
  have hpkt := c.ofPacket_lt pkt
  rw [c.update d ts f hparse, UInt64.toNat_add]
  apply Nat.mod_eq_of_lt
  omega

/-- A packet adds to the flow that receives it. -/
theorem Counter.total_receive (c : Counter) (key : FlowKey) {st : FlowMod} {pkt : Bytes}
    {ts : UInt64} {dest : FlowKey} {flows : List Flow} (h : Reception st pkt ts dest flows)
    (hdistinct : (st.table.flows.map Flow.key).Nodup) (hsmall : ∀ f ∈ st.table.flows, f.Small) :
    c.total key flows = c.total key st.table.flows + c.received key [(dest, pkt)] := by
  rw [c.received_singleton, c.total_eq, c.total_eq]
  cases h with
  | @update pp d hparse hkey f hfind hflows =>
    rw [hflows]
    apply sum_treeModify _ hdistinct hfind
    show (if f.key = key then _ else 0) = (if f.key = key then _ else 0) + _
    rw [key_of_treeFind hfind]
    split
    · exact c.toNat_update d ts (hsmall f (mem_of_treeFind hfind)) hparse
    · rfl
  | @start pp d hparse hkey hfind hflows =>
    rw [hflows, sum_treeInsert, add_comm]
    show _ + (if dest = key then _ else 0) = _
    rw [c.start dest d ts hparse]

end

/-! ## Ordinary time stamps -/

def hourUs : Nat := 3600000000

/-- No packet of the last hour before the largest time stamp. -/
def ModEvent.ordinary : ModEvent → Bool
  | .packet _ ts _ => ts.toNat + hourUs < 2 ^ 64 - 1
  | _ => true

/-- Every flow has counted a packet and was last seen long enough before the end of time. -/
structure Ordinary (st : FlowMod) : Prop where
  idle : ∀ f, (st.table.flowIdleTimeout f).toNat ≤ hourUs
  last : ∀ f ∈ st.table.flows, f.flowLast.toNat + hourUs < 2 ^ 64 - 1
  counted : ∀ f ∈ st.table.flows, 0 < f.packetCount.toNat

section

variable {w : World} {st : FlowMod}

theorem Ordinary.packet (h : Ordinary st) (hsmall : ∀ f ∈ st.table.flows, f.Small) (pkt : Bytes)
    {ts : UInt64} (hts : ts.toNat + hourUs < 2 ^ 64 - 1) (handle : Int32) :
    Ordinary (st.onPacket pkt ts handle) := by
  unfold FlowMod.onPacket
  split
  · have hstep := processPacket_step st.table pkt ts
    generalize st.table.processPacket pkt ts = r at hstep ⊢
    cases hstep with
    | empty | bad | full => exact { h with } -- the flows stay as they are
    | @update hlen pp hparse key d hkey g hfind =>
      refine { h with last := ?_, counted := ?_ } <;> intro f hf <;>
        rcases mem_treeModify.mp hf with ⟨hold, -⟩ | ⟨a, ha, -, rfl⟩
      · exact h.last f hold
      · exact hts
      · exact h.counted f hold
      · have hcount := @Counter.toNat_update packetCounter pkt pp d ts a (hsmall a ha) hparse
        exact hcount ▸ Nat.succ_pos _
    | @start hlen pp hparse key d hkey hfind hroom =>
      refine { h with last := ?_, counted := ?_ } <;> intro f hf <;>
        rcases (mem_treeInsert _ _).mp hf with rfl | hold
      · exact hts
      · exact h.last f hold
      · rw [start_packetCount]
        decide
      · exact h.counted f hold
  · exact h

theorem Ordinary.tick (h : Ordinary st) (now : UInt64) : Ordinary (st.tick w now) := by
  by_cases hearly : st.tooEarly now = true
  · rwa [tick_tooEarly w st now hearly]
  · have htable := tick_table w st now (Bool.not_eq_true _ ▸ hearly)
    have hsub := (expire_sublist st.table now ftModExpireBatch).subset
    refine { idle := ?_, last := ?_, counted := ?_ } <;> rw [htable]
    · exact h.idle
    · exact fun f hf => h.last f (hsub hf)
    · exact fun f hf => h.counted f (hsub hf)

theorem ordinary_create : ∀ {st : FlowMod}, st.table = .create ftModMaxFlows ftModTrackLevel →
    Ordinary st := by
  intro st htable
  refine { idle := fun f => ?_, last := ?_, counted := ?_ } <;> rw [htable]
  · unfold FlowTable.flowIdleTimeout
    dsimp only
    repeat' split
    all_goals decide
  · rintro f ⟨⟩
  · rintro f ⟨⟩

theorem isDue_iff (ft : FlowTable) (now : UInt64) (f : Flow) :
    ft.isDue now f = true ↔
      (ft.flowIdleTimeout f).toNat < (elapsedSince now f.flowLast).toNat ∨
        ft.timeoutMaxLifetime.toNat < (elapsedSince now f.flowStart).toNat := by
  unfold FlowTable.isDue
  rw [Bool.or_eq_true, decide_eq_true_iff, decide_eq_true_iff, gt_iff_lt, gt_iff_lt,
    UInt64.lt_iff_toNat_lt, UInt64.lt_iff_toNat_lt]

/-- The flush finds every flow. -/
theorem Ordinary.due (h : Ordinary st) :
    st.table.flows.filter (st.table.isDue FlowMod.flushTs) = st.table.flows := by
  refine filter_eq_self.mpr fun f hf => (isDue_iff ..).mpr (.inl ?_)
  have hlast := h.last f hf
  have hidle := h.idle f
  have hflush : FlowMod.flushTs.toNat = 2 ^ 64 - 1 := rfl
  have hgt : FlowMod.flushTs > f.flowLast := by
    rw [gt_iff_lt, UInt64.lt_iff_toNat_lt]
    omega
  rw [elapsedSince, if_pos hgt, UInt64.toNat_sub_of_le _ _ (UInt64.le_of_lt hgt), hflush]
  omega

end

/-! ## The conservation law -/

/-- What a key received is in its active flow or was expired, and the records sent are the flows
expired and snapshotted. -/
structure Balanced (version : Int32) (b : Books) : Prop where
  ordinary : Ordinary b.mod
  counting : Counting version b.mod.exporter
  distinct : (b.mod.table.flows.map Flow.key).Nodup
  small : ∀ f ∈ b.expired ++ b.snapshots, f.Small
  counted : ∀ f ∈ b.snapshots, 0 < f.packetCount.toNat
  law : ∀ (c : Counter) (key : FlowKey),
    c.received key b.received = c.total key b.mod.table.flows + c.total key b.expired
  records : (recordsOf b.mod.exporter.sent).Perm
    ((b.expired ++ b.snapshots).filter (carries version))

/-- The calls of the exporter are guarded, and an empty call does nothing. -/
theorem send_guarded (w : World) (flows : List Flow) (s : Session) :
    (if flows ≠ [] then (s.send w flows).1 else s) = (s.send w flows).1 := by
  by_cases hne : flows = []
  · subst hne
    rfl
  · rw [if_pos hne]

theorem tick_exporter (w : World) (st : FlowMod) (now : UInt64) (hrun : st.tooEarly now = false) :
    (st.tick w now).exporter =
      ((st.exporter.send w (st.expiredBy now)).1.send w (st.snapshotBy now)).1 := by
  unfold FlowMod.tick
  rw [hrun]
  dsimp only
  rw [send_guarded, send_guarded]
  rfl

section

variable {w : World} {version : Int32} {b : Books}

theorem snapshot_sublist (ft : FlowTable) (last : UInt64) (maxOut : Int32) :
    (ft.snapshot last maxOut).Sublist ft.flows :=
  (take_sublist _ _).trans filter_sublist

theorem snapshotBy_subset (st : FlowMod) (now : UInt64) : st.snapshotBy now ⊆ st.table.flows :=
  ((snapshot_sublist _ _ _).trans (expire_sublist _ _ _)).subset

theorem expiredBy_subset (st : FlowMod) (now : UInt64) : st.expiredBy now ⊆ st.table.flows :=
  fun _ hf => (expire_perm _ _ _).subset (mem_append_right _ hf)

/-- A step that leaves the flows and the exporter alone. -/
theorem Balanced.congr {mod : FlowMod} (h : Balanced version b) (hmod : Ordinary mod)
    (hflows : mod.table.flows = b.mod.table.flows) (hexporter : mod.exporter = b.mod.exporter) :
    Balanced version { b with mod } := by
  refine { h with ordinary := hmod, counting := ?_, distinct := ?_, law := ?_, records := ?_ } <;>
    dsimp only
  · rw [hexporter]
    exact h.counting
  · rw [hflows]
    exact h.distinct
  · rw [hflows]
    exact h.law
  · rw [hexporter]
    exact h.records

theorem Balanced.tick (hw : ∀ n, w.accepts n = true) (hversion : version = 5 ∨ version = 9)
    (h : Balanced version b) (hsmall : ∀ f ∈ b.mod.table.flows, f.Small) (now : UInt64) :
    Balanced version (b.step w (.tick now)) := by
  have hmod := h.ordinary.tick (w := w) now
  unfold Books.step
  dsimp only [FlowMod.step]
  by_cases hearly : b.mod.tooEarly now = true
  · rw [if_pos hearly]
    have hsame := tick_tooEarly w b.mod now hearly
    exact h.congr hmod (by rw [hsame]) (by rw [hsame])
  rw [if_neg hearly]
  have hrun : b.mod.tooEarly now = false := Bool.not_eq_true _ ▸ hearly
  have htable := tick_table w b.mod now hrun
  have hexporter := tick_exporter w b.mod now hrun
  -- two calls of the exporter
  obtain ⟨hcounting, sent, hsent, hrecords⟩ :=
    Counting.send hw hversion h.counting (b.mod.expiredBy now)
  obtain ⟨hcounting', sent', hsent', hrecords'⟩ :=
    Counting.send hw hversion hcounting (b.mod.snapshotBy now)
  refine
    { ordinary := hmod, counting := ?_, distinct := ?_, small := ?_
      counted := ?_, law := ?_, records := ?_ } <;> dsimp only
  · rw [hexporter]
    exact hcounting'
  · rw [htable]
    exact distinct_expire h.distinct _ _
  · intro f hf
    simp only [mem_append] at hf
    rcases hf with (hold | hnew) | (hold | hnew)
    · exact h.small f (mem_append_left _ hold)
    · exact hsmall f (expiredBy_subset b.mod now hnew)
    · exact h.small f (mem_append_right _ hold)
    · exact hsmall f (snapshotBy_subset b.mod now hnew)
  · exact forall_mem_append.mpr
      ⟨h.counted, fun f hf => h.ordinary.counted f (snapshotBy_subset b.mod now hf)⟩
  · intro c key
    rw [htable, c.total_append, h.law c key,
      ← c.total_perm (expire_perm b.mod.table now ftModExpireBatch), c.total_append]
    unfold FlowMod.expiredBy
    ac_rfl
  · rw [hexporter, hsent', hsent, recordsOf_append, recordsOf_append]
    have hall := (h.records.append hrecords).append hrecords'
    rw [← filter_append, ← filter_append] at hall
    refine hall.trans (List.Perm.filter _ ?_)
    -- the expired flows move before the snapshots
    rw [append_assoc, append_assoc, append_assoc]
    apply List.Perm.append_left
    rw [← append_assoc, ← append_assoc]
    exact perm_append_comm.append_right _

theorem Balanced.packet (h : Balanced version b) (hsmall : ∀ f ∈ b.mod.table.flows, f.Small)
    (pkt : Bytes) {ts : UInt64} (hts : ts.toNat + hourUs < 2 ^ 64 - 1) (handle : Int32) :
    Balanced version (b.step w (.packet pkt ts handle)) := by
  have hmod := h.ordinary.packet hsmall pkt hts handle
  have hexporter : (b.mod.onPacket pkt ts handle).exporter = b.mod.exporter := by
    unfold FlowMod.onPacket
    split <;> rfl
  unfold Books.step
  dsimp only
  cases hkey : b.mod.receives pkt ts handle with
  | none => exact h.congr hmod (onPacket_of_receives_none hkey) hexporter
  | some key =>
    refine { h with ordinary := hmod, counting := ?_, distinct := ?_, law := ?_, records := ?_ } <;>
      dsimp only [FlowMod.step]
    · rw [hexporter]
      exact h.counting
    · unfold FlowMod.onPacket
      split
      · exact distinct_processPacket h.distinct pkt ts
      · exact h.distinct
    · intro c key'
      rw [c.received_append, h.law c key',
        c.total_receive key' (onPacket_of_receives hkey) h.distinct hsmall]
      ac_rfl
    · rw [hexporter]
      exact h.records

theorem Balanced.job (h : Balanced version b) (openPcap : Bytes → Int32)
    (method action iface : Bytes) : Balanced version (b.step w (.job openPcap method action iface)) := by
  obtain ⟨htable, hexporter⟩ := @onJob_table b.mod openPcap method action iface
  have hord := h.ordinary
  refine h.congr ?_ (congrArg FlowTable.flows htable) hexporter
  constructor <;> dsimp only [FlowMod.step] <;> rw [htable]
  exacts [hord.idle, hord.last, hord.counted]

theorem balanced_init {sourceId : UInt32} {boot : UInt64} {st : FlowMod}
    (hst : FlowMod.init sourceId version boot = some st) : Balanced version { mod := st } := by
  unfold FlowMod.init at hst
  split at hst
  · cases hst
  · rename_i exp hexp
    cases hst
    unfold NfExporter.create at hexp
    split at hexp
    · cases hexp
    · cases hexp
      have hnext : (if version = 9 then (0 : UInt32) else 0) = requiredSequence version [] := by
        unfold requiredSequence
        split <;> rfl
      exact
        { ordinary := ordinary_create rfl
          counting := ⟨rfl, numbered_nil version, hnext⟩
          distinct := nodup_nil
          small := by simp
          counted := by simp
          law := fun _ _ => rfl
          records := .nil }

/-- The law holds along every run whose counters stay small. -/
theorem Balanced.run (hw : ∀ n, w.accepts n = true) (hversion : version = 5 ∨ version = 9)
    {st : FlowMod} (hinit : Balanced version { mod := st }) {events : List ModEvent}
    (hsmall : ∀ before, before <+: events → ∀ f ∈ (st.run w before).table.flows, f.Small)
    (hstamps : ∀ e ∈ events, e.ordinary) :
    Balanced version (Books.run w st events) := by
  induction events using List.reverseRecOn with
  | nil => exact hinit
  | append_singleton events e ih =>
    have hbefore := ih (fun before hpre => hsmall before (hpre.trans (prefix_append _ _)))
      fun e he => hstamps e (mem_append_left _ he)
    have hflows := hsmall events (prefix_append _ _)
    rw [← Books.run_mod] at hflows
    rw [Books.run_append]
    cases e with
    | job openPcap method action iface => exact hbefore.job openPcap method action iface
    | packet pkt ts handle =>
      have hts := hstamps (.packet pkt ts handle) (by simp)
      rw [ModEvent.ordinary, decide_eq_true_iff] at hts
      exact hbefore.packet hflows pkt hts handle
    | tick now => exact hbefore.tick hw hversion hflows now

end

/-! ## The flush -/

section

variable {w : World} {version : Int32}

/-- A pass that is not full leaves no flow that is due. -/
theorem expire_perm_due {ft : FlowTable} {now : UInt64}
    (h : (ft.expire now ftModExpireBatch).2.length ≠ 256) :
    (ft.expire now ftModExpireBatch).2.Perm (ft.flows.filter (ft.isDue now)) := by
  have hsplit := (expire_perm ft now ftModExpireBatch).filter (ft.isDue now)
  have hout : (ft.expire now ftModExpireBatch).2.filter (ft.isDue now) =
      (ft.expire now ftModExpireBatch).2 :=
    filter_eq_self.mpr fun f hf => due_of_mem_expire hf
  have hkept : (ft.expire now ftModExpireBatch).1.flows.filter (ft.isDue now) = [] := by
    rcases kept_expireWalk (ft.isDue now) ftModExpireBatch 0 ft.flows with hkept | hfull
    · exact filter_eq_nil_iff.mpr fun f hf hdue =>
        Bool.false_ne_true ((hkept f hf).symm.trans hdue)
    · have hle := @length_expireWalk_le (ft.isDue now) ftModExpireBatch 0 ft.flows (by decide)
      rw [show ftModExpireBatch.toInt = 256 from rfl] at hfull hle
      refine absurd ?_ h
      show (expireWalk (ft.isDue now) ftModExpireBatch 0 ft.flows).2.length = 256
      omega
  rw [filter_append, hkept, nil_append, hout] at hsplit
  exact hsplit

/-- The flush exports the flows that are due at its time stamp. -/
theorem flushLoop_records (hw : ∀ n, w.accepts n = true) (hversion : version = 5 ∨ version = 9)
    (fuel : Nat) (table : FlowTable) (s : Session) (hfuel : table.flows.length < fuel)
    (hs : Counting version s) :
    (recordsOf (FlowMod.flushLoop w fuel table s).2.sent).Perm
      (recordsOf s.sent
        ++ (table.flows.filter (table.isDue FlowMod.flushTs)).filter (carries version)) := by
  induction fuel generalizing table s with
  | zero => omega
  | succ fuel ih =>
    obtain ⟨hcounting, sent, hsent, hrecords⟩ :=
      Counting.send hw hversion hs (table.expire FlowMod.flushTs ftModExpireBatch).2
    unfold FlowMod.flushLoop
    dsimp only
    rw [send_guarded]
    split
    · -- a full pass: the rest is left to the next turns
      rename_i hfull
      have hperm := expire_perm table FlowMod.flushTs ftModExpireBatch
      have hlen := hperm.length_eq
      rw [length_append, hfull] at hlen
      have hrest := ih (table.expire FlowMod.flushTs ftModExpireBatch).1 _ (by omega) hcounting
      refine hrest.trans ?_
      rw [hsent, recordsOf_append, append_assoc]
      apply List.Perm.append_left
      refine (hrecords.append_right _).trans ?_
      rw [← filter_append]
      apply List.Perm.filter
      have hout : (table.expire FlowMod.flushTs ftModExpireBatch).2.filter
          (table.isDue FlowMod.flushTs) = (table.expire FlowMod.flushTs ftModExpireBatch).2 :=
        filter_eq_self.mpr fun f hf => due_of_mem_expire hf
      refine List.Perm.trans ?_ (hperm.filter (table.isDue FlowMod.flushTs))
      rw [filter_append, hout]
      exact perm_append_comm
    · -- the last pass has taken all that was due
      rename_i hlast
      rw [hsent, recordsOf_append]
      apply List.Perm.append_left
      exact hrecords.trans ((expire_perm_due hlast).filter _)

end

/-! ## The records of a key -/

/-- The protocol has records for the family of the key. -/
def carriesFamily (version : Int32) (key : FlowKey) : Bool :=
  if version = 5 then key.af == afInet else key.af == afInet || key.af == afInet6

section

variable {w : World} {version : Int32} {c : Counter} {key : FlowKey}

variable {flows : List Flow} {packets : List (FlowKey × Bytes)}

theorem Counter.exported_of_small (h : ∀ f ∈ flows, f.Small) :
    c.exported key flows = c.total key flows := by
  unfold Counter.exported Counter.total
  congr 1
  apply map_congr_left
  intro f hf
  have hlt := c.ofFlow_lt f (h f (mem_of_mem_filter hf))
  rw [UInt64.toNat_toUInt32]
  exact Nat.mod_eq_of_lt hlt

/-- The records of a key are its flows, or none if the protocol has no records for them. -/
theorem Counter.exported_carried {flows records : List Flow} (h : ∀ f ∈ flows, f.Small)
    (hrecords : records.Perm (flows.filter (carries version))) :
    c.exported key records = if carriesFamily version key then c.total key flows else 0 := by
  have hperm : c.exported key records = c.exported key (flows.filter (carries version)) :=
    ((hrecords.filter _).map _).sum_eq
  rw [hperm]
  -- the key has the family, so all its flows are carried or none
  have hfamily : ∀ f : Flow, f.key = key → carries version f = carriesFamily version key := by
    rintro f rfl
    rfl
  split
  · rename_i hcarried
    rw [Counter.exported_of_small fun f hf => h f (mem_of_mem_filter hf)]
    unfold Counter.total
    rw [filter_filter]
    congr 2
    apply filter_congr
    intro f _
    by_cases hf : f.key = key
    · simp [hf, hfamily f hf, hcarried]
    · simp [hf]
  · rename_i hnot
    unfold Counter.exported
    have hnone : ((flows.filter (carries version)).filter fun f => f.key = key) = [] := by
      rw [filter_filter, filter_eq_nil_iff]
      intro f _ hf
      rw [Bool.and_eq_true, decide_eq_true_iff] at hf
      exact hnot ((hfamily f hf.1).symm.trans hf.2)
    rw [hnone]
    rfl

/-- The records of a run that ends with the shutdown. -/
theorem Balanced.shutdown (hw : ∀ n, w.accepts n = true) (hversion : version = 5 ∨ version = 9)
    {b : Books} (h : Balanced version b) :
    (recordsOf (b.mod.shutdown w).2.sent).Perm
      ((b.expired ++ b.snapshots ++ b.mod.table.flows).filter (carries version)) := by
  have hflush := flushLoop_records hw hversion (b.mod.table.flows.length + 1) b.mod.table
    b.mod.exporter (Nat.lt_succ_self _) h.counting
  rw [h.ordinary.due] at hflush
  rw [filter_append]
  exact hflush.trans (h.records.append_right _)

/-- What is exported of a key: what it received, and the snapshots on top. -/
theorem Balanced.exported (hw : ∀ n, w.accepts n = true) (hversion : version = 5 ∨ version = 9)
    {b : Books} (h : Balanced version b) (hsmall : ∀ f ∈ b.mod.table.flows, f.Small) :
    c.exported key (recordsOf (b.mod.shutdown w).2.sent) =
      if carriesFamily version key then c.received key b.received + c.total key b.snapshots else 0 := by
  rw [Counter.exported_carried (forall_mem_append.mpr ⟨h.small, hsmall⟩) (h.shutdown hw hversion),
    h.law c key, c.total_append, c.total_append]
  congr 1
  ac_rfl

/-- A key has received nothing exactly if its packets count to zero. -/
theorem packets_received_eq_zero :
    packetCounter.received key packets = 0 ↔ key ∉ packets.map Prod.fst := by
  have hlen : packetCounter.received key packets = (packets.filter fun p => p.1 = key).length := by
    unfold Counter.received
    rw [show (fun p : FlowKey × Bytes => (packetCounter.ofPacket p.2).toNat) = fun _ => 1 from rfl,
      map_const', sum_replicate, smul_eq_mul, mul_one]
  rw [hlen, length_eq_zero_iff, filter_eq_nil_iff, mem_map]
  constructor
  · rintro h ⟨p, hp, rfl⟩
    exact h p hp (decide_eq_true rfl)
  · intro h p hp hkey
    exact h ⟨p, hp, of_decide_eq_true hkey⟩

/-- A key that received nothing has no octets either. -/
theorem received_of_not_mem (h : key ∉ packets.map Prod.fst) :
    c.received key packets = 0 := by
  have hnone : (packets.filter fun p => p.1 = key) = [] := by
    rw [filter_eq_nil_iff]
    intro p hp hkey
    exact h (mem_map.mpr ⟨p, hp, of_decide_eq_true hkey⟩)
  unfold Counter.received
  rw [hnone]
  rfl

end

/-- The snapshots of a key count no packets exactly if there are none, as each counts one. -/
theorem Balanced.total_snapshots_eq_zero {version : Int32} {b : Books} (h : Balanced version b)
    {key : FlowKey} :
    packetCounter.total key b.snapshots = 0 ↔ key ∉ b.snapshots.map Flow.key := by
  refine ⟨fun hzero hmem => ?_, Counter.total_of_not_mem⟩
  obtain ⟨f, hf, rfl⟩ := mem_map.mp hmem
  have hnone := sum_eq_zero_iff.mp hzero _
    (mem_map.mpr ⟨f, mem_filter.mpr ⟨hf, decide_eq_true rfl⟩, rfl⟩)
  exact absurd hnone (Nat.ne_of_gt (h.counted f hf))

theorem Balanced.conserved_iff {w : World} {version : Int32} (hw : ∀ n, w.accepts n = true)
    (hversion : version = 5 ∨ version = 9) {b : Books} (h : Balanced version b)
    (hsmall : ∀ f ∈ b.mod.table.flows, f.Small) (key : FlowKey) :
    Conserved key (recordsOf (b.mod.shutdown w).2.sent) b.received ↔
      if carriesFamily version key then key ∉ b.snapshots.map Flow.key
      else key ∉ b.received.map Prod.fst := by
  unfold Conserved
  rw [h.exported hw hversion hsmall, h.exported hw hversion hsmall]
  split
  · rw [← h.total_snapshots_eq_zero]
    constructor
    · rintro ⟨hpackets, -⟩
      omega
    · intro hzero
      have hoctets := Counter.total_of_not_mem (c := octetCounter) (h.total_snapshots_eq_zero.mp hzero)
      omega
  · rw [← packets_received_eq_zero]
    constructor
    · exact fun heq => heq.1.symm
    · intro hzero
      exact ⟨hzero.symm, (received_of_not_mem (packets_received_eq_zero.mp hzero)).symm⟩

/-- With every `sendto` succeeding, counters below `2^32` and ordinary time stamps, the records of a
key add up to what it received exactly if no tick snapshots a flow of the key. A key the protocol has no
records for must not have received anything. -/
theorem exports_each_packet_once_iff {w : World} (hw : ∀ n, w.accepts n = true)
    {sourceId : UInt32} {version : Int32} {boot : UInt64} {st : FlowMod}
    (hversion : version = 5 ∨ version = 9) (hst : FlowMod.init sourceId version boot = some st)
    (events : List ModEvent)
    (hsmall : ∀ before, before <+: events → ∀ f ∈ (st.run w before).table.flows, f.Small)
    (hstamps : ∀ e ∈ events, e.ordinary) (key : FlowKey) :
    let b := Books.run w st events
    Conserved key (recordsOf ((st.run w events).shutdown w).2.sent) b.received ↔
      if carriesFamily version key then key ∉ b.snapshots.map Flow.key
      else key ∉ b.received.map Prod.fst := by
  intro b
  have hb : Balanced version b := Balanced.run hw hversion (balanced_init hst) hsmall hstamps
  have hflows := hsmall events (prefix_refl _)
  rw [← Books.run_mod] at hflows ⊢
  exact hb.conserved_iff hw hversion hflows key

/-- A capture sees a datagram to port 53, and a tick follows. -/
def captureAndTick : List ModEvent :=
  [.job (fun _ => 0) (asc "flow_control") (asc "start") (asc "eth0"), .packet udpFrame 1000000 0,
    .tick 2000000]

/-- Then it sees one to port 54; the next tick comes within the interval. -/
def secondFlow : List ModEvent :=
  captureAndTick ++ [.packet (udpFrame.set 37 54) 3000000 0, .tick 4000000]

/-- The second flow is not snapshotted, and exported once. -/
theorem flushed_flow_counted_once :
    FlowMod.init 0x5053 9 0 = some idleMod ∧
      Conserved (udpFlow 54).key
        (recordsOf ((idleMod.run calmWorld secondFlow).shutdown calmWorld).2.sent)
        (Books.run calmWorld idleMod secondFlow).received := by
  have hst : FlowMod.init 0x5053 9 0 = some idleMod := by decide +kernel
  have hsmall : ∀ before ∈ secondFlow.inits, ∀ f ∈ (idleMod.run calmWorld before).table.flows,
      f.Small := by decide +kernel
  refine ⟨hst, (exports_each_packet_once_iff (fun _ => rfl) (.inr rfl) hst secondFlow
    (fun before hpre => hsmall before ((mem_inits ..).mpr hpre)) (by decide) _).mpr ?_⟩
  decide +kernel

/-- With a tick before the shutdown the first datagram is exported twice. -/
theorem snapshotted_flow_counted_twice :
    FlowMod.init 0x5053 9 0 = some idleMod ∧
      (∀ before ∈ captureAndTick.inits,
        ∀ f ∈ (idleMod.run calmWorld before).table.flows, f.Small) ∧
      (∀ e ∈ captureAndTick, e.ordinary) ∧
      ¬ Conserved (udpFlow 53).key
        (recordsOf ((idleMod.run calmWorld captureAndTick).shutdown calmWorld).2.sent)
        (Books.run calmWorld idleMod captureAndTick).received := by
  unfold Conserved
  decide +kernel

end Packetsonde.Flows
