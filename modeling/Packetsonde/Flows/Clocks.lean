import Packetsonde.Flows.Conservation

/-!
# Packetsonde — expiry against real time

Captured packets carry the wall clock (`pcap`), the main loop ticks the modules with
`ps_platform_now_usec`, which reads `CLOCK_MONOTONIC`. A run is told here in real time: both clocks
run with it, each with its own offset. The table compares a reading of one clock with readings of the
other, so a flow's idle time is off by the difference of the offsets; `onTime_iff` says for which
offsets the expiry is still on time.
-/

namespace Packetsonde.Flows

open Packetsonde.Lib
open List

/-- The offsets of the two clocks against real time, in microseconds. -/
structure Clocks where
  wall : Int
  mono : Int
  deriving DecidableEq, Repr

/-- What a clock that is `offset` ahead shows at real time `t`. -/
def reading (offset t : Int) : UInt64 :=
  UInt64.ofNat (t + offset).toNat

/-- The reading fits the 64 bits it is kept in. -/
def OnClock (offset t : Int) : Prop :=
  0 ≤ t + offset ∧ t + offset < 2 ^ 64

inductive Happening where
  | job (openPcap : Bytes → Int32) (method action iface : Bytes)
  | packet (pkt : Bytes) (handleId : Int32)
  | tick

/-- What the module is told: packets are stamped with the wall clock, ticks with the monotonic one. -/
def Happening.event (c : Clocks) (t : Int) : Happening → ModEvent
  | .job openPcap method action iface => .job openPcap method action iface
  | .packet pkt handle => .packet pkt (reading c.wall t) handle
  | .tick => .tick (reading c.mono t)

def Happening.onClock (c : Clocks) (t : Int) : Happening → Prop
  | .job .. => True
  | .packet .. => OnClock c.wall t
  | .tick => OnClock c.mono t

/-- The module with the real times of the first and the last packet of its active flows. -/
structure Timed where
  mod : FlowMod
  first : FlowKey → Int
  last : FlowKey → Int

def Timed.step (c : Clocks) (w : World) (x : Timed) (h : Int × Happening) : Timed :=
  let mod := x.mod.step w (h.2.event c h.1)
  match h.2 with
  | .packet pkt handle =>
    match x.mod.receives pkt (reading c.wall h.1) handle with
    | none => { x with mod }
    | some key =>
      { mod
        first := if key ∈ x.mod.table.flows.map Flow.key then x.first
          else Function.update x.first key h.1
        last := Function.update x.last key h.1 }
  | _ => { x with mod }

def Timed.run (c : Clocks) (w : World) (st : FlowMod) (history : List (Int × Happening)) : Timed :=
  history.foldl (Timed.step c w) { mod := st, first := fun _ => 0, last := fun _ => 0 }

/-- At real time `t` the flow is past its idle timeout or its maximum lifetime. -/
def Timed.Overdue (x : Timed) (t : Int) (f : Flow) : Prop :=
  t - x.last f.key > (x.mod.table.flowIdleTimeout f).toNat ∨
    t - x.first f.key > x.mod.table.timeoutMaxLifetime.toNat

/-- It is within both. -/
def Timed.Fresh (x : Timed) (t : Int) (f : Flow) : Prop :=
  t - x.last f.key < (x.mod.table.flowIdleTimeout f).toNat ∧
    t - x.first f.key < x.mod.table.timeoutMaxLifetime.toNat

/-- Between the two states of the exporter a datagram with a data record of the flow was accepted. -/
def Exported (f : Flow) (s s' : Session) : Prop :=
  ∃ new, s'.log = s.log ++ new ∧ ∃ a ∈ new, a.accepted ∧ f ∈ a.datagram.records

/-- Idle flows expire on time: whatever happened up to real time `t`, a tick that runs the expiry
pass then removes the overdue flows, up to its batch, and leaves the fresh ones. Those it removes are
exported, if the protocol has records for them and the socket takes the datagrams. -/
def OnTime (c : Clocks) : Prop :=
  ∀ (w : World) (sourceId : UInt32) (version : Int32) (boot : UInt64) (st : FlowMod),
    FlowMod.init sourceId version boot = some st →
  ∀ (history : List (Int × Happening)) (t : Int),
    (history.map Prod.fst ++ [t]).Pairwise (· ≤ ·) →
    (∀ h ∈ history, h.2.onClock c h.1) → OnClock c.mono t →
  let x := Timed.run c w st history
  let now := reading c.mono t
  x.mod.tooEarly now = false →
  ∀ f ∈ x.mod.table.flows,
    (x.Overdue t f →
      (f ∉ (x.mod.tick w now).table.flows ∧ f ∈ x.mod.expiredBy now ∧
        ((∀ n, w.accepts n) → carries x.mod.exporter.exp.version f →
          Exported f x.mod.exporter (x.mod.tick w now).exporter)) ∨
        256 ≤ (x.mod.expiredBy now).length) ∧
    (x.Fresh t f → f ∈ (x.mod.tick w now).table.flows ∧ f ∉ x.mod.expiredBy now)

/-! ## Readings -/

theorem toNat_reading {offset t : Int} (h : OnClock offset t) :
    (reading offset t).toNat = (t + offset).toNat := by
  obtain ⟨hnonneg, hlt⟩ := h
  unfold reading
  rw [UInt64.toNat_ofNat']
  apply Nat.mod_eq_of_lt
  omega

/-- The idle time the table sees is the real one plus the difference of the clocks. -/
theorem toNat_elapsedSince {c : Clocks} {t l : Int} (ht : OnClock c.mono t) (hl : OnClock c.wall l) :
    (elapsedSince (reading c.mono t) (reading c.wall l)).toNat
      = (t - l + (c.mono - c.wall)).toNat := by
  have hnow := toNat_reading ht
  have hthen := toNat_reading hl
  obtain ⟨ht₀, ht₁⟩ := ht
  obtain ⟨hl₀, hl₁⟩ := hl
  unfold elapsedSince
  split
  · rename_i hgt
    rw [gt_iff_lt, UInt64.lt_iff_toNat_lt] at hgt
    rw [UInt64.toNat_sub_of_le _ _ (UInt64.le_iff_toNat_le.mpr hgt.le)]
    omega
  · rename_i hle
    rw [gt_iff_lt, UInt64.lt_iff_toNat_lt] at hle
    rw [UInt64.toNat_zero]
    omega

/-! ## The stamps of the active flows -/

/-- The stamps of the active flows are the wall clock's readings at their first and last packet. -/
structure Stamped (c : Clocks) (x : Timed) : Prop where
  distinct : (x.mod.table.flows.map Flow.key).Nodup
  start : ∀ f ∈ x.mod.table.flows,
    f.flowStart = reading c.wall (x.first f.key) ∧ OnClock c.wall (x.first f.key)
  last : ∀ f ∈ x.mod.table.flows,
    f.flowLast = reading c.wall (x.last f.key) ∧ OnClock c.wall (x.last f.key)

section

variable {c : Clocks} {w : World} {x : Timed}

theorem Stamped.sublist {mod : FlowMod} (h : Stamped c x)
    (hsub : mod.table.flows.Sublist x.mod.table.flows) : Stamped c { x with mod } where
  distinct := h.distinct.sublist (hsub.map Flow.key)
  start f hf := h.start f (hsub.subset hf)
  last f hf := h.last f (hsub.subset hf)

theorem tick_sublist (st : FlowMod) (now : UInt64) :
    (st.tick w now).table.flows.Sublist st.table.flows := by
  by_cases hrun : st.tooEarly now = false
  · rw [tick_table w st now hrun]
    exact expire_sublist st.table now ftModExpireBatch
  · rw [tick_tooEarly w st now (by simpa using hrun)]

/-- A packet stamps the flow that receives it, and starts it if it is new. -/
theorem Stamped.receive (h : Stamped c x) {pkt : Bytes} {t : Int} (ht : OnClock c.wall t)
    {handle : Int32} {key : FlowKey} (hkey : x.mod.receives pkt (reading c.wall t) handle = some key) :
    Stamped c
      { mod := x.mod.onPacket pkt (reading c.wall t) handle
        first := if key ∈ x.mod.table.flows.map Flow.key then x.first
          else Function.update x.first key t
        last := Function.update x.last key t } := by
  cases onPacket_of_receives hkey with
  | @update pp d hparse hmake f hfind hflows =>
    have hactive : key ∈ x.mod.table.flows.map Flow.key :=
      mem_map.mpr ⟨f, mem_of_treeFind hfind, key_of_treeFind hfind⟩
    refine { distinct := ?_, start := ?_, last := ?_ } <;> dsimp only
    · rw [hflows, keys_update]
      exact h.distinct
    · intro g hg
      rw [hflows, mem_treeModify] at hg
      rw [if_pos hactive]
      rcases hg with ⟨hold, -⟩ | ⟨a, ha, -, rfl⟩
      · exact h.start g hold
      · exact h.start a ha
    · intro g hg
      rw [hflows, mem_treeModify] at hg
      rcases hg with ⟨hold, hne⟩ | ⟨a, ha, hak, rfl⟩
      · rw [Function.update_of_ne hne]
        exact h.last g hold
      · rw [show (Flow.update pp d (reading c.wall t) a).key = key from hak, Function.update_self]
        exact ⟨rfl, ht⟩
  | @start pp d hparse hmake hfind hflows =>
    -- the key is new, so the times of the others stand
    have hnew : key ∉ x.mod.table.flows.map Flow.key := treeFind_eq_none.mp hfind
    have hother : ∀ g ∈ x.mod.table.flows, g.key ≠ key := by
      rintro g hg rfl
      exact hnew (mem_map_of_mem hg)
    have hstarted : (Flow.start key pp d (reading c.wall t)).key = key := rfl
    refine { distinct := ?_, start := ?_, last := ?_ } <;> dsimp only
    · rw [hflows]
      exact nodup_treeInsert _ _ hnew h.distinct
    · intro g hg
      rw [hflows, mem_treeInsert] at hg
      rw [if_neg hnew]
      rcases hg with rfl | hold
      · rw [hstarted, Function.update_self]
        exact ⟨rfl, ht⟩
      · rw [Function.update_of_ne (hother g hold)]
        exact h.start g hold
    · intro g hg
      rw [hflows, mem_treeInsert] at hg
      rcases hg with rfl | hold
      · rw [hstarted, Function.update_self]
        exact ⟨rfl, ht⟩
      · rw [Function.update_of_ne (hother g hold)]
        exact h.last g hold

theorem Stamped.step (h : Stamped c x) {e : Int × Happening} (he : e.2.onClock c e.1) :
    Stamped c (x.step c w e) := by
  obtain ⟨t, e⟩ := e
  unfold Timed.step
  cases e with
  | job openPcap method action iface =>
    apply h.sublist
    show (x.mod.onJob openPcap method action iface).1.table.flows.Sublist _
    rw [(onJob_table openPcap method action iface).1]
  | tick => exact h.sublist (tick_sublist x.mod _)
  | packet pkt handle =>
    dsimp only
    cases hkey : x.mod.receives pkt (reading c.wall t) handle with
    | none =>
      apply h.sublist
      show (x.mod.onPacket pkt _ handle).table.flows.Sublist _
      rw [onPacket_of_receives_none hkey]
    | some key => exact h.receive he hkey

theorem Stamped.run {sourceId : UInt32} {version : Int32} {boot : UInt64} {st : FlowMod}
    (hst : FlowMod.init sourceId version boot = some st) {history : List (Int × Happening)}
    (hclock : ∀ e ∈ history, e.2.onClock c e.1) : Stamped c (Timed.run c w st history) := by
  have hempty : st.table.flows = [] := by
    unfold FlowMod.init at hst
    split at hst
    · cases hst
    · rw [← Option.some.inj hst]
      rfl
  unfold Timed.run
  induction history using List.reverseRecOn with
  | nil =>
    refine { distinct := ?_, start := ?_, last := ?_ } <;> dsimp only [foldl_nil] <;>
      rw [hempty] <;> simp
  | append_singleton history e ih =>
    rw [foldl_append]
    exact (ih fun e he => hclock e (by simp [he])).step (hclock e (by simp))

end

/-! ## What is sent -/

/-- A call that still has the flows `left` to send: the flow is one of them, or was sent. -/
def Exports (f : Flow) (flows left : List Flow) (s s' : Session) : Prop :=
  s.log <+: s'.log ∧ (f ∈ flows → f ∈ left ∨ Exported f s s')

section

variable {w : World} {f : Flow} {flows : List Flow} {s : Session}

theorem Exports.attempt {left left' : List Flow} {s' s'' : Session} (h : Exports f flows left s s')
    {a : Attempt} (hlog : s''.log = s'.log ++ [a]) (hacc : a.accepted)
    (hperm : (a.datagram.records ++ left').Perm left) : Exports f flows left' s s'' := by
  obtain ⟨⟨new, hnew⟩, hflow⟩ := h
  have hlog' : s''.log = s.log ++ (new ++ [a]) := by rw [hlog, ← hnew, append_assoc]
  refine ⟨⟨_, hlog'.symm⟩, fun hf => ?_⟩
  rcases hflow hf with hleft | ⟨new', hnew', b, hb, hsent⟩
  · rcases mem_append.mp (hperm.mem_iff.mpr hleft) with hrec | hrest
    · exact .inr ⟨_, hlog', a, by simp, hacc, hrec⟩
    · exact .inl hrest
  · obtain rfl : new = new' := append_cancel_left (hnew.trans hnew')
    exact .inr ⟨_, hlog', b, mem_append_left _ hb, hsent⟩

/-- Every flow of a call that the protocol carries gets its record. -/
theorem send_exports (hw : ∀ n, w.accepts n) (hlen : flows.length ≤ 960) :
    Exports f (flows.filter (carries s.exp.version)) [] s (s.send w flows).1 := by
  have hstart {left : List Flow} {s' : Session} (hlog : s'.log = s.log)
      (hperm : (flows.filter (carries s.exp.version)).Perm left) :
      Exports f (flows.filter (carries s.exp.version)) left s s' :=
    ⟨by rw [hlog], fun hf => .inl (hperm.subset hf)⟩
  by_cases hne : flows = []
  · exact hstart (by rw [hne]; rfl) (by rw [hne]; exact .nil)
  have hip (hver : s.exp.version ≠ 5) :
      (flows.filter (carries s.exp.version)).Perm (flows.filter isV4 ++ flows.filter isV6) := by
    have heq : carries s.exp.version = isIp := funext fun f => if_neg hver
    rw [heq]
    exact (perm_filter_isIp flows).symm
  unfold Session.send
  rw [if_neg hne]
  split
  · rename_i hver
    have heq : carries s.exp.version = isV4 := funext fun f => if_pos hver
    obtain ⟨rest, hrest, hexports⟩ := @exportV5Loop_run w
      (fun left s' => Exports f (flows.filter (carries s.exp.version)) (left.filter isV4) s s')
      (fun _ h => h.attempt rfl (hw _) (.of_eq (fillV5_spec (v5Batch_le _)).1)) flows.length flows s 0
      (Nat.le_refl _) (hstart rfl (by rw [heq]))
    rwa [hrest] at hexports
  · rename_i hver
    split
    · -- IPFIX: 960 flows are collected, which are all
      have hall : ipfixCollected flows = flows.filter isIp :=
        take_of_length_le (Nat.le_trans (length_filter_le _ _) hlen)
      obtain ⟨r4, r6, hexports, hrest⟩ := @exportIpfixLoop_run w
        ((ipfixCollected flows).filter isV6).length
        (fun v4 v6 s' => Exports f (flows.filter (carries s.exp.version)) (v4 ++ v6) s s')
        (fun hne h => h.attempt rfl (hw _) ((Session.ipfixPacket_cut w hne).perm (flows_ipfixTemplates _)))
        _ ((ipfixCollected flows).filter isV4) ((ipfixCollected flows).filter isV6) s 0 (Nat.le_refl _)
        (hstart rfl (by rw [hall, filter_isV4_isIp, filter_isV6_isIp]; exact hip hver))
      obtain ⟨-, rfl, rfl⟩ := hrest hw
      rw [exportIpfix_eq hw]
      exact hexports
    · exact @exportV9Loop_run w _ _ (flows.filter isV6).length
        (fun v4 v6 s' => Exports f (flows.filter (carries s.exp.version)) (v4 ++ v6) s s')
        (fun hne h => h.attempt rfl (hw _) ((Session.v9Packet_cut w hne).perm (flows_v9Templates _ _)))
        _ _ _ { s with reads := s.reads + 2 } 0 (Nat.le_refl _) (hstart rfl (hip hver))

/-- The flows a tick expires are exported. -/
theorem tick_exports (hw : ∀ n, w.accepts n) {st : FlowMod} {now : UInt64}
    (hrun : st.tooEarly now = false) (hf : f ∈ st.expiredBy now)
    (hcarried : carries st.exporter.exp.version f) :
    Exported f st.exporter (st.tick w now).exporter := by
  have hbatch : ((st.expiredBy now).length : Int) ≤ 256 :=
    Nat.zero_add (st.expiredBy now).length ▸
      @length_expireWalk_le (st.table.isDue now) ftModExpireBatch 0 st.table.flows (by decide)
  obtain ⟨-, hexports⟩ := @send_exports w f (st.expiredBy now) st.exporter hw (by omega)
  obtain ⟨⟨more, hmore⟩, -⟩ := @send_exports w f (st.snapshotBy now)
    (st.exporter.send w (st.expiredBy now)).1 hw (Nat.le_trans (length_take_le _ _) (by decide))
  rw [tick_exporter w st now hrun]
  rcases hexports (mem_filter.mpr ⟨hf, hcarried⟩) with hnil | ⟨new, hnew, a, ha, hsent⟩
  · cases hnil
  · exact ⟨new ++ more, by rw [← hmore, hnew, append_assoc], a, mem_append_left _ ha, hsent⟩

end

/-! ## Clocks that agree -/

/-- With the readings of a run, a flow is due by its real idle time and age, each off by the
difference of the clocks. -/
theorem Stamped.isDue_iff {c : Clocks} {x : Timed} (h : Stamped c x) {t : Int}
    (ht : OnClock c.mono t) {f : Flow} (hf : f ∈ x.mod.table.flows) :
    x.mod.table.isDue (reading c.mono t) f = true ↔
      (x.mod.table.flowIdleTimeout f).toNat < (t - x.last f.key + (c.mono - c.wall)).toNat ∨
        x.mod.table.timeoutMaxLifetime.toNat
          < (t - x.first f.key + (c.mono - c.wall)).toNat := by
  obtain ⟨hstart, hstartClock⟩ := h.start f hf
  obtain ⟨hlast, hlastClock⟩ := h.last f hf
  rw [Flows.isDue_iff, hstart, hlast, toNat_elapsedSince ht hstartClock,
    toNat_elapsedSince ht hlastClock]

theorem mem_expire_iff {ft : FlowTable} (hdistinct : (ft.flows.map Flow.key).Nodup) {now : UInt64}
    {maxOut : Int32} {f : Flow} (hf : f ∈ ft.flows) :
    f ∈ (ft.expire now maxOut).1.flows ↔ f ∉ (ft.expire now maxOut).2 := by
  have hperm := expire_perm ft now maxOut
  have hnodup := hperm.nodup_iff.mpr (List.Nodup.of_map _ hdistinct)
  have hmem := hperm.mem_iff.mpr hf
  constructor
  · exact fun hkept hout => disjoint_of_nodup_append hnodup hkept hout
  · intro hout
    exact (mem_append.mp hmem).resolve_right hout

theorem onTime_of_agree {c : Clocks} (hc : c.mono = c.wall ∨ c.mono = c.wall + 1) : OnTime c := by
  intro w sourceId version boot st hst history t _ hclock ht x now hrun f hf
  have hstamped : Stamped c x := Stamped.run hst hclock
  have hdue := hstamped.isDue_iff ht hf
  have hmem := @mem_expire_iff x.mod.table hstamped.distinct now ftModExpireBatch f hf
  rw [tick_table w x.mod now hrun]
  constructor
  · intro hover
    have hisDue : x.mod.table.isDue now f = true := by
      rw [hdue]
      unfold Timed.Overdue at hover
      omega
    rcases mem_expire_of_due hf hisDue ftModExpireBatch with hout | hfull
    · exact .inl ⟨fun hkept => hmem.mp hkept hout, hout, fun hw => tick_exports hw hrun hout⟩
    · exact .inr (Int.ofNat_le.mp hfull)
  · intro hfresh
    have hout : f ∉ x.mod.expiredBy now := by
      intro hout
      have hisDue := hdue.mp (due_of_mem_expire hout)
      unfold Timed.Fresh at hfresh
      omega
    exact ⟨hmem.mpr hout, hout⟩

/-! ## Clocks that differ

One datagram is captured and the module ticks once. The flow is then idle for the real time between
the two, while the table sees that time plus the difference of the clocks. -/

/-- The flow of `udpFrame` after one packet. -/
def udpCaptured (ts : UInt64) : Flow :=
  { udpFlow 53 with flowStart := ts, flowLast := ts }

/-- A capture is started and sees one datagram, both at real time `t`. -/
def oneDatagram (t : Int) : List (Int × Happening) :=
  [(t, .job (fun _ => 0) (asc "flow_control") (asc "start") (asc "eth0")), (t, .packet udpFrame 0)]

theorem capture_started (w : World) :
    idleMod.step w (.job (fun _ => 0) (asc "flow_control") (asc "start") (asc "eth0"))
      = capturing := by
  show (idleMod.onJob (fun _ => 0) (asc "flow_control") (asc "start") (asc "eth0")).1 = capturing
  decide +kernel

theorem oneDatagram_run (c : Clocks) (w : World) (t : Int) :
    Timed.run c w idleMod (oneDatagram t) =
      { mod := capturing.onPacket udpFrame (reading c.wall t) 0
        first := Function.update (fun _ => 0) (udpFlow 53).key t
        last := Function.update (fun _ => 0) (udpFlow 53).key t } := by
  have hreceives : capturing.receives udpFrame (reading c.wall t) 0 = some (udpFlow 53).key := rfl
  have hstarted : Timed.step c w { mod := idleMod, first := fun _ => 0, last := fun _ => 0 }
      (t, .job (fun _ => 0) (asc "flow_control") (asc "start") (asc "eth0"))
        = { mod := capturing, first := fun _ => 0, last := fun _ => 0 } :=
    congrArg (fun mod => Timed.mk mod (fun _ => 0) (fun _ => 0)) (capture_started w)
  unfold Timed.run oneDatagram
  rw [foldl_cons, foldl_cons, foldl_nil, hstarted]
  unfold Timed.step
  dsimp only
  rw [hreceives]
  rfl

/-- The only flow of the run is due once its stamps and the tick are far enough apart. -/
theorem oneDatagram_isDue (ts now : UInt64) :
    (capturing.onPacket udpFrame ts 0).table.isDue now (udpCaptured ts) = true ↔
      300000000 < (elapsedSince now ts).toNat := by
  rw [Flows.isDue_iff]
  have hidle : ((capturing.onPacket udpFrame ts 0).table.flowIdleTimeout (udpCaptured ts)).toNat
      = 300000000 := rfl
  have hlife : (capturing.onPacket udpFrame ts 0).table.timeoutMaxLifetime.toNat
      = 86400000000 := rfl
  rw [hidle, hlife]
  show _ < (elapsedSince now ts).toNat ∨ _ < (elapsedSince now ts).toNat ↔ _
  omega

/-- The table holds one flow, so the batch is not full. -/
theorem oneDatagram_expired_lt (ts now : UInt64) :
    ((capturing.onPacket udpFrame ts 0).expiredBy now).length < 256 := by
  have hlen :=
    (expire_perm (capturing.onPacket udpFrame ts 0).table now ftModExpireBatch).length_eq
  have hone : (capturing.onPacket udpFrame ts 0).table.flows.length = 1 := rfl
  rw [length_append] at hlen
  unfold FlowMod.expiredBy
  omega

/-- On-time expiry of that flow, `idle` microseconds after the packet. -/
theorem OnTime.sees_idle {c : Clocks} (h : OnTime c) {t : Int} (ht : OnClock c.wall t)
    {idle : Nat} (hnow : OnClock c.mono (t + idle)) :
    (300000000 < idle → 300000000 < (idle + (c.mono - c.wall)).toNat) ∧
      (idle < 300000000 → ¬ 300000000 < (idle + (c.mono - c.wall)).toNat) := by
  have hst : FlowMod.init 0x5053 9 0 = some idleMod := by decide +kernel
  have hsorted : ((oneDatagram t).map Prod.fst ++ [t + idle]).Pairwise (· ≤ ·) := by
    simp [oneDatagram]
  have hclock : ∀ e ∈ oneDatagram t, e.2.onClock c e.1 := by
    simp [oneDatagram, Happening.onClock, ht]
  have hexpiry :=
    h calmWorld 0x5053 9 0 idleMod hst (oneDatagram t) (t + idle) hsorted hclock hnow
  have helapsed := toNat_elapsedSince hnow ht
  rw [oneDatagram_run] at hexpiry
  dsimp only at hexpiry
  generalize reading c.mono (t + idle) = now at hexpiry helapsed
  generalize reading c.wall t = ts at hexpiry helapsed
  have hdue := oneDatagram_isDue ts now
  -- what the module takes for the idle time is off by the difference of the clocks
  have hseen : (elapsedSince now ts).toNat = (idle + (c.mono - c.wall)).toNat := by
    rw [helapsed]
    congr 1
    omega
  obtain ⟨hover, hfresh⟩ := hexpiry rfl (udpCaptured ts) (mem_singleton.mpr rfl)
  rw [hseen] at hdue
  rw [← hdue]
  have hidle : ((capturing.onPacket udpFrame ts 0).table.flowIdleTimeout (udpCaptured ts)).toNat
      = 300000000 := rfl
  have hlife : (capturing.onPacket udpFrame ts 0).table.timeoutMaxLifetime.toNat
      = 86400000000 := rfl
  have hupdate : Function.update (fun _ => (0 : Int)) (udpFlow 53).key t (udpCaptured ts).key = t :=
    Function.update_self ..
  unfold Timed.Overdue at hover
  unfold Timed.Fresh at hfresh
  dsimp only at hover hfresh
  rw [hupdate, hidle, hlife] at hover hfresh
  constructor
  · intro hlong
    rcases hover (.inl (by omega)) with ⟨-, hout, -⟩ | hfull
    · exact due_of_mem_expire hout
    · exact absurd hfull (oneDatagram_expired_lt ts now).not_ge
  · intro hshort hisDue
    obtain ⟨-, hout⟩ := hfresh ⟨by omega, by omega⟩
    have hmem : udpCaptured ts ∈ (capturing.onPacket udpFrame ts 0).table.flows :=
      mem_singleton.mpr rfl
    rcases mem_expire_of_due hmem hisDue ftModExpireBatch with hin | hfull
    · exact hout hin
    · exact (oneDatagram_expired_lt ts now).not_ge (Int.ofNat_le.mp hfull)

def Clocks.Compatible (c : Clocks) : Prop :=
  ∃ t, OnClock c.wall t ∧ OnClock c.mono t

/-- Expiry is on time exactly if the clocks agree, up to the one microsecond that the strict
comparison of the timeouts forgives. -/
theorem onTime_iff (c : Clocks) (hc : c.Compatible) :
    OnTime c ↔ c.mono = c.wall ∨ c.mono = c.wall + 1 := by
  refine ⟨fun h => ?_, onTime_of_agree⟩
  obtain ⟨t, ⟨hwall, hwall'⟩, hmono, hmono'⟩ := hc
  by_contra hne
  by_cases hlead : c.wall < c.mono
  · -- the monotonic clock is ahead: a flow expires before its timeout
    have hidle : (300000001 - (c.mono - c.wall)).toNat < 300000000 := by omega
    have ht : OnClock c.wall (-c.wall) := ⟨by omega, by omega⟩
    have hnow : OnClock c.mono (-c.wall + (300000001 - (c.mono - c.wall)).toNat) :=
      ⟨by omega, by omega⟩
    exact (h.sees_idle ht hnow).2 hidle (by omega)
  · -- the wall clock is ahead: a flow past its timeout stays
    have ht : OnClock c.wall (-c.mono) := ⟨by omega, by omega⟩
    have hnow : OnClock c.mono (-c.mono + (300000001 : Nat)) := ⟨by omega, by omega⟩
    have hseen := (h.sees_idle ht hnow).1 (by omega)
    omega

/-- On a host that has been up for an hour, in 2023. -/
def hourAfterBoot : Clocks where
  wall := 1700000000000000
  mono := 3600000000

theorem hour_after_boot_on_time :
    (Clocks.mk 3600000000 3600000000).Compatible ∧ OnTime (Clocks.mk 3600000000 3600000000) := by
  have hc : (Clocks.mk 3600000000 3600000000).Compatible :=
    ⟨0, ⟨by decide, by decide⟩, by decide, by decide⟩
  exact ⟨hc, (onTime_iff _ hc).mpr (.inl rfl)⟩

/-- With the wall clock counting from 1970 and the monotonic clock from the boot, a datagram's flow
is still there after five minutes and a microsecond. -/
theorem wall_clock_ahead_not_on_time : ¬ OnTime hourAfterBoot := by
  intro h
  have ht : OnClock hourAfterBoot.wall 0 := ⟨by decide, by decide⟩
  have hnow : OnClock hourAfterBoot.mono (0 + (300000001 : Nat)) := ⟨by decide, by decide⟩
  exact absurd ((h.sees_idle ht hnow).1 (by decide)) (by decide)

end Packetsonde.Flows
