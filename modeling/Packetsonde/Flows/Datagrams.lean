import Packetsonde.Flows.Sets

/-!
# Packetsonde — one datagram, one turn

What a turn of each encoder puts into its datagram: templates if they are due, then records taken
from the front of the two lists of flows (`Cut`), at least one. The loops then are sequences of
turns (`exportV9Loop_turn`, `exportIpfixLoop_turn`, `exportV5Loop_turn`), and what a session has
after a call is proved by induction on the turns.
-/

namespace Packetsonde.Flows

open Packetsonde.Lib
open List

/-! ## The sets of a datagram -/

@[simp] theorem flows_dataSet (id : UInt16) (written : List Flow) :
    (dataSet id written).flatMap FlowSet.flows = written := by
  unfold dataSet
  split
  · simp_all
  · simp [FlowSet.flows]

/-- A datagram has the templates `tmpls` and takes its records from the front of the two lists: at
least one, if there is any left. -/
inductive Cut (tmpls : List FlowSet) (v4 v6 : List Flow) :
    List FlowSet → List Flow → List Flow → Prop where
  | mk {w4 w6 r4 r6 : List Flow} (h4 : w4 ++ r4 = v4) (h6 : w6 ++ r6 = v6)
      (hsome : w4 ++ w6 ≠ []) :
      Cut tmpls v4 v6 (tmpls ++ dataSet templateIdV4 w4 ++ dataSet templateIdV6 w6) r4 r6

section

variable {tmpls sets : List FlowSet} {v4 v6 r4 r6 : List Flow} (h : Cut tmpls v4 v6 sets r4 r6)

include h

theorem Cut.length_lt : r4.length + r6.length < v4.length + v6.length := by
  cases h with
  | mk h4 h6 hsome =>
    have hpos := length_pos_iff.mpr hsome
    subst h4 h6
    simp only [length_append] at *
    omega

theorem Cut.ne_nil : sets ≠ [] := by
  cases h with
  | @mk w4 w6 _ _ h4 h6 hsome =>
    intro hnil
    apply hsome
    simp only [append_eq_nil_iff, dataSet, ite_eq_left_iff, cons_ne_nil, imp_false,
      not_not] at hnil
    rw [hnil.1.2, hnil.2]
    rfl

/-- The records of the datagram and the flows that remain are the flows there were. -/
theorem Cut.perm (htmpls : tmpls.flatMap FlowSet.flows = []) :
    (sets.flatMap FlowSet.flows ++ (r4 ++ r6)).Perm (v4 ++ v6) := by
  cases h with
  | @mk w4 w6 _ _ h4 h6 hsome =>
    subst h4 h6
    rw [flatMap_append, flatMap_append, htmpls, flows_dataSet, flows_dataSet,
      nil_append, append_assoc, append_assoc]
    exact (perm_append_comm_assoc w6 _ _).append_left w4

/-- A datagram has a record. -/
theorem Cut.records_ne_nil : sets.flatMap FlowSet.flows ≠ [] := by
  cases h with
  | @mk w4 w6 _ _ h4 h6 hsome =>
    rw [append_assoc, flatMap_append, flatMap_append, flows_dataSet, flows_dataSet]
    exact append_ne_nil_of_right_ne_nil _ hsome

theorem Cut.headed :
    ∃ w4 w6, sets = tmpls ++ (dataSet templateIdV4 w4 ++ dataSet templateIdV6 w6) := by
  cases h with
  | mk _ _ _ => exact ⟨_, _, append_assoc _ _ _⟩

end

theorem flows_v9Templates (sendTmpl : Bool) (v6Count : Nat) :
    (v9Templates sendTmpl v6Count).flatMap FlowSet.flows = [] := by
  unfold v9Templates
  split <;> split <;> rfl

theorem flows_ipfixTemplates (sendTmpl : Bool) :
    (ipfixTemplates sendTmpl).flatMap FlowSet.flows = [] := by
  cases sendTmpl <;> rfl

/-- Two sets behind the templates: where there is room for a record of each family, there is one. -/
theorem Format.AddsSet.cut {F : Format} {p : Packet} {v4 v6 : List Flow} {r4 r6 : Packet × List Flow}
    (h4 : F.AddsSet templateIdV4 p v4 r4) (h6 : F.AddsSet templateIdV6 r4.1 v6 r6) (hp : F.Wrote p)
    (hroom : ∀ id, p.buf.off + 4 + F.recLen id ≤ nfMaxPacket) (hne : ¬ (v4 = [] ∧ v6 = [])) :
    Cut p.sets v4 v6 r6.1.sets r4.2 r6.2 := by
  have hone {id : UInt16} {flows : List Flow} (h : flows ≠ []) :
      flows.take (room (F.recLen id) (p.buf.off + 4)) ≠ [] := by
    obtain ⟨f, flows, rfl⟩ := exists_cons_of_ne_nil h
    rw [room_of_fits (F.recLen_pos id) (hroom id), take_succ_cons]
    exact cons_ne_nil _ _
  have hoff := h4.off hp
  rw [h6.sets, h4.sets, h4.rest, h6.rest]
  refine .mk (take_append_drop _ _) (take_append_drop _ _) ?_
  by_cases hv4 : v4 = []
  · -- no IPv4 flows: the IPv6 set starts behind the templates
    subst hv4
    rw [take_nil] at hoff ⊢
    rw [show r4.1.buf.off = p.buf.off from hoff]
    exact hone fun h => hne ⟨rfl, h⟩
  · exact append_ne_nil_of_left_ne_nil (hone hv4) _

/-! ## Turns -/

section

variable (w : World)

/-- Whether templates are due in the next turn. -/
abbrev Session.sendTmpl (s : Session) : Bool := needTemplate (w.clock s.reads) s.exp

/-- The packet of the next turn of `export_v9`, and the flows that remain. -/
abbrev Session.v9Packet (s : Session) (v6Count : Nat) (v4 v6 : List Flow) :
    Packet × List Flow × List Flow :=
  buildV9 (w.stack s.log.length) s.exp.bootTimeSec (s.sendTmpl w) v6Count v4 v6

abbrev Session.ipfixPacket (s : Session) (v4 v6 : List Flow) : Packet × List Flow × List Flow :=
  buildIpfix (w.stack s.log.length) (s.sendTmpl w) v4 v6

/-- A turn of `export_v9` always sends a record: behind the templates there is room for one. -/
theorem Session.v9Packet_cut {s : Session} {v6Count : Nat} {v4 v6 : List Flow}
    (hne : ¬ (v4 = [] ∧ v6 = [])) :
    Cut (v9Templates (s.sendTmpl w) v6Count) v4 v6 (s.v9Packet w v6Count v4 v6).1.sets
      (s.v9Packet w v6Count v4 v6).2.1 (s.v9Packet w v6Count v4 v6).2.2 := by
  obtain ⟨hbegin, hsets, hoff⟩ := beginV9_wrote (w.stack s.log.length) s.exp.bootTimeSec (s.sendTmpl w)
    v6Count
  obtain ⟨_, h4, h6⟩ := buildV9_adds (w.stack s.log.length) s.exp.bootTimeSec (s.sendTmpl w) v6Count v4 v6
  rw [← hsets]
  refine h4.cut h6 hbegin (fun id => ?_) hne
  have hlen : (v9Format s.exp.bootTimeSec).recLen id ≤ 58 := by
    unfold v9Format
    dsimp only
    split <;> decide
  unfold nfMaxPacket
  omega

theorem Session.ipfixPacket_cut {s : Session} {v4 v6 : List Flow} (hne : ¬ (v4 = [] ∧ v6 = [])) :
    Cut (ipfixTemplates (s.sendTmpl w)) v4 v6 (s.ipfixPacket w v4 v6).1.sets
      (s.ipfixPacket w v4 v6).2.1 (s.ipfixPacket w v4 v6).2.2 := by
  obtain ⟨hbegin, hsets, hoff⟩ := beginIpfix_wrote (w.stack s.log.length) (s.sendTmpl w)
  obtain ⟨_, h4, h6⟩ := buildIpfix_adds (w.stack s.log.length) (s.sendTmpl w) v4 v6
  rw [← hsets]
  refine h4.cut h6 hbegin (fun id => ?_) hne
  have hlen : ipfixFormat.recLen id ≤ 74 := by
    unfold ipfixFormat
    dsimp only
    split <;> decide
  have hle : ipfixDataOff (s.sendTmpl w) ≤ 120 := by cases s.sendTmpl w <;> decide
  unfold nfMaxPacket
  omega

/-- The session after a turn of `export_v9`. -/
def v9Turn (uptime unixSecs : UInt32) (v6Count : Nat) (v4 v6 : List Flow) (s : Session) : Session :=
  let now := w.clock s.reads
  let sendTmpl := needTemplate now s.exp
  let begun :=
    if sendTmpl then
      { s.exp with v9PktsSinceTemplate := 0, v9LastTemplateSec := unixSecs.toUInt64 }
    else s.exp
  let accepted := w.accepts s.log.length
  { exp :=
      if accepted then
        { begun with
          v9PktSequence := begun.v9PktSequence + 1
          v9PktsSinceTemplate := begun.v9PktsSinceTemplate + 1 }
      else begun
    reads := s.reads + 1
    log := s.log ++ [
      { before := s.exp, now, v6Count, accepted
        datagram := .v9 uptime unixSecs s.exp.v9PktSequence s.exp.sourceId
          (s.v9Packet w v6Count v4 v6).1.sets
        wire := ((s.v9Packet w v6Count v4 v6).1.buf.patch 0
          (writeV9Header (s.v9Packet w v6Count v4 v6).1.flowsets uptime unixSecs
            s.exp.v9PktSequence s.exp.sourceId)).contents }] }

theorem exportV9Loop_turn {uptime unixSecs : UInt32} {v6Count fuel : Nat} {v4 v6 : List Flow}
    {s : Session} {sent : Nat} (hne : ¬ (v4 = [] ∧ v6 = [])) :
    ∃ sent', exportV9Loop w uptime unixSecs v6Count (fuel + 1) v4 v6 s sent =
      exportV9Loop w uptime unixSecs v6Count fuel
        (s.v9Packet w v6Count v4 v6).2.1 (s.v9Packet w v6Count v4 v6).2.2
        (v9Turn w uptime unixSecs v6Count v4 v6 s) sent' := by
  have hsets : (s.v9Packet w v6Count v4 v6).1.flowsets ≠ 0 := by
    rw [flowsets_buildV9]
    exact length_eq_zero_iff.not.mpr (s.v9Packet_cut w hne).ne_nil
  rw [exportV9Loop, if_neg hne]
  dsimp only [Session.nowSec]
  rw [if_neg hsets]
  dsimp only [Session.sendUdp]
  -- a packet that `sendto` refuses is lost, and the loop goes on
  by_cases hacc : w.accepts s.log.length
  · refine ⟨sent + 1, (if_pos hacc).trans ?_⟩
    congr 1
    unfold v9Turn Session.v9Packet Session.sendTmpl
    by_cases hneed : needTemplate (w.clock s.reads) s.exp
    · simp only [hneed, hacc, if_true]
    · simp only [hneed, hacc, if_true, Bool.false_eq_true, if_false]
  · refine ⟨sent, (if_neg hacc).trans ?_⟩
    congr 1
    unfold v9Turn Session.v9Packet Session.sendTmpl
    by_cases hneed : needTemplate (w.clock s.reads) s.exp
    · simp only [hneed, hacc, if_true, Bool.false_eq_true, if_false]
    · simp only [hneed, hacc, Bool.false_eq_true, if_false]

/-- What every turn keeps holds after the loop, which ends with no flow left. -/
theorem exportV9Loop_run {uptime unixSecs : UInt32} {v6Count : Nat}
    {P : List Flow → List Flow → Session → Prop}
    (hturn : ∀ {v4 v6 s}, ¬ (v4 = [] ∧ v6 = []) → P v4 v6 s →
      P (s.v9Packet w v6Count v4 v6).2.1 (s.v9Packet w v6Count v4 v6).2.2
        (v9Turn w uptime unixSecs v6Count v4 v6 s)) :
    ∀ (fuel : Nat) {v4 v6 : List Flow} {s : Session} {sent : Nat},
      v4.length + v6.length ≤ fuel → P v4 v6 s →
      P [] [] (exportV9Loop w uptime unixSecs v6Count fuel v4 v6 s sent).1 := by
  intro fuel
  induction fuel with
  | zero =>
    intro v4 v6 s sent hfuel h
    have h4 : v4 = [] := length_eq_zero_iff.mp (by omega)
    have h6 : v6 = [] := length_eq_zero_iff.mp (by omega)
    subst h4 h6
    exact h
  | succ fuel ih =>
    intro v4 v6 s sent hfuel h
    by_cases hne : v4 = [] ∧ v6 = []
    · obtain ⟨rfl, rfl⟩ := hne
      exact h
    · obtain ⟨sent', heq⟩ :=
        @exportV9Loop_turn w uptime unixSecs v6Count fuel v4 v6 s sent hne
      rw [heq]
      have hless := (@Session.v9Packet_cut w s v6Count v4 v6 hne).length_lt
      exact ih (by omega) (hturn hne h)

/-- The session after a turn of `export_ipfix`. -/
def ipfixTurn (v6Count : Nat) (v4 v6 : List Flow) (s : Session) : Session :=
  let now := w.clock s.reads
  let sendTmpl := needTemplate now s.exp
  let accepted := w.accepts s.log.length
  { exp :=
      if ¬ accepted then s.exp
      else if sendTmpl then
        { s.exp with
          v9LastTemplateSec := (w.clock (s.reads + 2)).toUInt64
          v9PktsSinceTemplate := 0 }
      else { s.exp with v9PktsSinceTemplate := s.exp.v9PktsSinceTemplate + 1 }
    reads := if accepted ∧ sendTmpl then s.reads + 3 else s.reads + 2
    log := s.log ++ [
      { before := s.exp, now, v6Count, accepted
        datagram := .ipfix (w.clock (s.reads + 1)) s.exp.flowSequence s.exp.sourceId
          (s.ipfixPacket w v4 v6).1.sets
        wire := ((s.ipfixPacket w v4 v6).1.buf.patch 0
          (ipfixHeader (s.ipfixPacket w v4 v6).1.buf.off (w.clock (s.reads + 1)) s.exp.flowSequence
            s.exp.sourceId)).contents }] }

theorem exportIpfixLoop_turn {v6Count fuel : Nat} {v4 v6 : List Flow} {s : Session} {sent : Nat}
    (hne : ¬ (v4 = [] ∧ v6 = [])) :
    exportIpfixLoop w v6Count (fuel + 1) v4 v6 s sent =
      if w.accepts s.log.length then
        exportIpfixLoop w v6Count fuel
          (s.ipfixPacket w v4 v6).2.1 (s.ipfixPacket w v4 v6).2.2 (ipfixTurn w v6Count v4 v6 s) (sent + 1)
      else (ipfixTurn w v6Count v4 v6 s, none) := by
  rw [exportIpfixLoop, if_neg hne]
  dsimp only [Session.nowSec, Session.sendUdp]
  by_cases hacc : w.accepts s.log.length
  · refine (if_neg (not_not.mpr hacc)).trans ?_
    rw [if_pos hacc]
    by_cases hneed : needTemplate (w.clock s.reads) s.exp
    · refine (if_pos hneed).trans ?_
      congr 1
      unfold ipfixTurn Session.ipfixPacket Session.sendTmpl
      simp only [hneed, hacc, not_true_eq_false, if_false, if_true, and_self]
    · refine (if_neg hneed).trans ?_
      congr 1
      unfold ipfixTurn Session.ipfixPacket Session.sendTmpl
      simp only [hneed, hacc, not_true_eq_false, if_false, Bool.false_eq_true, and_false]
  · -- here it ends the call
    refine (if_pos hacc).trans ?_
    rw [if_neg hacc]
    congr 1
    unfold ipfixTurn
    simp only [hacc, Bool.false_eq_true, not_false_eq_true, if_true, if_false, false_and]

/-- What every turn keeps holds after the loop, which ends with no flow left unless a `sendto`
failed. -/
theorem exportIpfixLoop_run {v6Count : Nat} {P : List Flow → List Flow → Session → Prop}
    (hturn : ∀ {v4 v6 s}, ¬ (v4 = [] ∧ v6 = []) → P v4 v6 s →
      P (s.ipfixPacket w v4 v6).2.1 (s.ipfixPacket w v4 v6).2.2 (ipfixTurn w v6Count v4 v6 s)) :
    ∀ (fuel : Nat) {v4 v6 : List Flow} {s : Session} {sent : Nat},
      v4.length + v6.length ≤ fuel → P v4 v6 s →
      ∃ r4 r6, P r4 r6 (exportIpfixLoop w v6Count fuel v4 v6 s sent).1 ∧
        ((∀ k, w.accepts k) →
          (exportIpfixLoop w v6Count fuel v4 v6 s sent).2.isSome ∧ r4 = [] ∧ r6 = []) := by
  intro fuel
  induction fuel with
  | zero =>
    intro v4 v6 s sent hfuel h
    have h4 : v4 = [] := length_eq_zero_iff.mp (by omega)
    have h6 : v6 = [] := length_eq_zero_iff.mp (by omega)
    exact ⟨v4, v6, h, fun _ => ⟨rfl, h4, h6⟩⟩
  | succ fuel ih =>
    intro v4 v6 s sent hfuel h
    by_cases hne : v4 = [] ∧ v6 = []
    · refine ⟨v4, v6, ?_⟩
      rw [exportIpfixLoop, if_pos hne]
      exact ⟨h, fun _ => ⟨rfl, hne⟩⟩
    · have hless := (@Session.ipfixPacket_cut w s v4 v6 hne).length_lt
      rw [exportIpfixLoop_turn w hne]
      by_cases hacc : w.accepts s.log.length
      · rw [if_pos hacc]
        exact ih (by omega) (hturn hne h)
      · rw [if_neg hacc]
        exact ⟨_, _, hturn hne h, fun hall => absurd (hall _) hacc⟩

/-! ### NetFlow v5 -/

/-- A packet with room for `batch` records, of which there are as many, takes that many IPv4 flows
from the front. -/
theorem fillV5_spec {batch : Nat} {flows : List Flow} (h : batch ≤ flows.countP isV4) :
    (fillV5 batch flows).1 ++ (fillV5 batch flows).2.filter isV4 = flows.filter isV4 ∧
      (fillV5 batch flows).1.length = batch ∧
      (fillV5 batch flows).2.length + batch ≤ flows.length := by
  induction flows generalizing batch with
  | nil =>
    have hzero : batch = 0 := by simpa using h
    subst hzero
    exact ⟨rfl, rfl, Nat.le_refl _⟩
  | cons f flows ih =>
    cases batch with
    | zero => exact ⟨rfl, rfl, Nat.le_refl _⟩
    | succ batch =>
      unfold fillV5
      by_cases hf : isV4 f
      · rw [countP_cons_of_pos hf] at h
        obtain ⟨happ, hlen, hrest⟩ := ih (Nat.le_of_succ_le_succ h)
        rw [if_pos hf, filter_cons_of_pos hf]
        dsimp only
        refine ⟨congrArg (f :: ·) happ, by rw [length_cons, hlen], ?_⟩
        rw [length_cons]
        omega
      · -- passed over; it takes no place in the batch
        rw [countP_cons_of_neg hf] at h
        obtain ⟨happ, hlen, hrest⟩ := ih h
        rw [if_neg hf, filter_cons_of_neg hf]
        refine ⟨happ, hlen, ?_⟩
        rw [length_cons]
        omega

theorem v5Batch_le (flows : List Flow) : v5Batch flows ≤ flows.countP isV4 :=
  Nat.min_le_right _ _

theorem v5Batch_eq_zero {flows : List Flow} : v5Batch flows = 0 ↔ flows.filter isV4 = [] := by
  rw [← length_eq_zero_iff, ← countP_eq_length_filter]
  unfold v5Batch nfv5MaxRecords
  omega

/-- The session after a turn of `export_v5`. -/
def v5Turn (flows : List Flow) (s : Session) : Session :=
  let accepted := w.accepts s.log.length
  let written := (fillV5 (v5Batch flows) flows).1
  { exp :=
      if accepted then
        { s.exp with flowSequence := s.exp.flowSequence + UInt32.ofNat written.length }
      else s.exp
    reads := s.reads + 2
    log := s.log ++ [
      { before := s.exp, now := w.clock (s.reads + 1), v6Count := 0, accepted
        datagram := .v5 ((w.clock s.reads - s.exp.bootTimeSec.toUInt32) * 1000)
          (w.clock (s.reads + 1)) s.exp.flowSequence s.exp.sourceId.toUInt8 written
        wire := v5Bytes s.exp.bootTimeSec ((w.clock s.reads - s.exp.bootTimeSec.toUInt32) * 1000)
          (w.clock (s.reads + 1)) s.exp.flowSequence s.exp.sourceId.toUInt8 written }] }

theorem exportV5Loop_turn {fuel : Nat} {flows : List Flow} {s : Session} {sent : Nat}
    (hne : v5Batch flows ≠ 0) :
    ∃ sent', exportV5Loop w (fuel + 1) flows s sent =
      exportV5Loop w fuel (fillV5 (v5Batch flows) flows).2 (v5Turn w flows s) sent' := by
  rw [exportV5Loop]
  dsimp only [Session.nowSec, Session.sysUptimeMs, Session.sendUdp]
  rw [if_neg hne]
  by_cases hacc : w.accepts s.log.length
  · refine ⟨sent + 1, (if_pos hacc).trans ?_⟩
    congr 1
    unfold v5Turn
    simp only [hacc, if_true]
  · refine ⟨sent, (if_neg hacc).trans ?_⟩
    congr 1
    unfold v5Turn
    simp only [hacc, Bool.false_eq_true, if_false]

/-- What every turn keeps holds after the loop, which ends with no IPv4 flow left. -/
theorem exportV5Loop_run {P : List Flow → Session → Prop}
    (hturn : ∀ {flows s}, v5Batch flows ≠ 0 → P flows s →
      P (fillV5 (v5Batch flows) flows).2 (v5Turn w flows s)) :
    ∀ (fuel : Nat) {flows : List Flow} {s : Session} {sent : Nat}, flows.length ≤ fuel →
      P flows s → ∃ rest, rest.filter isV4 = [] ∧ P rest (exportV5Loop w fuel flows s sent).1 := by
  intro fuel
  induction fuel with
  | zero =>
    intro flows s sent hfuel h
    have hnil : flows = [] := length_eq_zero_iff.mp (by omega)
    subst hnil
    exact ⟨[], rfl, h⟩
  | succ fuel ih =>
    intro flows s sent hfuel h
    by_cases hzero : v5Batch flows = 0
    · refine ⟨flows, v5Batch_eq_zero.mp hzero, ?_⟩
      rw [exportV5Loop]
      dsimp only
      exact (if_pos hzero) ▸ h
    · obtain ⟨sent', heq⟩ := @exportV5Loop_turn w fuel flows s sent hzero
      obtain ⟨_, _, hless⟩ := fillV5_spec (v5Batch_le flows)
      rw [heq]
      exact ih (by omega) (hturn hzero h)

end

end Packetsonde.Flows
