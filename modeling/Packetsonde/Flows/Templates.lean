import Packetsonde.Flows.Sequence

/-!
# Packetsonde — templates before data

A collector can read a data set only if it has seen the template of its id. Both encoders put the
templates that are due at the head of a datagram (`HeadedBy`); what differs is when they are due.

IPFIX always sends both templates and notes the time only when the datagram was accepted, so up to the
first accepted one they stay due and every data set is preceded by its template. NetFlow v9 notes the
time before it sends, and leaves the IPv6 template out of calls without IPv6 flows. There a data set is
preceded by its template if and only if templates were due for an accepted datagram up to it, in a
call that has flows of its family (`templates_precede_iff`).
-/

namespace Packetsonde.Flows

open Packetsonde.Lib
open List

/-! ## The history property -/

def HasTemplate (id : UInt16) (sets : List FlowSet) : Prop :=
  ∃ fields, .template id fields ∈ sets

def HasData (id : UInt16) (d : Datagram) : Prop :=
  ∃ flows, .data id flows ∈ d.sets

/-- An accepted datagram behind `earlier` has, before each of its data sets or in an earlier
accepted datagram, the template of the set. -/
def Readable (earlier : List Attempt) (a : Attempt) : Prop :=
  a.accepted → ∀ before id flows after, a.datagram.sets = before ++ .data id flows :: after →
    HasTemplate id before ∨ ∃ b ∈ earlier, b.accepted ∧ HasTemplate id b.datagram.sets

def TemplatesPrecede (log : List Attempt) : Prop :=
  ∀ earlier a, earlier ++ [a] <+: log → Readable earlier a

/-- Templates were due for the datagram, in a call that has flows of the family. -/
def Due (id : UInt16) (b : Attempt) : Prop :=
  needTemplate b.now b.before ∧ (id = templateIdV6 → b.v6Count > 0)

/-- For every data set that was sent, templates were due for it or for an accepted datagram before. -/
def TemplatesDue (log : List Attempt) : Prop :=
  ∀ earlier a, earlier ++ [a] <+: log → a.accepted → ∀ id, HasData id a.datagram →
    ∃ b ∈ earlier ++ [a], b.accepted ∧ Due id b

/-! ## Datagrams headed by templates -/

/-- The datagram has templates at its head, then at most one data set of each family. -/
structure HeadedBy (tmpls : List FlowSet) (d : Datagram) : Prop where
  only : ∀ id flows, .data id flows ∉ tmpls
  sets : ∃ w4 w6, d.sets = tmpls ++ (dataSet templateIdV4 w4 ++ dataSet templateIdV6 w6)

theorem not_template_mem_dataSet {id id' : UInt16} {fields : List TemplateField}
    {written : List Flow} : FlowSet.template id fields ∉ dataSet id' written := by
  unfold dataSet
  split <;> simp

theorem data_mem_dataSet {id id' : UInt16} {flows written : List Flow}
    (h : FlowSet.data id flows ∈ dataSet id' written) : id = id' := by
  unfold dataSet at h
  split at h <;> simp_all

namespace HeadedBy

variable {tmpls : List FlowSet} {d : Datagram} (h : HeadedBy tmpls d)

include h

variable {id : UInt16}

theorem hasTemplate_iff : HasTemplate id d.sets ↔ HasTemplate id tmpls := by
  obtain ⟨w4, w6, hsets⟩ := h.sets
  unfold HasTemplate
  rw [hsets]
  simp only [mem_append, not_template_mem_dataSet, or_false]

theorem id_of_hasData (hdata : HasData id d) :
    id = templateIdV4 ∨ id = templateIdV6 := by
  obtain ⟨w4, w6, hsets⟩ := h.sets
  obtain ⟨flows, hmem⟩ := hdata
  rw [hsets, mem_append, mem_append] at hmem
  rcases hmem with hmem | hmem | hmem
  · exact absurd hmem (h.only id flows)
  · exact .inl (data_mem_dataSet hmem)
  · exact .inr (data_mem_dataSet hmem)

/-- All templates stand before any data set. -/
theorem prefix_of_data {flows : List Flow} {before after : List FlowSet}
    (hsplit : d.sets = before ++ .data id flows :: after) : tmpls <+: before := by
  obtain ⟨w4, w6, hsets⟩ := h.sets
  rw [hsets] at hsplit
  rcases append_eq_append_iff.mp hsplit with ⟨mid, hbefore, _⟩ | ⟨mid, htmpls, hrest⟩
  · exact ⟨mid, hbefore.symm⟩
  · cases mid with
    | nil => rw [htmpls, append_nil]
    | cons set mid =>
      have hset : FlowSet.data id flows = set := (List.cons.inj hrest).1
      apply absurd _ (h.only id flows)
      rw [htmpls, hset]
      simp

end HeadedBy

variable {a : Attempt}

variable {id : UInt16} {w : World} {s : Session}

/-- Whether a datagram is readable depends on the templates at the heads. -/
theorem readable_iff {T : Attempt → List FlowSet} {earlier : List Attempt}
    (h : ∀ b ∈ earlier ++ [a], HeadedBy (T b) b.datagram) :
    Readable earlier a ↔
      (a.accepted → ∀ id, HasData id a.datagram →
        ∃ b ∈ earlier ++ [a], b.accepted ∧ HasTemplate id (T b)) := by
  have ha := h a (by simp)
  constructor
  · intro hread hacc id ⟨flows, hmem⟩
    obtain ⟨before, after, hsplit⟩ := append_of_mem hmem
    rcases hread hacc before id flows after hsplit with ⟨fields, hhere⟩ | ⟨b, hb, hbacc, hthere⟩
    · refine ⟨a, by simp, hacc, ha.hasTemplate_iff.mp ⟨fields, ?_⟩⟩
      rw [hsplit]
      exact mem_append_left _ hhere
    · have hb' : b ∈ earlier ++ [a] := mem_append_left _ hb
      exact ⟨b, hb', hbacc, (h b hb').hasTemplate_iff.mp hthere⟩
  · intro hdue hacc before id flows after hsplit
    have hdata : HasData id a.datagram := ⟨flows, by rw [hsplit]; simp⟩
    obtain ⟨b, hb, hbacc, hb'⟩ := hdue hacc id hdata
    rcases mem_append.mp hb with hb1 | hb1
    · exact .inr ⟨b, hb1, hbacc, (h b hb).hasTemplate_iff.mpr hb'⟩
    · obtain rfl := mem_singleton.mp hb1
      obtain ⟨fields, hfields⟩ := hb'
      exact .inl ⟨fields, (ha.prefix_of_data hsplit).subset hfields⟩

/-! ## NetFlow v9 -/

/-- The templates of an attempt of `export_v9`. -/
def Attempt.v9Head (a : Attempt) : List FlowSet :=
  v9Templates (needTemplate a.now a.before) a.v6Count

theorem hasTemplate_v9Head (hid : id = templateIdV4 ∨ id = templateIdV6)
    (a : Attempt) : HasTemplate id a.v9Head ↔ Due id a := by
  have hne : templateIdV4 ≠ templateIdV6 := by decide
  unfold Attempt.v9Head HasTemplate v9Templates Due
  by_cases hneed : needTemplate a.now a.before
  · by_cases hcount : a.v6Count > 0
    · rcases hid with rfl | rfl <;> simp [hneed, hcount]
    · rcases hid with rfl | rfl <;> simp [hneed, hcount, hne, Ne.symm hne]
  · simp [hneed]

theorem data_not_mem_v9Templates (sendTmpl : Bool) (v6Count : Nat) (id : UInt16)
    (flows : List Flow) : FlowSet.data id flows ∉ v9Templates sendTmpl v6Count := by
  unfold v9Templates
  split <;> split <;> simp

theorem data_not_mem_ipfixTemplates (sendTmpl : Bool) (id : UInt16) (flows : List Flow) :
    FlowSet.data id flows ∉ ipfixTemplates sendTmpl := by
  cases sendTmpl <;> simp [ipfixTemplates]

/-- Every attempt in the log is headed by its templates. -/
structure V9Log (s : Session) : Prop where
  version : s.exp.version = 9
  headed : ∀ a ∈ s.log, HeadedBy a.v9Head a.datagram

theorem V9Log.exportV9 (h : V9Log s) (flows : List Flow) :
    V9Log (exportV9 w flows s).1 := by
  have hturn : ∀ {uptime unixSecs v6Count v4 v6 s'}, ¬ (v4 = [] ∧ v6 = []) → V9Log s' →
      V9Log (v9Turn w uptime unixSecs v6Count v4 v6 s') := by
    intro uptime unixSecs v6Count v4 v6 s' hne hlog
    refine ⟨(version_v9Turn ..).trans hlog.version, ?_⟩
    intro a ha
    rcases mem_append.mp ha with hold | hnew
    · exact hlog.headed a hold
    · obtain rfl := mem_singleton.mp hnew
      exact ⟨data_not_mem_v9Templates _ _, (s'.v9Packet_cut w hne).headed⟩
  have hrun := fun uptime unixSecs => @exportV9Loop_run w uptime unixSecs
    (flows.filter isV6).length (fun _ _ s' => V9Log s') hturn _ (flows.filter isV4)
    (flows.filter isV6) { s with reads := s.reads + 2 } 0 (Nat.le_refl _) ⟨h.version, h.headed⟩
  exact ⟨(hrun _ _).version, (hrun _ _).headed⟩

/-! ## IPFIX -/

/-- The templates of an attempt of `export_ipfix`. -/
def Attempt.ipfixHead (a : Attempt) : List FlowSet :=
  ipfixTemplates (needTemplate a.now a.before)

theorem hasTemplate_ipfixHead (hid : id = templateIdV4 ∨ id = templateIdV6)
    (hneed : needTemplate a.now a.before) : HasTemplate id a.ipfixHead := by
  unfold Attempt.ipfixHead ipfixTemplates
  rw [hneed]
  rcases hid with rfl | rfl
  · exact ⟨ipfixV4Fields, by simp⟩
  · exact ⟨ipfixV6Fields, by simp⟩

/-- Every attempt in the log is headed by its templates, and once the time of the templates is
noted, a datagram with both was accepted. -/
structure IpfixLog (s : Session) : Prop where
  version : s.exp.version = 10
  headed : ∀ a ∈ s.log, HeadedBy a.ipfixHead a.datagram
  noted : s.exp.v9LastTemplateSec ≠ 0 →
    ∃ b ∈ s.log, b.accepted ∧ needTemplate b.now b.before
  precede : TemplatesPrecede s.log

theorem templatesPrecede_append {log : List Attempt} (h : TemplatesPrecede log)
    (ha : Readable log a) : TemplatesPrecede (log ++ [a]) :=
  forall_prefix_concat.mpr ⟨h, ha⟩

theorem needTemplate_of_not_noted {now : UInt32} {exp : NfExporter}
    (h : exp.v9LastTemplateSec = 0) : needTemplate now exp := by
  unfold needTemplate
  rw [h]
  simp

theorem IpfixLog.turn {v6Count : Nat} {v4 v6 : List Flow}
    (hne : ¬ (v4 = [] ∧ v6 = [])) (h : IpfixLog s) : IpfixLog (ipfixTurn w v6Count v4 v6 s) := by
  generalize ha : (⟨s.exp, w.clock s.reads, v6Count,
    .ipfix (w.clock (s.reads + 1)) s.exp.flowSequence s.exp.sourceId (s.ipfixPacket w v4 v6).1.sets,
    _, w.accepts s.log.length⟩ : Attempt) = a
  have hlog : (ipfixTurn w v6Count v4 v6 s).log = s.log ++ [a] := by
    rw [← ha]
    rfl
  have hheaded : ∀ b ∈ s.log ++ [a], HeadedBy b.ipfixHead b.datagram := by
    intro b hb
    rcases mem_append.mp hb with hold | hnew
    · exact h.headed b hold
    · obtain rfl := mem_singleton.mp hnew
      rw [← ha]
      exact ⟨data_not_mem_ipfixTemplates _, (s.ipfixPacket_cut w hne).headed⟩
  constructor
  · exact (flowSequence_ipfixTurn ..).2.trans h.version
  · rw [hlog]
    exact hheaded
  · intro hnoted
    rw [hlog]
    by_cases hsend : a.accepted ∧ needTemplate a.now a.before
    · exact ⟨a, by simp, hsend⟩
    · -- nothing was noted in this turn
      have hlast : (ipfixTurn w v6Count v4 v6 s).exp.v9LastTemplateSec =
          s.exp.v9LastTemplateSec := by
        rw [← ha] at hsend
        unfold ipfixTurn
        dsimp only
        split
        · rfl
        · rename_i hacc
          rw [not_not] at hacc
          rw [if_neg (fun hneed => hsend ⟨hacc, hneed⟩)]
      rw [hlast] at hnoted
      obtain ⟨b, hb, hb'⟩ := h.noted hnoted
      exact ⟨b, mem_append_left _ hb, hb'⟩
  · rw [hlog]
    apply templatesPrecede_append h.precede
    rw [readable_iff hheaded]
    intro hacc id hdata
    have hid := (hheaded a (by simp)).id_of_hasData hdata
    by_cases hneed : needTemplate a.now a.before
    · exact ⟨a, by simp, hacc, hasTemplate_ipfixHead hid hneed⟩
    · -- templates are not due, so they were noted
      have hnoted : s.exp.v9LastTemplateSec ≠ 0 := by
        intro hzero
        rw [← ha] at hneed
        exact hneed (needTemplate_of_not_noted hzero)
      obtain ⟨b, hb, hbacc, hbneed⟩ := h.noted hnoted
      exact ⟨b, mem_append_left _ hb, hbacc, hasTemplate_ipfixHead hid hbneed⟩

theorem IpfixLog.exportIpfix (h : IpfixLog s) (flows : List Flow) :
    IpfixLog (exportIpfix w flows s).1 := by
  obtain ⟨_, _, hloop, _⟩ := @exportIpfixLoop_run w ((ipfixCollected flows).filter isV6).length
    (fun _ _ s' => IpfixLog s') (fun hne h => h.turn hne)
    (((ipfixCollected flows).filter isV4).length + ((ipfixCollected flows).filter isV6).length)
    ((ipfixCollected flows).filter isV4) ((ipfixCollected flows).filter isV6) s 0
    (Nat.le_refl _) h
  unfold Flows.exportIpfix
  dsimp only
  split
  · rename_i heq
    rw [heq] at hloop
    exact hloop
  · rename_i heq
    rw [heq] at hloop
    exact ⟨hloop.version, hloop.headed, hloop.noted, hloop.precede⟩

/-! ## NetFlow v5 -/

/-- NetFlow v5 has no sets. -/
structure V5Log (s : Session) : Prop where
  version : s.exp.version = 5
  noSets : ∀ a ∈ s.log, a.datagram.sets = []

theorem V5Log.exportV5 (h : V5Log s) (flows : List Flow) :
    V5Log (exportV5 w flows s).1 := by
  have hturn : ∀ {left s'}, v5Batch left ≠ 0 → V5Log s' → V5Log (v5Turn w left s') := by
    intro left s' _ hlog
    constructor
    · unfold v5Turn
      dsimp only
      split <;> exact hlog.version
    · intro a ha
      rcases mem_append.mp ha with hold | hnew
      · exact hlog.noSets a hold
      · obtain rfl := mem_singleton.mp hnew
        rfl
  obtain ⟨_, _, hrun⟩ := @exportV5Loop_run w (fun _ s' => V5Log s') hturn flows.length flows s 0
    (Nat.le_refl _) h
  exact hrun

/-! ## Sequences of calls -/

theorem Session.sendAll_induct {I : Session → Prop} (hstart : I s)
    (hstep : ∀ {s} (flows), flows ≠ [] → I s → I (s.send w flows).1) (calls : List (List Flow)) :
    I (s.sendAll w calls) := by
  induction calls using List.reverseRecOn with
  | nil => exact hstart
  | append_singleton calls flows ih =>
    rw [Session.sendAll_append]
    by_cases hne : flows = []
    · subst hne
      exact ih
    · exact hstep flows hne ih

theorem V9Log.templatesPrecede_iff (h : V9Log s) :
    TemplatesPrecede s.log ↔ TemplatesDue s.log := by
  have hpoint : ∀ earlier a, earlier ++ [a] <+: s.log →
      (Readable earlier a ↔ (a.accepted → ∀ id, HasData id a.datagram →
        ∃ b ∈ earlier ++ [a], b.accepted ∧ Due id b)) := by
    intro earlier a hpre
    have hheaded : ∀ b ∈ earlier ++ [a], HeadedBy b.v9Head b.datagram :=
      fun b hb => h.headed b (hpre.subset hb)
    rw [readable_iff hheaded]
    refine forall_congr' fun _ => forall_congr' fun id => forall_congr' fun hdata => ?_
    have hid := (hheaded a (by simp)).id_of_hasData hdata
    refine exists_congr fun b => and_congr_right fun _ => and_congr_right fun _ => ?_
    exact hasTemplate_v9Head hid b
  exact forall_congr' fun earlier => forall_congr' fun a => forall_congr' fun hpre =>
    hpoint earlier a hpre

theorem V5Log.templatesPrecede (h : V5Log s) : TemplatesPrecede s.log := by
  intro earlier a hpre _ before id flows after hsplit
  rw [h.noSets a (hpre.subset (by simp))] at hsplit
  simp at hsplit

/-- Whatever the clock and the socket do, every data set that was sent is preceded by its template:
always for IPFIX, and for NetFlow v9 if and only if templates were due for an accepted datagram up to
it, in a call that has flows of its family. -/
theorem templates_precede_iff (w : World) {sourceId : UInt32} {version : Int32}
    {bootTimeSec : UInt64} {exp : NfExporter}
    (hexp : NfExporter.create sourceId version bootTimeSec = some exp) (calls : List (List Flow)) :
    TemplatesPrecede (Session.sendAll w { exp } calls).log ↔
      (version = 9 → TemplatesDue (Session.sendAll w { exp } calls).log) := by
  have hnil : TemplatesPrecede [] := by
    intro earlier a hpre
    have hlen := hpre.length_le
    simp at hlen
  unfold NfExporter.create at hexp
  split at hexp
  · cases hexp
  · rename_i hversions
    cases hexp
    by_cases h9 : version = 9
    · subst h9
      have hlog : V9Log (Session.sendAll w
          { exp := { version := 9, sourceId, bootTimeSec } } calls) := by
        apply Session.sendAll_induct ⟨rfl, by simp⟩
        intro s flows hne h
        rw [send_v9 hne h.version]
        exact h.exportV9 flows
      rw [hlog.templatesPrecede_iff]
      exact ⟨fun h _ => h, fun h => h rfl⟩
    · refine ⟨fun _ h => absurd h h9, fun _ => ?_⟩
      by_cases h5 : version = 5
      · -- its packets have no sets at all
        subst h5
        apply V5Log.templatesPrecede
        apply Session.sendAll_induct ⟨rfl, by simp⟩
        intro s flows hne h
        rw [send_v5 hne h.version]
        exact h.exportV5 flows
      · have h10 : version = 10 := by
          by_contra h10
          exact hversions ⟨h5, h9, h10⟩
        subst h10
        apply IpfixLog.precede
        apply Session.sendAll_induct ⟨rfl, by simp, fun h => absurd rfl h, hnil⟩
        intro s flows hne h
        rw [send_ipfix hne h.version]
        exact h.exportIpfix flows

def v9Exporter : NfExporter where
  version := 9
  sourceId := 0x5053
  bootTimeSec := 1700000000

/-- A flow of one UDP packet from ::1 to port 53 of ::2. -/
def udp6Flow : Flow :=
  { udpFlow 53 with
    key := { (udpFlow 53).key with
      af := afInet6
      srcAddr := #v[0, 0, 0, 0, 0, 0, 0, 0, 0, 0, 0, 0, 0, 0, 0, 1]
      dstAddr := #v[0, 0, 0, 0, 0, 0, 0, 0, 0, 0, 0, 0, 0, 0, 0, 2] }
    octets := ⟨48, 0⟩ }

/-- Flows of both families in one call, and one of each in the next, whose datagram has no template. -/
theorem both_families_templates_precede :
    NfExporter.create 0x5053 9 1700000000 = some v9Exporter ∧
      TemplatesPrecede (Session.sendAll calmWorld { exp := v9Exporter }
        [[udpFlow 53, udp6Flow], [udp6Flow, udpFlow 443]]).log := by
  have hexp : NfExporter.create 0x5053 9 1700000000 = some v9Exporter := by decide
  refine ⟨hexp, (templates_precede_iff calmWorld hexp _).mpr fun _ => ?_⟩
  have hlog : ∃ a b, (Session.sendAll calmWorld { exp := v9Exporter }
      [[udpFlow 53, udp6Flow], [udp6Flow, udpFlow 443]]).log = [] ++ [a] ++ [b] ∧ a.accepted = true ∧
      needTemplate a.now a.before ∧ a.v6Count > 0 :=
    ⟨_, _, rfl, rfl, by decide +kernel, by decide +kernel⟩
  obtain ⟨a, b, hlog, hacc, hneed, hv6⟩ := hlog
  rw [hlog]
  refine forall_prefix_concat.mpr ⟨forall_prefix_concat.mpr ⟨forall_prefix_nil, ?_⟩, ?_⟩
  all_goals exact fun _ id _ => ⟨a, by simp, hacc, hneed, fun _ => hv6⟩

/-- An IPv4 flow in one call and an IPv6 flow in the next, within the same second. -/
theorem ipv6_data_without_template :
    ¬ TemplatesPrecede
      (Session.sendAll calmWorld { exp := v9Exporter } [[udpFlow 53], [udp6Flow]]).log := by
  intro h
  have hlog : ∃ a b, (Session.sendAll calmWorld { exp := v9Exporter }
      [[udpFlow 53], [udp6Flow]]).log = [a] ++ [b] ∧ b.accepted = true ∧
      a.datagram.sets = [.template templateIdV4 tmplV4Fields, .data templateIdV4 [udpFlow 53]] ∧
      b.datagram.sets = [.data templateIdV6 [udp6Flow]] :=
    ⟨_, _, rfl, rfl, by decide +kernel, by decide +kernel⟩
  obtain ⟨a, b, hlog, hacc, ha, hb⟩ := hlog
  rw [hlog] at h
  rcases h [a] b (prefix_refl _) hacc [] templateIdV6 [udp6Flow] [] hb with
    ⟨fields, hmem⟩ | ⟨c, hc, _, fields, hmem⟩
  · cases hmem
  · obtain rfl := mem_singleton.mp hc
    rw [ha] at hmem
    simp [templateIdV4, templateIdV6] at hmem

end Packetsonde.Flows
