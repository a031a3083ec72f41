import Packetsonde.Flows.Datagrams

/-!
# Packetsonde — completeness and sequence numbers of an export

With every `sendto` succeeding, a call of `ps_nf_exporter_send` exports every flow of the families
its protocol carries in one data record, and numbers its datagrams: by the records sent before them
(v5, IPFIX) or by the datagrams (v9).

v5 and v9 do this for every sequence of calls. IPFIX adds the length of its input to the sequence
after the call and never within it: the numbers are right as long as no call needs a second datagram
and no flow of another family was handed over before (`export_numbered_iff`).
-/

namespace Packetsonde.Flows

open Packetsonde.Lib
open List

/-! ## What is required -/

/-- What holds at each element of a longer list. -/
theorem forall_prefix_concat {α : Type} {P : List α → α → Prop} {xs : List α} {y : α} :
    (∀ pre x, pre ++ [x] <+: xs ++ [y] → P pre x) ↔
      (∀ pre x, pre ++ [x] <+: xs → P pre x) ∧ P xs y := by
  constructor
  · intro h
    exact ⟨fun pre x hx => h pre x (hx.trans (prefix_append _ _)), h xs y (prefix_refl _)⟩
  · rintro ⟨hxs, hy⟩ pre x hx
    rcases prefix_concat_iff.mp hx with heq | hlt
    · obtain ⟨rfl, rfl⟩ := append_inj' heq rfl |>.imp id (by simpa using ·)
      exact hy
    · exact hxs pre x hlt

theorem forall_prefix_nil {α : Type} {P : List α → α → Prop} :
    ∀ pre x, pre ++ [x] <+: [] → P pre x := by
  intro pre x h
  have hlen := h.length_le
  simp at hlen

def recordsOf (ds : List Datagram) : List Flow := ds.flatMap Datagram.records

theorem recordsOf_append (ds es : List Datagram) :
    recordsOf (ds ++ es) = recordsOf ds ++ recordsOf es :=
  flatMap_append

/-- The sequence number of a datagram sent behind `earlier`. -/
def requiredSequence (version : Int32) (earlier : List Datagram) : UInt32 :=
  UInt32.ofNat (if version = 9 then earlier.length else (recordsOf earlier).length)

/-- Every datagram has the sequence number its protocol requires. -/
def Numbered (version : Int32) (ds : List Datagram) : Prop :=
  ∀ earlier d, earlier ++ [d] <+: ds → d.sequence = requiredSequence version earlier

def carries (version : Int32) (f : Flow) : Bool :=
  if version = 5 then isV4 f else isV4 f || isV6 f

def Session.sent (s : Session) : List Datagram := s.log.map Attempt.datagram

def Session.datagramsOf (w : World) (flows : List Flow) (s : Session) : List Datagram :=
  (s.send w flows).1.sent.drop s.sent.length

def Session.sendAll (w : World) (s : Session) (calls : List (List Flow)) : Session :=
  calls.foldl (fun s flows => (s.send w flows).1) s

/-- Every call exports each flow of the families carried in one record. -/
def Complete (w : World) (version : Int32) (s : Session) (calls : List (List Flow)) : Prop :=
  ∀ done flows, done ++ [flows] <+: calls →
    (recordsOf ((s.sendAll w done).datagramsOf w flows)).Perm (flows.filter (carries version))

theorem numbered_nil (version : Int32) : Numbered version [] := forall_prefix_nil

/-- A datagram is numbered by those before it. -/
theorem numbered_append_iff {version : Int32} {ds : List Datagram} {d : Datagram} :
    Numbered version (ds ++ [d]) ↔
      Numbered version ds ∧ d.sequence = requiredSequence version ds :=
  forall_prefix_concat

theorem Numbered.prefix {version : Int32} {ds es : List Datagram} (h : Numbered version ds)
    (hpre : es <+: ds) : Numbered version es :=
  fun earlier d hd => h earlier d (hd.trans hpre)

theorem requiredSequence_append {version : Int32} (ds : List Datagram) (d : Datagram) :
    requiredSequence version (ds ++ [d]) =
      requiredSequence version ds
        + UInt32.ofNat (if version = 9 then 1 else d.records.length) := by
  unfold requiredSequence
  split
  · rw [length_append, UInt32.ofNat_add]
    rfl
  · rw [recordsOf_append, length_append, UInt32.ofNat_add]
    simp [recordsOf]

theorem Session.sendAll_append (w : World) (s : Session) (done : List (List Flow))
    (flows : List Flow) :
    s.sendAll w (done ++ [flows]) = ((s.sendAll w done).send w flows).1 := by
  unfold Session.sendAll
  rw [foldl_append]
  rfl

/-- Where a call stands that was begun with `s` to send `flows`: its datagrams are numbered, and
their records are `flows` without those `left`. -/
structure Sending (version : Int32) (s : Session) (flows left : List Flow) (s' : Session) :
    Prop where
  numbered : Numbered version s'.sent
  sent : ∃ new, s'.sent = s.sent ++ new ∧ (recordsOf new ++ left).Perm flows

/-- One more datagram. -/
theorem Sending.datagram {version : Int32} {s s' s'' : Session} {flows left left' : List Flow}
    {d : Datagram} (h : Sending version s flows left s') (hsent : s''.sent = s'.sent ++ [d])
    (hseq : d.sequence = requiredSequence version s'.sent)
    (hperm : (d.records ++ left').Perm left) : Sending version s flows left' s'' where
  numbered := by
    rw [hsent]
    exact numbered_append_iff.mpr ⟨h.numbered, hseq⟩
  sent := by
    obtain ⟨new, heq, hflows⟩ := h.sent
    refine ⟨new ++ [d], by rw [hsent, heq, append_assoc], ?_⟩
    have hrec : recordsOf (new ++ [d]) = recordsOf new ++ d.records := by
      simp [recordsOf]
    rw [hrec, append_assoc]
    exact (hperm.append_left _).trans hflows

/-- The datagrams are numbered, and so will the next one be. -/
structure Counting (version : Int32) (s : Session) : Prop where
  speaks : s.exp.version = version
  numbered : Numbered version s.sent
  next : (if version = 9 then s.exp.v9PktSequence else s.exp.flowSequence) =
    requiredSequence version s.sent

/-! ## NetFlow v9 -/

theorem sent_v9Turn (w : World) (uptime unixSecs : UInt32) (v6Count : Nat) (v4 v6 : List Flow)
    (s : Session) :
    (v9Turn w uptime unixSecs v6Count v4 v6 s).sent = s.sent ++
      [.v9 uptime unixSecs s.exp.v9PktSequence s.exp.sourceId
        (s.v9Packet w v6Count v4 v6).1.sets] := by
  simp [Session.sent, v9Turn]

section

variable {w : World} (hw : ∀ k, w.accepts k)

include hw

theorem v9PktSequence_v9Turn (uptime unixSecs : UInt32) (v6Count : Nat) (v4 v6 : List Flow)
    (s : Session) :
    (v9Turn w uptime unixSecs v6Count v4 v6 s).exp.v9PktSequence = s.exp.v9PktSequence + 1 := by
  unfold v9Turn
  dsimp only
  rw [if_pos (hw _)]
  split <;> rfl

omit hw in
theorem version_v9Turn (uptime unixSecs : UInt32) (v6Count : Nat) (v4 v6 : List Flow)
    (s : Session) : (v9Turn w uptime unixSecs v6Count v4 v6 s).exp.version = s.exp.version := by
  unfold v9Turn
  dsimp only
  split <;> split <;> rfl

/-- A call of `export_v9` keeps the count and sends every IPv4 and IPv6 flow. -/
theorem exportV9_spec (flows : List Flow) {s : Session} (h : Counting 9 s) :
    Sending 9 s (flows.filter isV4 ++ flows.filter isV6) [] (exportV9 w flows s).1 ∧
      Counting 9 (exportV9 w flows s).1 := by
  -- the invariant of the turns
  let I := fun v4 v6 s' =>
    Sending 9 s (flows.filter isV4 ++ flows.filter isV6) (v4 ++ v6) s' ∧ Counting 9 s'
  have hturn {uptime unixSecs v6Count v4 v6 s'} (hne : ¬ (v4 = [] ∧ v6 = [])) (h : I v4 v6 s') :
      I (s'.v9Packet w v6Count v4 v6).2.1 (s'.v9Packet w v6Count v4 v6).2.2
        (v9Turn w uptime unixSecs v6Count v4 v6 s') := by
    obtain ⟨hsending, hcount⟩ := h
    have hnext := hsending.datagram (sent_v9Turn w uptime unixSecs v6Count v4 v6 s') hcount.next
      ((s'.v9Packet_cut w hne).perm (flows_v9Templates _ _))
    refine ⟨hnext, (version_v9Turn ..).trans hcount.speaks, hnext.numbered, ?_⟩
    rw [if_pos rfl, v9PktSequence_v9Turn hw, sent_v9Turn, requiredSequence_append, if_pos rfl]
    exact congrArg (· + 1) hcount.next
  have hrun := fun uptime unixSecs =>
    @exportV9Loop_run w uptime unixSecs (flows.filter isV6).length I hturn
      _ _ _ { s with reads := s.reads + 2 } 0 (Nat.le_refl _)
      ⟨⟨h.numbered, [], (append_nil _).symm, .refl _⟩, h.speaks, h.numbered, h.next⟩
  obtain ⟨hsending, hcount⟩ := hrun _ _
  exact ⟨⟨hsending.numbered, hsending.sent⟩, hcount.speaks, hcount.numbered, hcount.next⟩

/-! ## NetFlow v5 -/

omit hw in
theorem sent_v5Turn (flows : List Flow) (s : Session) :
    (v5Turn w flows s).sent = s.sent ++
      [.v5 ((w.clock s.reads - s.exp.bootTimeSec.toUInt32) * 1000) (w.clock (s.reads + 1))
        s.exp.flowSequence s.exp.sourceId.toUInt8 (fillV5 (v5Batch flows) flows).1] := by
  simp [Session.sent, v5Turn]

theorem exp_v5Turn (flows : List Flow) (s : Session) :
    (v5Turn w flows s).exp =
      { s.exp with
        flowSequence := s.exp.flowSequence
          + UInt32.ofNat (fillV5 (v5Batch flows) flows).1.length } := by
  unfold v5Turn
  dsimp only
  rw [if_pos (hw _)]

/-- A call of `export_v5` keeps the count and sends every IPv4 flow. -/
theorem exportV5_spec (flows : List Flow) {s : Session} (h : Counting 5 s) :
    Sending 5 s (flows.filter isV4) [] (exportV5 w flows s).1 ∧ Counting 5 (exportV5 w flows s).1 := by
  let I := fun (left : List Flow) s' =>
    Sending 5 s (flows.filter isV4) (left.filter isV4) s' ∧ Counting 5 s'
  have hturn {left s'} (_ : v5Batch left ≠ 0) (h : I left s') :
      I (fillV5 (v5Batch left) left).2 (v5Turn w left s') := by
    obtain ⟨hsending, hcount⟩ := h
    obtain ⟨happ, _, _⟩ := fillV5_spec (v5Batch_le left)
    have hnext := hsending.datagram (sent_v5Turn (w := w) left s') hcount.next (List.Perm.of_eq happ)
    refine ⟨hnext, ?_, hnext.numbered, ?_⟩
    · rw [exp_v5Turn hw]
      exact hcount.speaks
    · rw [if_neg (by decide), exp_v5Turn hw, sent_v5Turn, requiredSequence_append, if_neg (by decide)]
      exact congrArg (· + _) hcount.next
  obtain ⟨rest, hrest, hsending, hcount⟩ := @exportV5Loop_run w I hturn flows.length flows s 0
    (Nat.le_refl _) ⟨⟨h.numbered, [], (append_nil _).symm, .refl _⟩, h⟩
  rw [hrest] at hsending
  exact ⟨hsending, hcount⟩

/-! ## IPFIX

All datagrams of a call have the same number. -/

omit hw in
theorem sent_ipfixTurn (v6Count : Nat) (v4 v6 : List Flow) (s : Session) :
    (ipfixTurn w v6Count v4 v6 s).sent = s.sent ++
      [.ipfix (w.clock (s.reads + 1)) s.exp.flowSequence s.exp.sourceId
        (s.ipfixPacket w v4 v6).1.sets] := by
  simp [Session.sent, ipfixTurn]

omit hw in
theorem flowSequence_ipfixTurn (v6Count : Nat) (v4 v6 : List Flow) (s : Session) :
    (ipfixTurn w v6Count v4 v6 s).exp.flowSequence = s.exp.flowSequence ∧
      (ipfixTurn w v6Count v4 v6 s).exp.version = s.exp.version := by
  unfold ipfixTurn
  dsimp only
  split
  · exact ⟨rfl, rfl⟩
  · split <;> exact ⟨rfl, rfl⟩

/-- The flows fit one datagram, behind the templates if they are due. -/
def IpfixFits (sendTmpl : Bool) (v4 v6 : List Flow) : Prop :=
  ipfixDataOff sendTmpl + (if v4 = [] then 0 else 4 + ipfixV4RecLen * v4.length)
    + (if v6 = [] then 0 else 4 + ipfixV6RecLen * v6.length) ≤ nfMaxPacket

instance (sendTmpl : Bool) (v4 v6 : List Flow) : Decidable (IpfixFits sendTmpl v4 v6) := by
  unfold IpfixFits
  infer_instance

omit hw in
theorem ipfixFits_nil (sendTmpl : Bool) : IpfixFits sendTmpl [] [] := by cases sendTmpl <;> decide

omit hw in
/-- Nothing remains behind the first datagram exactly if the flows fit it. -/
theorem ipfixPacket_rest_eq_nil {s : Session} {v4 v6 : List Flow} :
    ((s.ipfixPacket w v4 v6).2.1 = [] ∧ (s.ipfixPacket w v4 v6).2.2 = []) ↔
      IpfixFits (s.sendTmpl w) v4 v6 := by
  obtain ⟨hbegin, -, hoff⟩ := beginIpfix_wrote (w.stack s.log.length) (s.sendTmpl w)
  obtain ⟨p, h4, h6⟩ := buildIpfix_adds (w.stack s.log.length) (s.sendTmpl w) v4 v6
  have hle : ipfixDataOff (s.sendTmpl w) ≤ 120 := by cases s.sendTmpl w <;> decide
  have hroom {n recLen off : Nat} (hpos : 0 < recLen) :
      n ≤ room recLen off ↔ n * recLen ≤ 1400 - off := Nat.le_div_iff_mul_le hpos
  have hrest4 : _ = v4.drop (room 47 _) := h4.rest
  have hrest6 : _ = v6.drop (room 74 _) := h6.rest
  have hoff6 : p.buf.off = _ + _ := h4.off hbegin
  rw [Format.sum_dataSet, hoff] at hoff6
  change _ = _ + ite (v4.take (room 47 _) = []) 0 (4 + 47 * (v4.take (room 47 _)).length) at hoff6
  rw [hoff] at hrest4
  dsimp only at hrest4 hrest6
  rw [hrest4, hrest6, drop_eq_nil_iff, drop_eq_nil_iff]
  unfold IpfixFits ipfixV4RecLen ipfixV6RecLen nfMaxPacket
  by_cases hfits : v4.length ≤ room 47 (ipfixDataOff (s.sendTmpl w) + 4)
  · -- all IPv4 flows are in, and the IPv6 set starts behind them
    rw [take_of_length_le hfits] at hoff6
    rw [and_iff_right hfits, hroom (by decide), hoff6]
    rw [hroom (by decide)] at hfits
    have hv6 : v6 = [] ↔ v6.length = 0 := length_eq_zero_iff.symm
    simp only [hv6]
    by_cases hv4 : v4 = [] <;> simp only [hv4, if_true, if_false, length_nil] <;> split <;> omega
  · -- IPv4 flows are left, and their set alone is too long
    rw [hroom (by decide)] at hfits
    have hv4 : v4 ≠ [] := by
      rintro rfl
      exact hfits (Nat.zero_le _)
    rw [hroom (by decide), if_neg hv4]
    omega

omit hw in
/-- What a call does to the session: it only adds datagrams, with one number. -/
theorem exportIpfixLoop_grows (v6Count fuel : Nat) (v4 v6 : List Flow) (s : Session) (sent : Nat)
    (hfuel : v4.length + v6.length ≤ fuel) :
    s.sent <+: (exportIpfixLoop w v6Count fuel v4 v6 s sent).1.sent ∧
      (exportIpfixLoop w v6Count fuel v4 v6 s sent).1.exp.flowSequence = s.exp.flowSequence ∧
      (exportIpfixLoop w v6Count fuel v4 v6 s sent).1.exp.version = s.exp.version := by
  let I := fun (_ _ : List Flow) (s' : Session) => s.sent <+: s'.sent ∧
    s'.exp.flowSequence = s.exp.flowSequence ∧ s'.exp.version = s.exp.version
  have hturn {v4 v6 s'} (_ : ¬ (v4 = [] ∧ v6 = [])) (h : I v4 v6 s') :
      I (s'.ipfixPacket w v4 v6).2.1 (s'.ipfixPacket w v4 v6).2.2 (ipfixTurn w v6Count v4 v6 s') := by
    obtain ⟨hpre, hseq, hver⟩ := h
    obtain ⟨hseq', hver'⟩ := flowSequence_ipfixTurn (w := w) v6Count v4 v6 s'
    refine ⟨?_, hseq'.trans hseq, hver'.trans hver⟩
    rw [sent_ipfixTurn]
    exact hpre.trans (prefix_append _ _)
  obtain ⟨_, _, h, _⟩ := @exportIpfixLoop_run w v6Count I hturn fuel v4 v6 s sent hfuel
    ⟨prefix_refl _, rfl, rfl⟩
  exact h

/-- The datagram of a call whose flows fit one. -/
theorem exportIpfixLoop_of_fits {v6Count fuel : Nat} {v4 v6 : List Flow} {s : Session} {sent : Nat}
    (hfuel : v4.length + v6.length ≤ fuel) (hne : ¬ (v4 = [] ∧ v6 = []))
    (hfits : IpfixFits (s.sendTmpl w) v4 v6) :
    ∃ sent', exportIpfixLoop w v6Count fuel v4 v6 s sent =
      (ipfixTurn w v6Count v4 v6 s, some sent') := by
  cases fuel with
  | zero =>
    exact absurd ⟨length_eq_zero_iff.mp (by omega), length_eq_zero_iff.mp (by omega)⟩ hne
  | succ fuel =>
    obtain ⟨h4, h6⟩ := ipfixPacket_rest_eq_nil.mpr hfits
    rw [exportIpfixLoop_turn w hne, if_pos (hw _), h4, h6]
    refine ⟨sent + 1, ?_⟩
    cases fuel <;> simp [exportIpfixLoop]

/-- Where the flows do not fit one datagram, a second follows with the number of the first. -/
theorem exportIpfixLoop_of_not_fits {v6Count fuel : Nat} {v4 v6 : List Flow} {s : Session}
    {sent : Nat} (hfuel : v4.length + v6.length ≤ fuel)
    (hfits : ¬ IpfixFits (s.sendTmpl w) v4 v6) :
    ∃ d d' : Datagram,
      s.sent ++ [d] ++ [d'] <+: (exportIpfixLoop w v6Count fuel v4 v6 s sent).1.sent ∧
      d.sequence = d'.sequence ∧
      d.records = (s.ipfixPacket w v4 v6).1.sets.flatMap FlowSet.flows := by
  have hne : ¬ (v4 = [] ∧ v6 = []) := by
    rintro ⟨rfl, rfl⟩
    exact hfits (ipfixFits_nil _)
  -- the first turn leaves flows, so there is a second one
  have hleft : ¬ ((s.ipfixPacket w v4 v6).2.1 = [] ∧ (s.ipfixPacket w v4 v6).2.2 = []) :=
    fun h => hfits (ipfixPacket_rest_eq_nil.mp h)
  have hless := (@Session.ipfixPacket_cut w s v4 v6 hne).length_lt
  cases fuel with
  | zero => omega
  | succ fuel =>
    rw [exportIpfixLoop_turn w hne, if_pos (hw _)]
    generalize hr4 : (s.ipfixPacket w v4 v6).2.1 = r4 at *
    generalize hr6 : (s.ipfixPacket w v4 v6).2.2 = r6 at *
    generalize hs1 : ipfixTurn w v6Count v4 v6 s = s1
    have hsent1 := sent_ipfixTurn (w := w) v6Count v4 v6 s
    have hseq1 := (flowSequence_ipfixTurn (w := w) v6Count v4 v6 s).1
    rw [hs1] at hsent1 hseq1
    have hless1 := (@Session.ipfixPacket_cut w s1 r4 r6 hleft).length_lt
    cases fuel with
    | zero => omega
    | succ fuel =>
      rw [exportIpfixLoop_turn w hleft, if_pos (hw _)]
      obtain ⟨hgrows, _, _⟩ := exportIpfixLoop_grows (w := w) v6Count fuel
        (s1.ipfixPacket w r4 r6).2.1 (s1.ipfixPacket w r4 r6).2.2 (ipfixTurn w v6Count r4 r6 s1) (sent + 1 + 1) (by omega)
      rw [sent_ipfixTurn, hsent1] at hgrows
      exact ⟨_, _, hgrows, hseq1.symm, rfl⟩

end

theorem length_records_ipfixPacket_le (w : World) (s : Session) (v4 v6 : List Flow) :
    ((s.ipfixPacket w v4 v6).1.sets.flatMap FlowSet.flows).length ≤ 2800 := by
  obtain ⟨-, hsets, -⟩ := beginIpfix_wrote (w.stack s.log.length) (s.sendTmpl w)
  obtain ⟨p, h4, h6⟩ := buildIpfix_adds (w.stack s.log.length) (s.sendTmpl w) v4 v6
  have hroom (recLen off : Nat) : room recLen off ≤ 1400 :=
    Nat.le_trans (Nat.div_le_self _ _) (Nat.sub_le _ _)
  rw [h6.sets, h4.sets, hsets, flatMap_append, flatMap_append, flows_ipfixTemplates, flows_dataSet,
    flows_dataSet, nil_append, length_append]
  exact Nat.add_le_add (Nat.le_trans (length_take_le _ _) (hroom _ _))
    (Nat.le_trans (length_take_le _ _) (hroom _ _))

/-! ### The flows of a call -/

def isIp (f : Flow) : Bool := isV4 f || isV6 f

theorem not_isV6_of_isV4 {f : Flow} (h : isV4 f) : isV6 f = false := by
  have haf : f.key.af = afInet := by simpa [isV4] using h
  unfold isV6
  rw [haf]
  rfl

variable (flows : List Flow)

theorem perm_filter_isIp :
    (flows.filter isV4 ++ flows.filter isV6).Perm (flows.filter isIp) := by
  induction flows with
  | nil => exact .nil
  | cons f flows ih =>
    by_cases h4 : isV4 f
    · have h6 := not_isV6_of_isV4 h4
      rw [filter_cons_of_pos h4, filter_cons_of_neg (by simp [h6]),
        filter_cons_of_pos (by simp [isIp, h4])]
      exact ih.cons f
    · by_cases h6 : isV6 f
      · rw [filter_cons_of_neg h4, filter_cons_of_pos h6,
          filter_cons_of_pos (by simp [isIp, h6])]
        exact perm_middle.trans (ih.cons f)
      · rw [filter_cons_of_neg h4, filter_cons_of_neg h6,
          filter_cons_of_neg (by simp [isIp, h4, h6])]
        exact ih

theorem filter_isV4_isIp :
    (flows.filter isIp).filter isV4 = flows.filter isV4 := by
  rw [filter_filter]
  apply filter_congr
  intro f _
  unfold isIp
  cases isV4 f <;> rfl

theorem filter_isV6_isIp :
    (flows.filter isIp).filter isV6 = flows.filter isV6 := by
  rw [filter_filter]
  apply filter_congr
  intro f _
  unfold isIp
  cases isV4 f <;> cases isV6 f <;> rfl

theorem length_filter_isIp :
    (flows.filter isV4).length + (flows.filter isV6).length = (flows.filter isIp).length := by
  rw [← length_append]
  exact (perm_filter_isIp flows).length_eq

/-- At most 29 flows fit one datagram. -/
theorem length_le_of_ipfixFits {sendTmpl : Bool} {v4 v6 : List Flow}
    (h : IpfixFits sendTmpl v4 v6) : v4.length + v6.length ≤ 29 := by
  have hset (recLen : Nat) (fs : List Flow) :
      recLen * fs.length ≤ if fs = [] then 0 else 4 + recLen * fs.length := by
    split
    · simp_all
    · omega
  have h4 := hset 47 v4
  have h6 := hset 74 v6
  unfold IpfixFits ipfixV4RecLen ipfixV6RecLen nfMaxPacket ipfixDataOff at h
  omega

theorem ipfixCollected_eq :
    ipfixCollected flows = (flows.filter isIp).take 960 :=
  rfl

/-- A call whose flows fit one datagram collects them all. -/
theorem ipfixCollected_of_fits {sendTmpl : Bool} {flows : List Flow}
    (h : IpfixFits sendTmpl (flows.filter isV4) (flows.filter isV6)) :
    ipfixCollected flows = flows.filter isIp := by
  have hlen := length_le_of_ipfixFits h
  rw [length_filter_isIp] at hlen
  rw [ipfixCollected_eq]
  exact take_of_length_le (by omega)

theorem ipfixFits_collected {sendTmpl : Bool} {flows : List Flow} :
    IpfixFits sendTmpl ((ipfixCollected flows).filter isV4) ((ipfixCollected flows).filter isV6) ↔
      IpfixFits sendTmpl (flows.filter isV4) (flows.filter isV6) := by
  constructor
  · intro h
    have hlen := length_le_of_ipfixFits h
    -- a full collection does not fit
    have hall : ipfixCollected flows = flows.filter isIp := by
      have hip : (ipfixCollected flows).filter isIp = ipfixCollected flows := by
        rw [filter_eq_self]
        intro f hf
        exact (mem_filter.mp (mem_of_mem_take hf)).2
      rw [length_filter_isIp, hip, ipfixCollected_eq, length_take] at hlen
      rw [ipfixCollected_eq]
      exact take_of_length_le (by omega)
    rwa [hall, filter_isV4_isIp, filter_isV6_isIp] at h
  · intro h
    rwa [ipfixCollected_of_fits h, filter_isV4_isIp, filter_isV6_isIp]

/-! ### A call -/

def otherCount (flows : List Flow) : Nat := flows.countP fun f => !isIp f

theorem length_eq_isIp_add_other :
    flows.length = (flows.filter isIp).length + otherCount flows := by
  rw [← countP_eq_length_filter, length_eq_countP_add_countP isIp]
  unfold otherCount
  congr 2
  funext f
  cases isIp f <;> rfl

def ipfixRun (w : World) (flows : List Flow) (s : Session) : Session × Option Nat :=
  let v4 := (ipfixCollected flows).filter isV4
  let v6 := (ipfixCollected flows).filter isV6
  exportIpfixLoop w v6.length (v4.length + v6.length) v4 v6 s 0

section

variable {w : World} (hw : ∀ k, w.accepts k)

include hw

theorem exportIpfix_eq (flows : List Flow) (s : Session) :
    (exportIpfix w flows s).1 = { (ipfixRun w flows s).1 with
      exp := { (ipfixRun w flows s).1.exp with
        flowSequence := (ipfixRun w flows s).1.exp.flowSequence + UInt32.ofNat flows.length } } := by
  obtain ⟨_, _, _, hall⟩ := @exportIpfixLoop_run w ((ipfixCollected flows).filter isV6).length
    (fun _ _ _ => True) (fun _ _ => trivial) _ _ _ s 0 (Nat.le_refl _) trivial
  obtain ⟨hsome, _, _⟩ := hall hw
  obtain ⟨sent, hsent⟩ := Option.isSome_iff_exists.mp hsome
  unfold exportIpfix ipfixRun
  dsimp only
  split
  · rename_i heq
    rw [heq] at hsent
    cases hsent
  · rename_i heq
    rw [heq]

theorem exportIpfix_sent (flows : List Flow) (s : Session) :
    (exportIpfix w flows s).1.sent = (ipfixRun w flows s).1.sent := by
  rw [exportIpfix_eq hw]
  rfl

/-- A call moves the sequence by the length of its input. -/
theorem exportIpfix_sequence (flows : List Flow) (s : Session) :
    (exportIpfix w flows s).1.exp.flowSequence =
        s.exp.flowSequence + UInt32.ofNat flows.length ∧
      (exportIpfix w flows s).1.exp.version = s.exp.version ∧
      s.sent <+: (exportIpfix w flows s).1.sent := by
  obtain ⟨hpre, hseq, hver⟩ := exportIpfixLoop_grows (w := w)
    ((ipfixCollected flows).filter isV6).length _ ((ipfixCollected flows).filter isV4)
    ((ipfixCollected flows).filter isV6) s 0 (Nat.le_refl _)
  rw [exportIpfix_eq hw]
  exact ⟨congrArg (· + _) hseq, hver, hpre⟩

/-- A call whose flows fit one datagram sends them all, in one with the number the exporter stands at
if there are any. -/
theorem exportIpfix_of_fits {flows : List Flow} {s : Session}
    (hfits : IpfixFits (s.sendTmpl w) (flows.filter isV4) (flows.filter isV6)) :
    ∃ new, (exportIpfix w flows s).1.sent = s.sent ++ new ∧
      (recordsOf new).Perm (flows.filter isIp) ∧
      (Numbered 10 (s.sent ++ new) ↔ Numbered 10 s.sent ∧
        (flows.filter isIp ≠ [] → s.exp.flowSequence = requiredSequence 10 s.sent)) := by
  have hfits' := ipfixFits_collected.mpr hfits
  have hall := ipfixCollected_of_fits hfits
  rw [exportIpfix_sent hw]
  by_cases hnone : flows.filter isIp = []
  · -- nothing is sent, whatever the number stands at
    refine ⟨[], ?_, hnone ▸ .nil, by simp [hnone]⟩
    unfold ipfixRun
    rw [hall, hnone, append_nil]
    rfl
  · have hne : ¬ ((ipfixCollected flows).filter isV4 = [] ∧
        (ipfixCollected flows).filter isV6 = []) := by
      rw [hall, filter_isV4_isIp, filter_isV6_isIp]
      rintro ⟨h4, h6⟩
      have hperm := perm_filter_isIp flows
      rw [h4, h6] at hperm
      exact hnone hperm.nil_eq.symm
    obtain ⟨sent, heq⟩ := @exportIpfixLoop_of_fits w hw ((ipfixCollected flows).filter isV6).length
      _ _ _ s 0 (Nat.le_refl _) hne hfits'
    unfold ipfixRun
    rw [heq, sent_ipfixTurn]
    refine ⟨_, rfl, ?_, numbered_append_iff.trans (and_congr_right fun _ => ?_)⟩
    · obtain ⟨h4, h6⟩ := ipfixPacket_rest_eq_nil.mpr hfits'
      have hperm := (@Session.ipfixPacket_cut w s _ _ hne).perm (flows_ipfixTemplates _)
      rw [h4, h6, append_nil, append_nil] at hperm
      rw [recordsOf, flatMap_singleton]
      refine hperm.trans ?_
      rw [hall, filter_isV4_isIp, filter_isV6_isIp]
      exact perm_filter_isIp flows
    · exact ⟨fun h _ => h, fun h => h hnone⟩

end

/-! ## Sequences of calls -/

section

variable {w : World} {version : Int32} {s : Session}

theorem datagramsOf_eq {flows : List Flow} {new : List Datagram}
    (h : (s.send w flows).1.sent = s.sent ++ new) : s.datagramsOf w flows = new := by
  unfold Session.datagramsOf
  rw [h, drop_left]

/-- What every call keeps and gives, a sequence of calls keeps and gives. -/
theorem complete_numbered_of_step {I : Session → Prop} (hstart : I s)
    (hnum : ∀ {s}, I s → Numbered version s.sent)
    (hstep : ∀ {s} (flows), I s → I (s.send w flows).1 ∧
      ∃ new, (s.send w flows).1.sent = s.sent ++ new ∧
        (recordsOf new).Perm (flows.filter (carries version))) (calls : List (List Flow)) :
    Complete w version s calls ∧ Numbered version (s.sendAll w calls).sent := by
  have hall : ∀ done, I (s.sendAll w done) := by
    intro done
    induction done using List.reverseRecOn with
    | nil => exact hstart
    | append_singleton done flows ih =>
      rw [Session.sendAll_append]
      exact (hstep flows ih).1
  refine ⟨?_, hnum (hall calls)⟩
  intro done flows _
  obtain ⟨_, new, hnew, hperm⟩ := hstep flows (hall done)
  rw [datagramsOf_eq hnew]
  exact hperm

theorem Sending.perm {flows : List Flow} {s' : Session} (h : Sending version s flows [] s') :
    ∃ new, s'.sent = s.sent ++ new ∧ (recordsOf new).Perm flows := by
  obtain ⟨new, hnew, hperm⟩ := h.sent
  exact ⟨new, hnew, by rwa [append_nil] at hperm⟩

theorem send_nil (s : Session) : (s.send w []).1 = s := rfl

theorem send_v5 {flows : List Flow} (hne : flows ≠ []) (hver : s.exp.version = 5) :
    (s.send w flows).1 = (exportV5 w flows s).1 := by
  unfold Session.send
  rw [if_neg hne, if_pos hver]

theorem send_ipfix {flows : List Flow} (hne : flows ≠ []) (hver : s.exp.version = 10) :
    (s.send w flows).1 = (exportIpfix w flows s).1 := by
  unfold Session.send
  rw [if_neg hne, if_neg (by rw [hver]; decide), if_pos hver]

theorem send_v9 {flows : List Flow} (hne : flows ≠ []) (hver : s.exp.version = 9) :
    (s.send w flows).1 = (exportV9 w flows s).1 := by
  unfold Session.send
  rw [if_neg hne, if_neg (by rw [hver]; decide), if_neg (by rw [hver]; decide)]

variable (hw : ∀ k, w.accepts k)

include hw

/-- A call of NetFlow v5 or v9 exports each flow of the families carried in one record, and keeps
the count. -/
theorem Counting.send (hversion : version = 5 ∨ version = 9) (h : Counting version s)
    (flows : List Flow) :
    Counting version (s.send w flows).1 ∧
      ∃ new, (s.send w flows).1.sent = s.sent ++ new ∧
        (recordsOf new).Perm (flows.filter (carries version)) := by
  by_cases hne : flows = []
  · subst hne
    exact ⟨h, [], by rw [send_nil, append_nil], .nil⟩
  rcases hversion with rfl | rfl
  · obtain ⟨hsending, hcount⟩ := exportV5_spec hw flows h
    rw [send_v5 hne h.speaks]
    exact ⟨hcount, hsending.perm⟩
  · obtain ⟨hsending, hcount⟩ := exportV9_spec hw flows h
    rw [send_v9 hne h.speaks]
    refine ⟨hcount, ?_⟩
    obtain ⟨new, hnew, hperm⟩ := hsending.perm
    exact ⟨new, hnew, hperm.trans (perm_filter_isIp flows)⟩

/-! ### IPFIX -/

theorem send_ipfix_sequence (hver : s.exp.version = 10) (flows : List Flow) :
    (s.send w flows).1.exp.flowSequence = s.exp.flowSequence + UInt32.ofNat flows.length ∧
      (s.send w flows).1.exp.version = 10 ∧ s.sent <+: (s.send w flows).1.sent := by
  by_cases hne : flows = []
  · subst hne
    rw [send_nil]
    exact ⟨(UInt32.add_zero _).symm, hver, prefix_refl _⟩
  · obtain ⟨hseq, hver', hpre⟩ := exportIpfix_sequence hw flows s
    rw [send_ipfix hne hver]
    exact ⟨hseq, hver'.trans hver, hpre⟩

def Session.FitsOne (w : World) (s : Session) (flows : List Flow) : Prop :=
  IpfixFits (needTemplate (w.clock s.reads) s.exp) (flows.filter isV4) (flows.filter isV6)

theorem send_ipfix_of_fits (hver : s.exp.version = 10) {flows : List Flow}
    (hfits : s.FitsOne w flows) :
    ∃ new, (s.send w flows).1.sent = s.sent ++ new ∧ (recordsOf new).Perm (flows.filter isIp) ∧
      (Numbered 10 (s.sent ++ new) ↔ Numbered 10 s.sent ∧
        (flows.filter isIp ≠ [] → s.exp.flowSequence = requiredSequence 10 s.sent)) := by
  by_cases hne : flows = []
  · subst hne
    exact ⟨[], (append_nil _).symm, .nil, by simp⟩
  · rw [send_ipfix hne hver]
    exact exportIpfix_of_fits hw hfits

/-- Two datagrams of one call cannot both be numbered right. -/
theorem fitsOne_of_numbered (hver : s.exp.version = 10) {flows : List Flow}
    (hnum : Numbered 10 (s.send w flows).1.sent) : s.FitsOne w flows := by
  by_contra hfits
  have hfits' := mt ipfixFits_collected.mp hfits
  have hne : flows ≠ [] := by
    rintro rfl
    exact hfits (ipfixFits_nil _)
  rw [send_ipfix hne hver, exportIpfix_sent hw, ipfixRun] at hnum
  obtain ⟨d, d', hpre, hseq, hrec⟩ := @exportIpfixLoop_of_not_fits w hw
    ((ipfixCollected flows).filter isV6).length _ _ _ s 0 (Nat.le_refl _) hfits'
  have hnum' := hnum.prefix hpre
  rw [numbered_append_iff, numbered_append_iff, requiredSequence_append] at hnum'
  obtain ⟨⟨_, hd⟩, hd'⟩ := hnum'
  rw [← hseq, hd, if_neg (by decide)] at hd'
  -- so the first has no records, or far too many
  have hzero : UInt32.ofNat d.records.length = 0 := by
    have h := congrArg (· - requiredSequence 10 s.sent) hd'
    simpa [UInt32.add_comm] using h.symm
  have hmod : d.records.length % 2 ^ 32 = 0 := by
    simpa using congrArg UInt32.toNat hzero
  have hle : d.records.length ≤ 2800 := by
    rw [hrec]
    exact length_records_ipfixPacket_le ..
  have hpos : 0 < d.records.length := by
    rw [hrec]
    apply length_pos_iff.mpr
    apply Cut.records_ne_nil (s.ipfixPacket_cut w _)
    rintro ⟨h4, h6⟩
    apply hfits'
    rw [h4, h6]
    exact ipfixFits_nil _
  omega

/-- After the calls `done` the sequence counts all flows handed over, and the datagrams have a record
of each that is IPv4 or IPv6. -/
structure Counted (done : List (List Flow)) (s : Session) : Prop where
  speaks : s.exp.version = 10
  next : s.exp.flowSequence = UInt32.ofNat (done.map List.length).sum
  records : (recordsOf s.sent).length = (done.map fun flows => (flows.filter isIp).length).sum

theorem Counted.send {done : List (List Flow)} (h : Counted done s) {flows : List Flow}
    (hfit : s.FitsOne w flows) : Counted (done ++ [flows]) (s.send w flows).1 := by
  obtain ⟨hnext, hver, _⟩ := send_ipfix_sequence hw h.speaks flows
  obtain ⟨new, hsent, hperm, _⟩ := send_ipfix_of_fits hw h.speaks hfit
  refine ⟨hver, ?_, ?_⟩
  · rw [hnext, h.next, map_append, sum_append, UInt32.ofNat_add]
    rfl
  · rw [hsent, recordsOf_append, length_append, h.records, hperm.length_eq, map_append, sum_append]
    simp

omit hw in
theorem sum_lengths (calls : List (List Flow)) :
    (calls.map List.length).sum =
      (calls.map fun flows => (flows.filter isIp).length).sum + (calls.map otherCount).sum := by
  induction calls with
  | nil => rfl
  | cons flows calls ih =>
    rw [map_cons, sum_cons, ih, length_eq_isIp_add_other, map_cons, sum_cons,
      map_cons, sum_cons]
    omega

omit hw in
theorem ofNat_add_eq_iff {a b : Nat} :
    UInt32.ofNat (a + b) = UInt32.ofNat a ↔ b % 2 ^ 32 = 0 := by
  constructor
  · intro h
    have hnat := congrArg UInt32.toNat h
    simp only [UInt32.toNat_ofNat'] at hnat
    omega
  · intro h
    apply UInt32.toNat_inj.mp
    simp only [UInt32.toNat_ofNat']
    omega

/-- A call is complete and numbered right if and only if it fits one datagram and no flows of other
families were counted before. -/
theorem Counted.numbered_send_iff {done : List (List Flow)} (h : Counted done s)
    (hnum : Numbered 10 s.sent) (flows : List Flow) :
    (recordsOf (s.datagramsOf w flows)).Perm (flows.filter (carries 10)) ∧
        Numbered 10 (s.send w flows).1.sent ↔
      s.FitsOne w flows ∧ (flows.filter isIp ≠ [] → (done.map otherCount).sum % 2 ^ 32 = 0) := by
  rw [← and_iff_right_of_imp fun h' : _ ∧ _ => fitsOne_of_numbered hw h.speaks h'.2]
  refine and_congr_right fun hfit => ?_
  obtain ⟨new, hsent, hperm, hnew⟩ := send_ipfix_of_fits hw h.speaks hfit
  have hnumber : s.exp.flowSequence = requiredSequence 10 s.sent ↔
      (done.map otherCount).sum % 2 ^ 32 = 0 := by
    unfold requiredSequence
    rw [h.next, sum_lengths, if_neg (by decide), h.records]
    exact ofNat_add_eq_iff
  rw [datagramsOf_eq hsent, hsent, hnew, hnumber, and_iff_right hnum]
  exact and_iff_right hperm

end

/-- Every call fits one datagram, and the flows of other families handed over before a call that
sends anything are none, modulo the width of the sequence number. -/
def IpfixWithinLimits (w : World) (s : Session) (calls : List (List Flow)) : Prop :=
  ∀ done flows, done ++ [flows] <+: calls →
    (s.sendAll w done).FitsOne w flows ∧
      (flows.filter isIp ≠ [] → (done.map otherCount).sum % 2 ^ 32 = 0)

section

variable {w : World} {s : Session} (hw : ∀ k, w.accepts k) (hlog : s.log = [])
  (hver : s.exp.version = 10) (hseq : s.exp.flowSequence = 0)

include hw hlog hver hseq

/-- Induction on the calls: `Counted` is kept as long as the limits are. -/
theorem complete_numbered_ipfix_iff (calls : List (List Flow)) :
    (Complete w 10 s calls ∧ Numbered 10 (s.sendAll w calls).sent) ↔
      IpfixWithinLimits w s calls := by
  suffices h : ((Complete w 10 s calls ∧ Numbered 10 (s.sendAll w calls).sent) ↔
      IpfixWithinLimits w s calls) ∧
      (s.sendAll w calls).exp.version = 10 ∧
      (IpfixWithinLimits w s calls → Counted calls (s.sendAll w calls)) from h.1
  have hsent : s.sent = [] := by rw [Session.sent, hlog, map_nil]
  induction calls using List.reverseRecOn with
  | nil =>
    have hnum : Numbered 10 s.sent := hsent ▸ numbered_nil 10
    exact ⟨⟨fun _ => forall_prefix_nil, fun _ => ⟨forall_prefix_nil, hnum⟩⟩, hver,
      fun _ => ⟨hver, hseq, by rw [show s.sendAll w [] = s from rfl, hsent]; rfl⟩⟩
  | append_singleton calls flows ih =>
    obtain ⟨hiff, hver', hcount⟩ := ih
    obtain ⟨_, hver'', hgrows⟩ := send_ipfix_sequence hw hver' flows
    have hcomplete : Complete w 10 s (calls ++ [flows]) ↔ Complete w 10 s calls ∧ _ :=
      forall_prefix_concat
    have hlimits : IpfixWithinLimits w s (calls ++ [flows]) ↔ IpfixWithinLimits w s calls ∧ _ :=
      forall_prefix_concat
    rw [hcomplete, hlimits, Session.sendAll_append, ← hiff]
    refine ⟨?_, hver'', fun h => (hcount (hiff.mp h.1)).send hw h.2.1⟩
    constructor
    · rintro ⟨⟨hdone, hperm⟩, hnum⟩
      have hprev := hnum.prefix hgrows
      exact ⟨⟨hdone, hprev⟩,
        ((hcount (hiff.mp ⟨hdone, hprev⟩)).numbered_send_iff hw hprev flows).mp ⟨hperm, hnum⟩⟩
    · rintro ⟨hdone, hlim⟩
      obtain ⟨hperm, hnum⟩ :=
        ((hcount (hiff.mp hdone)).numbered_send_iff hw hdone.2 flows).mpr hlim
      exact ⟨⟨hdone.1, hperm⟩, hnum⟩

end

/-- With every `sendto` succeeding, every flow of the families a protocol carries is exported in one
data record and every datagram has the sequence number its protocol requires: always for NetFlow v5
and v9, and for IPFIX if and only if every call fits one datagram and no flows of other families
come before. -/
theorem export_numbered_iff {w : World} (hw : ∀ k, w.accepts k) {sourceId : UInt32}
    {version : Int32} {bootTimeSec : UInt64} {exp : NfExporter}
    (hexp : NfExporter.create sourceId version bootTimeSec = some exp)
    (calls : List (List Flow)) :
    (Complete w version { exp } calls ∧
        Numbered version (Session.sendAll w { exp } calls).sent) ↔
      (version = 10 → IpfixWithinLimits w { exp } calls) := by
  unfold NfExporter.create at hexp
  split at hexp
  · cases hexp
  · rename_i hversions
    cases hexp
    by_cases h10 : version = 10
    · subst h10
      rw [complete_numbered_ipfix_iff hw rfl rfl rfl]
      exact ⟨fun h _ => h, fun h => h rfl⟩
    · refine ⟨fun _ h => absurd h h10, fun _ => ?_⟩
      by_cases h5 : version = 5
      · subst h5
        exact complete_numbered_of_step ⟨rfl, numbered_nil 5, rfl⟩ Counting.numbered
          (fun flows h => Counting.send hw (.inl rfl) h flows) calls
      · have h9 : version = 9 := by
          by_contra h9
          exact hversions ⟨h5, h9, h10⟩
        subst h9
        exact complete_numbered_of_step ⟨rfl, numbered_nil 9, rfl⟩ Counting.numbered
          (fun flows h => Counting.send hw (.inr rfl) h flows) calls

/-- A flow of one UDP packet from 10.0.0.1 to port `p` of 10.0.0.2. -/
def udpFlow (p : UInt16) : Flow where
  key :=
    { af := afInet
      proto := ipprotoUdp
      srcAddr := #v[10, 0, 0, 1, 0, 0, 0, 0, 0, 0, 0, 0, 0, 0, 0, 0]
      dstAddr := #v[10, 0, 0, 2, 0, 0, 0, 0, 0, 0, 0, 0, 0, 0, 0, 0]
      srcPort := 5000
      dstPort := p
      vlanId := 0
      tos := 0 }
  packets := ⟨1, 0⟩
  octets := ⟨28, 0⟩
  tcpFlags := ⟨0, 0⟩
  flowStart := 1700000000000000
  flowLast := 1700000000000000
  flowLabel := 0

def calmWorld : World where
  clock _ := 1700000000
  accepts _ := true

def ipfixExporter : NfExporter where
  version := 10
  sourceId := 0x5053
  bootTimeSec := 1700000000

def twoCalls : List (List Flow) := [] ++ [[udpFlow 53, udpFlow 123]] ++ [[udpFlow 443]]

theorem two_calls_numbered :
    NfExporter.create 0x5053 10 1700000000 = some ipfixExporter ∧
      Complete calmWorld 10 { exp := ipfixExporter } twoCalls ∧
      Numbered 10 (Session.sendAll calmWorld { exp := ipfixExporter } twoCalls).sent := by
  have hexp : NfExporter.create 0x5053 10 1700000000 = some ipfixExporter := by decide
  refine ⟨hexp, (export_numbered_iff (fun _ => rfl) hexp twoCalls).mpr fun _ => ?_⟩
  have hfirst : IpfixFits true [udpFlow 53, udpFlow 123] [] := by decide
  have hsecond : IpfixFits false [udpFlow 443] [] := by decide
  exact forall_prefix_concat.mpr ⟨forall_prefix_concat.mpr
    ⟨forall_prefix_nil, hfirst, fun _ => rfl⟩, hsecond, fun _ => rfl⟩

/-- Thirty flows in one call: the second datagram has the number of the first, not 27. -/
theorem thirty_flows_not_numbered :
    ¬ Numbered 10 (Session.sendAll calmWorld { exp := ipfixExporter }
        [(List.range 30).map fun i => udpFlow (UInt16.ofNat i)]).sent := by
  intro h
  have hsent : ∃ d d', (Session.sendAll calmWorld { exp := ipfixExporter }
      [(List.range 30).map fun i => udpFlow (UInt16.ofNat i)]).sent = [d] ++ [d'] ∧
      d'.sequence = 0 ∧ d.records.length = 27 :=
    ⟨_, _, rfl, by decide +kernel, by decide +kernel⟩
  obtain ⟨d, d', hsent, hseq, hlen⟩ := hsent
  have hrequired := h [d] d' (by rw [hsent])
  have hrecords : requiredSequence 10 [d] = 27 := by
    unfold requiredSequence
    simp [recordsOf, hlen]
  rw [hseq, hrecords] at hrequired
  exact absurd hrequired (by decide)

end Packetsonde.Flows
