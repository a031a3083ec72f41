import Packetsonde.Flows.Datagrams

/-!
# Packetsonde — datagrams on the wire

What a collector finds in a datagram of `export_v9` or `export_ipfix`: sets whose lengths add up, whole
records in the data sets (`Message`), and a header that counts the sets or gives the length.
-/

namespace Packetsonde.Flows

open Packetsonde.Lib
open List

/-! ## Sets and messages -/

def field (b : Bytes) (off : Nat) : Nat := getBE ((b.drop off).take 2)

theorem field_two (v : UInt16) {n : Nat} (hn : n < 256 ^ 2) (xs : Bytes) :
    field (putU16 v ++ (putBE 2 n ++ xs)) 2 = n := by
  unfold field putU16
  rw [drop_left' (putBE_length 2 _), take_left' (putBE_length 2 _), getBE_putBE_of_lt hn]

/-- A set as a collector reads it: it is as long as it says, and unless it has templates it consists of
whole records and at most three bytes of padding. -/
structure WireSet (tmplId : UInt16) (fieldsOf : UInt16 → List TemplateField) (set : Bytes) : Prop where
  length : field set 2 = set.length
  records : ∀ id : UInt16, field set 0 = id.toNat → id ≠ tmplId →
    ∃ (records : List Bytes) (padding : Bytes), set.drop 4 = records.flatten ++ padding ∧
      padding.length ≤ 3 ∧ ∀ r ∈ records, r.length = recordLen (fieldsOf id)

/-- A datagram: with the header of `hdr` bytes the lengths of the sets add up to it. -/
structure Message (hdr : Nat) (tmplId : UInt16) (fieldsOf : UInt16 → List TemplateField) (b : Bytes)
    (sets : List Bytes) : Prop where
  bounded : b.length ≤ nfMaxPacket
  split : b.drop hdr = sets.flatten
  total : hdr + (sets.map (field · 2)).sum = b.length
  sets : ∀ set ∈ sets, WireSet tmplId fieldsOf set

namespace Format

variable (F : Format)

theorem wireSet {set : FlowSet} (hsmall : F.len set < 256 ^ 2) :
    WireSet F.tmplId F.fieldsOf (F.setBytes set) := by
  constructor
  · rw [length_setBytes]
    exact field_two _ hsmall _
  · intro id hid htmpl
    have hid : (F.setId set).toNat = id.toNat := by
      rw [← hid]
      unfold field setBytes putU16
      rw [drop_zero, take_left' (putBE_length 2 _),
        getBE_putBE_of_lt (F.setId set).toNat_lt]
    obtain rfl := UInt16.toNat_inj.mp hid
    have hdrop : (F.setBytes set).drop 4 =
        F.body set ++ List.replicate (F.len set - (4 + (F.body set).length)) 0 := by
      unfold setBytes
      rw [← append_assoc, drop_left' (by simp [putU16])]
    rw [hdrop]
    cases set with
    | template => exact absurd rfl htmpl
    | data id written =>
      refine ⟨written.map (F.record id), _, by rw [← flatMap_def]; rfl, ?_, ?_⟩
      · have hle : F.len (.data id written) ≤ _ := (F.le_setLen _).2
        rw [length_replicate]
        omega
      · intro r hr
        obtain ⟨f, _, rfl⟩ := mem_map.mp hr
        exact (F.length_record id f).trans (F.recLen_eq id)

/-- A packet whose header was filled in is a message, and `sendto` is given all of it. -/
theorem Wrote.message {F : Format} {p : Packet} (h : F.Wrote p) (hdr : Bytes)
    (hhdr : hdr.length = F.hdr) :
    ∃ b, (p.buf.patch 0 hdr).contents = some b ∧ b = hdr ++ p.sets.flatMap F.setBytes ∧
      b.length = p.buf.off ∧ b.length ≤ nfMaxPacket ∧
      Message F.hdr F.tmplId F.fieldsOf b (p.sets.map F.setBytes) := by
  have hoff := h.off
  obtain ⟨room, hroom, hhas⟩ := h
  have hwritten := @Buffer.Has.patch p.buf nfMaxPacket [] room _ hhas hdr 0 rfl (hhdr.trans hroom.symm)
  have hlen := hwritten.off
  have hle := hwritten.le
  have hwire : ∀ set ∈ p.sets, WireSet F.tmplId F.fieldsOf (F.setBytes set) := by
    intro set hmem
    -- no set is longer than the packet, so two bytes hold its length
    have hsum := single_le_sum (fun _ _ => Nat.zero_le _) _ (mem_map_of_mem (f := F.len) hmem)
    apply F.wireSet
    unfold nfMaxPacket at hle
    rw [← hlen] at hle
    change p.buf.off ≤ _ at hle
    omega
  refine ⟨_, hwritten.contents, rfl, hlen.symm, hle, hle, ?_, ?_, forall_mem_map.mpr hwire⟩
  · rw [← hhdr, nil_append, drop_left, flatMap_def]
  · rw [← hlen]
    change _ = p.buf.off
    rw [hoff, map_map]
    congr 2
    exact map_congr_left fun set hmem => (hwire set hmem).length.trans (F.length_setBytes set)

end Format

/-! ## Packets -/

/-- A packet of `export_v9`: every byte was written inside the buffer, and a collector can take it
apart. -/
def V9Packet (a : Attempt) : Prop :=
  ∃ b sets, a.wire = some b ∧ Message nfv9HeaderLen 0 (v9Format 0).fieldsOf b sets ∧
    field b 2 = sets.length ∧ ∀ set ∈ sets, 4 ∣ set.length

/-- A packet of `export_ipfix`. -/
def IpfixPacket (a : Attempt) : Prop :=
  ∃ b sets, a.wire = some b ∧ Message ipfixHeaderLen 2 ipfixFormat.fieldsOf b sets ∧
    field b 2 = b.length

/-! ## Runs -/

section

variable (w : World)

/-- A call adds packets of the protocol to the log. -/
def Adds (Q : Attempt → Prop) (s s' : Session) : Prop :=
  ∃ new, s'.log = s.log ++ new ∧ ∀ a ∈ new, Q a

theorem Adds.attempt {Q : Attempt → Prop} {s s' s'' : Session} (h : Adds Q s s') {a : Attempt}
    (hlog : s''.log = s'.log ++ [a]) (ha : Q a) : Adds Q s s'' := by
  obtain ⟨new, hnew, hall⟩ := h
  refine ⟨new ++ [a], by rw [hlog, hnew, append_assoc], ?_⟩
  exact forall_mem_append.mpr ⟨hall, forall_mem_singleton.mpr ha⟩

theorem Adds.v9Turn {s s' : Session} (h : Adds V9Packet s s') (uptime unixSecs : UInt32) (v6Count : Nat)
    (v4 v6 : List Flow) : Adds V9Packet s (v9Turn w uptime unixSecs v6Count v4 v6 s') := by
  obtain ⟨_, _, hadds⟩ := buildV9_adds (w.stack s'.log.length) s'.exp.bootTimeSec (s'.sendTmpl w) v6Count
    v4 v6
  obtain ⟨b, hwire, hb, hoff, hle, hmessage⟩ := hadds.wrote.message
    (writeV9Header (s'.v9Packet w v6Count v4 v6).1.flowsets uptime unixSecs
      s'.exp.v9PktSequence s'.exp.sourceId) (by simp [writeV9Header, putU16, putU32]; rfl)
  refine h.attempt rfl ⟨b, _, hwire, hmessage, ?_, ?_⟩
  · have hcount : (s'.v9Packet w v6Count v4 v6).1.sets.length ≤ b.length := by
      rw [hoff, hadds.wrote.off, ← length_map (v9Format s'.exp.bootTimeSec).len]
      refine Nat.le_add_left_of_le (length_le_sum_of_one_le _ (forall_mem_map.mpr fun set _ => ?_))
      exact Nat.le_trans (Nat.le_add_right_of_le (by decide)) (Format.le_setLen _ _).1
    rw [hb, writeV9Header, length_map, flowsets_buildV9]
    simp only [append_assoc]
    exact field_two 9 (Nat.lt_of_le_of_lt (Nat.le_trans hcount hle) (by decide)) _
  · exact forall_mem_map.mpr fun set _ => by
      rw [Format.length_setBytes]
      exact Nat.dvd_mul_left 4 _

theorem Adds.ipfixTurn {s s' : Session} (h : Adds IpfixPacket s s') (v6Count : Nat)
    (v4 v6 : List Flow) : Adds IpfixPacket s (ipfixTurn w v6Count v4 v6 s') := by
  obtain ⟨_, _, hadds⟩ := buildIpfix_adds (w.stack s'.log.length) (s'.sendTmpl w) v4 v6
  obtain ⟨b, hwire, hb, hoff, hle, hmessage⟩ := hadds.wrote.message
    (ipfixHeader (s'.ipfixPacket w v4 v6).1.buf.off (w.clock (s'.reads + 1)) s'.exp.flowSequence
      s'.exp.sourceId) (by simp [ipfixHeader, putU16, putU32]; rfl)
  refine h.attempt rfl ⟨b, _, hwire, hmessage, ?_⟩
  rw [hoff] at hle ⊢
  rw [hb, ipfixHeader]
  simp only [append_assoc]
  exact field_two 10 (Nat.lt_of_le_of_lt hle (by decide)) _

end

end Packetsonde.Flows
