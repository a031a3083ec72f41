import Packetsonde.Flows.Exporter

/-!
# Packetsonde — the sets of a packet

What `export_v9` and `export_ipfix` write into `buf[NF_MAX_PACKET]`: room for the header, and behind it
the bytes of the sets, none of them beyond the end (`Format.Wrote`). A data set takes as many flows as
there is room for (`AddsSet`). The buffer ends at a multiple of four, so padding never passes its end;
and IPFIX, which writes a set header before it knows whether a record fits, always has room for it.
-/

namespace Packetsonde.Flows

open Packetsonde.Lib
open List hiding Vector

/-! ## Sets on the wire -/

def recordLen (fields : List TemplateField) : Nat := (fields.map fun f => f.length.toNat).sum

/-- How a protocol puts its sets on the wire. -/
structure Format where
  hdr : Nat
  tmplId : UInt16
  /-- The length of a set with its padding. -/
  setLen : Nat → Nat
  fieldsOf : UInt16 → List TemplateField
  record : UInt16 → Flow → Bytes
  recLen : UInt16 → Nat
  le_setLen : ∀ n, n ≤ setLen n ∧ setLen n ≤ n + 3
  recLen_eq : ∀ id, recLen id = recordLen (fieldsOf id)
  length_record : ∀ id f, (record id f).length = recLen id
  recLen_pos : ∀ id, 0 < recLen id

def dataSet (id : UInt16) (written : List Flow) : List FlowSet :=
  if written = [] then [] else [.data id written]

def room (recLen off : Nat) : Nat := (nfMaxPacket - off) / recLen

theorem room_of_fits {recLen off : Nat} (hpos : 0 < recLen) (h : off + recLen ≤ nfMaxPacket) :
    room recLen off = room recLen (off + recLen) + 1 := by
  unfold room
  rw [← Nat.add_div_right _ hpos]
  congr 1
  omega

theorem room_of_full {recLen off : Nat} (hpos : 0 < recLen) (h : ¬ off + recLen ≤ nfMaxPacket) :
    room recLen off = 0 :=
  Nat.div_eq_of_lt (by omega)

namespace Format

variable (F : Format)

def body : FlowSet → Bytes
  | .template id fields => putU16 id ++ putBE 2 fields.length ++ fieldBytes fields
  | .data id flows => flows.flatMap (F.record id)

def setId : FlowSet → UInt16
  | .template .. => F.tmplId
  | .data id _ => id

def len (set : FlowSet) : Nat := F.setLen (4 + (F.body set).length)

def setBytes (set : FlowSet) : Bytes :=
  putU16 (F.setId set) ++ (putBE 2 (F.len set)
    ++ (F.body set ++ List.replicate (F.len set - (4 + (F.body set).length)) 0))

theorem length_setBytes (set : FlowSet) : (F.setBytes set).length = F.len set := by
  have hle : _ ≤ F.len set := (F.le_setLen (4 + (F.body set).length)).1
  simp only [setBytes, length_append, putU16, putBE_length, length_replicate]
  omega

theorem length_template (id : UInt16) (fields : List TemplateField) :
    4 + (F.body (.template id fields)).length = 4 + 4 + fields.length * 4 := by
  simp [body, fieldBytes, putU16, length_flatMap, ← Nat.add_assoc]

theorem len_template (id : UInt16) (fields : List TemplateField) :
    F.len (.template id fields) = F.setLen (4 + 4 + fields.length * 4) :=
  congrArg F.setLen (F.length_template id fields)

theorem length_records (id : UInt16) (flows : List Flow) :
    (flows.flatMap (F.record id)).length = F.recLen id * flows.length := by
  simp [length_flatMap, F.length_record, Nat.mul_comm]

theorem sum_dataSet (id : UInt16) (written : List Flow) :
    ((dataSet id written).map F.len).sum =
      if written = [] then 0 else F.setLen (4 + F.recLen id * written.length) := by
  unfold dataSet
  split
  · rfl
  · rw [map_singleton, sum_singleton, len, body, length_records]

/-! ## Packets -/

/-- In front of the offset are room for the header and the bytes of the packet's sets. -/
def Wrote (p : Packet) : Prop :=
  ∃ hdr, hdr.length = F.hdr ∧ p.buf.Has nfMaxPacket (hdr ++ p.sets.flatMap F.setBytes)

variable {F} {p : Packet}

theorem Wrote.off (h : F.Wrote p) : p.buf.off = F.hdr + (p.sets.map F.len).sum := by
  obtain ⟨hdr, hlen, hhas⟩ := h
  rw [hhas.off, length_append, length_flatMap, hlen]
  simp only [length_setBytes]

theorem Wrote.add {hdr : Bytes} (hlen : hdr.length = F.hdr) {b : Buffer} {set : FlowSet} {n : Nat}
    (h : b.Has nfMaxPacket (hdr ++ p.sets.flatMap F.setBytes ++ F.setBytes set)) :
    F.Wrote ⟨b, n, p.sets ++ [set]⟩ := by
  refine ⟨hdr, hlen, ?_⟩
  rw [flatMap_append, flatMap_singleton, ← append_assoc]
  exact h

/-- The loop writes as many records as there is room for. Induction on the flows. -/
theorem fillRecords_spec {id : UInt16} {b : Buffer} {xs : Bytes} (h : b.Has nfMaxPacket xs)
    (flows : List Flow) :
    let k := room (F.recLen id) b.off
    ∃ b', fillRecords (F.recLen id) (F.record id) b flows =
        (b', flows.take k, flows.drop k) ∧
      b'.Has nfMaxPacket (xs ++ (flows.take k).flatMap (F.record id)) := by
  induction flows generalizing b xs with
  | nil => exact ⟨b, by rw [take_nil, drop_nil]; rfl, by simpa using h⟩
  | cons f flows ih =>
    have hrec := F.length_record id f
    have hpos := F.recLen_pos id
    dsimp only
    unfold fillRecords
    split
    · rename_i hfits
      obtain ⟨b', heq, hhas⟩ := ih (h.put _ (hrec ▸ hfits))
      rw [Buffer.off_put, hrec] at heq hhas
      rw [room_of_fits hpos hfits, heq, take_succ_cons, drop_succ_cons]
      refine ⟨b', rfl, ?_⟩
      rwa [append_assoc] at hhas
    · rename_i hfull
      rw [room_of_full hpos hfull]
      exact ⟨b, rfl, by simpa using h⟩

/-- A data set of the flows there is room for was added; `r` has the packet and the flows that
remain. -/
structure AddsSet (F : Format) (id : UInt16) (p : Packet) (flows : List Flow) (r : Packet × List Flow) :
    Prop where
  wrote : F.Wrote r.1
  sets : r.1.sets =
    p.sets ++ dataSet id (flows.take (room (F.recLen id) (p.buf.off + 4)))
  rest : r.2 = flows.drop (room (F.recLen id) (p.buf.off + 4))

section

variable {id : UInt16} (h : F.Wrote p) {flows : List Flow}

include h

/-- Nothing is done where there is no flow or no room. -/
theorem AddsSet.none
    (hnone : flows = [] ∨ ¬ p.buf.off + 4 + F.recLen id ≤ nfMaxPacket) :
    F.AddsSet id p flows (p, flows) := by
  have htake : flows.take (room (F.recLen id) (p.buf.off + 4)) = [] ∧
      flows.drop (room (F.recLen id) (p.buf.off + 4)) = flows := by
    rcases hnone with rfl | hfull
    · exact ⟨take_nil, drop_nil⟩
    · rw [room_of_full (F.recLen_pos id) hfull]
      exact ⟨rfl, rfl⟩
  exact ⟨h, by rw [htake.1]; exact (append_nil _).symm, htake.2.symm⟩

theorem v9DataSet_adds (hF : F.setLen = pad4) (hroom : p.buf.off + 4 ≤ nfMaxPacket)
    (haligned : 4 ∣ p.buf.off) :
    F.AddsSet id p flows (p.v9DataSet id (F.recLen id) (F.record id) flows) := by
  obtain ⟨hdr, hlen, hhas⟩ := h
  obtain ⟨ys, hys, hskip⟩ := hhas.skip hroom
  obtain ⟨b, heq, hb⟩ := fillRecords_spec hskip flows
  rw [Buffer.off_seek] at heq hb
  unfold Packet.v9DataSet
  dsimp only
  rw [heq]
  dsimp only
  by_cases hnone : flows.take (room (F.recLen id) (p.buf.off + 4)) = []
  · rw [if_pos hnone]
    rw [append_assoc] at hb
    exact ⟨⟨hdr, hlen, hb.back hhas.off⟩, by rw [hnone]; exact (append_nil _).symm, rfl⟩
  · rw [if_neg hnone]
    refine ⟨?_, by rw [dataSet, if_neg hnone], rfl⟩
    generalize flows.take (room (F.recLen id) (p.buf.off + 4)) = written at *
    generalize hset : FlowSet.data id written = set
    have hbody : written.flatMap (F.record id) = F.body set := by rw [← hset, body]
    have hlen4 : F.len set = pad4 (4 + (F.body set).length) := by rw [len, hF]
    have hboff : b.off = p.buf.off + (4 + (F.body set).length) := by
      rw [hb.off, length_append, length_append, hys, hhas.off, hbody, Nat.add_assoc]
    -- the padding does not leave the buffer: both ends are aligned
    have hpad : b.off ≤ p.buf.off + F.len set ∧ p.buf.off + F.len set ≤ nfMaxPacket := by
      have hle := hb.off ▸ hb.le
      unfold pad4 at hlen4
      unfold nfMaxPacket at *
      omega
    have hzeros : p.buf.off + pad4 (b.off - p.buf.off) - b.off = F.len set - (4 + (F.body set).length) := by
      rw [hlen4, hboff, Nat.add_sub_cancel_left, Nat.add_sub_add_left]
    rw [hzeros]
    have hput := hb.put (replicate (F.len set - (4 + (F.body set).length)) 0)
      (by rw [length_replicate]; omega)
    have hend : (b.put (replicate (F.len set - (4 + (F.body set).length)) 0)).off - p.buf.off =
        F.len set := by
      rw [Buffer.off_put, length_replicate]
      omega
    rw [hend]
    rw [append_assoc] at hput
    have hpatch := hput.patch (putU16 id ++ putBE 2 (F.len set)) hhas.off (by simp [putU16, hys])
    refine Wrote.add hlen ?_
    rw [setBytes, show F.setId set = id by rw [← hset, setId]]
    rw [hbody] at hpatch
    simpa only [append_assoc] using hpatch

theorem ipfixDataSet_adds (hF : F.setLen = fun n => n) (hroom : p.buf.off + 4 ≤ nfMaxPacket) :
    F.AddsSet id p flows (p.ipfixDataSet id (F.recLen id) (F.record id) flows) := by
  unfold Packet.ipfixDataSet
  by_cases hnil : flows = []
  · rw [if_pos hnil]
    exact .none h (.inl hnil)
  rw [if_neg hnil]
  obtain ⟨hdr, hlen, hhas⟩ := h
  -- the header comes first, with a length of zero
  have htwo (v : UInt16) : (putU16 v).length = 2 := putBE_length 2 _
  have hid := hhas.put (putU16 id) (by rw [htwo]; omega)
  have hzero := hid.put (putU16 0) (by rw [Buffer.off_put, htwo, htwo]; omega)
  obtain ⟨b, heq, hb⟩ := fillRecords_spec hzero flows
  have hoff : ((p.buf.put (putU16 id)).put (putU16 0)).off = p.buf.off + 4 := by
    rw [Buffer.off_put, Buffer.off_put, htwo, htwo]
  rw [hoff] at heq hb
  dsimp only
  rw [heq, hoff]
  dsimp only
  have hboff : b.off = p.buf.off + (4 + F.recLen id
      * (flows.take (room (F.recLen id) (p.buf.off + 4))).length) := by
    rw [hb.off, length_append, length_append, length_append, htwo, htwo, ← hhas.off, length_records]
    omega
  by_cases hnone : flows.take (room (F.recLen id) (p.buf.off + 4)) = []
  · rw [hnone, length_nil, Nat.mul_zero] at hboff
    rw [if_pos hboff]
    rw [append_assoc, append_assoc] at hb
    exact ⟨⟨hdr, hlen, hb.back hhas.off⟩, by rw [hnone]; exact (append_nil _).symm, rfl⟩
  · have hsome := Nat.mul_pos (F.recLen_pos id) (length_pos_iff.mpr hnone)
    rw [if_neg (by omega)]
    refine ⟨?_, by rw [dataSet, if_neg hnone], rfl⟩
    rw [← length_records] at hboff
    generalize flows.take (room (F.recLen id) (p.buf.off + 4)) = written at *
    have hset : F.len (.data id written) = b.off - p.buf.off := by
      rw [hboff, Nat.add_sub_cancel_left, len, hF, body]
    -- the length is written over the zero behind the id
    have hpatch := hb.patch (putBE 2 (b.off - p.buf.off)) hid.off (by rw [putBE_length, htwo])
    refine Wrote.add hlen ?_
    rw [setBytes, hset, body, setId, show b.off - p.buf.off - _ = 0 by rw [hboff]; omega, replicate_zero,
      append_nil]
    simpa only [append_assoc] using hpatch

end

theorem AddsSet.off {id : UInt16} {flows : List Flow} {r : Packet × List Flow}
    (h : F.AddsSet id p flows r) (hp : F.Wrote p) :
    r.1.buf.off = p.buf.off + ((dataSet id
      (flows.take (room (F.recLen id) (p.buf.off + 4)))).map F.len).sum := by
  rw [h.wrote.off, h.sets, map_append, sum_append, ← Nat.add_assoc, ← hp.off]

/-- A set that fits is written in two parts. -/
theorem Wrote.put_put {set : FlowSet} {xs ys : Bytes} {n : Nat} (h : F.Wrote p)
    (hroom : p.buf.off + F.len set ≤ nfMaxPacket) (hset : F.setBytes set = xs ++ ys) :
    F.Wrote ⟨(p.buf.put xs).put ys, n, p.sets ++ [set]⟩ := by
  obtain ⟨hdr, hlen, hhas⟩ := h
  rw [← length_setBytes, hset, length_append, ← Nat.add_assoc] at hroom
  refine Wrote.add hlen ?_
  rw [hset, ← append_assoc]
  exact (hhas.put _ (by omega)).put _ hroom

end Format

/-! ## The two protocols -/

def v9Format (boot : UInt64) : Format where
  hdr := nfv9HeaderLen
  tmplId := 0
  setLen := pad4
  fieldsOf id := if id = templateIdV4 then tmplV4Fields else tmplV6Fields
  record id := if id = templateIdV4 then writeV4DataRecord boot else writeV6DataRecord boot
  recLen id := if id = templateIdV4 then tmplV4RecordLen else tmplV6RecordLen
  recLen_eq id := by split <;> rfl
  le_setLen n := by
    unfold pad4
    omega
  length_record id f := by
    split
    · simp [writeV4DataRecord, putU16, putU32]
      rfl
    · simp [writeV6DataRecord, putU16, putU32]
      rfl
  recLen_pos id := by split <;> decide

def ipfixFormat : Format where
  hdr := ipfixHeaderLen
  tmplId := 2
  setLen n := n
  fieldsOf id := if id = templateIdV4 then ipfixV4Fields else ipfixV6Fields
  record id := if id = templateIdV4 then writeIpfixV4Record else writeIpfixV6Record
  recLen id := if id = templateIdV4 then ipfixV4RecLen else ipfixV6RecLen
  recLen_eq id := by split <;> rfl
  le_setLen n := ⟨Nat.le_refl n, Nat.le_add_right n 3⟩
  length_record id f := by
    split
    · simp [writeIpfixV4Record, putU16, putU64]
      rfl
    · simp [writeIpfixV6Record, putU16, putU32, putU64]
      rfl
  recLen_pos id := by split <;> decide

/-- The templates of NetFlow v9: the one for IPv6 only in a call that has IPv6 flows. -/
def v9Templates (sendTmpl : Bool) (v6Count : Nat) : List FlowSet :=
  (if sendTmpl then [.template templateIdV4 tmplV4Fields] else [])
    ++ if sendTmpl ∧ v6Count > 0 then [.template templateIdV6 tmplV6Fields] else []

def ipfixTemplates (sendTmpl : Bool) : List FlowSet :=
  (if sendTmpl then [.template templateIdV4 ipfixV4Fields] else [])
    ++ if sendTmpl then [.template templateIdV6 ipfixV6Fields] else []

variable (stack : Vector UInt8 nfMaxPacket)

theorem Format.wrote_nil (F : Format) (hhdr : F.hdr ≤ nfMaxPacket) :
    F.Wrote { buf := { mem := stack.toList, off := F.hdr } } := by
  have hlen : (stack.toList.take F.hdr).length = F.hdr := by
    rw [length_take, Vector.length_toList]
    omega
  refine ⟨stack.toList.take F.hdr, hlen, rfl, Vector.length_toList, ?_, stack.toList.drop F.hdr, ?_⟩
  · rw [flatMap_nil, append_nil, hlen]
  · rw [flatMap_nil, append_nil, take_append_drop]

section

variable {p : Packet} (id : UInt16) {fields : List TemplateField}

theorem writeTemplateFlowset_wrote {boot : UInt64} (h : (v9Format boot).Wrote p)
    (hroom : p.buf.off + pad4 (4 + 4 + fields.length * 4) ≤ nfMaxPacket) :
    (v9Format boot).Wrote (p.writeTemplateFlowset id fields) ∧
      (p.writeTemplateFlowset id fields).sets = p.sets ++ [.template id fields] ∧
      (p.writeTemplateFlowset id fields).buf.off =
        p.buf.off + pad4 (4 + 4 + fields.length * 4) := by
  have hlen := (v9Format boot).length_template id fields
  have hset : _ = pad4 _ := (v9Format boot).len_template id fields
  unfold Packet.writeTemplateFlowset
  rw [if_neg (by omega)]
  dsimp only
  have hend : (putU16 0 ++ putBE 2 (pad4 (4 + 4 + fields.length * 4)) ++ putU16 id
      ++ putBE 2 fields.length ++ fieldBytes fields).length = 4 + 4 + fields.length * 4 := by
    simp [fieldBytes, putU16, length_flatMap]
    omega
  simp only [Buffer.off_put, hend, Nat.add_sub_add_left, length_replicate]
  refine ⟨h.put_put (by rwa [hset]) ?_, trivial, ?_⟩
  · rw [Format.setBytes, hset, hlen]
    simp only [append_assoc]
    rfl
  · have hle : 4 + 4 + fields.length * 4 ≤ pad4 _ := ((v9Format boot).le_setLen _).1
    omega

theorem writeIpfixTemplate_wrote (h : ipfixFormat.Wrote p)
    (hroom : p.buf.off + (4 + 4 + fields.length * 4) ≤ nfMaxPacket) :
    ipfixFormat.Wrote (p.writeIpfixTemplate id fields) := by
  have hlen := ipfixFormat.length_template id fields
  have hset : _ = 4 + 4 + _ := ipfixFormat.len_template id fields
  refine h.put_put (by rwa [hset]) ?_
  rw [Format.setBytes, hset, hlen, Nat.sub_self, replicate_zero, append_nil, ← append_assoc]
  rfl

end

theorem aligned {boot : UInt64} {p : Packet} (h : (v9Format boot).Wrote p) : 4 ∣ p.buf.off := by
  rw [h.off]
  refine Nat.dvd_add (show 4 ∣ 20 by decide) (dvd_sum ?_)
  exact forall_mem_map.mpr fun set _ => Nat.dvd_mul_left 4 _

theorem beginV9_wrote (boot : UInt64) (sendTmpl : Bool) (v6Count : Nat) :
    (v9Format boot).Wrote (beginV9 stack sendTmpl v6Count) ∧
      (beginV9 stack sendTmpl v6Count).sets = v9Templates sendTmpl v6Count ∧
      (beginV9 stack sendTmpl v6Count).buf.off ≤ 124 := by
  have hnil : (v9Format boot).Wrote { buf := { mem := stack.toList, off := nfv9HeaderLen } } :=
    Format.wrote_nil stack _ (show 20 ≤ 1400 by decide)
  obtain ⟨hfour, hsets, hoff⟩ := writeTemplateFlowset_wrote templateIdV4 hnil
    (show 20 + pad4 (4 + 4 + tmplV4Fields.length * 4) ≤ 1400 by decide)
  have hlen : pad4 (4 + 4 + tmplV4Fields.length * 4) = 52 ∧
      pad4 (4 + 4 + tmplV6Fields.length * 4) = 52 := by decide
  rw [hlen.1] at hoff
  change _ = 20 + 52 at hoff
  obtain ⟨hsix, hsets6, hoff6⟩ := writeTemplateFlowset_wrote templateIdV6 hfour
    (show _ + pad4 (4 + 4 + tmplV6Fields.length * 4) ≤ 1400 by omega)
  rw [hlen.2] at hoff6
  unfold v9Templates
  cases sendTmpl with
  | false => exact ⟨hnil, rfl, show 20 ≤ 124 by decide⟩
  | true =>
    rw [beginV9, if_pos rfl, if_pos rfl]
    by_cases hc : v6Count > 0
    · rw [if_pos hc, if_pos ⟨rfl, hc⟩]
      exact ⟨hsix, by rw [hsets6, hsets]; rfl, by omega⟩
    · rw [if_neg hc, if_neg fun h => hc h.2]
      exact ⟨hfour, hsets, by omega⟩

def ipfixDataOff (sendTmpl : Bool) : Nat := 16 + if sendTmpl then 104 else 0

theorem beginIpfix_wrote (sendTmpl : Bool) :
    ipfixFormat.Wrote (beginIpfix stack sendTmpl) ∧
      (beginIpfix stack sendTmpl).sets = ipfixTemplates sendTmpl ∧
      (beginIpfix stack sendTmpl).buf.off = ipfixDataOff sendTmpl := by
  have hnil := ipfixFormat.wrote_nil stack (by decide)
  have hfour := writeIpfixTemplate_wrote templateIdV4 hnil
    (show 16 + (4 + 4 + ipfixV4Fields.length * 4) ≤ 1400 by decide)
  have hsix := writeIpfixTemplate_wrote templateIdV6 hfour
    (show _ + (4 + 4 + ipfixV6Fields.length * 4) ≤ 1400 by
      rw [hfour.off.trans (c := 68) rfl]
      decide)
  cases sendTmpl with
  | false => exact ⟨hnil, rfl, rfl⟩
  | true => exact ⟨hsix, rfl, hsix.off.trans rfl⟩

/-! ## Whole packets -/

/-- A packet of `export_v9`: the templates, then a set for each family. -/
theorem buildV9_adds (boot : UInt64) (sendTmpl : Bool) (v6Count : Nat) (v4 v6 : List Flow) :
    let r := buildV9 stack boot sendTmpl v6Count v4 v6
    ∃ p, (v9Format boot).AddsSet templateIdV4 (beginV9 stack sendTmpl v6Count) v4 (p, r.2.1) ∧
      (v9Format boot).AddsSet templateIdV6 p v6 (r.1, r.2.2) := by
  obtain ⟨hbegin, -, hoff⟩ := beginV9_wrote stack boot sendTmpl v6Count
  unfold buildV9
  generalize beginV9 stack sendTmpl v6Count = p at *
  have h4 : (v9Format boot).AddsSet templateIdV4 p v4
      (if v4 ≠ [] then p.v9DataSet templateIdV4 tmplV4RecordLen (writeV4DataRecord boot) v4
        else (p, v4)) := by
    by_cases hnil : v4 = []
    · rw [if_neg (not_not.mpr hnil)]
      exact .none hbegin (.inl hnil)
    · rw [if_pos hnil]
      exact Format.v9DataSet_adds hbegin rfl (Nat.le_trans (Nat.add_le_add_right hoff 4) (by decide))
        (aligned hbegin)
  dsimp only
  generalize (if v4 ≠ [] then p.v9DataSet templateIdV4 tmplV4RecordLen (writeV4DataRecord boot) v4
    else (p, v4)) = r at *
  refine ⟨r.1, h4, ?_⟩
  -- here the source asks for room for a record beforehand
  by_cases hroom : v6 ≠ [] ∧ r.1.buf.off + 4 + tmplV6RecordLen ≤ nfMaxPacket
  · rw [if_pos hroom]
    exact Format.v9DataSet_adds h4.wrote rfl (by omega) (aligned h4.wrote)
  · rw [if_neg hroom]
    exact .none h4.wrote (Classical.or_iff_not_imp_left.mpr fun hne hle => hroom ⟨hne, hle⟩)

/-- A packet of `export_ipfix`. -/
theorem buildIpfix_adds (sendTmpl : Bool) (v4 v6 : List Flow) :
    let r := buildIpfix stack sendTmpl v4 v6
    ∃ p, ipfixFormat.AddsSet templateIdV4 (beginIpfix stack sendTmpl) v4 (p, r.2.1) ∧
      ipfixFormat.AddsSet templateIdV6 p v6 (r.1, r.2.2) := by
  obtain ⟨hbegin, -, hoff⟩ := beginIpfix_wrote stack sendTmpl
  have hroom : (beginIpfix stack sendTmpl).buf.off + 4 ≤ nfMaxPacket := by
    rw [hoff]
    cases sendTmpl <;> decide
  have h4 : ipfixFormat.AddsSet templateIdV4 _ v4 _ := Format.ipfixDataSet_adds hbegin rfl hroom
  refine ⟨_, h4, Format.ipfixDataSet_adds h4.wrote rfl ?_⟩
  have hcases : ipfixDataOff sendTmpl = 16 ∧ room 47 (16 + 4) = 29 ∨
      ipfixDataOff sendTmpl = 120 ∧ room 47 (120 + 4) = 27 := by cases sendTmpl <;> decide
  rw [h4.off hbegin, hoff, Format.sum_dataSet, length_take,
    show ipfixFormat.recLen templateIdV4 = 47 from rfl]
  show _ + ite _ _ (4 + 47 * _) + 4 ≤ 1400
  rcases hcases with ⟨hstart, hroom⟩ | ⟨hstart, hroom⟩ <;> rw [hstart, hroom] <;> split <;> omega

/-- `flowset_count` is the number of sets. -/
def Packet.Counted (p : Packet) : Prop := p.flowsets = p.sets.length

theorem Packet.Counted.template {p : Packet} (h : p.Counted) (id : UInt16) (fields : List TemplateField) :
    (p.writeTemplateFlowset id fields).Counted := by
  unfold Packet.writeTemplateFlowset
  dsimp only
  split
  · exact h
  · rw [Packet.Counted, h, length_append, length_singleton]

theorem Packet.Counted.data {p : Packet} (h : p.Counted) {id : UInt16} {recLen : Nat}
    {record : Flow → Bytes} {flows : List Flow} : (p.v9DataSet id recLen record flows).1.Counted := by
  unfold Packet.v9DataSet
  dsimp only
  split
  · exact h
  · rw [Packet.Counted, h, length_append, length_singleton]

theorem flowsets_buildV9 (boot : UInt64) (sendTmpl : Bool) (v6Count : Nat) (v4 v6 : List Flow) :
    (buildV9 stack boot sendTmpl v6Count v4 v6).1.Counted := by
  have hnil : Packet.Counted { buf := { mem := stack.toList, off := nfv9HeaderLen } } := rfl
  have hbegin : (beginV9 stack sendTmpl v6Count).Counted := by
    unfold beginV9
    dsimp only
    split
    · split
      · exact (hnil.template _ _).template _ _
      · exact hnil.template _ _
    · exact hnil
  unfold buildV9
  dsimp only
  split <;> split
  · exact hbegin.data.data
  · exact hbegin.data
  · exact hbegin.data
  · exact hbegin

end Packetsonde.Flows
