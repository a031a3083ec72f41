import Packetsonde.Flows.Packet
import Mathlib.Data.Sym.Sym2

/-!
# Flow keys are direction independent (`make_flow_key`)

A key has the lower of the two endpoints in front: by the address bytes of the family, then by the port.
`canonical` is that choice on its own; it forgets the order of the two and nothing else
(`canonical_eq_iff`). The fields of a key are those of the chosen pair (`makeFlowKey_eq`), so the results
about keys are those about pairs.
-/

namespace Packetsonde.Flows

open Packetsonde.Lib

/-! ## The lower endpoint first -/

abbrev Endpoint := Bytes × UInt16

/-- `cmp < 0 || (cmp == 0 && src_port <= dst_port)`. -/
def Precedes (e f : Endpoint) : Prop :=
  compare e.1 f.1 = .lt ∨ compare e.1 f.1 = .eq ∧ e.2 ≤ f.2

instance (e f : Endpoint) : Decidable (Precedes e f) := by unfold Precedes; infer_instance

def canonical (e f : Endpoint) : Endpoint × Endpoint := if Precedes e f then (e, f) else (f, e)

section

variable {e f e' f' : Endpoint}

theorem precedes_total (e f : Endpoint) : Precedes e f ∨ Precedes f e := by
  have hswap : compare f.1 e.1 = (compare e.1 f.1).swap := Std.OrientedCmp.eq_swap
  unfold Precedes
  rw [hswap]
  cases compare e.1 f.1 with
  | lt => exact .inl (.inl rfl)
  | gt => exact .inr (.inl rfl)
  | eq =>
    rcases UInt16.le_total e.2 f.2 with h | h
    · exact .inl (.inr ⟨rfl, h⟩)
    · exact .inr (.inr ⟨rfl, h⟩)

theorem precedes_antisymm (h : Precedes e f) (h' : Precedes f e) : e = f := by
  have hswap : compare f.1 e.1 = (compare e.1 f.1).swap := Std.OrientedCmp.eq_swap
  unfold Precedes at h h'
  rw [hswap] at h'
  rcases h with h | ⟨h, hport⟩
  · rw [h] at h'
    simp at h'
  · rw [h] at h'
    have haddr : e.1 = f.1 := Std.LawfulEqCmp.eq_of_compare h
    have hport' : f.2 ≤ e.2 := by simpa using h'
    exact Prod.ext haddr (UInt16.le_antisymm hport hport')

theorem canonical_comm (e f : Endpoint) : canonical e f = canonical f e := by
  unfold canonical
  by_cases h : Precedes e f
  · by_cases h' : Precedes f e
    · rw [precedes_antisymm h h']
    · rw [if_pos h, if_neg h']
  · rw [if_neg h, if_pos ((precedes_total e f).resolve_left h)]

theorem sym2_canonical (e f : Endpoint) : s((canonical e f).1, (canonical e f).2) = s(e, f) := by
  unfold canonical
  split
  · rfl
  · exact Sym2.eq_swap

theorem canonical_eq_iff : canonical e f = canonical e' f' ↔ s(e, f) = s(e', f') := by
  constructor
  · intro h
    rw [← sym2_canonical e f, h, sym2_canonical]
  · intro h
    rcases Sym2.eq_iff.mp h with ⟨rfl, rfl⟩ | ⟨rfl, rfl⟩
    · rfl
    · exact canonical_comm e f

end

/-! ## Keys -/

namespace ParsedPacket

variable (p q : ParsedPacket)

def swap : ParsedPacket :=
  { p with srcAddr := p.dstAddr, dstAddr := p.srcAddr, srcPort := p.dstPort, dstPort := p.srcPort }

/-- `addr_len`. -/
def addrLen : Nat := if p.af = afInet then 4 else 16

def src : Endpoint := (p.srcAddr.toList.take p.addrLen, p.srcPort)

def dst : Endpoint := (p.dstAddr.toList.take p.addrLen, p.dstPort)

/-- What is compared at full tracking level and above: the unordered endpoints, the family, the protocol,
the type of service and, if it is tracked, the VLAN. -/
structure SameFlow (level : Int32) : Prop where
  af : p.af = q.af
  proto : p.proto = q.proto
  tos : p.tos = q.tos
  vlan : level ≥ trackFullVlan → p.vlanId = q.vlanId
  ends : s(p.src, p.dst) = s(q.src, q.dst)

end ParsedPacket

def padAddr (a : Bytes) : Addr := addrAt a 0 16

theorem padAddr_take (a : Addr) (n : Nat) :
    addrAt a.toList 0 n = padAddr (a.toList.take n) := by
  apply Vector.ext
  intro i hi
  simp only [padAddr, addrAt, Vector.getElem_ofFn, Nat.zero_add, hi, if_true, List.getD_eq_getElem?_getD,
    List.getElem?_take]
  by_cases h : i < n
  · rw [if_pos h, if_pos h]
  · rw [if_neg h, if_neg h]
    rfl

theorem padAddr_inj {a b : Bytes} (hlen : a.length = b.length) (hle : a.length ≤ 16)
    (h : padAddr a = padAddr b) : a = b := by
  apply List.ext_getElem hlen
  intro i ha hb
  have hi := congrArg (fun v : Addr => v[i]?) h
  simp only [padAddr, addrAt, Vector.getElem?_ofFn, Nat.zero_add, show i < 16 by omega, dif_pos, if_true,
    Option.some.injEq] at hi
  rwa [List.getD_eq_getElem _ _ ha, List.getD_eq_getElem _ _ hb] at hi

def keyWith (p : ParsedPacket) (level : Int32) (ends : Endpoint × Endpoint) : FlowKey where
  af := p.af
  proto := if level ≥ trackIpProto then p.proto else 0
  srcAddr := padAddr ends.1.1
  dstAddr := padAddr ends.2.1
  srcPort := if level ≥ trackIpProtoPort then ends.1.2 else 0
  dstPort := if level ≥ trackIpProtoPort then ends.2.2 else 0
  vlanId := if level ≥ trackFullVlan then p.vlanId else 0
  tos := if level ≥ trackFull then p.tos else 0

/-- A key is made of the packet's fields and the canonical pair; the direction says which end came first. -/
theorem makeFlowKey_eq (p : ParsedPacket) (level : Int32) :
    makeFlowKey p level = (keyWith p level (canonical p.src p.dst),
      if Precedes p.src p.dst then .forward else .reverse) := by
  have hsrc := padAddr_take p.srcAddr p.addrLen
  have hdst := padAddr_take p.dstAddr p.addrLen
  unfold makeFlowKey canonical
  by_cases h : Precedes p.src p.dst
  · rw [if_pos h, if_pos h]
    refine (if_pos h).trans ?_
    rw [keyWith, ParsedPacket.src, ParsedPacket.dst, ← hsrc, ← hdst]
    rfl
  · rw [if_neg h, if_neg h]
    refine (if_neg h).trans ?_
    rw [keyWith, ParsedPacket.src, ParsedPacket.dst, ← hsrc, ← hdst]
    rfl

theorem addrLen_le (p : ParsedPacket) : p.addrLen ≤ 16 := by
  unfold ParsedPacket.addrLen
  split <;> decide

theorem length_canonical (p : ParsedPacket) :
    (canonical p.src p.dst).1.1.length = p.addrLen ∧ (canonical p.src p.dst).2.1.length = p.addrLen := by
  have hlen (a : Addr) : (a.toList.take p.addrLen).length = p.addrLen := by
    rw [List.length_take, Vector.length_toList, Nat.min_eq_left (addrLen_le p)]
  unfold canonical
  split
  · exact ⟨hlen _, hlen _⟩
  · exact ⟨hlen _, hlen _⟩

/-- At full tracking level two keys are equal only if everything compared is. -/
theorem keyWith_canonical_inj {p q : ParsedPacket} {level : Int32} (hlevel : trackFull ≤ level)
    (h : keyWith p level (canonical p.src p.dst) = keyWith q level (canonical q.src q.dst)) :
    p.SameFlow q level := by
  have hproto : trackIpProto ≤ level := Int32.le_trans (by decide) hlevel
  have hport : trackIpProtoPort ≤ level := Int32.le_trans (by decide) hlevel
  simp only [keyWith, FlowKey.mk.injEq, if_pos hlevel, if_pos hproto, if_pos hport] at h
  obtain ⟨haf, hpr, hsrc, hdst, hsport, hdport, hvlan, htos⟩ := h
  have hlen : q.addrLen = p.addrLen := by rw [ParsedPacket.addrLen, ParsedPacket.addrLen, haf]
  have hp := length_canonical p
  have hq := length_canonical q
  rw [hlen] at hq
  have hle := addrLen_le p
  refine ⟨haf, hpr, htos, fun hv => by rwa [if_pos hv, if_pos hv] at hvlan, canonical_eq_iff.mp ?_⟩
  exact Prod.ext (Prod.ext (padAddr_inj (hp.1.trans hq.1.symm) (hp.1.trans_le hle) hsrc) hsport)
    (Prod.ext (padAddr_inj (hp.2.trans hq.2.symm) (hp.2.trans_le hle) hdst) hdport)

/-- The key does not depend on the direction, the direction does unless the endpoints are the same, and
what is compared at full tracking level can be told from the key. -/
theorem flow_key_direction_independent (p q : ParsedPacket) (level : Int32) :
    (makeFlowKey p.swap level).1 = (makeFlowKey p level).1 ∧
      (p.src ≠ p.dst → (makeFlowKey p.swap level).2 ≠ (makeFlowKey p level).2) ∧
      (trackFull ≤ level → ¬ p.SameFlow q level → (makeFlowKey p level).1 ≠ (makeFlowKey q level).1) := by
  have hsrc : p.swap.src = p.dst := rfl
  have hdst : p.swap.dst = p.src := rfl
  simp only [makeFlowKey_eq, hsrc, hdst]
  refine ⟨?_, fun hne => ?_, fun hlevel hdiff heq => hdiff (keyWith_canonical_inj hlevel heq)⟩
  · rw [canonical_comm]
    rfl
  · by_cases h : Precedes p.src p.dst
    · rw [if_pos h, if_neg fun h' => hne (precedes_antisymm h h')]
      decide
    · rw [if_neg h, if_pos ((precedes_total p.src p.dst).resolve_left h)]
      decide

end Packetsonde.Flows
