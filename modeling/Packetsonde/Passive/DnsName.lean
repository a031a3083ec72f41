import Packetsonde.Lib.Bytes

/-!
# Packetsonde — compressed names (`dns_listener.c`)

`dns_decompress_name` follows the labels and pointers of a name and joins the labels with dots. The root label
ends the name; but once a pointer was followed, so does the end of the packet, and what was read up to there is
returned as the name. `name_read_iff` says for which packets that happens.
-/

namespace Packetsonde.Passive

open Packetsonde.Lib
open List

/-! ## The code -/

def dnsMaxName : Nat := 256
def dnsDecompLimit : Nat := 10

/-- Why there is no name: -1 was returned, or something outside the buffers was accessed. -/
inductive NameError where
  | failed
  | outside
  deriving DecidableEq

/-- What follows an access, if that is inside its buffer. -/
def access {α : Type} (inside : Prop) [Decidable inside] (next : Except NameError α) : Except NameError α :=
  if inside then next else .error .outside

/-- The end of `dns_decompress_name`. `consumed` is `none` for -1, which it is only at the end of the packet. -/
def finish (out : Bytes) : Option Nat → Except NameError (Bytes × Nat)
  | none => .error .failed
  | some n => access (out.length < dnsMaxName) (.ok (out, n))

def pointerTarget (high low : UInt8) : Nat := (high &&& 0x3F).toNat * 256 + low.toNat

/-- The loop of `dns_decompress_name`; `out` is what was written of `char out[DNS_MAX_NAME]`. -/
def decompressLoop (pkt : Bytes) (offset cur : Nat) (out : Bytes) (firstSeg : Bool) (consumed : Option Nat)
    (hops : Nat) : Except NameError (Bytes × Nat) :=
  if cur < pkt.length then
    match pkt[cur]? with
    | none => .error .outside
    | some lenByte =>
      if lenByte = 0 then finish out (some (consumed.getD (cur - offset + 1)))
      else if lenByte &&& 0xC0 = 0xC0 then
        if cur + 1 ≥ pkt.length then .error .failed
        else if hops + 1 > dnsDecompLimit then .error .failed
        else
          match pkt[cur + 1]? with
          | none => .error .outside
          | some low =>
            let ptr := pointerTarget lenByte low
            if ptr ≥ pkt.length then .error .failed
            else decompressLoop pkt offset ptr out firstSeg (some (consumed.getD (cur - offset + 2))) (hops + 1)
      else if lenByte &&& 0xC0 ≠ 0 then .error .failed
      else
        let labelLen := lenByte.toNat
        let dot := if firstSeg then [] else asc "."
        if cur + 1 + labelLen > pkt.length then .error .failed
        else if firstSeg = false ∧ out.length + 1 ≥ dnsMaxName then .error .failed
        else if (out ++ dot).length + labelLen ≥ dnsMaxName then .error .failed
        else
          access (cur + 1 + labelLen ≤ pkt.length ∧ (out ++ dot).length + labelLen ≤ dnsMaxName)
            (decompressLoop pkt offset (cur + 1 + labelLen)
              (out ++ dot ++ (pkt.drop (cur + 1)).take labelLen) false consumed hops)
  else finish out consumed
termination_by (dnsMaxName - out.length) + (dnsDecompLimit - hops)
decreasing_by
  · omega
  · have hne : lenByte.toNat ≠ 0 := fun h0 => by
      rename_i hb _ _ _ _ _
      exact hb (UInt8.toNat_inj.mp h0)
    simp only [length_append, length_take, length_drop] at *
    omega

/-- `dns_decompress_name`. In front of the packet the first byte is read all the same. -/
def decompressName (pkt : Bytes) : Int → Except NameError (Bytes × Nat)
  | .ofNat offset => decompressLoop pkt offset offset [] true none 0
  | .negSucc _ => .error .outside

/-- The loop of `dns_skip_name`. -/
def skipLoop (pkt : Bytes) (offset cur : Nat) : Except NameError Nat :=
  if cur < pkt.length then
    match pkt[cur]? with
    | none => .error .outside
    | some b =>
      if b = 0 then .ok (cur - offset + 1)
      else if b &&& 0xC0 = 0xC0 then
        if cur + 1 ≥ pkt.length then .error .failed else .ok (cur - offset + 2)
      else if b &&& 0xC0 ≠ 0 then .error .failed
      else skipLoop pkt offset (cur + (1 + b.toNat))
  else .error .failed
termination_by pkt.length - cur

/-- `dns_skip_name`. -/
def skipName (pkt : Bytes) : Int → Except NameError Nat
  | .ofNat offset => skipLoop pkt offset offset
  | .negSucc _ => .error .outside

/-! ## Names -/

/-- From one place of a packet to another, over labels and pointers: how many pointers, and which labels. -/
inductive Walk (pkt : Bytes) : Nat → Nat → List Bytes → Nat → Prop where
  | stop (i : Nat) : Walk pkt i 0 [] i
  | label {i hops e : Nat} {labels : List Bytes} {n : UInt8} (hbyte : pkt[i]? = some n) (hpos : n ≠ 0)
      (hlen : n.toNat ≤ 63) (hin : i + 1 + n.toNat ≤ pkt.length)
      (rest : Walk pkt (i + 1 + n.toNat) hops labels e) :
      Walk pkt i hops ((pkt.drop (i + 1)).take n.toNat :: labels) e
  | pointer {i hops e : Nat} {labels : List Bytes} {high low : UInt8} (hbyte : pkt[i]? = some high)
      (hhigh : high &&& 0xC0 = 0xC0) (hlow : pkt[i + 1]? = some low) (hin : pointerTarget high low < pkt.length)
      (rest : Walk pkt (pointerTarget high low) hops labels e) : Walk pkt i (hops + 1) labels e

/-- The name at a place: its labels, up to a root label. -/
def Named (pkt : Bytes) (i : Nat) (labels : List Bytes) : Prop :=
  ∃ hops e, Walk pkt i hops labels e ∧ pkt[e]? = some 0

/-- Labels with dots between them, and one in front of them unless they are the first. -/
def joined (first : Bool) : List Bytes → Bytes
  | [] => []
  | l :: ls => (if first then [] else asc ".") ++ l ++ joined false ls

/-- The call accesses its buffers only, and what it returns as a name is the one at the offset, with the length
that is skipped. -/
def NameRead (pkt : Bytes) (offset : Int) : Prop :=
  decompressName pkt offset ≠ .error .outside ∧
    ∀ out n, decompressName pkt offset = .ok (out, n) →
      (∃ labels, Named pkt offset.toNat labels ∧ out = joined true labels) ∧ skipName pkt offset = .ok n

/-- Behind a pointer the labels run up to the end of the packet, within the limits on pointers and length. -/
def RunsOut (pkt : Bytes) (i : Nat) : Prop :=
  ∃ hops labels, Walk pkt i hops labels pkt.length ∧ 0 < hops ∧ hops ≤ dnsDecompLimit ∧
    (joined true labels).length < dnsMaxName

theorem label_byte : ∀ b : UInt8, (b &&& 0xC0 = 0 ↔ b.toNat ≤ 63) ∧ (b.toNat ≤ 63 → b &&& 0xC0 ≠ 0xC0) :=
  forall_byte (by decide +kernel)

section Loop

variable {pkt : Bytes} {offset cur hops : Nat} {out : Bytes} {firstSeg : Bool} {consumed : Option Nat}

/-- What is returned is read off a walk, which ends at a root label or at the end of the packet. -/
def ReadOff (pkt : Bytes) (offset cur : Nat) (out : Bytes) (firstSeg : Bool) (consumed : Option Nat) (hops : Nat) :
    Except NameError (Bytes × Nat) → Prop
  | .error .outside => False
  | .error .failed => True
  | .ok (out', n) =>
    out'.length < dnsMaxName ∧ consumed.elim (skipLoop pkt offset cur = .ok n) (n = ·) ∧
      ∃ more labels e, Walk pkt cur more labels e ∧ hops + more ≤ dnsDecompLimit ∧
        out' = out ++ joined firstSeg labels ∧
        (pkt[e]? = some 0 ∨ e = pkt.length ∧ (consumed = none → 0 < more))

theorem ReadOff.imp {cur' hops' : Nat} {out' : Bytes} {firstSeg' : Bool} {consumed' : Option Nat}
    {r : Except NameError (Bytes × Nat)} (h : ReadOff pkt offset cur out firstSeg consumed hops r)
    (himp : ∀ res, ReadOff pkt offset cur out firstSeg consumed hops (.ok res) →
      ReadOff pkt offset cur' out' firstSeg' consumed' hops' (.ok res)) :
    ReadOff pkt offset cur' out' firstSeg' consumed' hops' r :=
  match r with
  | .ok res => himp res h
  | .error .failed => trivial
  | .error .outside => h

theorem decompressLoop_readOff (hout : out.length < dnsMaxName) (hcur : consumed ≠ none → cur ≤ pkt.length)
    (hhops : hops ≤ dnsDecompLimit) :
    ReadOff pkt offset cur out firstSeg consumed hops (decompressLoop pkt offset cur out firstSeg consumed hops) := by
  fun_induction decompressLoop pkt offset cur out firstSeg consumed hops with
  | case1 cur out firstSeg consumed hops hlt hnone =>
    exact absurd (List.getElem?_eq_none_iff.mp hnone) (Nat.not_le.mpr hlt)
  | case2 cur out firstSeg consumed hops hlt hbyte =>
    rw [finish, access, if_pos hout]
    refine ⟨hout, ?_, 0, [], cur, .stop cur, hhops, (append_nil _).symm, .inl hbyte⟩
    cases consumed with
    | none =>
      show skipLoop pkt offset cur = _
      rw [skipLoop, if_pos hlt, hbyte]
      rfl
    | some m => rfl
  | case5 cur out firstSeg consumed hops hlt _ _ _ _ hin _ hnone =>
    exact absurd (List.getElem?_eq_none_iff.mp hnone) hin
  | case7 cur out firstSeg consumed hops hlt high hbyte hne hhigh hin hlimit low hlow ptr hptr ih =>
    refine (ih hout (fun _ => Nat.le_of_not_ge hptr) (Nat.le_of_not_lt hlimit)).imp ?_
    rintro ⟨out', n⟩ ⟨hlen, hn, more, labels, e, hwalk, hmore, hout', hend⟩
    refine ⟨hlen, ?_, more + 1, labels, e, .pointer hbyte hhigh hlow (Nat.lt_of_not_ge hptr) hwalk, by omega,
      hout', hend.imp_right fun h => ⟨h.1, fun _ => Nat.succ_pos more⟩⟩
    obtain rfl : n = consumed.getD (cur - offset + 2) := hn
    cases consumed with
    | none =>
      show skipLoop pkt offset cur = _
      rw [skipLoop, if_pos hlt, hbyte]
      simp only [hne, hhigh, if_false, if_true, if_neg hin]
      rfl
    | some m => rfl
  | case12 cur out firstSeg consumed hops hlt n hbyte hne hhigh hlow labelLen dot hin hdot hfits ih =>
    have hlabel : ((pkt.drop (cur + 1)).take labelLen).length = labelLen := by
      rw [length_take, length_drop]
      omega
    rw [access, if_pos ⟨Nat.le_of_not_gt hin, by omega⟩]
    refine (ih (by rw [length_append, hlabel]; omega) (fun _ => Nat.le_of_not_gt hin) hhops).imp ?_
    rintro ⟨out', m⟩ ⟨hlen, hm, more, labels, e, hwalk, hmore, hout', hend⟩
    have hsixty := (label_byte n).1.mp (not_not.mp hlow)
    refine ⟨hlen, ?_, more, _ :: labels, e, .label hbyte hne hsixty (Nat.le_of_not_gt hin) hwalk, hmore, ?_, hend⟩
    · cases consumed with
      | none =>
        show skipLoop pkt offset cur = _
        rw [skipLoop, if_pos hlt, hbyte]
        simp only [hne, hhigh, hlow, if_false, ← Nat.add_assoc]
        exact hm
      | some _ => exact hm
    · rw [hout', joined, append_assoc, append_assoc, append_assoc]
      rfl
  | case13 cur out firstSeg consumed hops hend =>
    cases consumed with
    | none => trivial
    | some n =>
      rw [finish, access, if_pos hout]
      exact ⟨hout, rfl, 0, [], cur, .stop cur, hhops, (append_nil _).symm,
        .inr ⟨Nat.le_antisymm (hcur nofun) (Nat.le_of_not_lt hend), nofun⟩⟩
  | _ => trivial

/-- A walk to the end of the packet, within the limits, is returned as a name. -/
theorem decompressLoop_of_walk {more : Nat} {labels : List Bytes} (hwalk : Walk pkt cur more labels pkt.length)
    (hmore : hops + more ≤ dnsDecompLimit) (hlen : (out ++ joined firstSeg labels).length < dnsMaxName)
    (hset : consumed = none → 0 < more) :
    ∃ n, decompressLoop pkt offset cur out firstSeg consumed hops = .ok (out ++ joined firstSeg labels, n) := by
  generalize hstop : pkt.length = e at hwalk
  induction hwalk generalizing out firstSeg consumed hops with
  | stop i =>
    subst hstop
    obtain ⟨n, rfl⟩ := Option.ne_none_iff_exists'.mp fun h => absurd (hset h) (Nat.lt_irrefl 0)
    rw [joined, append_nil] at hlen ⊢
    exact ⟨n, by rw [decompressLoop, if_neg (Nat.lt_irrefl _), finish, access, if_pos hlen]⟩
  | @label i more e labels n hbyte hpos hsixty hin _ ih =>
    have hlt : i < pkt.length := (List.getElem?_eq_some_iff.mp hbyte).1
    have hlow := (label_byte n).1.mpr hsixty
    have hlabel : ((pkt.drop (i + 1)).take n.toNat).length = n.toNat := by
      rw [length_take, length_drop]
      omega
    rw [joined, ← append_assoc, ← append_assoc] at hlen ⊢
    obtain ⟨m, hm⟩ := ih hmore hlen hset hstop
    refine ⟨m, ?_⟩
    have hdot : firstSeg = false → (out ++ if firstSeg then [] else asc ".").length = out.length + 1 := by
      rintro rfl
      exact length_append
    rw [length_append, length_append, hlabel] at hlen
    rw [← hm, decompressLoop, if_pos hlt, hbyte]
    dsimp only
    rw [if_neg hpos, if_neg ((label_byte n).2 hsixty), if_neg (not_not.mpr hlow), if_neg (Nat.not_lt.mpr hin),
      if_neg fun h => ?_, if_neg (by omega), access, if_pos ⟨hin, by omega⟩]
    have hlong := hdot h.1
    omega
  | @pointer i more e labels high low hbyte hhigh hlow hin _ ih =>
    have hlt : i < pkt.length := (List.getElem?_eq_some_iff.mp hbyte).1
    have hnext : i + 1 < pkt.length := (List.getElem?_eq_some_iff.mp hlow).1
    have hpos : high ≠ 0 := by
      rintro rfl
      exact absurd hhigh (by decide)
    obtain ⟨m, hm⟩ := @ih (hops + 1) out firstSeg (some (consumed.getD (i - offset + 2))) (by omega) hlen nofun hstop
    refine ⟨m, ?_⟩
    rw [← hm, decompressLoop, if_pos hlt, hbyte]
    dsimp only
    rw [if_neg hpos, if_pos hhigh, if_neg (Nat.not_le.mpr hnext), if_neg (by omega), hlow]
    dsimp only
    rw [if_neg (Nat.not_le.mpr hin)]

end Loop

/-- Two walks that cannot go on end at the same place. -/
theorem Walk.end_unique {pkt : Bytes} {i hops hops' e e' : Nat} {labels labels' : List Bytes}
    (h : Walk pkt i hops labels e) (h' : Walk pkt i hops' labels' e') (he : ∀ b, pkt[e]? = some b → b = 0)
    (he' : ∀ b, pkt[e']? = some b → b = 0) : e = e' := by
  induction h generalizing hops' labels' with
  | stop i =>
    cases h' with
    | stop => rfl
    | label hbyte hpos _ _ _ => exact absurd (he _ hbyte) hpos
    | pointer hbyte hhigh _ _ _ =>
      rw [he _ hbyte] at hhigh
      exact absurd hhigh (by decide)
  | label hbyte hpos hsixty _ _ ih =>
    cases h' with
    | stop => exact absurd (he' _ hbyte) hpos
    | label hbyte' _ _ _ rest =>
      obtain rfl := Option.some.inj (hbyte.symm.trans hbyte')
      exact ih rest he
    | pointer hbyte' hhigh _ _ _ =>
      obtain rfl := Option.some.inj (hbyte.symm.trans hbyte')
      exact absurd hhigh ((label_byte _).2 hsixty)
  | pointer hbyte hhigh hlow _ _ ih =>
    cases h' with
    | stop =>
      rw [he' _ hbyte] at hhigh
      exact absurd hhigh (by decide)
    | label hbyte' _ hsixty _ _ =>
      obtain rfl := Option.some.inj (hbyte.symm.trans hbyte')
      exact absurd hhigh ((label_byte _).2 hsixty)
    | pointer hbyte' _ hlow' _ rest =>
      obtain rfl := Option.some.inj (hbyte.symm.trans hbyte')
      obtain rfl := Option.some.inj (hlow.symm.trans hlow')
      exact ih rest he

/-- For every packet and offset, the name is read as it should be exactly if the offset is not negative and no
pointer leads to labels that run up to the end of the packet. -/
theorem name_read_iff (pkt : Bytes) (offset : Int) :
    NameRead pkt offset ↔ 0 ≤ offset ∧ ¬ RunsOut pkt offset.toNat := by
  cases offset with
  | negSucc k =>
    refine iff_of_false (fun h => h.1 rfl) fun h => ?_
    exact absurd h.1 (Int.not_le.mpr (Int.negSucc_lt_zero k))
  | ofNat offset =>
    have hread := @decompressLoop_readOff pkt offset offset 0 [] true none (by decide) (fun h => absurd rfl h)
      (Nat.zero_le _)
    refine Iff.trans ?_ (and_iff_right (Int.natCast_nonneg offset)).symm
    show decompressLoop pkt offset offset [] true none 0 ≠ _ ∧ (∀ out n,
      decompressLoop pkt offset offset [] true none 0 = _ → (∃ labels, Named pkt offset labels ∧ _) ∧
        skipLoop pkt offset offset = _) ↔ ¬ RunsOut pkt offset
    constructor
    · rintro ⟨-, hok⟩ ⟨hops, labels, hwalk, hpos, hlimit, hlen⟩
      obtain ⟨n, hn⟩ := @decompressLoop_of_walk pkt offset offset 0 [] true none hops labels hwalk (by omega) hlen
        fun _ => hpos
      obtain ⟨⟨labels', ⟨hops', e, hwalk', hroot⟩, -⟩, -⟩ := hok _ _ hn
      have hend : pkt[pkt.length]? = none := List.getElem?_eq_none_iff.mpr (Nat.le_refl _)
      have he := hwalk'.end_unique hwalk (fun b hb => (Option.some.inj (hroot.symm.trans hb)).symm)
        fun b hb => by rw [hend] at hb; cases hb
      rw [he, hend] at hroot
      cases hroot
    · intro hnot
      generalize decompressLoop pkt offset offset [] true none 0 = r at hread
      refine ⟨fun h => by rw [h] at hread; exact hread, ?_⟩
      rintro out n rfl
      obtain ⟨hlen, hskip, more, labels, e, hwalk, hmore, rfl, hroot | ⟨rfl, hpos⟩⟩ := hread
      · exact ⟨⟨labels, ⟨more, e, hwalk, hroot⟩, rfl⟩, hskip⟩
      · exact absurd ⟨more, labels, hwalk, hpos rfl, by omega, hlen⟩ hnot

/-- A pointer to a label at the end of the packet. -/
def openName : Bytes := [0xC0, 2, 1, 97]

/-- It is returned as the name of one letter, which no root label ends. -/
theorem open_name_returned :
    decompressName openName 0 = .ok (asc "a", 2) ∧ ¬ NameRead openName 0 := by
  have hok : decompressName openName 0 = .ok (asc "a", 2) := by decide +kernel
  refine ⟨hok, fun h => ?_⟩
  obtain ⟨⟨labels, ⟨_, e, -, hroot⟩, -⟩, -⟩ := h.2 _ _ hok
  exact absurd (mem_of_getElem? hroot) (by decide)

end Packetsonde.Passive
