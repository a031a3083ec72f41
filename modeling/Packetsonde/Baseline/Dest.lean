import Packetsonde.Baseline.Monitor
import Packetsonde.Scan.Targets

/-!
# Packetsonde — generalized destinations (`ps_dest_generalize` of `dest_match.c`)

A destination is approved as it was seen (`exact`), for every port (`host`), for every host (`port`) or for a
network (`cidr/N`), and the entry that is stored is matched with later addresses by `ps_dest_match`.

Each form is one lemma about the matcher: an entry with a host and a port (`destMatch_exact`), with a host
(`destMatch_host`), with a port (`destMatch_port`) and with a network (`destMatch_net`). Every form matches
the address it was made from. A network matches the addresses that agree in the first bits, as many as
`atoi` makes of the text: the length is held to 0..32 only behind `atoi`, which takes a number that is too
large for an `int` for another one (`generalizes_iff`).
-/

namespace Packetsonde.Baseline

open Packetsonde.Lib
open Packetsonde.Probe (inetNtop)
open Packetsonde.Scan (atoi octets addrText topBits toNat_and_mask)
open List hiding Vector beq_eq_decide

/-! ## The code -/

def clampBits (i : Int) : Nat := if i < 0 then 0 else if 32 < i then 32 else i.toNat

/-- `mask`. -/
def netMask (bits : Nat) : UInt32 :=
  if bits = 0 then 0 else if bits = 32 then 0xFFFFFFFF else ~~~ ((1 <<< UInt32.ofNat (32 - bits)) - 1)

/-- `ps_dest_generalize`: what is in the buffer of `cap` bytes, if it returns 0. -/
def destGeneralize (raddr form : Bytes) (cap : Nat) : Option Bytes :=
  let ip := (splitRaddr raddr).1
  let port := (splitRaddr raddr).2
  if form = asc "exact" then some (raddr.take (cap - 1))
  else if form = asc "host" then some (ip.take (cap - 1))
  else if form = asc "port" then some ((asc ":" ++ port).take (cap - 1))
  else if asc "cidr/" <+: form then
    let bits := clampBits (atoi (form.drop 5)).toInt
    (v4ToU32 ip).map fun u =>
      (addrText (u &&& netMask bits) ++ asc "/" ++ natDecimal bits).take (cap - 1)
  else none

/-! ## Addresses -/

/-- A remote address: four octets or 32 hex digits, and a port. -/
structure Remote where
  host : Bytes
  port : UInt16
  isHost : (∃ a, host = addrText a) ∨
    ∃ hex : Bytes, hex.length = 32 ∧ (∀ c ∈ hex, (hexValue c).isSome) ∧ host = 91 :: (hex ++ [93])

def portText (port : UInt16) : Bytes := natDecimal port.toNat

def Remote.text (r : Remote) : Bytes := r.host ++ 58 :: portText r.port

/-- The address with the octets of `a`. -/
def Remote.v4 (a : UInt32) (port : UInt16) : Remote := ⟨addrText a, port, .inl ⟨a, rfl⟩⟩

/-- What the matcher needs of a host. -/
structure HostText (h : Bytes) : Prop where
  ne_nil : h ≠ []
  colon : (58 : UInt8) ∉ h
  slash : (47 : UInt8) ∉ h
  length_le : h.length ≤ 34

variable {c : UInt8}

theorem not_mem_inetNtop (hc : isDigit c = false) (hdot : c ≠ 46) (o : Probe.Ipv4) :
    c ∉ inetNtop o := by
  have hpoint : c ∉ asc "." := fun h => hdot (mem_singleton.mp h)
  have hdigits (n : Nat) : c ∉ natDecimal n := fun h => absurd (isDigit_of_mem_natDecimal h) (by simp [hc])
  simp only [inetNtop, mem_append, not_or]
  exact ⟨⟨⟨⟨⟨⟨hdigits _, hpoint⟩, hdigits _⟩, hpoint⟩, hdigits _⟩, hpoint⟩, hdigits _⟩

theorem length_inetNtop_le (o : Probe.Ipv4) : (inetNtop o).length ≤ 15 := by
  have hdigits (c : UInt8) : (natDecimal c.toNat).length ≤ 2 + 1 :=
    length_natDecimal_le (Nat.lt_trans c.toNat_lt (by decide))
  have h₀ := hdigits o[0]
  have h₁ := hdigits o[1]
  have h₂ := hdigits o[2]
  have h₃ := hdigits o[3]
  have hdot : (asc ".").length = 1 := rfl
  simp only [inetNtop, length_append, hdot]
  omega

theorem hex_byte : ∀ c : UInt8, (hexValue c).isSome → c ≠ 58 ∧ c ≠ 47 :=
  forall_byte (by decide +kernel)

theorem hostText_addrText (a : UInt32) : HostText (addrText a) where
  ne_nil := fun h => natDecimal_ne_nil _ (by
    simp only [addrText, inetNtop, append_eq_nil_iff] at h
    exact h.2)
  colon := not_mem_inetNtop rfl (by decide) _
  slash := not_mem_inetNtop rfl (by decide) _
  length_le := Nat.le_trans (length_inetNtop_le _) (by decide)

theorem Remote.hostText (r : Remote) : HostText r.host := by
  obtain ⟨host, port, hhost⟩ := r
  rcases hhost with ⟨a, rfl⟩ | ⟨hex, hlen, hhex, rfl⟩
  · exact hostText_addrText a
  · have hout {c : UInt8} (h91 : c ≠ 91) (h93 : c ≠ 93) (hc : c ∉ hex) : c ∉ 91 :: (hex ++ [93]) := by
      rw [mem_cons, mem_append, mem_singleton, not_or, not_or]
      exact ⟨h91, hc, h93⟩
    refine ⟨cons_ne_nil _ _, hout (by decide) (by decide) fun h => (hex_byte 58 (hhex 58 h)).1 rfl,
      hout (by decide) (by decide) fun h => (hex_byte 47 (hhex 47 h)).2 rfl, ?_⟩
    show (91 :: (hex ++ [93])).length ≤ 34
    rw [length_cons, length_append, hlen]
    decide

theorem not_mem_portText (hc : isDigit c = false) (port : UInt16) : c ∉ portText port :=
  fun h => absurd (isDigit_of_mem_natDecimal h) (by simp [hc])

theorem length_portText_le (port : UInt16) : (portText port).length ≤ 5 :=
  length_natDecimal_le (Nat.lt_trans port.toNat_lt (by decide))

/-! ## The two splits -/

theorem lastIdx_append {y : Bytes} (hy : c ∉ y) (x : Bytes) :
    lastIdx c (x ++ c :: y) = some x.length := by
  have hrev : (x ++ c :: y).reverse = y.reverse ++ c :: x.reverse := by simp
  rw [lastIdx, hrev, idxOf?_append_self (by rwa [mem_reverse]), Option.map_some]
  simp only [length_append, length_cons, length_reverse]
  congr 1
  omega

theorem lastIdx_eq_none {s : Bytes} (h : c ∉ s) : lastIdx c s = none := by
  rw [lastIdx, idxOf?_eq_none_iff.mpr (by rwa [mem_reverse])]
  rfl

theorem splitRaddr_text (r : Remote) : splitRaddr r.text = (r.host, portText r.port) := by
  have hlen := r.hostText.length_le
  have hport := length_portText_le r.port
  unfold splitRaddr Remote.text
  rw [lastIdx_append (not_mem_portText rfl _)]
  have hdrop : (r.host ++ 58 :: portText r.port).drop (r.host.length + 1) = portText r.port := by simp
  dsimp only
  rw [take_left, hdrop, take_of_length_le (by omega), take_of_length_le (by omega)]

section Entries

variable {h : Bytes} (r : Remote)

/-- An entry with a host and a port. -/
theorem destMatch_exact (hh : HostText h) (port : UInt16) :
    destMatch (h ++ 58 :: portText port) r.text =
      decide (portText port = portText r.port ∧ h = r.host) := by
  have hlen := hh.length_le
  have hport := length_portText_le port
  have hslash : (47 : UInt8) ∉ h ++ 58 :: portText port := by
    rw [mem_append, mem_cons, not_or, not_or]
    exact ⟨hh.slash, by decide, not_mem_portText rfl port⟩
  have hcut : (h ++ 58 :: portText port).take 127 = h ++ 58 :: portText port :=
    take_of_length_le (by rw [length_append, length_cons]; omega)
  have hlast : lastIdx 58 (h ++ 58 :: portText port) = some h.length :=
    lastIdx_append (not_mem_portText rfl port) h
  have hdrop : (h ++ 58 :: portText port).drop (h.length + 1) = portText port := by simp
  unfold destMatch
  simp only [splitRaddr_text, hcut, hlast,
    idxOf?_eq_none_iff.mpr hslash, Option.all_none, Option.filter_some, if_true, Option.map_some,
    Option.getD_some, hdrop, take_left, Option.any_some, hh.ne_nil, if_false,
    idxOf?_eq_none_iff.mpr hh.slash]
  by_cases heq : portText port = portText r.port
  · simp [heq]
  · simp [heq]

/-- An entry with a host. -/
theorem destMatch_host (hh : HostText h) : destMatch h r.text = decide (h = r.host) := by
  have hlen := hh.length_le
  have hcut : h.take 127 = h := take_of_length_le (by omega)
  unfold destMatch
  simp only [splitRaddr_text, hcut, lastIdx_eq_none hh.colon, Option.filter_none, Option.map_none,
    Option.getD_none, Option.any_none, Bool.false_eq_true, if_false, hh.ne_nil,
    idxOf?_eq_none_iff.mpr hh.slash]

/-- An entry with a port. -/
theorem destMatch_port (port : UInt16) :
    destMatch (58 :: portText port) r.text = decide (portText port = portText r.port) := by
  have hport := length_portText_le port
  have hslash : (47 : UInt8) ∉ 58 :: portText port := by
    rw [mem_cons, not_or]
    exact ⟨by decide, not_mem_portText rfl port⟩
  have hcut : (58 :: portText port).take 127 = 58 :: portText port :=
    take_of_length_le (by rw [length_cons]; omega)
  have hlast : lastIdx 58 (58 :: portText port) = some 0 := lastIdx_append (not_mem_portText rfl port) []
  unfold destMatch
  simp only [splitRaddr_text, hcut, hlast, idxOf?_eq_none_iff.mpr hslash, Option.all_none,
    Option.filter_some, if_true, Option.map_some, Option.getD_some, take_zero, Option.any_some]
  by_cases heq : portText port = portText r.port
  · simp [heq]
  · simp [heq]

end Entries

/-! ## Networks -/

variable {n : Nat}

theorem scanU_natDecimal (hn : n < 2 ^ 32) {rest : Bytes} (hrest : ∀ c ∈ rest.head?, isDigit c = false) :
    scanU (natDecimal n ++ rest) = some (UInt32.ofNat n, rest) := by
  obtain ⟨d, ds, hds⟩ := exists_cons_of_ne_nil (natDecimal_ne_nil n)
  have hdigits : ∀ x ∈ natDecimal n, isDigit x = true := fun x hx => isDigit_of_mem_natDecimal hx
  obtain ⟨hspace, hminus, hplus⟩ := digit_byte d (hdigits d (hds ▸ mem_cons_self))
  have hskip : (natDecimal n ++ rest).dropWhile isSpace = natDecimal n ++ rest := by
    rw [hds, cons_append, dropWhile_cons_of_neg (by simp [hspace])]
  have hhead : (natDecimal n ++ rest).head? = some d := by rw [hds]; rfl
  obtain ⟨htake, hdrop⟩ := span_natDecimal n hrest
  have hneg : (some d == some 45) = false := beq_eq_false_iff_ne.mpr fun h => hminus (Option.some.inj h)
  have hpos : (some d == some 43) = false := beq_eq_false_iff_ne.mpr fun h => hplus (Option.some.inj h)
  have hmin : min n (2 ^ 64 - 1) = n := Nat.min_eq_left (by omega)
  unfold scanU
  simp only [hskip, hhead, hneg, hpos, Bool.or_self, Bool.false_eq_true, if_false, htake, hdrop,
    natDecimal_ne_nil, digitsValue_natDecimal, Bool.false_and, hmin]
  rw [UInt64.toUInt32_ofNat']

theorem or_octets {p q r t : Nat} (hp : p ≤ 255) (hq : q ≤ 255) (hr : r ≤ 255) (ht : t ≤ 255) :
    (UInt32.ofNat p <<< 24 ||| UInt32.ofNat q <<< 16 ||| UInt32.ofNat r <<< 8 ||| UInt32.ofNat t).toNat =
      ((p * 256 + q) * 256 + r) * 256 + t := by
  have hof {n : Nat} (h : n ≤ 255) : (UInt32.ofNat n).toNat = n :=
    UInt32.toNat_ofNat_of_lt' (Nat.lt_of_le_of_lt h (by decide))
  have hshift {n k : Nat} (h : n ≤ 255) (hk : k ≤ 24) : n <<< k % 2 ^ 32 = n <<< k := by
    refine Nat.mod_eq_of_lt ?_
    rw [Nat.shiftLeft_eq]
    calc n * 2 ^ k ≤ 255 * 2 ^ 24 := Nat.mul_le_mul h (Nat.pow_le_pow_right (by decide) hk)
      _ < 2 ^ 32 := by decide
  have hconst : (24 : UInt32).toNat % 32 = 24 ∧ (16 : UInt32).toNat % 32 = 16 ∧
      (8 : UInt32).toNat % 32 = 8 := by
    decide
  simp only [UInt32.toNat_or, UInt32.toNat_shiftLeft, hof hp, hof hq, hof hr, hof ht, hconst.1, hconst.2.1,
    hconst.2.2, hshift hp (Nat.le_refl _), hshift hq (show 16 ≤ 24 by decide), hshift hr (show 8 ≤ 24 by decide)]
  have hpq : p <<< 24 ||| q <<< 16 = (p * 256 + q) <<< 16 := by
    rw [← Nat.shiftLeft_add_eq_or_of_lt (show q <<< 16 < 2 ^ 24 by rw [Nat.shiftLeft_eq]; omega)]
    simp only [Nat.shiftLeft_eq]
    omega
  have hpqr : (p * 256 + q) <<< 16 ||| r <<< 8 = ((p * 256 + q) * 256 + r) <<< 8 := by
    rw [← Nat.shiftLeft_add_eq_or_of_lt (show r <<< 8 < 2 ^ 16 by rw [Nat.shiftLeft_eq]; omega)]
    simp only [Nat.shiftLeft_eq]
    omega
  rw [hpq, hpqr, ← Nat.shiftLeft_add_eq_or_of_lt (show t < 2 ^ 8 by omega), Nat.shiftLeft_eq]

/-- The address is read back from its text. -/
theorem v4ToU32_addrText (a : UInt32) : v4ToU32 (addrText a) = some a := by
  have hbyte (c : UInt8) : c.toNat ≤ 255 := Nat.le_of_lt_succ c.toNat_lt
  have hlt (c : UInt8) : c.toNat < 2 ^ 32 := Nat.lt_trans c.toNat_lt (by decide)
  have hdot (x : Bytes) : ∀ c ∈ (46 :: x).head?, isDigit c = false := fun c hc => by
    obtain rfl := Option.some.inj hc
    rfl
  have hsmall (c : UInt8) : ¬ (UInt32.ofNat c.toNat > 255) := by
    rw [gt_iff_lt, UInt32.lt_iff_toNat_lt, UInt32.toNat_ofNat_of_lt' (hlt c)]
    exact Nat.not_lt.mpr (hbyte c)
  have hend (c : UInt8) : scanU (natDecimal c.toNat) = some (UInt32.ofNat c.toNat, []) := by
    rw [← append_nil (natDecimal c.toNat)]
    exact scanU_natDecimal (hlt c) nofun
  have hsplit (o : Probe.Ipv4) : inetNtop o = natDecimal o[0].toNat ++ (46 : UInt8) :: (natDecimal o[1].toNat ++
      (46 : UInt8) :: (natDecimal o[2].toNat ++ (46 : UInt8) :: natDecimal o[3].toNat)) := by
    have hpoint : asc "." = [46] := rfl
    simp only [inetNtop, hpoint, append_assoc, cons_append, nil_append]
  rw [addrText, hsplit, v4ToU32]
  simp only [scanU_natDecimal (hlt _) (hdot _), hend, scanDotU,
    Option.bind_eq_bind, Option.bind_some, hsmall, or_self, if_false]
  congr 1
  apply UInt32.toNat_inj.mp
  rw [or_octets (hbyte _) (hbyte _) (hbyte _) (hbyte _)]
  simp only [octets, Vector.getElem_mk, getElem_toArray, getElem_cons_zero, getElem_cons_succ,
    UInt32.toNat_toUInt8, UInt32.toNat_shiftRight, Nat.shiftRight_eq_div_pow]
  have ha := a.toNat_lt
  simp
  omega

theorem netMask_eq : ∀ n < 33, n ≠ 0 → netMask n = 0xFFFFFFFF <<< UInt32.ofNat (32 - n) := by decide

theorem toNat_and_netMask (a : UInt32) (hn : n ≤ 32) :
    (a &&& netMask n).toNat = topBits n a * 2 ^ (32 - n) := by
  by_cases hzero : n = 0
  · subst hzero
    have htop : topBits 0 a = 0 := Nat.div_eq_of_lt a.toNat_lt
    rw [htop, Nat.zero_mul, netMask, if_pos rfl, UInt32.and_zero]
    rfl
  · rw [netMask_eq n (by omega) hzero, toNat_and_mask a (by omega), topBits]

theorem topBits_and_netMask (a : UInt32) (hn : n ≤ 32) :
    topBits n (a &&& netMask n) = topBits n a := by
  rw [topBits, toNat_and_netMask a hn, Nat.mul_div_cancel _ (Nat.two_pow_pos _)]

theorem bits_arith : ∀ n < 33, (Int32.ofNat n ≤ 0 ↔ n = 0) ∧ (Int32.ofNat n ≥ 32 ↔ n = 32) ∧
    (32 - (Int32.ofNat n).toInt.toNat).toUInt32 = UInt32.ofNat (32 - n) := by decide

/-- The comparison is one of the first bits. -/
theorem sameNet_eq (net ip : UInt32) (hn : n ≤ 32) :
    sameNet net ip (Int32.ofNat n) = decide (topBits n net = topBits n ip) := by
  obtain ⟨hzero, hall, hshift⟩ := bits_arith n (by omega)
  have hsame : sameNet net ip (Int32.ofNat n) = decide (net &&& netMask n = ip &&& netMask n) := by
    unfold sameNet netMask
    simp only [hzero, hall, hshift]
    split <;> simp [beq_eq_decide]
  have hpow : 0 < 2 ^ (32 - n) := Nat.two_pow_pos _
  rw [hsame, decide_eq_decide, ← UInt32.toNat_inj, toNat_and_netMask net hn, toNat_and_netMask ip hn]
  exact ⟨Nat.eq_of_mul_eq_mul_right hpow, fun h => by rw [h]⟩

theorem strtoll_bits : ∀ n < 33, (strtoll (natDecimal n)).1.toInt32 = Int32.ofNat n := by decide +kernel

/-- An entry with a network. -/
theorem destMatch_net (net : UInt32) (hn : n ≤ 32) (r : Remote) :
    destMatch (addrText net ++ 47 :: natDecimal n) r.text =
      (v4ToU32 r.host).any fun ip => decide (topBits n net = topBits n ip) := by
  have haddr := hostText_addrText net
  have hlen := haddr.length_le
  have hnum : (natDecimal n).length ≤ 1 + 1 := length_natDecimal_le (by omega)
  have hcolon : (58 : UInt8) ∉ addrText net ++ 47 :: natDecimal n := by
    rw [mem_append, mem_cons, not_or, not_or]
    exact ⟨haddr.colon, by decide, fun h => absurd (isDigit_of_mem_natDecimal h) (by decide)⟩
  have hcut : (addrText net ++ 47 :: natDecimal n).take 127 = addrText net ++ 47 :: natDecimal n :=
    take_of_length_le (by rw [length_append, length_cons]; omega)
  have hdrop : (addrText net ++ 47 :: natDecimal n).drop ((addrText net).length + 1) = natDecimal n := by simp
  have hne : addrText net ++ 47 :: natDecimal n ≠ [] := by simp
  unfold destMatch
  simp only [splitRaddr_text, hcut, lastIdx_eq_none hcolon, Option.filter_none, Option.map_none,
    Option.getD_none, Option.any_none, Bool.false_eq_true, if_false, hne, idxOf?_append_self haddr.slash,
    take_left, v4ToU32_addrText, hdrop, strtoll_bits n (by omega)]
  cases v4ToU32 r.host with
  | none => rfl
  | some ip => exact sameNet_eq net ip hn

/-! ## The forms -/

def cidrForm (n : Int) : Bytes := asc "cidr/" ++ decimal n

theorem clampBits_le (i : Int) : clampBits i ≤ 32 := by
  unfold clampBits
  split
  · decide
  · split <;> omega

/-- What `atoi` makes of the number `n`. -/
def asInt (n : Int) : Int := (saturate n).toInt32.toInt

theorem atoi_cidrForm (n : Int) : (atoi ((cidrForm n).drop 5)).toInt = asInt n := by
  have hdrop : (cidrForm n).drop 5 = decimal n := rfl
  have hread : strtoll (decimal n ++ []) = (saturate n, []) := strtoll_decimal n nofun
  rw [append_nil] at hread
  rw [hdrop, atoi, hread, asInt]

section Forms

variable (r : Remote) {cap : Nat} (hcap : 64 ≤ cap)

include hcap

theorem generalize_exact : destGeneralize r.text (asc "exact") cap = some r.text := by
  have hhost := r.hostText.length_le
  have hport := length_portText_le r.port
  have hcut : r.text.take (cap - 1) = r.text :=
    take_of_length_le (by rw [Remote.text, length_append, length_cons]; omega)
  simp [destGeneralize, hcut]

theorem generalize_host : destGeneralize r.text (asc "host") cap = some r.host := by
  have hhost := r.hostText.length_le
  have hcut : r.host.take (cap - 1) = r.host := take_of_length_le (by omega)
  have hform : asc "host" ≠ asc "exact" := by decide
  simp only [destGeneralize, splitRaddr_text, hform, if_false, if_true, hcut]

theorem generalize_port : destGeneralize r.text (asc "port") cap = some (58 :: portText r.port) := by
  have hport := length_portText_le r.port
  have hcut : (asc ":" ++ portText r.port).take (cap - 1) = 58 :: portText r.port :=
    take_of_length_le (by rw [length_append]; show 1 + _ ≤ _; omega)
  have hexact : asc "port" ≠ asc "exact" := by decide
  have hhost : asc "port" ≠ asc "host" := by decide
  simp only [destGeneralize, splitRaddr_text, hexact, hhost, if_false, if_true, hcut]

theorem generalize_cidr (n : Int) : destGeneralize r.text (cidrForm n) cap = (v4ToU32 r.host).map fun u =>
    addrText (u &&& netMask (clampBits (asInt n))) ++ 47 :: natDecimal (clampBits (asInt n)) := by
  have hhead (w : Bytes) (hw : w.head? ≠ some 99) : cidrForm n ≠ w := fun h => hw (h ▸ rfl)
  have hform : cidrForm n ≠ asc "exact" ∧ cidrForm n ≠ asc "host" ∧ cidrForm n ≠ asc "port" :=
    ⟨hhead _ (by decide), hhead _ (by decide), hhead _ (by decide)⟩
  have hpre : asc "cidr/" <+: cidrForm n := prefix_append _ _
  have hcut (net : UInt32) : (addrText net ++ asc "/" ++ natDecimal (clampBits (asInt n))).take (cap - 1) =
      addrText net ++ 47 :: natDecimal (clampBits (asInt n)) := by
    have hlen := (hostText_addrText net).length_le
    have hbits := clampBits_le (asInt n)
    have hnum : (natDecimal (clampBits (asInt n))).length ≤ 1 + 1 := length_natDecimal_le (by omega)
    have hslash : (asc "/").length = 1 := rfl
    rw [take_of_length_le (by simp only [length_append, hslash]; omega), append_assoc]
    rfl
  simp only [destGeneralize, splitRaddr_text, hform, if_false, hpre, if_true, atoi_cidrForm, hcut]

end Forms

/-! ## What is matched -/

/-- What the four forms promise for a prefix length: the entry matches the address it was made from, and the
network the addresses that agree in the first bits. -/
structure Generalizes (n : Int) (cap : Nat) : Prop where
  own : ∀ (r : Remote), ∀ form ∈ [asc "exact", asc "host", asc "port", cidrForm n], ∀ entry,
    destGeneralize r.text form cap = some entry → destMatch entry r.text = true
  net : ∀ a port entry, destGeneralize (Remote.v4 a port).text (cidrForm n) cap = some entry → ∀ b port',
    destMatch entry (Remote.v4 b port').text = true ↔ topBits (clampBits n) a = topBits (clampBits n) b

/-- A network matches the addresses that agree in as many bits as `atoi` says. -/
theorem match_cidr {a b : UInt32} {port port' : UInt16} {cap : Nat} (hcap : 64 ≤ cap) {n : Int} {entry : Bytes}
    (h : destGeneralize (Remote.v4 a port).text (cidrForm n) cap = some entry) :
    destMatch entry (Remote.v4 b port').text = true ↔
      topBits (clampBits (asInt n)) a = topBits (clampBits (asInt n)) b := by
  have hbits := clampBits_le (asInt n)
  have hhost (c : UInt32) (p : UInt16) : v4ToU32 (Remote.v4 c p).host = some c := v4ToU32_addrText c
  rw [generalize_cidr _ hcap, hhost, Option.map_some] at h
  obtain rfl := Option.some.inj h
  rw [destMatch_net _ hbits, hhost, Option.any_some, topBits_and_netMask a hbits, decide_eq_true_iff]

theorem match_own (r : Remote) {cap : Nat} (hcap : 64 ≤ cap) {n : Int} {form entry : Bytes}
    (hform : form ∈ [asc "exact", asc "host", asc "port", cidrForm n])
    (h : destGeneralize r.text form cap = some entry) : destMatch entry r.text = true := by
  simp only [mem_cons, not_mem_nil, or_false] at hform
  rcases hform with rfl | rfl | rfl | rfl
  · rw [generalize_exact r hcap] at h
    obtain rfl := Option.some.inj h
    exact (destMatch_exact r r.hostText r.port).trans (by simp)
  · rw [generalize_host r hcap] at h
    obtain rfl := Option.some.inj h
    rw [destMatch_host r r.hostText, decide_eq_true rfl]
  · rw [generalize_port r hcap] at h
    obtain rfl := Option.some.inj h
    rw [destMatch_port, decide_eq_true rfl]
  · rw [generalize_cidr r hcap, Option.map_eq_some_iff] at h
    obtain ⟨u, hu, rfl⟩ := h
    rw [destMatch_net _ (clampBits_le _), hu, Option.any_some, topBits_and_netMask u (clampBits_le _),
      decide_eq_true rfl]

/-- Addresses that differ only behind the first `m` bits. -/
theorem le_of_topBits {m n : Nat} (hn : n ≤ 32)
    (h : ∀ a b, topBits m a = topBits m b → topBits n a = topBits n b) : n ≤ m := by
  rcases Nat.lt_or_ge m n with hlt | hge
  · have hb : (UInt32.ofNat (2 ^ (31 - m))).toNat = 2 ^ (31 - m) :=
      UInt32.toNat_ofNat_of_lt' (show 2 ^ (31 - m) < 2 ^ 32 from Nat.pow_lt_pow_right (by decide) (by omega))
    have hsame : topBits m 0 = topBits m (UInt32.ofNat (2 ^ (31 - m))) := by
      have hbelow : 2 ^ (31 - m) < 2 ^ (32 - m) := Nat.pow_lt_pow_right (by decide) (by omega)
      rw [topBits, topBits, hb, Nat.div_eq_of_lt hbelow]
      exact Nat.zero_div _
    have hdiff := h _ _ hsame
    rw [topBits, topBits, hb, Nat.pow_div (by omega) (by decide)] at hdiff
    have hpos : 0 < 2 ^ (31 - m - (32 - n)) := Nat.two_pow_pos _
    rw [← hdiff] at hpos
    exact absurd hpos (by simp)
  · exact hge

/-- The forms keep their promise for the prefix lengths that `atoi` reads as the number they are, or as one
on the same side of 0..32. -/
theorem generalizes_iff (n : Int) {cap : Nat} (hcap : 64 ≤ cap) :
    Generalizes n cap ↔ clampBits (asInt n) = clampBits n := by
  constructor
  · intro h
    have hiff (a b : UInt32) : topBits (clampBits (asInt n)) a = topBits (clampBits (asInt n)) b ↔
        topBits (clampBits n) a = topBits (clampBits n) b := by
      have hsome := generalize_cidr (Remote.v4 a 0) hcap n
      rw [show v4ToU32 (Remote.v4 a 0).host = some a from v4ToU32_addrText a, Option.map_some] at hsome
      exact (match_cidr hcap hsome).symm.trans (h.net a 0 _ hsome b 0)
    exact Nat.le_antisymm (le_of_topBits (clampBits_le _) fun a b => (hiff a b).mpr)
      (le_of_topBits (clampBits_le _) fun a b => (hiff a b).mp)
  · intro h
    refine ⟨fun r form hform entry hsome => match_own r hcap hform hsome, ?_⟩
    intro a port entry hsome b port'
    rw [match_cidr hcap hsome, h]

theorem generalizes_24 : clampBits (asInt 24) = clampBits 24 ∧ Generalizes 24 64 :=
  ⟨by decide, (generalizes_iff 24 (Nat.le_refl 64)).mpr (by decide)⟩

/-- `cidr/4294967297` is 32 bits when it is held to 0..32, but `atoi` makes 1 of it: the entry for 10.1.2.3
is `0.0.0.0/1`, and it matches 11.0.0.1. -/
theorem long_prefix_widens :
    destGeneralize (asc "10.1.2.3:443") (cidrForm 4294967297) 64 = some (asc "0.0.0.0/1") ∧
      destMatch (asc "0.0.0.0/1") (asc "11.0.0.1:443") = true ∧
      topBits (clampBits 4294967297) 0x0A010203 ≠ topBits (clampBits 4294967297) 0x0B000001 := by
  decide +kernel

end Packetsonde.Baseline
