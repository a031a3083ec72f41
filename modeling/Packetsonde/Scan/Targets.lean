import Packetsonde.Lib.JsonDoc
import Packetsonde.Probe.Wire

/-!
# Packetsonde — target ranges (`targets.c`, and the loop of `scan/ports.c`)

A scan is given `a.b.c.d` or `a.b.c.d/N`. `ps_cidr_parse` makes a base address and a count of it, and the
scan visits the addresses from the base on. `inet_pton` is a parameter, of which only `ReadsQuads` is
known, and so is the value of a shift by 32, which C leaves open.

The text behind the slash goes through `atoi`, which takes the empty text, `abc` or `24x` for numbers; and
the 2^32 addresses of `/0` do not fit into the count. For every other prefix the addresses are the ones
that are meant, in their order (`range_complete_iff`).
-/

namespace Packetsonde.Scan

open Packetsonde.Lib
open Packetsonde.Probe (Ipv4 inetNtop)
open List hiding Vector

/-! ## The code -/

/-- `struct ps_cidr`. -/
structure Cidr where
  base : UInt32
  count : UInt32
  prefixLen : Int32
  deriving DecidableEq

/-- `atoi`: `strtol`, converted to an `int`. -/
def atoi (s : Bytes) : Int32 := (strtoll s).1.toInt32

/-- `x << n` on 32 bits; C does not define it for `n ≥ 32`. -/
def shl (undef x : UInt32) (n : Nat) : UInt32 := if n < 32 then x <<< UInt32.ofNat n else undef

/-- `ps_cidr_parse`. -/
def cidrParse (undef : UInt32) (inetPton : Bytes → Option UInt32) (spec : CString) : Option Cidr :=
  if spec.bytes.length ≥ 64 then none
  else
    match spec.bytes.idxOf? 47 with
    | none => (inetPton spec.bytes).map fun addr => ⟨addr, 1, -1⟩
    | some slash =>
      let bits := atoi (spec.bytes.drop (slash + 1))
      if bits < 0 ∨ bits > 32 then none
      else
        (inetPton (spec.bytes.take slash)).map fun addr =>
          let mask := if bits = 0 then 0 else shl undef 0xFFFFFFFF (32 - bits).toInt.toNat
          let count := if bits = 32 then 1 else shl undef 1 (32 - bits).toInt.toNat
          ⟨addr &&& mask, count, bits⟩

def octets (a : UInt32) : Ipv4 := #v[(a >>> 24).toUInt8, (a >>> 16).toUInt8, (a >>> 8).toUInt8, a.toUInt8]

def addrText (a : UInt32) : Bytes := inetNtop (octets a)

/-- `ps_cidr_addr`. -/
def cidrAddr (c : Cidr) (idx : UInt32) : Option Bytes :=
  if idx ≥ c.count then none else some (addrText (c.base + idx))

/-- The loop of `ps_scan_ports_run` from the turn `i` on: what is submitted to the workers. `cancelled`
is what `ps_workers_cancelled` says before a turn. -/
def scanLoop (c : Cidr) (ports : List UInt16) (cancelled : UInt32 → Bool) :
    Nat → UInt32 → List (Bytes × UInt16)
  | 0, _ => []
  | n + 1, i =>
    if i < c.count ∧ ¬ cancelled i then
      match cidrAddr c i with
      | none => scanLoop c ports cancelled n (i + 1)
      | some host => ports.map (host, ·) ++ scanLoop c ports cancelled n (i + 1)
    else []

/-- The items of `ps_scan_ports_run`; its loop makes at most `count` turns. -/
def scanPorts (c : Cidr) (ports : List UInt16) (cancelled : UInt32 → Bool) : List (Bytes × UInt16) :=
  scanLoop c ports cancelled c.count.toNat 0

/-! ## What is known of `inet_pton` -/

/-- The dotted-decimal text of an address, of one to three digits a part. -/
def QuadText (s : Bytes) (a : UInt32) : Prop :=
  ∃ p q r t : Bytes, s = p ++ 46 :: (q ++ 46 :: (r ++ 46 :: t)) ∧
    (∀ d ∈ [p, q, r, t], Digits d ∧ d.length ≤ 3) ∧
    [p, q, r, t].map digitsValue = (octets a).toList.map UInt8.toNat

/-- What `inet_pton` accepts is the text of the address it stores. -/
def ReadsQuads (inetPton : Bytes → Option UInt32) : Prop :=
  ∀ s a, inetPton s = some a → QuadText s a

/-! ## The addresses of a range -/

/-- The network of an address under a prefix of `n` bits. -/
def topBits (n : Nat) (a : UInt32) : Nat := a.toNat / 2 ^ (32 - n)

/-- The scan of a range submits every port of every address that shares the top `n` bits with `a`, in
increasing order. -/
def ScansRange (c : Cidr) (n : Nat) (a : UInt32) : Prop :=
  ∃ xs : List UInt32, xs.Pairwise (· < ·) ∧ (∀ x, x ∈ xs ↔ topBits n x = topBits n a) ∧
    xs.length = 2 ^ (32 - n) ∧
    ∀ ports cancelled, (∀ i, cancelled i = false) →
      scanPorts c ports cancelled = xs.flatMap fun x => ports.map (addrText x, ·)

def PrefixText (s : Bytes) : Prop := Digits s ∧ digitsValue s ≤ 32

/-- What the scan of an accepted specification must be. -/
def ScannedCompletely (spec : Bytes) (c : Cidr) : Prop :=
  (47 ∉ spec → ∃ a, QuadText spec a ∧ ScansRange c 32 a) ∧
  ∀ addr len, spec = addr ++ 47 :: len → 47 ∉ addr →
    PrefixText len ∧ ∃ a, QuadText addr a ∧ ScansRange c (digitsValue len) a

/-! ## Runs of the loop -/

theorem toNat_add_ofNat {b : UInt32} {j : Nat} (h : b.toNat + j < 2 ^ 32) :
    (b + UInt32.ofNat j).toNat = b.toNat + j := by
  rw [UInt32.toNat_add, UInt32.toNat_ofNat_of_lt' (Nat.lt_of_le_of_lt (Nat.le_add_left _ _) h),
    Nat.mod_eq_of_lt h]

/-- A run that is not cancelled submits one address after the other. -/
theorem scanLoop_eq {c : Cidr} (ports : List UInt16) {cancelled : UInt32 → Bool}
    (hgo : ∀ i, cancelled i = false) {n : Nat} {i : UInt32} (hn : i.toNat + n ≤ c.count.toNat) :
    scanLoop c ports cancelled n i =
      (List.range n).flatMap fun j => ports.map (addrText (c.base + (i + UInt32.ofNat j)), ·) := by
  induction n generalizing i with
  | zero => rfl
  | succ n ih =>
    have hi : i < c.count := UInt32.lt_iff_toNat_lt.mpr (by omega)
    have hnext : (i + 1).toNat = i.toNat + 1 :=
      toNat_add_ofNat (j := 1) (Nat.lt_of_le_of_lt (by omega) c.count.toNat_lt)
    have hrest := ih (i := i + 1) (by omega)
    rw [scanLoop, if_pos ⟨hi, by simp [hgo]⟩, cidrAddr, if_neg (UInt32.not_le.mpr hi), hrest,
      range_succ_eq_map, flatMap_cons, flatMap_map]
    have hshift : ∀ j, i + 1 + UInt32.ofNat j = i + UInt32.ofNat (j + 1) := fun j => by
      rw [UInt32.add_assoc, UInt32.ofNat_add, UInt32.add_comm (UInt32.ofNat j)]
      rfl
    simp [hshift]

/-- The addresses from the base on are those of a network, if the base is its first and there are as many
as it has. -/
theorem scansRange_of_base {c : Cidr} {n : Nat} {a : UInt32} (hcount : c.count.toNat = 2 ^ (32 - n))
    (hbase : c.base.toNat = topBits n a * 2 ^ (32 - n)) : ScansRange c n a := by
  have hpos : 0 < 2 ^ (32 - n) := Nat.two_pow_pos _
  -- The network ends within the 32 bits: a multiple of the step below 2^32 leaves room for a step.
  have hfits : c.base.toNat + 2 ^ (32 - n) ≤ 2 ^ 32 := by
    have hlt : topBits n a < 2 ^ 32 / 2 ^ (32 - n) :=
      Nat.div_lt_of_lt_mul (by rw [Nat.mul_div_cancel' (Nat.pow_dvd_pow 2 (by omega))]; exact a.toNat_lt)
    have hle := Nat.mul_le_mul_right (2 ^ (32 - n)) hlt
    rw [Nat.div_mul_cancel (Nat.pow_dvd_pow 2 (by omega)), Nat.succ_mul] at hle
    omega
  have hnat : ∀ j < 2 ^ (32 - n), (c.base + UInt32.ofNat j).toNat = c.base.toNat + j := fun j hj =>
    toNat_add_ofNat (by omega)
  refine ⟨(List.range (2 ^ (32 - n))).map fun j => c.base + UInt32.ofNat j, ?_, fun x => ?_, by simp, ?_⟩
  · rw [pairwise_map]
    refine pairwise_lt_range.imp_of_mem fun {j k} hj hk hlt => UInt32.lt_iff_toNat_lt.mpr ?_
    rw [hnat j (mem_range.mp hj), hnat k (mem_range.mp hk)]
    omega
  · have hnet : topBits n x = topBits n a ↔
        c.base.toNat ≤ x.toNat ∧ x.toNat ≤ c.base.toNat + 2 ^ (32 - n) - 1 := by
      rw [hbase]
      exact Nat.div_eq_iff hpos
    rw [hnet]
    constructor
    · intro hx
      obtain ⟨j, hj, rfl⟩ := mem_map.mp hx
      have := mem_range.mp hj
      rw [hnat j this]
      omega
    · intro hx
      refine mem_map.mpr ⟨x.toNat - c.base.toNat, mem_range.mpr (by omega), ?_⟩
      refine UInt32.toNat_inj.mp ?_
      rw [hnat _ (by omega)]
      omega
  · intro ports cancelled hgo
    rw [scanPorts, scanLoop_eq ports hgo (i := 0) (by simp), hcount, flatMap_map]
    congr 1
    funext j
    rw [UInt32.zero_add]

/-- As many items as the count says, for one port. -/
theorem length_scanPorts_one (c : Cidr) (port : UInt16) :
    (scanPorts c [port] fun _ => false).length = c.count.toNat := by
  rw [scanPorts, scanLoop_eq _ (fun _ => rfl) (i := 0) (by simp)]
  simp

/-! ## The text of the prefix -/

/-- A base address: the lowest bits cleared. -/
theorem toNat_and_mask (a : UInt32) {k : Nat} (hk : k < 32) :
    (a &&& (0xFFFFFFFF <<< UInt32.ofNat k)).toNat = a.toNat / 2 ^ k * 2 ^ k := by
  have hkn : (UInt32.ofNat k).toNat % 32 = k := by
    rw [UInt32.toNat_ofNat_of_lt' (Nat.lt_trans hk (by decide)), Nat.mod_eq_of_lt hk]
  refine Nat.eq_of_testBit_eq fun i => ?_
  rw [UInt32.toNat_and, UInt32.toNat_shiftLeft, hkn, Nat.testBit_and, Nat.testBit_mod_two_pow,
    Nat.testBit_shiftLeft, Nat.testBit_mul_two_pow, Nat.testBit_div_two_pow]
  by_cases hki : k ≤ i
  · rw [Nat.sub_add_cancel hki]
    by_cases hi : i < 32
    · have hones : (0xFFFFFFFF : UInt32).toNat = 2 ^ 32 - 1 := by decide
      rw [hones, Nat.testBit_two_pow_sub_one]
      simp [hki, hi]
      omega
    · have hzero : a.toNat.testBit i = false :=
        Nat.testBit_lt_two_pow (Nat.lt_of_lt_of_le a.toNat_lt (Nat.pow_le_pow_right (by decide) (by omega)))
      simp [hzero]
  · simp [hki]

/-- `atoi` reads a small decimal number. -/
theorem atoi_digits {s : Bytes} (hs : Digits s) (hsmall : digitsValue s ≤ 32) :
    atoi s = Int32.ofNat (digitsValue s) := by
  obtain ⟨d, ds, rfl⟩ := exists_cons_of_ne_nil hs.1
  obtain ⟨hspace, hminus, hplus⟩ := digit_byte d (hs.2 d mem_cons_self)
  have hskip : (d :: ds).dropWhile isSpace = d :: ds := dropWhile_cons_of_neg (by simp [hspace])
  have hall : (d :: ds).takeWhile isDigit = d :: ds := takeWhile_eq_self_iff.mpr hs.2
  have hread : (strtoll (d :: ds)).1 = saturate (digitsValue (d :: ds)) := by
    simp [strtoll, hskip, hminus, hplus, hall]
  rw [atoi, hread, saturate, if_neg (by omega), if_neg (by omega), Int64.toInt32_ofInt]
  rfl

section Accepted

variable {undef : UInt32} {inetPton : Bytes → Option UInt32} {spec : CString} {c : Cidr}

theorem cidrParse_plain (h : cidrParse undef inetPton spec = some c) (hno : 47 ∉ spec.bytes) :
    ∃ a, inetPton spec.bytes = some a ∧ c = ⟨a, 1, -1⟩ := by
  unfold cidrParse at h
  split at h
  · cases h
  · rw [idxOf?_eq_none_iff.mpr hno] at h
    obtain ⟨a, ha, rfl⟩ := Option.map_eq_some_iff.mp h
    exact ⟨a, ha, rfl⟩

theorem cidrParse_slash {addr len : Bytes} (h : cidrParse undef inetPton spec = some c)
    (hspec : spec.bytes = addr ++ 47 :: len) (hno : 47 ∉ addr) :
    ∃ a, inetPton addr = some a ∧ 0 ≤ atoi len ∧ atoi len ≤ 32 ∧
      c = ⟨a &&& (if atoi len = 0 then 0 else shl undef 0xFFFFFFFF (32 - atoi len).toInt.toNat),
        if atoi len = 32 then 1 else shl undef 1 (32 - atoi len).toInt.toNat, atoi len⟩ := by
  unfold cidrParse at h
  split at h
  · cases h
  · rw [hspec, idxOf?_append_self hno] at h
    have hlen : (addr ++ 47 :: len).drop (addr.length + 1) = len := by simp
    simp only [hlen, take_left] at h
    split at h
    · cases h
    · next hrange =>
      obtain ⟨a, ha, rfl⟩ := Option.map_eq_some_iff.mp h
      rw [not_or] at hrange
      exact ⟨a, ha, Int32.not_lt.mp hrange.1, Int32.not_lt.mp hrange.2, rfl⟩

end Accepted

/-! ## An `inet_pton`, and specifications -/

def octetText (d : Bytes) : Bool :=
  !d.isEmpty && d.all isDigit && decide (d.length ≤ 3) && decide (digitsValue d ≤ 255) &&
    (d.head? != some 48 || d.length == 1)

/-- An `inet_pton` as it is common: four parts without leading zeros. -/
def readQuad (s : Bytes) : Option UInt32 :=
  match s.splitOn 46 with
  | [p, q, r, t] =>
    if [p, q, r, t].all octetText then
      some (UInt32.ofNat (((digitsValue p * 256 + digitsValue q) * 256 + digitsValue r) * 256 + digitsValue t))
    else none
  | _ => none

theorem octetText_spec {d : Bytes} (h : octetText d = true) : (Digits d ∧ d.length ≤ 3) ∧ digitsValue d ≤ 255 := by
  simp only [octetText, Bool.and_eq_true, Bool.not_eq_true', isEmpty_eq_false_iff, all_eq_true,
    decide_eq_true_eq] at h
  obtain ⟨⟨⟨⟨hne, hall⟩, hlen⟩, hval⟩, -⟩ := h
  exact ⟨⟨⟨hne, hall⟩, hlen⟩, hval⟩

/-- The bytes of an address that was put together of them. -/
theorem octets_join {p q r t : Nat} (hp : p ≤ 255) (hq : q ≤ 255) (hr : r ≤ 255) (ht : t ≤ 255) :
    (octets (UInt32.ofNat (((p * 256 + q) * 256 + r) * 256 + t))).toList.map UInt8.toNat = [p, q, r, t] := by
  have hnat : (UInt32.ofNat (((p * 256 + q) * 256 + r) * 256 + t)).toNat = ((p * 256 + q) * 256 + r) * 256 + t :=
    UInt32.toNat_ofNat_of_lt' (show _ < 2 ^ 32 by omega)
  simp only [octets, Vector.toList_mk, map_cons, map_nil, UInt32.toNat_toUInt8,
    UInt32.toNat_shiftRight, hnat, Nat.shiftRight_eq_div_pow]
  simp
  omega

theorem readQuad_reads : ReadsQuads readQuad := by
  intro s a h
  unfold readQuad at h
  split at h
  · next p q r t hsplit =>
    split at h
    · next hall =>
      obtain rfl := Option.some.inj h
      simp only [all_cons, all_nil, Bool.and_true, Bool.and_eq_true] at hall
      obtain ⟨hp, hq, hr, ht⟩ := hall
      have hs : [46].intercalate (s.splitOn 46) = s := intercalate_splitOn 46
      rw [hsplit] at hs
      refine ⟨p, q, r, t, by simpa [List.intercalate] using hs.symm, ?_, ?_⟩
      · simpa using ⟨(octetText_spec hp).1, (octetText_spec hq).1, (octetText_spec hr).1, (octetText_spec ht).1⟩
      · exact (octets_join (octetText_spec hp).2 (octetText_spec hq).2 (octetText_spec hr).2
          (octetText_spec ht).2).symm
    · cases h
  · cases h

def smallRange : CString := ⟨asc "192.0.2.77/30", by decide⟩
def everything : CString := ⟨asc "10.0.0.0/0", by decide⟩
def trailingText : CString := ⟨asc "10.1.2.3/24x", by decide⟩

/-- The prefix of a specification is what stands behind its first slash. -/
theorem slash_unique {s addr addr' len len' : Bytes} (h : s = addr ++ 47 :: len) (hno : 47 ∉ addr)
    (h' : s = addr' ++ 47 :: len') (hno' : 47 ∉ addr') : len = len' := by
  have hidx : addr.length = addr'.length := by
    rw [← Option.some.injEq, ← idxOf?_append_self hno len, ← idxOf?_append_self hno' len', ← h, ← h']
  have hcut := (append_inj (h.symm.trans h') hidx).2
  exact (List.cons.inj hcut).2

/-! ## The result -/

/-- What the code makes of the prefixes 0 to 32. -/
theorem prefix_arith : ∀ n < 33, (32 - Int32.ofNat n).toInt.toNat = 32 - n ∧
    (Int32.ofNat n = 0 ↔ n = 0) ∧ (Int32.ofNat n = 32 ↔ n = 32) := by
  decide

theorem shl_one {undef : UInt32} {k : Nat} (hk : k < 32) : (shl undef 1 k).toNat = 2 ^ k := by
  have hkn : (UInt32.ofNat k).toNat % 32 = k := by
    rw [UInt32.toNat_ofNat_of_lt' (Nat.lt_trans hk (by decide)), Nat.mod_eq_of_lt hk]
  have hlt : 2 ^ k < 2 ^ 32 := Nat.pow_lt_pow_right (by decide) hk
  rw [shl, if_pos hk, UInt32.toNat_shiftLeft, hkn, UInt32.toNat_one, Nat.shiftLeft_eq, Nat.one_mul,
    Nat.mod_eq_of_lt hlt]

/-- The specifications that are scanned as they should be: without a prefix, or with a decimal number from
1 to 32. -/
def PrefixOk (spec : Bytes) : Prop :=
  ∀ addr len, spec = addr ++ 47 :: len → 47 ∉ addr →
    Digits len ∧ 1 ≤ digitsValue len ∧ digitsValue len ≤ 32

/-- What is scanned completely has such a prefix: no count of 32 bits is the 2^32 that `/0` needs. -/
theorem prefixOk_of_scanned {spec : Bytes} {c : Cidr} (h : ScannedCompletely spec c) : PrefixOk spec := by
  intro addr len hspec hno
  obtain ⟨⟨hdigits, hle⟩, a, -, xs, -, -, hlen, hitems⟩ := h.2 addr len hspec hno
  refine ⟨hdigits, Nat.one_le_iff_ne_zero.mpr fun hzero => ?_, hle⟩
  have hone := hitems [80] (fun _ => false) fun _ => rfl
  have hsame : c.count.toNat = xs.length := by
    rw [← length_scanPorts_one c 80, hone]
    simp
  have hlt := c.count.toNat_lt
  rw [hsame, hlen, hzero] at hlt
  exact Nat.lt_irrefl _ hlt

/-- A specification that is accepted is scanned completely exactly if it has no prefix or one from 1
to 32. -/
theorem range_complete_iff (undef : UInt32) (inetPton : Bytes → Option UInt32) (hpton : ReadsQuads inetPton)
    (spec : CString) (c : Cidr) (hacc : cidrParse undef inetPton spec = some c) :
    ScannedCompletely spec.bytes c ↔ PrefixOk spec.bytes := by
  refine ⟨prefixOk_of_scanned, fun hok => ?_⟩
  refine ⟨fun hno => ?_, fun addr len hspec hno => ?_⟩
  · obtain ⟨a, ha, rfl⟩ := cidrParse_plain hacc hno
    exact ⟨a, hpton _ a ha, scansRange_of_base rfl (by simp [topBits])⟩
  · obtain ⟨hdigits, hpos, hle⟩ := hok addr len hspec hno
    obtain ⟨a, ha, -, -, rfl⟩ := cidrParse_slash hacc hspec hno
    obtain ⟨hsub, hzero, hmax⟩ := prefix_arith (digitsValue len) (by omega)
    refine ⟨⟨hdigits, hle⟩, a, hpton _ a ha, ?_⟩
    rw [atoi_digits hdigits hle, hsub, if_neg (mt hzero.mp (by omega))]
    refine scansRange_of_base ?_ ?_
    · by_cases h32 : digitsValue len = 32
      · rw [h32]
        rfl
      · simp only [hmax, h32, ↓reduceIte]
        exact shl_one (by omega)
    · rw [shl, if_pos (show 32 - digitsValue len < 32 by omega)]
      exact toNat_and_mask a (by omega)

theorem smallRange_scanned :
    cidrParse 0 readQuad smallRange = some ⟨3221226060, 4, 30⟩ ∧
      ScannedCompletely smallRange.bytes ⟨3221226060, 4, 30⟩ := by
  have hacc : cidrParse 0 readQuad smallRange = some ⟨3221226060, 4, 30⟩ := by decide +kernel
  refine ⟨hacc, (range_complete_iff 0 readQuad readQuad_reads smallRange _ hacc).mpr ?_⟩
  intro addr len hspec hno
  obtain rfl := slash_unique (show smallRange.bytes = asc "192.0.2.77" ++ 47 :: asc "30" by decide) (by decide)
    hspec hno
  exact ⟨by unfold Digits; decide +kernel, by decide, by decide⟩

/-- `/0` is accepted, whatever a shift by 32 gives, and so is a prefix that is no number; neither is
scanned as it should be. -/
theorem bad_prefix_accepted :
    (∀ undef, ∃ c, cidrParse undef readQuad everything = some c ∧ ¬ ScannedCompletely everything.bytes c) ∧
    ∃ c, cidrParse 0 readQuad trailingText = some c ∧ ¬ ScannedCompletely trailingText.bytes c := by
  have hbad : ∀ {spec addr len : Bytes} {c : Cidr}, spec = addr ++ 47 :: len → 47 ∉ addr →
      ¬ (Digits len ∧ 1 ≤ digitsValue len ∧ digitsValue len ≤ 32) → ¬ ScannedCompletely spec c :=
    fun hspec hno hnot hscan => hnot (prefixOk_of_scanned hscan _ _ hspec hno)
  constructor
  · intro undef
    refine ⟨⟨0, undef, 0⟩, ?_, @hbad _ (asc "10.0.0.0") (asc "0") _ (by decide) (by decide) ?_⟩
    · have hlen : ¬ everything.bytes.length ≥ 64 := by decide
      have hidx : everything.bytes.idxOf? 47 = some 8 := by decide
      have hatoi : atoi (everything.bytes.drop (8 + 1)) = 0 := by decide +kernel
      have hquad : readQuad (everything.bytes.take 8) = some 167772160 := by decide +kernel
      simp only [cidrParse, hlen, hidx, hatoi, hquad, ↓reduceIte]
      rfl
    · exact fun h => absurd h.2.1 (by decide)
  · refine ⟨⟨167838208, 256, 24⟩, by decide +kernel,
      @hbad _ (asc "10.1.2.3") (asc "24x") _ (by decide) (by decide) ?_⟩
    exact fun h => absurd (h.1.2 120 (by decide)) (by decide)

end Packetsonde.Scan
