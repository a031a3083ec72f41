import Packetsonde.Lib.Bytes

/-!
# Packetsonde — identifiers (`ps_ulid_new` of `ulid.c`)

An identifier is a time stamp of 48 bits and a number of 80 bits, both written with five bits a character. The
number is drawn anew in each millisecond and counted up within one. `encode_lt_iff`: in byte order the strings
are ordered as the pairs are.

The clock is read in front of the lock. A thread that comes to the lock late brings an old reading, and then
the number is drawn anew for a millisecond that is over; `ulids_increasing` needs that none does.
-/

namespace Packetsonde.Ids

open Packetsonde.Lib
open List

/-! ## The code -/

/-- The table `CROCKFORD`. -/
def crockford (d : Nat) : UInt8 := (asc "0123456789ABCDEFGHJKMNPQRSTVWXYZ").getD d 0

/-- `inc80`: from the last byte to the first, until one does not come to zero. Also whether all of them did. -/
def inc80 : Bytes → Bytes × Bool
  | [] => ([], true)
  | b :: bs =>
    if (inc80 bs).2 then ((b + 1) :: (inc80 bs).1, b + 1 == 0) else (b :: (inc80 bs).1, false)

/-- `k` characters of the time stamp, the last one first. -/
def timeChars : Nat → UInt64 → Bytes
  | 0, _ => []
  | k + 1, t => timeChars k (t >>> 5) ++ [crockford (t &&& 0x1F).toNat]

/-- `k` characters of the random part; five bits of the high word come down in each round. -/
def randChars : Nat → UInt64 → UInt64 → Bytes
  | 0, _, _ => []
  | k + 1, lo, hi =>
    randChars k (lo >>> 5 ||| (hi &&& 0x1F) <<< 59) (hi >>> 5) ++ [crockford (lo &&& 0x1F).toNat]

abbrev Rand := { r : Bytes // r.length = 10 }

def encode (ms : UInt64) (r : Rand) : Bytes :=
  timeChars 10 (ms &&& 0xFFFFFFFFFFFF) ++
    randChars 16 (UInt64.ofNat (getBE (r.1.drop 2))) (UInt64.ofNat (getBE (r.1.take 2)))

theorem length_inc80 (bs : Bytes) : (inc80 bs).1.length = bs.length := by
  induction bs with
  | nil => rfl
  | cons b bs ih =>
    unfold inc80
    split <;> simp [ih]

/-- `g_last_ms` and `g_last_rand`, and what the threads that are on their way to the lock read. -/
structure Generator where
  lastMs : UInt64
  lastRand : Rand
  reading : Nat → Option UInt64

/-- A thread reads the clock; a thread has the lock, with what `read_random` gives it if it is asked. -/
inductive UlidEvent where
  | clock (i : Nat) (ms : UInt64)
  | locked (i : Nat) (random : Option Rand)

/-- The random part: counted up within the millisecond, otherwise what `read_random` gave. -/
def Generator.draw (g : Generator) (ms : UInt64) (random : Option Rand) : Option Rand :=
  if ms = g.lastMs then some ⟨(inc80 g.lastRand.1).1, (length_inc80 _).trans g.lastRand.2⟩ else random

/-- One event, and the string that is returned. -/
def Generator.step (g : Generator) : UlidEvent → Generator × Option Bytes
  | .clock i ms => ({ g with reading := Function.update g.reading i (some ms) }, none)
  | .locked i random =>
    let done := Function.update g.reading i none
    match g.reading i with
    | none => (g, none)
    | some ms =>
      match g.draw ms random with
      | none => ({ g with reading := done }, none)
      | some r => (⟨ms, r, done⟩, some (encode ms r))

def Generator.run (g : Generator) : List UlidEvent → List Bytes
  | [] => []
  | e :: es => (g.step e).2.toList ++ (g.step e).1.run es

def Generator.start : Generator := ⟨0, ⟨List.replicate 10 0, rfl⟩, fun _ => none⟩

/-- Who has the lock read a clock below `2 ^ 48`, the number does not wrap, and no later reading came first. -/
def Generator.InTurn (g : Generator) : UlidEvent → Prop
  | .clock _ _ => True
  | .locked i _ => ∀ ms, g.reading i = some ms →
    ms.toNat < 2 ^ 48 ∧ (ms = g.lastMs → (inc80 g.lastRand.1).2 = false) ∧ g.lastMs ≤ ms

def Generator.Meets (g : Generator) : List UlidEvent → Prop
  | [] => True
  | e :: es => g.InTurn e ∧ (g.step e).1.Meets es

/-! ## Characters and numbers -/

/-- The lowest `k` digits of a number, in base 32. -/
def base32 : Nat → Nat → Bytes
  | 0, _ => []
  | k + 1, v => base32 k (v / 32) ++ [crockford (v % 32)]

theorem crockford_lt_iff : ∀ a < 32, ∀ b < 32, (crockford a < crockford b ↔ a < b) := by decide +kernel

theorem length_base32 (k v : Nat) : (base32 k v).length = k := by
  induction k generalizing v with
  | zero => rfl
  | succ k ih => rw [base32, length_append, ih, length_singleton]

theorem base32_append (j k u : Nat) {v : Nat} (hv : v < 32 ^ k) :
    base32 j u ++ base32 k v = base32 (j + k) (u * 32 ^ k + v) := by
  induction k generalizing v with
  | zero =>
    obtain rfl : v = 0 := Nat.lt_one_iff.mp hv
    simp [base32]
  | succ k ih =>
    rw [Nat.pow_succ] at hv
    have hdiv : (u * 32 ^ (k + 1) + v) / 32 = u * 32 ^ k + v / 32 := by
      rw [Nat.pow_succ, ← Nat.mul_assoc]
      omega
    have hmod : (u * 32 ^ (k + 1) + v) % 32 = v % 32 := by
      rw [Nat.pow_succ, ← Nat.mul_assoc]
      omega
    rw [base32, ← append_assoc, ih (by omega), ← Nat.add_assoc, base32, hdiv, hmod]

/-- Strings of one length are compared at the first place where they differ. -/
theorem concat_lt_concat_iff {l m : Bytes} (hlen : l.length = m.length) (c d : UInt8) :
    l ++ [c] < m ++ [d] ↔ l < m ∨ l = m ∧ c < d := by
  induction l generalizing m with
  | nil =>
    obtain rfl := length_eq_zero_iff.mp hlen.symm
    simp [cons_lt_cons_iff]
  | cons a l ih =>
    obtain ⟨b, m, rfl⟩ := exists_cons_of_length_eq_add_one hlen.symm
    rw [cons_append, cons_append, cons_lt_cons_iff, cons_lt_cons_iff,
      ih (Nat.succ.inj hlen), List.cons.injEq]
    tauto

/-- Numbers of `k` digits are ordered as their texts are. -/
theorem base32_lt_iff {k u v : Nat} (hu : u < 32 ^ k) (hv : v < 32 ^ k) : base32 k u < base32 k v ↔ u < v := by
  induction k generalizing u v with
  | zero =>
    rw [Nat.pow_zero] at hu hv
    simp only [base32, List.lt_irrefl, false_iff]
    omega
  | succ k ih =>
    rw [Nat.pow_succ] at hu hv
    have hu' : u / 32 < 32 ^ k := by omega
    have hv' : v / 32 < 32 ^ k := by omega
    have heq : base32 k (u / 32) = base32 k (v / 32) ↔ u / 32 = v / 32 := by
      refine ⟨fun h => ?_, fun h => by rw [h]⟩
      have h₁ := (ih hu' hv').not.mp (h ▸ List.lt_irrefl _)
      have h₂ := (ih hv' hu').not.mp (h ▸ List.lt_irrefl _)
      omega
    have hdigit := crockford_lt_iff (u % 32) (Nat.mod_lt _ (by decide)) (v % 32) (Nat.mod_lt _ (by decide))
    rw [base32, base32, concat_lt_concat_iff (by rw [length_base32, length_base32]), ih hu' hv', heq, hdigit]
    omega

theorem low_five (t : UInt64) : (t &&& 0x1F).toNat = t.toNat % 32 ∧ (t >>> 5).toNat = t.toNat / 32 :=
  ⟨Nat.and_two_pow_sub_one_eq_mod t.toNat 5, Nat.shiftRight_eq_div_pow t.toNat 5⟩

theorem timeChars_eq (k : Nat) (t : UInt64) : timeChars k t = base32 k t.toNat := by
  induction k generalizing t with
  | zero => rfl
  | succ k ih => rw [timeChars, base32, ih, (low_five t).1, (low_five t).2]

/-- One round takes five bits off the number that the two words make up. -/
theorem randChars_eq (k : Nat) (lo hi : UInt64) : randChars k lo hi = base32 k (hi.toNat * 2 ^ 64 + lo.toNat) := by
  induction k generalizing lo hi with
  | zero => rfl
  | succ k ih =>
    have hlo := lo.toNat_lt
    have hcarry : ((hi &&& 0x1F) <<< 59).toNat = (hi.toNat % 32) <<< 59 := by
      rw [UInt64.toNat_shiftLeft, (low_five hi).1, Nat.mod_eq_of_lt]
      · rfl
      · show (hi.toNat % 32) <<< 59 < 2 ^ 64
        rw [Nat.shiftLeft_eq]
        omega
    have hword : (lo >>> 5 ||| (hi &&& 0x1F) <<< 59).toNat = hi.toNat % 32 * 2 ^ 59 + lo.toNat / 32 := by
      rw [UInt64.toNat_or, hcarry, (low_five lo).2, Nat.or_comm, ← Nat.shiftLeft_add_eq_or_of_lt (by omega),
        Nat.shiftLeft_eq]
    have hdiv : hi.toNat / 32 * 2 ^ 64 + (hi.toNat % 32 * 2 ^ 59 + lo.toNat / 32) =
        (hi.toNat * 2 ^ 64 + lo.toNat) / 32 := by omega
    have hmod : lo.toNat % 32 = (hi.toNat * 2 ^ 64 + lo.toNat) % 32 := by omega
    rw [randChars, base32, ih, hword, (low_five hi).2, (low_five lo).1, hdiv, hmod]

/-! ## The two parts as one number -/

/-- Counting up, as long as it does not wrap. -/
theorem getBE_inc80 (bs : Bytes) :
    getBE (inc80 bs).1 + (if (inc80 bs).2 then 256 ^ bs.length else 0) = getBE bs + 1 := by
  induction bs with
  | nil => rfl
  | cons b bs ih =>
    have hb : (b + 1).toNat + (if b + 1 == 0 then 256 else 0) = b.toNat + 1 :=
      forall_byte (P := fun b => (b + 1).toNat + (if b + 1 == 0 then 256 else 0) = b.toNat + 1) (by decide +kernel) b
    have hlen := length_inc80 bs
    unfold inc80
    split
    · next hcarry =>
      rw [if_pos hcarry] at ih
      rw [getBE_cons, getBE_cons, hlen, length_cons, Nat.pow_succ]
      dsimp only
      split at hb
      · next h0 => rw [if_pos h0]; nlinarith
      · next h0 => rw [if_neg h0]; nlinarith
    · next hcarry =>
      rw [if_neg hcarry] at ih
      rw [getBE_cons, getBE_cons, hlen, if_neg Bool.false_ne_true]
      omega

theorem getBE_rand (r : Rand) : getBE r.1 < 2 ^ 80 := by
  have hlt := getBE_lt r.1
  rwa [r.2] at hlt

theorem encode_eq {t : UInt64} (ht : t.toNat < 2 ^ 48) (r : Rand) :
    encode t r = base32 26 (t.toNat * 2 ^ 80 + getBE r.1) := by
  have hmask : (t &&& 0xFFFFFFFFFFFF).toNat = t.toNat :=
    (Nat.and_two_pow_sub_one_eq_mod t.toNat 48).trans (Nat.mod_eq_of_lt ht)
  have hwords : (UInt64.ofNat (getBE (r.1.take 2))).toNat * 2 ^ 64 + (UInt64.ofNat (getBE (r.1.drop 2))).toNat =
      getBE r.1 := by
    have htake := getBE_lt (r.1.take 2)
    have hdrop := getBE_lt (r.1.drop 2)
    have happend := getBE_append (r.1.take 2) (r.1.drop 2)
    rw [take_append_drop] at happend
    simp only [length_take, length_drop, r.2] at htake hdrop happend
    change _ < 2 ^ 16 at htake
    change _ = _ * 2 ^ 64 + _ at happend
    rw [UInt64.toNat_ofNat', UInt64.toNat_ofNat', Nat.mod_eq_of_lt (by omega), Nat.mod_eq_of_lt (by omega), happend]
  rw [encode, timeChars_eq, randChars_eq, hwords, hmask]
  exact base32_append 10 16 t.toNat (getBE_rand r)

/-! ## Order -/

variable {t t' : UInt64} {r r' : Rand}

/-- The strings are ordered as the pairs are. -/
theorem encode_lt_iff (ht : t.toNat < 2 ^ 48) (ht' : t'.toNat < 2 ^ 48) :
    encode t r < encode t' r' ↔ t < t' ∨ t = t' ∧ getBE r.1 < getBE r'.1 := by
  have hr := getBE_rand r
  have hr' := getBE_rand r'
  rw [encode_eq ht, encode_eq ht', base32_lt_iff (by omega) (by omega), UInt64.lt_iff_toNat_lt, ← UInt64.toNat_inj]
  omega

theorem encode_inj (ht : t.toNat < 2 ^ 48) (ht' : t'.toNat < 2 ^ 48) (h : encode t r = encode t' r') :
    t = t' ∧ r = r' := by
  have h₁ := (encode_lt_iff ht ht').not.mp (show ¬ encode t r < encode t' r' from h ▸ List.lt_irrefl _)
  have h₂ := (encode_lt_iff ht' ht).not.mp (show ¬ encode t' r' < encode t r from h ▸ List.lt_irrefl _)
  rw [UInt64.lt_iff_toNat_lt, ← UInt64.toNat_inj] at h₁ h₂
  refine ⟨UInt64.toNat_inj.mp (by omega), Subtype.ext ?_⟩
  rw [← putBE_getBE r.1, ← putBE_getBE r'.1, r.2, r'.2, show getBE r.1 = getBE r'.1 by omega]

theorem encode_draw_lt {g : Generator} (hlast : g.lastMs.toNat < 2 ^ 48) {ms : UInt64} (hms : ms.toNat < 2 ^ 48)
    (hwrap : ms = g.lastMs → (inc80 g.lastRand.1).2 = false) (hle : g.lastMs ≤ ms) {random : Option Rand}
    (hdraw : g.draw ms random = some r) : encode g.lastMs g.lastRand < encode ms r := by
  rw [encode_lt_iff hlast hms]
  unfold Generator.draw at hdraw
  split at hdraw
  · next hsame =>
    have hinc := getBE_inc80 g.lastRand.1
    rw [hwrap hsame, if_neg (by decide)] at hinc
    obtain rfl := Option.some.inj hdraw
    exact .inr ⟨hsame.symm, by show _ < getBE (inc80 _).1; omega⟩
  · next hnew => exact .inl (UInt64.lt_of_le_of_ne hle (Ne.symm hnew))

/-- What a thread in turn returns is behind all that was returned. -/
theorem step_lt {g : Generator} (hlast : g.lastMs.toNat < 2 ^ 48) {e : UlidEvent} (hturn : g.InTurn e) :
    (g.step e).1.lastMs.toNat < 2 ^ 48 ∧
      ((g.step e).2 = none ∧ (g.step e).1.lastMs = g.lastMs ∧ (g.step e).1.lastRand = g.lastRand ∨
        (g.step e).2 = some (encode (g.step e).1.lastMs (g.step e).1.lastRand) ∧
          encode g.lastMs g.lastRand < encode (g.step e).1.lastMs (g.step e).1.lastRand) := by
  cases e with
  | clock i ms => exact ⟨hlast, .inl ⟨rfl, rfl, rfl⟩⟩
  | locked i random =>
    dsimp only [Generator.step]
    rcases hread : g.reading i with _ | ms
    · exact ⟨hlast, .inl ⟨rfl, rfl, rfl⟩⟩
    obtain ⟨hms, hwrap, hle⟩ := hturn ms hread
    dsimp only
    rcases hdraw : g.draw ms random with _ | r
    · exact ⟨hlast, .inl ⟨rfl, rfl, rfl⟩⟩
    · exact ⟨hms, .inr ⟨rfl, encode_draw_lt hlast hms hwrap hle hdraw⟩⟩

theorem run_increasing {es : List UlidEvent} {g : Generator} (hlast : g.lastMs.toNat < 2 ^ 48)
    (h : g.Meets es) : (g.run es).Pairwise (· < ·) ∧ ∀ s ∈ g.run es, encode g.lastMs g.lastRand < s := by
  induction es generalizing g with
  | nil => exact ⟨.nil, fun s hs => absurd hs not_mem_nil⟩
  | cons e es ih =>
    obtain ⟨hnext, hstep⟩ := step_lt hlast h.1
    obtain ⟨hsorted, habove⟩ := ih hnext h.2
    rw [Generator.run]
    rcases hstep with ⟨hnone, hms, hrand⟩ | ⟨hsome, hlt⟩
    · rw [hms, hrand] at habove
      rw [hnone]
      exact ⟨hsorted, habove⟩
    · rw [hsome]
      exact ⟨pairwise_cons.mpr ⟨habove, hsorted⟩,
        forall_mem_cons.mpr ⟨hlt, fun s hs => List.lt_trans hlt (habove s hs)⟩⟩

/-- **In the order of the lock the strings increase if every thread that has it read the clock no earlier than
the one before; and the encoding keeps the order of the pairs and tells them apart.** -/
theorem ulids_increasing (es : List UlidEvent) (h : Generator.start.Meets es) :
    (Generator.start.run es).Pairwise (· < ·) ∧
      ∀ (t t' : UInt64) (r r' : Rand), t.toNat < 2 ^ 48 → t'.toNat < 2 ^ 48 →
        (encode t r < encode t' r' ↔ t < t' ∨ t = t' ∧ getBE r.1 < getBE r'.1) ∧
        (encode t r = encode t' r' → t = t' ∧ r = r') :=
  ⟨(run_increasing (g := Generator.start) (show 0 < 2 ^ 48 by decide) h).1,
    fun _ _ _ _ ht ht' => ⟨encode_lt_iff ht ht', encode_inj ht ht'⟩⟩

def zeroRand : Rand := ⟨List.replicate 10 0, rfl⟩

def sameMillisecond : List UlidEvent :=
  [.clock 0 5, .clock 1 5, .locked 1 (some zeroRand), .locked 0 none]

theorem sameMillisecond_increasing :
    Generator.start.run sameMillisecond =
        [asc "00000000050000000000000000", asc "00000000050000000000000001"] ∧
      (Generator.start.run sameMillisecond).Pairwise (· < ·) := by
  have hmeets : Generator.start.Meets sameMillisecond := by
    refine ⟨trivial, trivial, ?_, ?_, trivial⟩
    all_goals
      intro ms hread
      obtain rfl : 5 = ms := Option.some.inj hread
      decide
  exact ⟨by decide +kernel, (ulids_increasing _ hmeets).1⟩

def UlidEvent.reading : UlidEvent → Option UInt64
  | .clock _ ms => some ms
  | .locked _ _ => none

/-- A thread reads the clock and is overtaken on its way to the lock. -/
def overtaken : List UlidEvent :=
  [.clock 0 5, .clock 1 6, .locked 1 (some zeroRand), .locked 0 (some zeroRand)]

theorem overtaken_not_increasing :
    (overtaken.filterMap UlidEvent.reading).Pairwise (· ≤ ·) ∧
      Generator.start.run overtaken =
        [asc "00000000060000000000000000", asc "00000000050000000000000000"] ∧
      ¬ (Generator.start.run overtaken).Pairwise (· < ·) := by
  have hrun : Generator.start.run overtaken =
      [asc "00000000060000000000000000", asc "00000000050000000000000000"] := by decide +kernel
  refine ⟨by decide, hrun, ?_⟩
  rw [hrun]
  decide +kernel

end Packetsonde.Ids
