import Packetsonde.Lib.Bytes

/-!
# Base64

Three bytes are four characters of six bits each; a last group of one or two bytes is filled up
with zero bits and written with `=` in the free places. `decode` reads a `=` as a zero digit, so
what it returns is the encoded bytes and one zero byte for every `=` (`decode_encode`): taking the
padding off again is left to the caller, who can count it (`pad`).
-/

namespace Packetsonde.Lib.Base64

open List

def digit (n : Nat) : UInt8 :=
  UInt8.ofNat (if n < 26 then 65 + n else if n < 52 then 71 + n else if n < 62 then n - 4
    else if n = 62 then 43 else 47)

/-- The digit of a character, with `=` as a zero. -/
def digitOf (c : UInt8) : Option Nat :=
  if 65 ≤ c ∧ c ≤ 90 then some (c.toNat - 65)
  else if 97 ≤ c ∧ c ≤ 122 then some (c.toNat - 71)
  else if 48 ≤ c ∧ c ≤ 57 then some (c.toNat + 4)
  else if c = 43 then some 62
  else if c = 47 then some 63
  else if c = 61 then some 0
  else none

def encode : Bytes → Bytes
  | [] => []
  | [a] => [digit (a.toNat / 4), digit (a.toNat % 4 * 16), 61, 61]
  | [a, b] =>
    [digit (a.toNat / 4), digit (a.toNat % 4 * 16 + b.toNat / 16), digit (b.toNat % 16 * 4), 61]
  | a :: b :: c :: rest =>
    digit (a.toNat / 4) :: digit (a.toNat % 4 * 16 + b.toNat / 16) ::
      digit (b.toNat % 16 * 4 + c.toNat / 64) :: digit (c.toNat % 64) :: encode rest

def group (p q r s : Nat) : Bytes :=
  [UInt8.ofNat (p * 4 + q / 16), UInt8.ofNat (q % 16 * 16 + r / 4), UInt8.ofNat (r % 4 * 64 + s)]

def decode : Bytes → Option Bytes
  | [] => some []
  | c₁ :: c₂ :: c₃ :: c₄ :: rest => do
    let p ← digitOf c₁
    let q ← digitOf c₂
    let r ← digitOf c₃
    let s ← digitOf c₄
    let bytes ← decode rest
    some (group p q r s ++ bytes)
  | _ => none

/-- How many `=` the encoding of a string of the given length ends with. -/
def pad (len : Nat) : Nat := (3 - len % 3) % 3

/-! ## Digits -/

theorem digitOf_digit {n : Nat} (h : n < 64) : digitOf (digit n) = some n := by
  have hall : ∀ m < 64, digitOf (digit m) = some m := by decide
  exact hall n h

/-- A digit is printable and neither a quote, a backslash nor the padding character. -/
theorem digit_plain {n : Nat} (h : n < 64) :
    digit n ≠ 34 ∧ digit n ≠ 92 ∧ 0x20 ≤ digit n ∧ digit n ≠ 61 := by
  have hall : ∀ m < 64, digit m ≠ 34 ∧ digit m ≠ 92 ∧ 0x20 ≤ digit m ∧ digit m ≠ 61 := by decide
  exact hall n h

theorem ofNat_toNat_of_eq {a : UInt8} {n : Nat} (h : n = a.toNat) : UInt8.ofNat n = a := by
  rw [h]
  exact UInt8.ofNat_toNat

/-! ## The round trip -/

/-- Four digits of a full group give the three bytes back. -/
theorem group_bytes (a b c : UInt8) :
    group (a.toNat / 4) (a.toNat % 4 * 16 + b.toNat / 16) (b.toNat % 16 * 4 + c.toNat / 64)
      (c.toNat % 64) = [a, b, c] := by
  have ha := a.toNat_lt
  have hb := b.toNat_lt
  have hc := c.toNat_lt
  unfold group
  rw [ofNat_toNat_of_eq (a := a) (by omega), ofNat_toNat_of_eq (a := b) (by omega),
    ofNat_toNat_of_eq (a := c) (by omega)]

theorem decode_group {p q r s : Nat} (hp : p < 64) (hq : q < 64) (hr : r < 64) (hs : s < 64)
    (rest : Bytes) :
    decode (digit p :: digit q :: digit r :: digit s :: rest) =
      (decode rest).map (group p q r s ++ ·) := by
  rw [decode, digitOf_digit hp, digitOf_digit hq, digitOf_digit hr, digitOf_digit hs]
  cases decode rest with
  | none => rfl
  | some bytes => rfl

theorem decode_encode (bs : Bytes) :
    decode (encode bs) = some (bs ++ List.replicate (pad bs.length) 0) := by
  induction bs using encode.induct with
  | case1 => rfl
  | case2 a =>
    -- the two free places read as zeros, and so do the bytes they stand for
    have ha := a.toNat_lt
    have hgroup := group_bytes a 0 0
    have hdigit : digitOf 61 = some 0 := rfl
    unfold encode
    rw [decode, digitOf_digit (by omega), digitOf_digit (by omega), hdigit]
    change some (group (a.toNat / 4) (a.toNat % 4 * 16 + 0) 0 0 ++ []) = _
    rw [show group (a.toNat / 4) (a.toNat % 4 * 16 + 0) 0 0 = [a, 0, 0] from hgroup]
    rfl
  | case3 a b =>
    have ha := a.toNat_lt
    have hb := b.toNat_lt
    have hgroup := group_bytes a b 0
    have hdigit : digitOf 61 = some 0 := rfl
    unfold encode
    rw [decode, digitOf_digit (by omega), digitOf_digit (by omega), digitOf_digit (by omega),
      hdigit]
    change some (group (a.toNat / 4) (a.toNat % 4 * 16 + b.toNat / 16) (b.toNat % 16 * 4 + 0) 0 ++
      []) = _
    rw [show group _ _ (b.toNat % 16 * 4 + 0) 0 = [a, b, 0] from hgroup]
    rfl
  | case4 a b c rest ih =>
    have ha := a.toNat_lt
    have hb := b.toNat_lt
    have hc := c.toNat_lt
    have hpad : pad (a :: b :: c :: rest).length = pad rest.length := by
      unfold pad
      simp only [length_cons]
      omega
    rw [encode, decode_group (by omega) (by omega) (by omega) (by omega), ih, group_bytes, hpad]
    rfl

/-! ## The text -/

theorem encode_plain {bs : Bytes} {ch : UInt8} (h : ch ∈ encode bs) :
    ch ≠ 34 ∧ ch ≠ 92 ∧ 0x20 ≤ ch := by
  have hdigit : ∀ {n : Nat}, n < 64 → digit n ≠ 34 ∧ digit n ≠ 92 ∧ 0x20 ≤ digit n :=
    fun hn => ⟨(digit_plain hn).1, (digit_plain hn).2.1, (digit_plain hn).2.2.1⟩
  have hpad : (61 : UInt8) ≠ 34 ∧ (61 : UInt8) ≠ 92 ∧ 0x20 ≤ (61 : UInt8) := by decide
  induction bs using encode.induct with
  | case1 => simp [encode] at h
  | case2 a =>
    have ha := a.toNat_lt
    simp only [encode, mem_cons, not_mem_nil, or_false] at h
    rcases h with rfl | rfl | rfl | rfl
    · exact hdigit (by omega)
    · exact hdigit (by omega)
    · exact hpad
    · exact hpad
  | case3 a b =>
    have ha := a.toNat_lt
    have hb := b.toNat_lt
    simp only [encode, mem_cons, not_mem_nil, or_false] at h
    rcases h with rfl | rfl | rfl | rfl
    · exact hdigit (by omega)
    · exact hdigit (by omega)
    · exact hdigit (by omega)
    · exact hpad
  | case4 a b c rest ih =>
    have ha := a.toNat_lt
    have hb := b.toNat_lt
    have hc := c.toNat_lt
    simp only [encode, mem_cons] at h
    rcases h with rfl | rfl | rfl | rfl | h
    · exact hdigit (by omega)
    · exact hdigit (by omega)
    · exact hdigit (by omega)
    · exact hdigit (by omega)
    · exact ih h

theorem length_encode (bs : Bytes) : (encode bs).length = (bs.length + 2) / 3 * 4 := by
  induction bs using encode.induct with
  | case1 => rfl
  | case2 a => simp only [encode, length_cons, length_nil]
  | case3 a b => simp only [encode, length_cons, length_nil]
  | case4 a b c rest ih =>
    simp only [encode, length_cons, ih]
    omega

end Packetsonde.Lib.Base64
