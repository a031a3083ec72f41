import Mathlib.Data.List.Basic
import Mathlib.Data.Nat.Bitwise
import Mathlib.Tactic

/-!
# Byte strings

Byte lists, ASCII literals, fixed-width slices, and integers written and read one byte at a time
with shifts, the way wire codecs do it: big-endian (`putBE` / `getBE`) and little-endian
(`putLE` / `getLE`).

`getBE_putBE` is the codec's round trip: a `w`-byte big-endian rendering of `n` reads back as
`n % 256 ^ w`.
-/

namespace Packetsonde.Lib

open List hiding Vector

abbrev Bytes := List UInt8

def asc (s : String) : Bytes :=
  s.toByteArray.data.toList

theorem nul_not_mem_nil : (0 : UInt8) ∉ ([] : Bytes) := not_mem_nil

instance lawfulBEq_bytes : LawfulBEq (List UInt8) := inferInstance

/-! The sizes of arrays, named so that every module means the same proof. -/

instance neZero16 : NeZero 16 := ⟨by decide⟩

instance neZero24 : NeZero 24 := ⟨by decide⟩

instance neZero32 : NeZero 32 := ⟨by decide⟩

instance neZero64 : NeZero 64 := ⟨by decide⟩

instance neZero128 : NeZero 128 := ⟨by decide⟩

instance neZero256 : NeZero 256 := ⟨by decide⟩

instance neZero512 : NeZero 512 := ⟨by decide⟩

/-- What holds of the 256 byte values holds of every byte. -/
theorem forall_byte {P : UInt8 → Prop} (h : ∀ n < 256, P (UInt8.ofNat n)) (c : UInt8) : P c := by
  have hc := h c.toNat c.toNat_lt
  rwa [UInt8.ofNat_toNat] at hc

/-- The `n` bytes of `buf` starting at `off`; positions past the end read as zero. -/
def bytesAt (buf : Bytes) (off n : Nat) : Vector UInt8 n :=
  Vector.ofFn fun i => buf.getD (off + i) 0

variable {n w : Nat}

theorem bytesAt_append_left (pre : Bytes) (v : Vector UInt8 n) (post : Bytes) :
    bytesAt (pre ++ v.toList ++ post) pre.length n = v := by
  ext i hi
  simp [bytesAt, getElem?_append_left, getElem?_append_right]

/-! ## Big-endian integers -/

/-- Byte `i` of a `w`-byte big-endian rendering is `(n >> 8 * (w - 1 - i)) & 0xff`. -/
def putBE (w n : Nat) : Bytes :=
  (List.range w).map fun i => UInt8.ofNat (n >>> (8 * (w - 1 - i)))

/-- `v = (v << 8) | byte`, byte after byte. -/
def getBE (bs : Bytes) : Nat :=
  bs.foldl (fun v b => v <<< 8 ||| b.toNat) 0

@[simp] theorem putBE_length (w n : Nat) : (putBE w n).length = w := by
  simp [putBE]

theorem shift_or_byte (v : Nat) (b : UInt8) : v <<< 8 ||| b.toNat = v * 256 + b.toNat := by
  rw [← Nat.shiftLeft_add_eq_or_of_lt (by simpa using b.toNat_lt), Nat.shiftLeft_eq]

theorem putBE_succ (w n : Nat) :
    putBE (w + 1) n = putBE w (n / 256) ++ [UInt8.ofNat n] := by
  simp only [putBE, range_succ, map_append, map_cons, map_nil,
    Nat.add_sub_cancel, Nat.sub_self, Nat.mul_zero, Nat.shiftRight_zero]
  congr 1
  apply map_congr_left
  intro i hi
  rw [mem_range] at hi
  rw [show 8 * (w - i) = 8 + 8 * (w - 1 - i) from by omega, Nat.shiftRight_add,
    Nat.shiftRight_eq_div_pow n 8]

theorem getBE_concat (bs : Bytes) (b : UInt8) : getBE (bs ++ [b]) = getBE bs * 256 + b.toNat := by
  rw [getBE, foldl_append, foldl_cons, foldl_nil, shift_or_byte]
  rfl

/-- A big-endian rendering reads back as the value modulo the width. Induction on the width,
peeling the least significant byte. -/
theorem getBE_putBE (w n : Nat) : getBE (putBE w n) = n % 256 ^ w := by
  induction w generalizing n with
  | zero => simp [putBE, getBE, Nat.mod_one]
  | succ w ih =>
    rw [putBE_succ, getBE_concat, ih, UInt8.toNat_ofNat', Nat.pow_succ 256, Nat.mul_comm (256 ^ w) 256, Nat.mod_mul]
    omega

theorem getBE_putBE_of_lt (h : n < 256 ^ w) : getBE (putBE w n) = n := by
  rw [getBE_putBE, Nat.mod_eq_of_lt h]

theorem getBE_append (bs cs : Bytes) : getBE (bs ++ cs) = getBE bs * 256 ^ cs.length + getBE cs := by
  induction cs using List.reverseRecOn with
  | nil => simp [getBE]
  | append_singleton cs c ih =>
    rw [← append_assoc, getBE_concat, getBE_concat, ih, length_append, length_singleton]
    ring

theorem getBE_cons (b : UInt8) (bs : Bytes) : getBE (b :: bs) = b.toNat * 256 ^ bs.length + getBE bs := by
  have hone := getBE_append [b] bs
  rwa [show getBE [b] = b.toNat from (getBE_concat [] b).trans (Nat.zero_add _)] at hone

/-- Bytes are the rendering of what they stand for. -/
theorem putBE_getBE (bs : Bytes) : putBE bs.length (getBE bs) = bs := by
  induction bs using List.reverseRecOn with
  | nil => rfl
  | append_singleton bs b ih =>
    have hb := b.toNat_lt
    have hdiv : (getBE bs * 256 + b.toNat) / 256 = getBE bs := by omega
    rw [length_append, length_singleton, getBE_concat, putBE_succ, hdiv, ih]
    congr 2
    apply UInt8.toNat_inj.mp
    rw [UInt8.toNat_ofNat']
    omega

theorem getBE_lt (bs : Bytes) : getBE bs < 256 ^ bs.length := by
  have h := getBE_putBE bs.length (getBE bs)
  rw [putBE_getBE] at h
  rw [h]
  exact Nat.mod_lt _ (by positivity)

/-- A `w`-byte integer reads back from wherever in a buffer it was written. -/
theorem getBE_bytesAt_append (pre post : Bytes) (h : n < 256 ^ w) :
    getBE (bytesAt (pre ++ putBE w n ++ post) pre.length w).toList = n := by
  have hslice := bytesAt_append_left pre (⟨(putBE w n).toArray, by simp⟩ : Vector UInt8 w) post
  have hbytes : (bytesAt (pre ++ putBE w n ++ post) pre.length w).toList = putBE w n := by
    simpa using congrArg Vector.toList hslice
  rw [hbytes, getBE_putBE_of_lt h]

/-! ## Little-endian integers -/

/-- Byte `i` of a `w`-byte little-endian rendering is `(n >> 8 * i) & 0xff`. -/
def putLE : Nat → Nat → Bytes
  | 0, _ => []
  | w + 1, n => UInt8.ofNat n :: putLE w (n >>> 8)

/-- `bs[0] | bs[1] << 8 | …`. -/
def getLE : Bytes → Nat
  | [] => 0
  | b :: bs => b.toNat ||| getLE bs <<< 8

@[simp] theorem length_putLE (w n : Nat) : (putLE w n).length = w := by
  induction w generalizing n with
  | zero => rfl
  | succ w ih => rw [putLE, length_cons, ih]

/-- A little-endian rendering reads back as the value modulo the width. -/
theorem getLE_putLE (w n : Nat) : getLE (putLE w n) = n % 256 ^ w := by
  induction w generalizing n with
  | zero => rw [Nat.pow_zero, Nat.mod_one]; rfl
  | succ w ih =>
    have hsplit : n % 256 ^ (w + 1) = n % 256 + 256 * (n / 256 % 256 ^ w) := by
      rw [Nat.pow_succ, Nat.mul_comm (256 ^ w) 256, Nat.mod_mul]
    rw [putLE, getLE, ih, Nat.or_comm, shift_or_byte, Nat.shiftRight_eq_div_pow, UInt8.toNat_ofNat',
      hsplit, show 2 ^ 8 = 256 by decide]
    omega

theorem getLE_putLE_of_lt (h : n < 256 ^ w) : getLE (putLE w n) = n := by
  rw [getLE_putLE, Nat.mod_eq_of_lt h]

end Packetsonde.Lib
