import Packetsonde.Lib.Bytes

/-!
# A buffer written at an offset

A message built in an array: bytes are put behind what is there, room for a header is left and filled
in later, and a part that turns out to be empty is given up again. `Buffer` is the array with the
offset, and says whether every write was inside. `b.Has size xs` says that all were and that `xs` is
what stands in front of the offset; there is a rule for each way to write.
-/

namespace Packetsonde.Lib

open List

structure Buffer where
  mem : Bytes
  off : Nat
  inside : Bool := true
  deriving DecidableEq, Repr

namespace Buffer

/-- Write over what stands at `i`. -/
def patch (b : Buffer) (i : Nat) (bs : Bytes) : Buffer :=
  { b with
    mem := b.mem.take i ++ bs ++ b.mem.drop (i + bs.length)
    inside := b.inside && i + bs.length ≤ b.mem.length }

def put (b : Buffer) (bs : Bytes) : Buffer :=
  { b.patch b.off bs with off := b.off + bs.length }

def seek (b : Buffer) (off : Nat) : Buffer := { b with off }

@[simp] theorem off_put (b : Buffer) (bs : Bytes) : (b.put bs).off = b.off + bs.length := rfl

@[simp] theorem off_seek (b : Buffer) (off : Nat) : (b.seek off).off = off := rfl

/-- What stands in front of the offset, unless a write went beyond the array. -/
def contents (b : Buffer) : Option Bytes :=
  if b.inside then some (b.mem.take b.off) else none

structure Has (b : Buffer) (size : Nat) (xs : Bytes) : Prop where
  inside : b.inside = true
  length : b.mem.length = size
  off : b.off = xs.length
  mem : ∃ rest, b.mem = xs ++ rest

namespace Has

variable {b : Buffer} {size : Nat} {xs ys zs : Bytes}

theorem le (h : b.Has size xs) : xs.length ≤ size := by
  obtain ⟨rest, hmem⟩ := h.mem
  rw [← h.length, hmem, length_append]
  exact Nat.le_add_right _ _

theorem contents (h : b.Has size xs) : b.contents = some xs := by
  obtain ⟨rest, hmem⟩ := h.mem
  rw [Buffer.contents, if_pos h.inside, hmem, h.off, take_left]

/-- What is overwritten stands in front of the offset. -/
theorem patch (h : b.Has size (xs ++ ys ++ zs)) (bs : Bytes) {i : Nat} (hi : i = xs.length)
    (hlen : bs.length = ys.length) : (b.patch i bs).Has size (xs ++ bs ++ zs) := by
  subst hi
  obtain ⟨rest, hmem⟩ := h.mem
  have hdrop : b.mem.drop (xs.length + bs.length) = zs ++ rest := by
    rw [hmem, append_assoc (xs ++ ys), drop_left' (by rw [length_append, hlen])]
  have htake : b.mem.take xs.length = xs := by
    rw [hmem, append_assoc, append_assoc, take_left]
  have hlength := h.length
  have hoff := h.off
  rw [hmem] at hlength
  simp only [length_append] at hlength hoff
  refine ⟨?_, ?_, ?_, rest, ?_⟩
  · simp only [Buffer.patch, h.inside, h.length, Bool.true_and, decide_eq_true_eq]
    omega
  · simp only [Buffer.patch, htake, hdrop, length_append]
    omega
  · simp only [Buffer.patch, hoff, length_append]
    omega
  · simp only [Buffer.patch, htake, hdrop, append_assoc]

/-- Moving on takes over what was in the array. -/
theorem skip (h : b.Has size xs) {n : Nat} (hroom : b.off + n ≤ size) :
    ∃ ys, ys.length = n ∧ (b.seek (b.off + n)).Has size (xs ++ ys) := by
  obtain ⟨rest, hmem⟩ := h.mem
  have hlength := h.length
  rw [hmem, length_append, ← h.off] at hlength
  have hlen : (rest.take n).length = n := by
    rw [length_take]
    omega
  refine ⟨rest.take n, hlen, h.inside, h.length, ?_, rest.drop n, ?_⟩
  · rw [length_append, hlen, ← h.off]
    rfl
  · rw [append_assoc, take_append_drop]
    exact hmem

theorem back (h : b.Has size (xs ++ ys)) {i : Nat} (hi : i = xs.length) : (b.seek i).Has size xs := by
  obtain ⟨rest, hmem⟩ := h.mem
  exact ⟨h.inside, h.length, hi, ys ++ rest, hmem.trans (append_assoc _ _ _)⟩

theorem put (h : b.Has size xs) (bs : Bytes) (hroom : b.off + bs.length ≤ size) :
    (b.put bs).Has size (xs ++ bs) := by
  obtain ⟨ys, hlen, hskip⟩ := h.skip hroom
  rw [← append_nil (xs ++ ys)] at hskip
  have hpatch := hskip.patch bs h.off hlen.symm
  rwa [append_nil] at hpatch

end Has

end Buffer

end Packetsonde.Lib
