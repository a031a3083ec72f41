import Packetsonde.Lib.Chars

/-!
# Appending with `snprintf`

`o += snprintf(out + o, cap - o, "%s", text)`: the text is cut to the room that is left and ends
with a NUL, while `o` advances by its whole length. Once `o` has passed `cap` the room `cap - o`
wraps, and the next call writes behind the array.

An `Appender` is the array, the offset and the writes so far. `Appended a cap t` says that the texts
appended add up to `t`: the array then holds as much of `t` as fits (`Appended.text`), and one more
call stays in the array exactly if `t` is no longer than it (`Appended.inBounds_append`).
-/

namespace Packetsonde.Lib

open List

/-- `a - b` on `size_t`. -/
def sizeSub (a b : Nat) : Nat := if b ≤ a then a - b else 2 ^ 64 + a - b

theorem sizeSub_of_le {a b : Nat} (h : b ≤ a) : sizeSub a b = a - b := if_pos h

theorem sizeSub_of_lt {a b : Nat} (h : a < b) : sizeSub a b = 2 ^ 64 + a - b :=
  if_neg (Nat.not_le.mpr h)

/-- `bs` is written at `off`; what falls behind the array does not show in it. -/
def overwrite (mem : Bytes) (off : Nat) (bs : Bytes) : Bytes :=
  mem.take off ++ bs.take (mem.length - off) ++ mem.drop (off + bs.length)

theorem length_overwrite (mem : Bytes) (off : Nat) (bs : Bytes) :
    (overwrite mem off bs).length = mem.length := by
  unfold overwrite
  rw [length_append, length_append, length_take, length_take,
    length_drop]
  omega

variable {mem : Bytes} {off : Nat}

theorem overwrite_behind (h : mem.length ≤ off) (bs : Bytes) :
    overwrite mem off bs = mem := by
  unfold overwrite
  rw [take_of_length_le h, Nat.sub_eq_zero_of_le h, take_zero,
    drop_of_length_le (by omega), append_nil, append_nil]

theorem overwrite_of_le {bs : Bytes} (h : off + bs.length ≤ mem.length) :
    overwrite mem off bs = mem.take off ++ bs ++ mem.drop (off + bs.length) := by
  unfold overwrite
  rw [take_of_length_le (show bs.length ≤ mem.length - off by omega)]

/-- An array that is filled from the left: its bytes, the offset, and the writes as offset and
length. -/
structure Appender where
  mem : Bytes
  off : Nat
  writes : List (Nat × Nat)
  deriving DecidableEq, Repr

namespace Appender

/-- `size_t o = 0` before an array with some bytes in it. -/
def start (mem : Bytes) : Appender := ⟨mem, 0, []⟩

/-- `o += snprintf(out + o, cap - o, "%s", text)`. -/
def append (a : Appender) (text : Bytes) : Appender :=
  let size := sizeSub a.mem.length a.off
  if size = 0 then { a with off := a.off + text.length }
  else
    let put := text.take (size - 1) ++ [0]
    { mem := overwrite a.mem a.off put
      off := a.off + text.length
      writes := a.writes ++ [(a.off, put.length)] }

def InBounds (a : Appender) : Prop := ∀ w ∈ a.writes, w.1 + w.2 ≤ a.mem.length

@[simp] theorem append_off (a : Appender) (text : Bytes) :
    (a.append text).off = a.off + text.length := by
  unfold append
  dsimp only
  split <;> rfl

@[simp] theorem length_append_mem (a : Appender) (text : Bytes) :
    (a.append text).mem.length = a.mem.length := by
  unfold append
  dsimp only
  split
  · rfl
  · exact length_overwrite _ _ _

/-- A call whose room is what is left of the array stays in it. -/
theorem inBounds_append_of_le {a : Appender} (h : a.off ≤ a.mem.length) (text : Bytes) :
    (a.append text).InBounds ↔ a.InBounds := by
  unfold InBounds
  rw [length_append_mem]
  unfold append
  dsimp only
  rw [sizeSub_of_le h]
  split
  · exact Iff.rfl
  · rename_i hroom
    rw [forall_mem_append, forall_mem_singleton]
    apply and_iff_left
    rw [length_append, length_take]
    show a.off + (min (a.mem.length - a.off - 1) text.length + 1) ≤ a.mem.length
    omega

/-- Behind the end the room has wrapped, and something is written there. -/
theorem not_inBounds_append_of_lt {a : Appender} (h : a.mem.length < a.off)
    (hwrap : a.off < a.mem.length + 2 ^ 64) (text : Bytes) : ¬ (a.append text).InBounds := by
  unfold InBounds
  rw [length_append_mem]
  unfold append
  dsimp only
  rw [sizeSub_of_lt h, if_neg (by omega), forall_mem_append, forall_mem_singleton]
  rintro ⟨-, hlast⟩
  rw [length_append] at hlast
  change a.off + (_ + 1) ≤ a.mem.length at hlast
  omega

/-! ## What the array holds -/

/-- The texts appended so far add up to `t`. -/
structure Appended (a : Appender) (cap : Nat) (t : Bytes) : Prop where
  size : a.mem.length = cap
  off_eq : a.off = t.length
  text : t ≠ [] → ∃ rest, a.mem = t.take (cap - 1) ++ 0 :: rest

theorem appended_start (mem : Bytes) : (start mem).Appended mem.length [] :=
  ⟨rfl, rfl, fun h => absurd rfl h⟩

section Steps

variable {a : Appender} {cap : Nat} {t : Bytes}

variable (h : a.Appended cap t)

include h

/-- Up to the offset the array is the text, as long as there is room. -/
theorem Appended.take_mem (hlt : t.length < cap) :
    a.mem.take t.length = t := by
  rcases eq_or_ne t [] with rfl | hne
  · rfl
  · obtain ⟨rest, hmem⟩ := h.text hne
    rw [hmem, take_of_length_le (show t.length ≤ cap - 1 by omega), take_left]

theorem Appended.append (hcap : 0 < cap) (s : Bytes) :
    (a.append s).Appended cap (t ++ s) := by
  refine ⟨?_, ?_, fun hne => ?_⟩
  · rw [length_append_mem]
    exact h.size
  · rw [append_off, h.off_eq, length_append]
  · rcases Nat.lt_or_ge t.length cap with hroom | hfull
    · -- the room is what is left: the text and a NUL go behind what is there
      have hput : (s.take (cap - t.length - 1) ++ [(0 : UInt8)]).length + t.length ≤ cap := by
        rw [length_append, length_take, length_singleton]
        omega
      unfold Appender.append
      dsimp only
      rw [h.size, h.off_eq, sizeSub_of_le hroom.le, if_neg (by omega)]
      dsimp only
      rw [overwrite_of_le (by rw [h.size]; omega), h.take_mem hroom, take_append,
        take_of_length_le (show t.length ≤ cap - 1 by omega), ← append_assoc,
        append_assoc, show cap - 1 - t.length = cap - t.length - 1 by omega]
      exact ⟨_, rfl⟩
    · -- the array is full already and stays as it is
      have hmem : (a.append s).mem = a.mem := by
        unfold Appender.append
        dsimp only
        split
        · rfl
        · exact overwrite_behind (by rw [h.size, h.off_eq]; exact hfull) _
      have htne : t ≠ [] := by
        rintro rfl
        exact absurd hfull (by simp; omega)
      obtain ⟨rest, htext⟩ := h.text htne
      refine ⟨rest, ?_⟩
      rw [hmem, htext, take_append_of_le_length (by omega)]

/-- One more call stays in the array exactly if what is there is no longer than it. -/
theorem Appended.inBounds_append (hwrap : t.length < cap + 2 ^ 64)
    (s : Bytes) : (a.append s).InBounds ↔ a.InBounds ∧ t.length ≤ cap := by
  rcases Nat.lt_or_ge cap t.length with hlt | hle
  · have hnot := not_inBounds_append_of_lt (show a.mem.length < a.off by rw [h.size, h.off_eq]; omega)
      (show a.off < a.mem.length + 2 ^ 64 by rw [h.size, h.off_eq]; omega) s
    exact iff_of_false hnot fun hand => absurd hand.2 (Nat.not_le.mpr hlt)
  · rw [inBounds_append_of_le (by rw [h.size, h.off_eq]; exact hle), and_iff_left hle]

/-- The C string in the array. -/
theorem Appended.cstr_mem (hne : t ≠ []) (hnul : (0 : UInt8) ∉ t) :
    cstr a.mem = t.take (cap - 1) := by
  obtain ⟨rest, hmem⟩ := h.text hne
  unfold cstr
  rw [hmem, takeWhile_append_of_pos]
  · rw [takeWhile_cons_of_neg (by decide), append_nil]
  · intro c hc
    exact bne_iff_ne.mpr fun heq => hnul (heq ▸ mem_of_mem_take hc)

end Steps

/-! ## One text after the other -/

def appendAll (ts : List Bytes) (a : Appender) : Appender := ts.foldl append a

section All

variable {a : Appender} {cap : Nat} {t : Bytes}

theorem Appended.appendAll (h : a.Appended cap t) (hcap : 0 < cap) (ts : List Bytes) :
    (appendAll ts a).Appended cap (t ++ ts.flatten) := by
  induction ts generalizing a t with
  | nil => simpa [Appender.appendAll] using h
  | cons s ts ih =>
    have hrest := ih (h.append hcap s)
    rwa [append_assoc, ← flatten_cons] at hrest

/-- All calls stay in the array exactly if what is there before the last one is no longer than it. -/
theorem Appended.inBounds_appendAll (h : a.Appended cap t) (hcap : 0 < cap) (ts : List Bytes) (u : Bytes)
    (hwrap : (t ++ ts.flatten).length < cap + 2 ^ 64) :
    (Appender.appendAll (ts ++ [u]) a).InBounds ↔ a.InBounds ∧ (t ++ ts.flatten).length ≤ cap := by
  have hlast : Appender.appendAll (ts ++ [u]) a = (Appender.appendAll ts a).append u := foldl_concat ..
  rw [hlast, (h.appendAll hcap ts).inBounds_append hwrap]
  refine and_congr_left fun hle => ?_
  clear hlast hwrap
  induction ts generalizing a t with
  | nil => exact Iff.rfl
  | cons s ts ih =>
    have hflat : t ++ (s :: ts).flatten = t ++ s ++ ts.flatten := by
      rw [flatten_cons, append_assoc]
    rw [hflat] at hle
    have hshort : t.length ≤ cap := by
      rw [append_assoc, length_append] at hle
      omega
    exact (ih (h.append hcap s) hle).trans
      ((h.inBounds_append (by omega) s).trans (and_iff_left hshort))

end All

end Appender

end Packetsonde.Lib
