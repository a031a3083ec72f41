import Packetsonde.Lib.Bytes

/-!
# Lines out of a stream

A reader that collects lines in a buffer of `cap` bytes: it reads a chunk into what is free, takes
the complete lines out and moves the rest to the front. A buffer that is full without a newline in
it is thrown away, so the reader does not get stuck; the rest of that line then looks like a line.

`feed` is one round of the reader as it is written, on a whole chunk. `pieces` does the same byte by
byte, and says what comes out without any chunks (`feed_eq_pieces`); what comes out is, for each
line of the stream, the part behind the last full buffer (`pieces_lines`, `lineTail`).
-/

namespace Packetsonde.Lib

open List

/-! ## Lines -/

/-- The lines that end in `s`, and what is behind the last of them; `cur` is the start of the first
line. -/
def splitFrom (cur : Bytes) : Bytes → List Bytes × Bytes
  | [] => ([], cur)
  | c :: rest =>
    if c = 10 then (cur :: (splitFrom [] rest).1, (splitFrom [] rest).2)
    else splitFrom (cur ++ [c]) rest

def lines (stream : Bytes) : List Bytes := (splitFrom [] stream).1

variable {cur buf : Bytes} {cap : Nat}

/-- What is before the first newline belongs to the line that is being read. -/
theorem splitFrom_append (h : (10 : UInt8) ∉ buf) (s : Bytes) :
    splitFrom cur (buf ++ s) = splitFrom (cur ++ buf) s := by
  induction buf generalizing cur with
  | nil => rw [nil_append, append_nil]
  | cons c buf ih =>
    rw [mem_cons, not_or] at h
    obtain ⟨hc, hbuf⟩ := h
    rw [cons_append, splitFrom, if_neg (Ne.symm hc), ih hbuf, append_assoc]
    rfl

theorem splitFrom_no_newline (h : (10 : UInt8) ∉ cur) (s : Bytes) :
    (∀ l ∈ (splitFrom cur s).1, (10 : UInt8) ∉ l) ∧ (10 : UInt8) ∉ (splitFrom cur s).2 := by
  induction s generalizing cur with
  | nil => exact ⟨fun l hl => absurd hl not_mem_nil, h⟩
  | cons c rest ih =>
    unfold splitFrom
    split
    · obtain ⟨hlines, hrest⟩ := ih not_mem_nil
      exact ⟨forall_mem_cons.mpr ⟨h, hlines⟩, hrest⟩
    · rename_i hc
      apply ih
      rw [mem_append, mem_singleton, not_or]
      exact ⟨h, fun heq => hc heq.symm⟩

theorem splitFrom_rest_length_le (cur s : Bytes) :
    (splitFrom cur s).2.length ≤ cur.length + s.length := by
  induction s generalizing cur with
  | nil => exact Nat.le_refl _
  | cons c rest ih =>
    unfold splitFrom
    rw [length_cons]
    split
    · have hrest := ih []
      rw [length_nil] at hrest
      dsimp only
      omega
    · have hrest := ih (cur ++ [c])
      rw [length_append, length_singleton] at hrest
      omega

/-! ## The reader -/

/-- One round: a chunk is appended, the complete lines are taken out, and a buffer that is still
full is emptied. -/
def feed (cap : Nat) (buf chunk : Bytes) : List Bytes × Bytes :=
  let split := splitFrom [] (buf ++ chunk)
  (split.1, if split.2.length = cap then [] else split.2)

/-- The reader, one byte after the other. -/
def pieces (cap : Nat) (buf : Bytes) : Bytes → List Bytes × Bytes
  | [] => ([], buf)
  | c :: rest =>
    if c = 10 then (buf :: (pieces cap [] rest).1, (pieces cap [] rest).2)
    else if buf.length + 1 = cap then pieces cap [] rest
    else pieces cap (buf ++ [c]) rest

theorem pieces_append (cap : Nat) (buf s t : Bytes) :
    pieces cap buf (s ++ t) =
      ((pieces cap buf s).1 ++ (pieces cap (pieces cap buf s).2 t).1,
        (pieces cap (pieces cap buf s).2 t).2) := by
  induction s generalizing buf with
  | nil => rfl
  | cons c rest ih =>
    rw [cons_append, pieces, pieces]
    split
    · rw [ih]
      rfl
    · split
      · exact ih []
      · exact ih (buf ++ [c])

/-- A chunk that fits is worked off like its bytes. -/
theorem feed_eq_pieces {buf chunk : Bytes} (hbuf : (10 : UInt8) ∉ buf)
    (hlt : buf.length < cap) (hfits : buf.length + chunk.length ≤ cap) :
    feed cap buf chunk = pieces cap buf chunk := by
  unfold feed
  rw [splitFrom_append hbuf, nil_append]
  clear hbuf
  induction chunk generalizing buf with
  | nil =>
    unfold splitFrom pieces
    dsimp only
    rw [if_neg (Nat.ne_of_lt hlt)]
  | cons c rest ih =>
    rw [length_cons] at hfits
    unfold splitFrom pieces
    split
    · have hrest : feed cap [] rest = pieces cap [] rest :=
        ih (by rw [length_nil]; omega) (by rw [length_nil]; omega)
      rw [← hrest]
      rfl
    · split
      · -- the buffer fills up with the last byte of the chunk
        have hnil : rest = [] := length_eq_zero_iff.mp (by omega)
        subst hnil
        unfold splitFrom pieces
        dsimp only
        rw [if_pos (by rw [length_append]; assumption)]
      · apply ih
        · rw [length_append, length_singleton]
          omega
        · rw [length_append, length_singleton]
          omega

theorem pieces_buf_lt (hcap : 0 < cap) (h : buf.length < cap)
    (s : Bytes) : (pieces cap buf s).2.length < cap := by
  induction s generalizing buf with
  | nil => exact h
  | cons c rest ih =>
    unfold pieces
    split
    · exact ih hcap
    · split
      · exact ih hcap
      · apply ih
        rw [length_append, length_singleton]
        omega

theorem pieces_buf_no_newline (h : (10 : UInt8) ∉ buf) (s : Bytes) :
    (10 : UInt8) ∉ (pieces cap buf s).2 := by
  induction s generalizing buf with
  | nil => exact h
  | cons c rest ih =>
    unfold pieces
    split
    · exact ih not_mem_nil
    · split
      · exact ih not_mem_nil
      · rename_i hc _
        apply ih
        rw [mem_append, mem_singleton, not_or]
        exact ⟨h, fun heq => hc heq.symm⟩

/-! ## What comes out -/

/-- The part of a line behind its last full buffer. -/
def lineTail (cap : Nat) (line : Bytes) : Bytes := line.drop (line.length / cap * cap)

theorem length_lineTail (cap : Nat) (line : Bytes) :
    (lineTail cap line).length = line.length % cap := by
  unfold lineTail
  rw [length_drop, Nat.mod_eq_sub_div_mul]

/-- A line that fits is left alone. -/
theorem lineTail_of_lt {line : Bytes} (h : line.length < cap) :
    lineTail cap line = line := by
  unfold lineTail
  rw [Nat.div_eq_of_lt h, Nat.zero_mul, drop_zero]

theorem lineTail_concat (hcap : 0 < cap) (cur : Bytes) (c : UInt8) :
    lineTail cap (cur ++ [c]) =
      if (lineTail cap cur).length + 1 = cap then [] else lineTail cap cur ++ [c] := by
  have hdiv := Nat.div_add_mod cur.length cap
  have hmod := Nat.mod_lt cur.length hcap
  rw [length_lineTail]
  unfold lineTail
  rw [length_append, length_singleton]
  split
  · rename_i hfull
    have hnext : (cur.length + 1) / cap * cap = cur.length + 1 := by
      apply Nat.div_mul_cancel
      refine ⟨cur.length / cap + 1, ?_⟩
      rw [Nat.mul_add, Nat.mul_one]
      omega
    rw [hnext]
    apply drop_of_length_le
    rw [length_append, length_singleton]
  · have hnext : (cur.length + 1) / cap = cur.length / cap := by
      rw [Nat.div_eq_iff hcap]
      rw [Nat.mul_comm] at hdiv
      omega
    rw [hnext, drop_append_of_le_length (Nat.div_mul_le_self _ _)]

/-- Whatever the chunks, the reader hands out the tail of each line. The buffer holds the tail of
the line it is in. -/
theorem pieces_lines (hcap : 0 < cap) (cur s : Bytes) :
    (pieces cap (lineTail cap cur) s).1 = (splitFrom cur s).1.map (lineTail cap) := by
  induction s generalizing cur with
  | nil => rfl
  | cons c rest ih =>
    unfold pieces splitFrom
    split
    · have hnil : lineTail cap [] = [] := lineTail_of_lt hcap
      rw [map_cons, ← ih [], hnil]
    · have hnext := lineTail_concat hcap cur c
      split
      · rename_i hfull
        rw [if_pos hfull] at hnext
        rw [← ih, hnext]
      · rename_i hfull
        rw [if_neg hfull] at hnext
        rw [← ih, hnext]

/-! ## Selecting lines -/

/-- The reader selects by what it sees: each overlong line whose tail is selected is one too many. -/
theorem length_filter_tails (cap : Nat) (p : Bytes → Bool) (ls : List Bytes) :
    ((ls.map (lineTail cap)).filter p).length =
      (ls.filter fun l => p l && decide (l.length < cap)).length +
        ls.countP fun l => p (lineTail cap l) && decide (cap ≤ l.length) := by
  induction ls with
  | nil => rfl
  | cons l ls ih =>
    rw [map_cons, filter_cons, filter_cons, countP_cons]
    by_cases hshort : l.length < cap
    · have hlong : ¬ cap ≤ l.length := Nat.not_le.mpr hshort
      rw [lineTail_of_lt hshort]
      cases p l <;> simp [hshort, hlong, ih]
      omega
    · have hlong : cap ≤ l.length := Nat.not_lt.mp hshort
      cases p (lineTail cap l) <;> simp [hshort, hlong, ih]
      omega

theorem filter_tails_eq {p : Bytes → Bool} {ls : List Bytes}
    (h : ∀ l ∈ ls, cap ≤ l.length → p (lineTail cap l) = false) :
    (ls.map (lineTail cap)).filter p = ls.filter fun l => p l && decide (l.length < cap) := by
  induction ls with
  | nil => rfl
  | cons l ls ih =>
    obtain ⟨hl, hls⟩ := forall_mem_cons.mp h
    rw [map_cons, filter_cons, filter_cons, ih hls]
    by_cases hshort : l.length < cap
    · rw [lineTail_of_lt hshort]
      simp [hshort]
    · simp [hshort, hl (Nat.not_lt.mp hshort)]

end Packetsonde.Lib
