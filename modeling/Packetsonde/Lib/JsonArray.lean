import Packetsonde.Lib.JsonMember

/-!
# Arrays looked for as text

A reader that looks for a quoted word, goes on to the next bracket and takes the objects behind it one by
one, by counting braces outside strings. The word is found where the key is, or in a string before it: a
string can end with the word in quotes, and cannot hold it in any other way (`quoted_at_quoted`).

An object longer than the reader's buffer ends the array for it (`objectsFrom_object`).
-/

namespace Packetsonde.Lib

open List

/-- `strchr`: the text from the byte on. -/
def strchr (c : UInt8) (s : Bytes) : Option Bytes := (s.idxOf? c).map s.drop

variable {x raw s : Bytes} {c : UInt8}

theorem strstr_of_at {needle hay : Bytes} {i : Nat} (hi : i ≤ hay.length) (h : needle <+: hay.drop i)
    (hx : ∀ j ≤ i, needle <+: hay.drop j → hay.drop j = x) : strstr needle hay = some x := by
  obtain ⟨j, hj, hfound⟩ := exists_findSub hi h
  obtain ⟨-, hat, -⟩ := findSub_eq_some_iff.mp hfound
  rw [strstr, hfound, Option.map_some, hx j hj hat]

theorem strchr_append (hx : c ∉ x) (rest : Bytes) :
    strchr c (x ++ rest) = strchr c rest := by
  induction x with
  | nil => rfl
  | cons d x ih =>
    obtain ⟨hd, hx⟩ := ne_and_not_mem_of_not_mem_cons hx
    rw [← ih hx, cons_append]
    unfold strchr
    rw [idxOf?_cons, if_neg (by simpa using hd.symm), Option.map_map]
    rfl

theorem strchr_self (c : UInt8) (rest : Bytes) : strchr c (c :: rest) = some (c :: rest) := by
  rw [strchr, idxOf?_cons_self]
  rfl

/-! ## Objects by their braces -/

/-- A string literal is walked over. -/
theorem objectScan_strText (h : StrText raw s) (depth : Nat) :
    objectScan .str depth raw = some (.str, depth) := by
  have hstep {c : UInt8} {mode : Mode} (hm : mode ≠ .code) (rest : Bytes) :
      objectScan mode depth (c :: rest) = objectScan (mode.next c) depth rest := by
    rw [objectScan, if_neg fun h => hm h.1, if_neg fun h => hm h.1]
  have hplain {c : UInt8} (hq : c ≠ 34) (hb : c ≠ 92) (rest : Bytes) :
      objectScan .str depth (c :: rest) = objectScan .str depth rest := by
    rw [hstep (by decide), show Mode.str.next c = .str by simp [Mode.next, hq, hb]]
  have hesc (e : UInt8) (rest : Bytes) :
      objectScan .str depth (92 :: e :: rest) = objectScan .str depth rest := by
    rw [hstep (by decide), show Mode.str.next 92 = .esc from rfl, hstep (by decide)]
    rfl
  induction h with
  | nil => rfl
  | plain hq hb _ _ ih => rw [hplain hq hb, ih]
  | esc _ _ ih => rw [hesc, ih]
  | @uni a b c d cp raw s hcp _ ih =>
    have hhex := hex4_bytes hcp
    simp only [forall_mem_cons] at hhex
    obtain ⟨⟨_, ha⟩, ⟨_, hb⟩, ⟨_, hc⟩, ⟨_, hd⟩, _⟩ := hhex
    rw [hesc, hplain ha.1 ha.2, hplain hb.1 hb.2, hplain hc.1 hc.2, hplain hd.1 hd.2, ih]

theorem objectScan_quoted (h : StrText raw s) (depth : Nat) :
    objectScan .code depth (quoted raw) = some (.code, depth) := by
  unfold quoted
  rw [objectScan, if_neg (by decide), if_neg (by decide), show Mode.code.next 34 = .str from rfl,
    objectScan_append, objectScan_strText h]
  rfl

def Bare (t : Bytes) : Prop := ∀ c ∈ t, c ≠ 34 ∧ c ≠ 123 ∧ c ≠ 125

instance (t : Bytes) : Decidable (Bare t) := List.decidableBAll _ t

theorem objectScan_bare {t : Bytes} (h : Bare t) (depth : Nat) :
    objectScan .code depth t = some (.code, depth) := by
  induction t with
  | nil => rfl
  | cons c t ih =>
    obtain ⟨hc, ht⟩ := forall_mem_cons.mp h
    rw [objectScan, if_neg fun h => hc.2.1 h.2, if_neg fun h => hc.2.2 h.2,
      show Mode.code.next c = .code by simp [Mode.next, hc.1]]
    exact ih ht

/-- The next object at or behind `p`, with what follows it; `none` before a closing bracket, at the end of
the text and if the object does not fit a buffer of `cap` bytes. An object that is not closed goes to the
end of the text. -/
def nextObject (cap : Nat) (p : Bytes) : Option (Bytes × Bytes) :=
  let s := p.dropWhile fun c => c ≠ 123 ∧ c ≠ 93
  if s.head? ≠ some 123 then none
  else
    let len := (objectLen .code 0 s).getD s.length
    if len ≥ cap then none else some (s.take len, s.drop len)

/-- The first `n` objects from `p` on. -/
def objectsFrom (cap : Nat) : Nat → Bytes → List Bytes
  | 0, _ => []
  | n + 1, p =>
    match nextObject cap p with
    | none => []
    | some (obj, p) => obj :: objectsFrom cap n p

/-- Texts that are found as an object, whatever follows. -/
structure IsObject (o : Bytes) : Prop where
  head : o.head? = some 123
  len : ∀ rest, objectLen .code 0 (o ++ rest) = some o.length

theorem isObject_of_scan {body : Bytes} (h : objectScan .code 1 body = some (.code, 1)) :
    IsObject (123 :: (body ++ [125])) := by
  refine ⟨rfl, fun rest => ?_⟩
  have hscan : objectScan .code 0 (123 :: body) = some (.code, 1) := h
  have hsplit : 123 :: (body ++ [125]) ++ rest = (123 :: body) ++ 125 :: rest := by simp
  have hclose : objectLen .code 1 (125 :: rest) = some 1 := by simp [objectLen]
  rw [hsplit, objectLen_append hscan, hclose, Option.map_some, Option.some.injEq]
  simp only [length_cons, length_append, length_nil]
  omega

def Between (x : Bytes) : Prop := ∀ c ∈ x, c ≠ 123 ∧ c ≠ 93

instance (x : Bytes) : Decidable (Between x) := List.decidableBAll _ x

section Objects

variable {cap : Nat}

theorem objectsFrom_skip {x : Bytes} (hx : Between x) (n : Nat) (p : Bytes) :
    objectsFrom cap n (x ++ p) = objectsFrom cap n p := by
  have hdrop : (x ++ p).dropWhile (fun c => c ≠ 123 ∧ c ≠ 93) =
      p.dropWhile (fun c => c ≠ 123 ∧ c ≠ 93) := by
    rw [dropWhile_append_of_pos fun c hc => decide_eq_true (hx c hc)]
  cases n with
  | zero => rfl
  | succ n =>
    unfold objectsFrom nextObject
    rw [hdrop]

theorem objectsFrom_close (n : Nat) (rest : Bytes) : objectsFrom cap n (93 :: rest) = [] := by
  cases n with
  | zero => rfl
  | succ n =>
    unfold objectsFrom nextObject
    rw [dropWhile_cons_of_neg (by decide)]
    rfl

theorem nextObject_object {o : Bytes} (ho : IsObject o) (rest : Bytes) :
    nextObject cap (o ++ rest) = if o.length < cap then some (o, rest) else none := by
  obtain ⟨t, rfl⟩ : ∃ t, o = 123 :: t := by
    cases o with
    | nil => exact absurd ho.head (by decide)
    | cons c t => exact ⟨t, by rw [Option.some.inj ho.head]⟩
  unfold nextObject
  rw [cons_append, dropWhile_cons_of_neg (by decide), ← cons_append]
  dsimp only
  rw [if_neg (by simp), ho.len rest, Option.getD_some]
  by_cases hcap : (123 :: t).length < cap
  · rw [if_neg (Nat.not_le.mpr hcap), if_pos hcap, take_left, drop_left]
  · rw [if_pos (Nat.le_of_not_lt hcap), if_neg hcap]

/-- An object that fits is taken, and one that does not ends the array. -/
theorem objectsFrom_object {o : Bytes} (ho : IsObject o) (n : Nat) (rest : Bytes) :
    objectsFrom cap (n + 1) (o ++ rest) = if o.length < cap then o :: objectsFrom cap n rest else [] := by
  rw [objectsFrom, nextObject_object ho]
  by_cases hcap : o.length < cap
  · rw [if_pos hcap, if_pos hcap]
  · rw [if_neg hcap, if_neg hcap]

end Objects

end Packetsonde.Lib
