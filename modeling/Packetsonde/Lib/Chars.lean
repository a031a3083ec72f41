import Mathlib.Data.List.TakeWhile
import Packetsonde.Lib.Bytes

/-!
# Character classes, decimal text and C strings

What the C library does with bytes in the `"C"` locale: the `ctype` classes, `%lld`, `strtoll`,
and the reading of a buffer as a string that ends at its first NUL.
-/

namespace Packetsonde.Lib

open List

/-- `isdigit`. -/
def isDigit (c : UInt8) : Bool := 48 ≤ c && c ≤ 57

/-- `isspace`. -/
def isSpace (c : UInt8) : Bool := c == 32 || (9 ≤ c && c ≤ 13)

/-- `isalnum`. -/
def isAlnum (c : UInt8) : Bool := isDigit c || (65 ≤ c && c ≤ 90) || (97 ≤ c && c ≤ 122)

/-- The string a C function sees in a buffer: everything before the first NUL. -/
def cstr (b : Bytes) : Bytes := b.takeWhile (· != 0)

variable {b x rest : Bytes} {k n fuel : Nat} {c : UInt8} {i : Int}

theorem cstr_eq_self_iff : cstr b = b ↔ (0 : UInt8) ∉ b := by
  unfold cstr
  induction b with
  | nil => simp
  | cons c b ih =>
    rw [takeWhile_cons, mem_cons]
    by_cases hc : c = 0
    · simp [hc]
    · simp [hc, ih, Ne.symm hc]

theorem nul_not_mem_cstr (b : Bytes) : (0 : UInt8) ∉ cstr b := by
  intro hmem
  unfold cstr at hmem
  exact absurd (mem_takeWhile_imp hmem) (by decide)

theorem cstr_append_of_not_mem (h : (0 : UInt8) ∉ b) (rest : Bytes) :
    cstr (b ++ rest) = b ++ cstr rest :=
  takeWhile_append_of_pos fun _ hc => bne_iff_ne.mpr fun heq => h (heq ▸ hc)

theorem length_cstr_le (b : Bytes) : (cstr b).length ≤ b.length :=
  (takeWhile_sublist _).length_le

/-- A string as C has it: its NUL is the first one. -/
structure CString where
  bytes : Bytes
  noNul : (0 : UInt8) ∉ bytes
  deriving DecidableEq

theorem CString.cstr_bytes (s : CString) : cstr s.bytes = s.bytes := cstr_eq_self_iff.mpr s.noNul

/-! ## Decimal text -/

/-- The last `fuel` decimal digits of `n`, without leading zeros. -/
def natDigits : Nat → Nat → Bytes
  | 0, _ => []
  | fuel + 1, n =>
    (if n < 10 then [] else natDigits fuel (n / 10)) ++ [UInt8.ofNat (48 + n % 10)]

/-- `%llu`. A number has no more decimal than binary digits. -/
def natDecimal (n : Nat) : Bytes := natDigits (n.log2 + 1) n

/-- `%lld`. -/
def decimal (i : Int) : Bytes :=
  if i < 0 then 45 :: natDecimal i.natAbs else natDecimal i.natAbs

def digitsValue (ds : Bytes) : Nat := ds.foldl (fun v d => v * 10 + (d.toNat - 48)) 0

theorem digitsValue_concat (ds : Bytes) (d : UInt8) :
    digitsValue (ds ++ [d]) = digitsValue ds * 10 + (d.toNat - 48) := by
  simp [digitsValue]

theorem toNat_digit (hk : k < 10) : (UInt8.ofNat (48 + k)).toNat = 48 + k := by
  rw [UInt8.toNat_ofNat']
  omega

theorem isDigit_digit (hk : k < 10) : isDigit (UInt8.ofNat (48 + k)) = true := by
  have h := toNat_digit hk
  simp only [isDigit, Bool.and_eq_true, decide_eq_true_eq, UInt8.le_iff_toNat_le, h]
  exact ⟨by show 48 ≤ 48 + k; omega, by show 48 + k ≤ 57; omega⟩

theorem digitsValue_natDigits (fuel n : Nat) (h : n < 10 ^ fuel) :
    digitsValue (natDigits fuel n) = n := by
  induction fuel generalizing n with
  | zero =>
    have : n = 0 := by simpa using h
    simp [natDigits, digitsValue, this]
  | succ fuel ih =>
    have hmod : n % 10 < 10 := Nat.mod_lt _ (by decide)
    rw [natDigits, digitsValue_concat, toNat_digit hmod, Nat.add_sub_cancel_left]
    split
    · simp [digitsValue]
      omega
    · rw [ih _ (by rw [pow_succ] at h; omega)]
      omega

theorem lt_ten_pow_log2 (n : Nat) : n < 10 ^ (n.log2 + 1) :=
  calc n < 2 ^ (n.log2 + 1) := Nat.lt_log2_self
    _ ≤ 10 ^ (n.log2 + 1) := Nat.pow_le_pow_left (by decide) _

/-- Printing and reading back. -/
theorem digitsValue_natDecimal (n : Nat) : digitsValue (natDecimal n) = n :=
  digitsValue_natDigits _ _ (lt_ten_pow_log2 n)

theorem isDigit_of_mem_natDecimal (h : c ∈ natDecimal n) :
    isDigit c = true := by
  suffices ∀ fuel m, c ∈ natDigits fuel m → isDigit c = true from this _ _ h
  intro fuel
  induction fuel with
  | zero => intro m hm; simp [natDigits] at hm
  | succ fuel ih =>
    intro m hm
    rw [natDigits, mem_append] at hm
    rcases hm with hm | hm
    · split at hm
      · simp at hm
      · exact ih _ hm
    · obtain rfl : c = UInt8.ofNat (48 + m % 10) := by simpa using hm
      exact isDigit_digit (Nat.mod_lt m (by decide))

theorem mem_decimal (h : c ∈ decimal i) : c = 45 ∨ isDigit c = true := by
  unfold decimal at h
  split at h
  · rcases mem_cons.mp h with rfl | h
    · exact .inl rfl
    · exact .inr (isDigit_of_mem_natDecimal h)
  · exact .inr (isDigit_of_mem_natDecimal h)

theorem length_natDigits_le (h : n < 10 ^ (k + 1)) :
    (natDigits fuel n).length ≤ k + 1 := by
  induction fuel generalizing n k with
  | zero => exact Nat.zero_le _
  | succ fuel ih =>
    rw [natDigits, length_append, length_singleton]
    split
    · simp
    · rename_i hten
      cases k with
      | zero => omega
      | succ k =>
        have hrest : n / 10 < 10 ^ (k + 1) := by
          rw [pow_succ] at h
          omega
        have := ih hrest
        omega

/-- A number below `10 ^ (k + 1)` has at most `k + 1` digits. -/
theorem length_natDecimal_le (h : n < 10 ^ (k + 1)) : (natDecimal n).length ≤ k + 1 :=
  length_natDigits_le h

theorem natDecimal_ne_nil (n : Nat) : natDecimal n ≠ [] := by
  simp [natDecimal, natDigits]

theorem head_natDigits_ne_zero (h : n < 10 ^ fuel) (hn : n ≠ 0) :
    (natDigits fuel n).head? ≠ some 48 := by
  induction fuel generalizing n with
  | zero => exact absurd (Nat.lt_one_iff.mp h) hn
  | succ fuel ih =>
    rw [natDigits]
    by_cases hten : n < 10
    · rw [if_pos hten, nil_append, head?_cons]
      intro heq
      have htoNat := congrArg UInt8.toNat (Option.some.inj heq)
      rw [toNat_digit (Nat.mod_lt n (by decide)), Nat.mod_eq_of_lt hten] at htoNat
      change 48 + n = 48 at htoNat
      omega
    · rw [if_neg hten]
      have hhead := ih (show n / 10 < 10 ^ fuel by rw [pow_succ] at h; omega) (by omega)
      have hne : natDigits fuel (n / 10) ≠ [] := by
        cases fuel with
        | zero => omega
        | succ fuel => simp [natDigits]
      obtain ⟨c, l, hl⟩ := exists_cons_of_ne_nil hne
      rw [hl] at hhead ⊢
      exact hhead

/-- A number is printed without a zero in front. -/
theorem head_natDecimal_ne_zero (hn : n ≠ 0) : (natDecimal n).head? ≠ some 48 :=
  head_natDigits_ne_zero (lt_ten_pow_log2 n) hn

/-! ## `strchr` -/

theorem idxOf?_cons_self (c : UInt8) (rest : Bytes) : (c :: rest).idxOf? c = some 0 := by
  rw [idxOf?_cons, if_pos BEq.rfl]

/-- Where a byte is found, it is the first. -/
theorem not_mem_take_of_idxOf? {p : Bytes} {q : Nat} (h : p.idxOf? c = some q) :
    c ∉ p.take q := by
  obtain ⟨hlt, -, hfirst⟩ := idxOf?_eq_some_iff.mp h
  intro hmem
  obtain ⟨j, hj, heq⟩ := mem_take_iff_getElem.mp hmem
  exact hfirst j (Nat.lt_of_lt_of_le hj (Nat.min_le_left _ _)) heq

theorem idxOf?_append_self (h : c ∉ x) (rest : Bytes) :
    (x ++ c :: rest).idxOf? c = some x.length := by
  induction x with
  | nil => exact idxOf?_cons_self c rest
  | cons d x ih =>
    obtain ⟨hd, hx⟩ := ne_and_not_mem_of_not_mem_cons h
    rw [cons_append, idxOf?_cons, if_neg (by simpa using hd.symm), ih hx]
    rfl

/-- What stands before the first separator and what stands behind it. -/
theorem append_cons_inj {x y a b : Bytes} (hx : c ∉ x) (hy : c ∉ y)
    (heq : x ++ c :: a = y ++ c :: b) : x = y ∧ a = b := by
  have hlen : x.length = y.length := by
    have hidx := idxOf?_append_self hx a
    rw [heq, idxOf?_append_self hy b] at hidx
    exact (Option.some.inj hidx).symm
  obtain ⟨hfront, hrest⟩ := append_inj heq hlen
  exact ⟨hfront, (List.cons.inj hrest).2⟩

/-! ## Runs of a class -/

/-- A run up to a byte that ends it. -/
theorem dropWhile_append_stop {p : UInt8 → Bool} {gap : Bytes} (hgap : ∀ c ∈ gap, p c = true)
    (hc : p c = false) (rest : Bytes) : (gap ++ c :: rest).dropWhile p = c :: rest := by
  rw [dropWhile_append_of_pos hgap, dropWhile_cons_of_neg (by simp [hc])]

/-! ## `strtoll` -/

/-- The value of a digit string with its sign, held to the `int64_t` range as `strtoll` does. -/
def saturate (i : Int) : Int64 :=
  if i < -(2 ^ 63) then Int64.minValue
  else if 2 ^ 63 ≤ i then Int64.maxValue
  else Int64.ofInt i

/-- `strtoll(s, &end, 10)`: the value, and what stands at `end`. Without a digit to convert the
value is 0 and `end` is the start of the string. -/
def strtoll (s : Bytes) : Int64 × Bytes :=
  let s₁ := s.dropWhile isSpace
  let neg := s₁.head? == some 45
  let s₂ := if neg || s₁.head? == some 43 then s₁.tail else s₁
  let ds := s₂.takeWhile isDigit
  if ds.isEmpty then (0, s)
  else (saturate (if neg then -(digitsValue ds : Int) else digitsValue ds), s₂.dropWhile isDigit)

theorem digit_byte : ∀ c : UInt8, isDigit c = true → isSpace c = false ∧ c ≠ 45 ∧ c ≠ 43 :=
  forall_byte (by decide +kernel)

/-- The digits of a number that was printed end where it ends. -/
theorem span_natDecimal (n : Nat) (hrest : ∀ c ∈ rest.head?, isDigit c = false) :
    (natDecimal n ++ rest).takeWhile isDigit = natDecimal n ∧
      (natDecimal n ++ rest).dropWhile isDigit = rest := by
  have hdigits : ∀ x ∈ natDecimal n, isDigit x = true := fun x hx => isDigit_of_mem_natDecimal hx
  rw [takeWhile_append_of_pos hdigits, dropWhile_append_of_pos hdigits]
  cases rest with
  | nil => simp
  | cons c rest =>
    have hc : ¬ isDigit c = true := by simp [hrest c rfl]
    rw [takeWhile_cons_of_neg hc, dropWhile_cons_of_neg hc, append_nil]
    exact ⟨rfl, rfl⟩

/-- `strtoll` reads a number that was printed. -/
theorem strtoll_decimal (i : Int) (hrest : ∀ c ∈ rest.head?, isDigit c = false) :
    strtoll (decimal i ++ rest) = (saturate i, rest) := by
  obtain ⟨htake, hdrop⟩ := span_natDecimal i.natAbs hrest
  unfold decimal strtoll
  split
  · next hneg =>
    have hskip : (45 :: (natDecimal i.natAbs ++ rest)).dropWhile isSpace = 45 :: (natDecimal i.natAbs ++ rest) :=
      dropWhile_cons_of_neg (by decide)
    have hval : -(i.natAbs : Int) = i := by omega
    simp only [cons_append, hskip, head?_cons, beq_self_eq_true, Bool.true_or, if_true, tail_cons,
      htake, hdrop, List.isEmpty_iff, natDecimal_ne_nil, digitsValue_natDecimal, if_false, hval]
  · next hpos =>
    obtain ⟨d, ds, hds⟩ := exists_cons_of_ne_nil (natDecimal_ne_nil i.natAbs)
    obtain ⟨hspace, hminus, hplus⟩ := digit_byte d (isDigit_of_mem_natDecimal (hds ▸ mem_cons_self))
    have hskip : (natDecimal i.natAbs ++ rest).dropWhile isSpace = natDecimal i.natAbs ++ rest := by
      rw [hds, cons_append, dropWhile_cons_of_neg (by simp [hspace])]
    have hhead : (natDecimal i.natAbs ++ rest).head? = some d := by rw [hds]; rfl
    have hval : (i.natAbs : Int) = i := by omega
    simp only [hskip, hhead, htake, hdrop, beq_iff_eq, Option.some.injEq, hminus, hplus, List.isEmpty_iff,
      natDecimal_ne_nil, digitsValue_natDecimal, if_false, Bool.or_eq_true, or_self, hval]

theorem saturate_of_lt (hlo : -(2 ^ 63) ≤ i) (hhi : i < 2 ^ 63) : saturate i = Int64.ofInt i := by
  unfold saturate
  rw [if_neg (by omega), if_neg (by omega)]

end Packetsonde.Lib
