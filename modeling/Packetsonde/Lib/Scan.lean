import Packetsonde.Lib.Bytes

/-!
# Scanning raw text

What code does that handles JSON without parsing it: search for the first occurrence of a string,
walk to the closing quote of a string literal, count braces. A scanner that skips string literals is
an automaton with three states (`Mode`), fed one byte at a time.
-/

namespace Packetsonde.Lib

open List

/-! ## Substring search -/

/-- The first position at which `needle` occurs (`strstr`, `memmem`). -/
def findSub (needle : Bytes) : Bytes → Option Nat
  | [] => if needle.isEmpty then some 0 else none
  | c :: rest =>
    if needle.isPrefixOf (c :: rest) then some 0 else (findSub needle rest).map (· + 1)

variable {needle hay pre s : Bytes} {i n : Nat} {c : UInt8}

/-- The search returns the first place the needle is at. -/
theorem findSub_eq_some_iff :
    findSub needle hay = some i ↔
      i ≤ hay.length ∧ needle <+: hay.drop i ∧ ∀ j < i, ¬ needle <+: hay.drop j := by
  induction hay generalizing i with
  | nil =>
    unfold findSub
    cases i with
    | zero =>
      cases needle with
      | nil => exact iff_of_true rfl ⟨Nat.le_refl 0, nil_prefix, fun j hj => absurd hj (Nat.not_lt_zero j)⟩
      | cons c needle => exact iff_of_false nofun fun h => absurd h.2.1.length_le (Nat.not_succ_le_zero _)
    | succ i =>
      refine iff_of_false ?_ fun h => absurd h.1 (Nat.not_succ_le_zero i)
      split
      · exact nofun
      · exact nofun
  | cons c rest ih =>
    unfold findSub
    by_cases hpre : needle.isPrefixOf (c :: rest) = true
    · have hhere := isPrefixOf_iff_prefix.mp hpre
      rw [if_pos hpre]
      constructor
      · rintro ⟨⟩
        exact ⟨Nat.zero_le _, hhere, fun j hj => absurd hj (Nat.not_lt_zero j)⟩
      · rintro ⟨-, -, hfirst⟩
        cases i with
        | zero => rfl
        | succ i => exact absurd hhere (hfirst 0 (Nat.succ_pos i))
    · rw [if_neg hpre, Option.map_eq_some_iff]
      constructor
      · rintro ⟨k, hk, rfl⟩
        obtain ⟨hle, hat, hfirst⟩ := ih.mp hk
        refine ⟨Nat.succ_le_succ hle, hat, fun j hj => ?_⟩
        cases j with
        | zero => exact fun h => hpre <| isPrefixOf_iff_prefix.mpr h
        | succ j => exact hfirst j (Nat.lt_of_succ_lt_succ hj)
      · rintro ⟨hle, hat, hfirst⟩
        cases i with
        | zero => exact (hpre <| isPrefixOf_iff_prefix.mpr hat).elim
        | succ i =>
          refine ⟨i, ih.mpr ⟨Nat.le_of_succ_le_succ hle, hat, fun j hj => ?_⟩, rfl⟩
          exact hfirst (j + 1) (Nat.succ_lt_succ hj)

/-- Where the needle is, the search has found it. -/
theorem exists_findSub (hi : i ≤ hay.length)
    (h : needle <+: hay.drop i) : ∃ j ≤ i, findSub needle hay = some j := by
  classical
  have hex : ∃ j, needle <+: hay.drop j := ⟨i, h⟩
  have hle := Nat.find_min' hex h
  refine ⟨Nat.find hex, hle, findSub_eq_some_iff.mpr ⟨Nat.le_trans hle hi, Nat.find_spec hex, ?_⟩⟩
  exact fun j hj => Nat.find_min hex hj

theorem findSub_length_le (h : findSub needle hay = some i) :
    i + needle.length ≤ hay.length := by
  obtain ⟨hle, hat, -⟩ := findSub_eq_some_iff.mp h
  have hlen := hat.length_le
  rw [length_drop] at hlen
  omega

/-- What is behind the needle does not matter. -/
theorem findSub_append_of_some (h : findSub needle hay = some i)
    (rest : Bytes) : findSub needle (hay ++ rest) = some i := by
  have hlen := findSub_length_le h
  obtain ⟨hle, hat, hfirst⟩ := findSub_eq_some_iff.mp h
  refine findSub_eq_some_iff.mpr ⟨by rw [length_append]; omega, ?_, fun j hj hin => ?_⟩
  · rw [drop_append_of_le_length hle]
    exact hat.trans (prefix_append _ _)
  · rw [drop_append_of_le_length (by omega)] at hin
    refine hfirst j hj (prefix_of_prefix_length_le hin (prefix_append _ _) ?_)
    rw [length_drop]
    omega

theorem findSub_take {i k : Nat} (h : findSub needle hay = some i)
    (hk : i + needle.length ≤ k) : findSub needle (hay.take k) = some i := by
  have hlen := findSub_length_le h
  obtain ⟨hle, hat, hfirst⟩ := findSub_eq_some_iff.mp h
  refine findSub_eq_some_iff.mpr ⟨by rw [length_take]; omega, ?_, fun j hj hin => ?_⟩
  · rw [drop_take]
    exact prefix_take_iff.mpr ⟨hat, by omega⟩
  · rw [drop_take] at hin
    exact hfirst j hj <| hin.trans <| take_prefix _ _

/-- Text in which the needle does not start is skipped. -/
theorem findSub_append_of_forall {rest : Bytes} (h : ∀ j < pre.length, ¬ needle <+: (pre ++ rest).drop j) :
    findSub needle (pre ++ rest) = (findSub needle rest).map (· + pre.length) := by
  induction pre with
  | nil => simp
  | cons c pre ih =>
    have hhere : ¬ needle.isPrefixOf (c :: (pre ++ rest)) = true :=
      fun hat => h 0 (Nat.succ_pos _) <| isPrefixOf_iff_prefix.mp hat
    rw [cons_append, findSub, if_neg hhere, ih fun j hj => h (j + 1) (Nat.succ_lt_succ hj), Option.map_map]
    rfl

/-- In a text without its first byte the needle does not start. -/
theorem not_prefix_of_not_mem (h : c ∉ pre) (rest : Bytes) :
    ∀ j < pre.length, ¬ (c :: needle) <+: (pre ++ rest).drop j := by
  intro j hj hat
  rw [drop_append_of_le_length (Nat.le_of_lt hj), drop_eq_getElem_cons hj, cons_append,
    cons_prefix_cons] at hat
  exact h (hat.1 ▸ getElem_mem hj)

theorem findSub_append_of_not_mem (h : c ∉ pre) (rest : Bytes) :
    findSub (c :: needle) (pre ++ rest) = (findSub (c :: needle) rest).map (· + pre.length) :=
  findSub_append_of_forall (not_prefix_of_not_mem h rest)

/-- A text that the needle is not in, up to a look ahead of the needle's length, is skipped. -/
theorem findSub_append_of_none {needle pre ahead : Bytes} (h : findSub needle (pre ++ ahead) = none)
    (hahead : needle.length ≤ ahead.length + 1) (rest : Bytes) :
    findSub needle (pre ++ (ahead ++ rest)) =
      (findSub needle (ahead ++ rest)).map (· + pre.length) := by
  refine findSub_append_of_forall fun j hj hin => ?_
  have hle : j ≤ (pre ++ ahead).length := by rw [length_append]; omega
  rw [← append_assoc, drop_append_of_le_length hle] at hin
  have hat := prefix_of_prefix_length_le hin (prefix_append _ _) (by
    rw [length_drop, length_append]
    omega)
  obtain ⟨k, -, hk⟩ := exists_findSub hle hat
  rw [h] at hk
  cases hk

/-- The text around what was found. -/
theorem findSub_split (h : findSub needle hay = some i) :
    ∃ pre post, hay = pre ++ needle ++ post ∧ pre.length = i := by
  obtain ⟨hle, ⟨post, hpost⟩, -⟩ := findSub_eq_some_iff.mp h
  refine ⟨hay.take i, post, ?_, length_take_of_le hle⟩
  rw [append_assoc, hpost, take_append_drop]

/-! ## Quoted needles

A needle `"x"` can only be found where a text has two quotes with exactly `x` between them. -/

/-- `x` in quotes. -/
def quoted (x : Bytes) : Bytes := 34 :: (x ++ [34])

/-- `strstr`: the text from the needle on. -/
def strstr (needle hay : Bytes) : Option Bytes := (findSub needle hay).map hay.drop

theorem strstr_append_of_forall {rest : Bytes} (h : ∀ j < pre.length, ¬ needle <+: (pre ++ rest).drop j) :
    strstr needle (pre ++ rest) = strstr needle rest := by
  unfold strstr
  rw [findSub_append_of_forall h, Option.map_map]
  congr 1
  funext i
  show (pre ++ rest).drop (i + pre.length) = _
  rw [Nat.add_comm, drop_length_add_append]

/-- The text behind the first occurrence of the needle. -/
def behind (needle hay : Bytes) : Option Bytes :=
  (findSub needle hay).map fun i => hay.drop (i + needle.length)

/-- Where the needle is found, and what is there. -/
theorem drop_of_behind {needle hay rest : Bytes} (h : behind needle hay = some rest) :
    ∃ i, findSub needle hay = some i ∧ hay.drop i = needle ++ rest := by
  obtain ⟨i, hi, hdrop⟩ := Option.map_eq_some_iff.mp h
  obtain ⟨-, ⟨post, hpost⟩, -⟩ := findSub_eq_some_iff.mp hi
  rw [← drop_drop, ← hpost, drop_left] at hdrop
  exact ⟨i, hi, by rw [← hpost, hdrop]⟩

theorem behind_append_of_some {needle hay k : Bytes} (h : behind needle hay = some k) (rest : Bytes) :
    behind needle (hay ++ rest) = some (k ++ rest) := by
  obtain ⟨i, hi, rfl⟩ := Option.map_eq_some_iff.mp h
  unfold behind
  rw [findSub_append_of_some hi, Option.map_some,
    drop_append_of_le_length (findSub_length_le hi)]

theorem behind_eq_strstr (needle hay : Bytes) :
    behind needle hay = (strstr needle hay).map (List.drop needle.length) := by
  rw [behind, strstr, Option.map_map]
  congr 1
  funext i
  exact (drop_drop ..).symm

theorem behind_append_of_forall {rest : Bytes} (h : ∀ j < pre.length, ¬ needle <+: (pre ++ rest).drop j) :
    behind needle (pre ++ rest) = behind needle rest := by
  rw [behind_eq_strstr, strstr_append_of_forall h, ← behind_eq_strstr]

theorem behind_append_of_not_mem (h : c ∉ pre) (rest : Bytes) :
    behind (c :: needle) (pre ++ rest) = behind (c :: needle) rest :=
  behind_append_of_forall (not_prefix_of_not_mem h rest)

theorem behind_self (needle rest : Bytes) : behind needle (needle ++ rest) = some rest := by
  have hfind : findSub needle (needle ++ rest) = some 0 :=
    findSub_eq_some_iff.mpr ⟨Nat.zero_le _, prefix_append _ _, fun j hj => absurd hj (Nat.not_lt_zero j)⟩
  unfold behind
  rw [hfind, Option.map_some, Nat.zero_add, drop_left]

/-! ## String literals -/

/-- How far it is to the closing quote, from behind the opening one; to the end of the text if there
is none. An escape takes two bytes. -/
def strLen : Bytes → Nat
  | [] => 0
  | c :: rest =>
    if c = 34 then 0
    else if c = 92 then
      match rest with
      | [] => 1
      | _ :: rest' => strLen rest' + 2
    else strLen rest + 1

theorem strLen_le (s : Bytes) : strLen s ≤ s.length := by
  induction s using strLen.induct with
  | case1 => exact Nat.le_refl 0
  | case2 rest => simp [strLen.eq_def]
  | case3 => simp [strLen]
  | case4 _ c rest ih =>
    rw [strLen.eq_def]
    simp only [length_cons]
    simp
    omega
  | case5 c rest hq hb ih =>
    rw [strLen.eq_def]
    simp only [length_cons, hq, hb, if_false]
    omega

/-- The walk stops at a quote if it stops before the end. -/
theorem strLen_split (h : strLen s < s.length) :
    ∃ rest, s = s.take (strLen s) ++ 34 :: rest := by
  have hat : s[strLen s]? = some 34 := by
    induction s using strLen.induct with
    | case1 => cases h
    | case2 rest => simp [strLen.eq_def]
    | case3 => simp [strLen] at h
    | case4 _ c rest ih =>
      rw [strLen.eq_def] at h ⊢
      simp only [length_cons, show ¬ (92 : UInt8) = 34 by decide, if_false, if_true] at h ⊢
      exact ih (by omega)
    | case5 c rest hq hb ih =>
      rw [strLen.eq_def] at h ⊢
      simp only [length_cons, hq, hb, if_false] at h ⊢
      exact ih (by omega)
  refine ⟨s.drop (strLen s + 1), ?_⟩
  rw [getElem?_eq_getElem h] at hat
  rw [← Option.some.inj hat, ← drop_eq_getElem_cons h, take_append_drop]

/-- Where a scanner stands: in code, in a string literal, behind a backslash in one. -/
inductive Mode where
  | code
  | str
  | esc
  deriving DecidableEq, Repr

def Mode.next : Mode → UInt8 → Mode
  | .code, c => if c = 34 then .str else .code
  | .str, c => if c = 34 then .code else if c = 92 then .esc else .str
  | .esc, _ => .str

/-- What a scanner skips between a key and its value. -/
def isGap (c : UInt8) : Bool := c = 32 ∨ c = 58 ∨ c = 9

/-! ## Brackets -/

/-- The length of the object that starts here, by counting the braces outside string literals;
`none` if the text ends first. -/
def objectLen : Mode → Nat → Bytes → Option Nat
  | _, _, [] => none
  | mode, depth, c :: rest =>
    if mode = .code ∧ c = 123 then (objectLen .code (depth + 1) rest).map (· + 1)
    else if mode = .code ∧ c = 125 then
      if depth = 1 then some 1 else (objectLen .code (depth - 1) rest).map (· + 1)
    else (objectLen (mode.next c) depth rest).map (· + 1)

/-- The state of that count behind a text in which the object does not end. -/
def objectScan : Mode → Nat → Bytes → Option (Mode × Nat)
  | mode, depth, [] => some (mode, depth)
  | mode, depth, c :: rest =>
    if mode = .code ∧ c = 123 then objectScan .code (depth + 1) rest
    else if mode = .code ∧ c = 125 then
      if depth = 1 then none else objectScan .code (depth - 1) rest
    else objectScan (mode.next c) depth rest

theorem objectScan_append (mode : Mode) (depth : Nat) (s t : Bytes) :
    objectScan mode depth (s ++ t) =
      (objectScan mode depth s).bind fun state => objectScan state.1 state.2 t := by
  induction s generalizing mode depth with
  | nil => rfl
  | cons c rest ih =>
    rw [cons_append, objectScan, objectScan]
    split
    · exact ih ..
    · split
      · split
        · rfl
        · exact ih ..
      · exact ih ..

theorem objectLen_append {mode mode' : Mode} {depth depth' : Nat}
    (h : objectScan mode depth s = some (mode', depth')) (t : Bytes) :
    objectLen mode depth (s ++ t) = (objectLen mode' depth' t).map (· + s.length) := by
  induction s generalizing mode depth with
  | nil =>
    cases h
    simp
  | cons c rest ih =>
    have hmap : ∀ o : Option Nat, (o.map (· + rest.length)).map (· + 1) =
        o.map (· + (c :: rest).length) := fun o => by rw [Option.map_map]; rfl
    unfold objectScan at h
    rw [cons_append, objectLen]
    split at h
    · rw [if_pos (by assumption), ih h, hmap]
    · rw [if_neg (by assumption)]
      split at h
      · rw [if_pos (by assumption)]
        split at h
        · cases h
        · rw [if_neg (by assumption), ih h, hmap]
      · rw [if_neg (by assumption), ih h, hmap]

/-- Plain text of a string literal is walked over. -/
theorem objectScan_str {body : Bytes} (h : ∀ c ∈ body, c ≠ 34 ∧ c ≠ 92) (depth : Nat) :
    objectScan .str depth body = some (.str, depth) := by
  induction body with
  | nil => rfl
  | cons c body ih =>
    obtain ⟨hquote, hback⟩ := h c mem_cons_self
    have hnext : Mode.str.next c = .str := by simp [Mode.next, hquote, hback]
    rw [objectScan, if_neg (by simp), if_neg (by simp), hnext]
    exact ih fun d hd => h d (mem_cons_of_mem c hd)

/-- How far it is to the first `]` outside string literals. -/
def closeLen : Mode → Bytes → Option Nat
  | _, [] => none
  | mode, c :: rest =>
    if mode = .code ∧ c = 93 then some 0 else (closeLen (mode.next c) rest).map (· + 1)

variable {mode : Mode}

theorem closeLen_lt (h : closeLen mode s = some n) :
    n < s.length := by
  induction s generalizing mode n with
  | nil => cases h
  | cons c rest ih =>
    unfold closeLen at h
    split at h
    · cases h
      simp
    · obtain ⟨k, hk, rfl⟩ := Option.map_eq_some_iff.mp h
      have hlt := ih hk
      simp only [length_cons]
      omega

theorem closeLen_split (h : closeLen mode s = some n) :
    ∃ rest, s = s.take n ++ 93 :: rest := by
  induction s generalizing mode n with
  | nil => cases h
  | cons c rest ih =>
    unfold closeLen at h
    split at h
    · rename_i hclose
      cases h
      exact ⟨rest, by rw [hclose.2]; rfl⟩
    · obtain ⟨k, hk, rfl⟩ := Option.map_eq_some_iff.mp h
      obtain ⟨rest', hrest⟩ := ih hk
      exact ⟨rest', by rw [take_succ_cons, cons_append, ← hrest]⟩

end Packetsonde.Lib
