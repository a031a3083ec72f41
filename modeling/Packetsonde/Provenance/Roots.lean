import Packetsonde.Lib.Chars
import Mathlib.Data.List.DropRight

/-!
# Packetsonde — configured roots (`path_in_set` of `provenance.c`, `ps_fan_path_under_csv` of `fan_monitor.c`)

The roots whose files are watched stand in a list with commas. Two functions say whether a path is under one of
them: the event filter, which splits a copy of the list with `strtok`, and the classifier, which walks over the
list itself. Both are a search through the items (`underCsvFrom_eq`, `pathInSetFrom_eq`), and both ignore
slashes at the end of an item.

They differ in an item of slashes only, which is the root of all paths for the filter and nothing for the
classifier, and in what is left of a list that is longer than the copy (`matchers_agree_iff`). Where they
agree, nothing is classified that the filter drops, and a write under a root is classified if it makes an
executable or the root is sensitive: `filter_and_classifier_agree`.
-/

namespace Packetsonde.Provenance

open Packetsonde.Lib
open List

/-! ## The code

Strings are the bytes before their NUL, and a pointer into one is what stands from there on. -/

/-- `while (len > min && p[len - 1] == '/') len--`. -/
def trimLen (min : Nat) (p : Bytes) : Nat → Nat
  | 0 => 0
  | n + 1 => if min < n + 1 ∧ p[n]? = some 47 then trimLen min p n else n + 1

/-- The test of an item in `path_in_set`. -/
def itemHolds (path item : Bytes) : Bool :=
  let len := trimLen 0 item item.length
  0 < len ∧ item.take len <+: path ∧ (path.length = len ∨ path[len]? = some 47)

/-- The loop of `path_in_set`. -/
def pathInSetFrom (path p : Bytes) : Bool :=
  if p = [] then false
  else if itemHolds path (p.takeWhile (· != 44)) then true
  else
    match _h : p.dropWhile (· != 44) with
    | [] => false
    | _ :: rest => pathInSetFrom path rest
termination_by p.length
decreasing_by
  have hle := (dropWhile_suffix (l := p) (· != 44)).length_le
  rw [_h, length_cons] at hle
  omega

/-- `path_in_set`. -/
def pathInSet (path set : Bytes) : Bool := if set = [] then false else pathInSetFrom path set

/-- The test of a token in `ps_fan_path_under_csv`. -/
def tokenHolds (path tok : Bytes) : Bool :=
  let plen := trimLen 1 tok tok.length
  plen ≠ 0 ∧ tok.take plen <+: path ∧
    (tok[plen - 1]? = some 47 ∨ path[plen]? = some 47 ∨ path.length = plen)

/-- The loop of `ps_fan_path_under_csv`. `strtok` skips commas, takes the bytes up to the next one and goes on
behind that one. -/
def underCsvFrom (path p : Bytes) : Bool :=
  match h : p.dropWhile (· == 44) with
  | [] => false
  | c :: rest =>
    if tokenHolds path ((c :: rest).takeWhile (· != 44)) then true
    else underCsvFrom path (rest.dropWhile (· != 44)).tail
termination_by p.length
decreasing_by
  have hle := (dropWhile_suffix (l := p) (· == 44)).length_le
  have hrest := (dropWhile_suffix (l := rest) (· != 44)).length_le
  rw [h, length_cons] at hle
  rw [length_tail]
  omega

/-- `ps_fan_path_under_csv`. -/
def pathUnderCsv (path csv : Bytes) : Bool :=
  if csv = [] ∨ path = [] then false else underCsvFrom path (csv.take 4095)

/-- `struct ps_prov_cfg`. -/
structure ProvCfg where
  enabled : Bool
  transientPaths : Bytes
  sensitivePaths : Bytes

/-- `mode & (S_IXUSR | S_IXGRP | S_IXOTH)`. -/
def isExecutable (mode : UInt32) : Bool := mode &&& 0o111 ≠ 0

/-- `ps_provenance_classify`. -/
def provenanceClassify (event path : Bytes) (mode : UInt32) (cfg : ProvCfg) : Bytes :=
  if cfg.enabled = false then []
  else if event = asc "write" then
    if pathInSet path cfg.sensitivePaths then asc "write_sensitive_path"
    else if isExecutable mode ∧ pathInSet path cfg.transientPaths then asc "write_executable"
    else []
  else if event = asc "exec" then
    if pathInSet path cfg.transientPaths then asc "exec_from_transient" else []
  else []

def underRoots (path : Bytes) (cfg : ProvCfg) : Bool :=
  cfg.enabled && (pathUnderCsv path cfg.transientPaths || pathUnderCsv path cfg.sensitivePaths)

/-- The events that `ps_fan_monitor_run` goes on with. -/
def fanKeeps (watchPaths : Bytes) (cfg : ProvCfg) (event path : Bytes) : Bool :=
  event = asc "exec" || pathUnderCsv path watchPaths || underRoots path cfg

/-! ## Items -/

def trimmed (item : Bytes) : Bytes := item.rdropWhile (· == 47)

def Covers (item path : Bytes) : Prop :=
  trimmed item ≠ [] ∧ (path = trimmed item ∨ trimmed item ++ [47] <+: path)

def IsRoot (item : Bytes) : Prop := item ≠ [] ∧ trimmed item = []

def Listed (path csv : Bytes) : Prop := ∃ item ∈ csv.splitOn 44, Covers item path

def HasRoot (csv : Bytes) : Prop := ∃ item ∈ csv.splitOn 44, IsRoot item

instance (path csv : Bytes) : Decidable (Listed path csv) :=
  inferInstanceAs (Decidable (∃ item ∈ csv.splitOn 44,
    trimmed item ≠ [] ∧ (path = trimmed item ∨ trimmed item ++ [47] <+: path)))

instance (csv : Bytes) : Decidable (HasRoot csv) :=
  inferInstanceAs (Decidable (∃ item ∈ csv.splitOn 44, item ≠ [] ∧ trimmed item = []))

theorem trimmed_concat (l : Bytes) (c : UInt8) : trimmed (l ++ [c]) = if c = 47 then trimmed l else l ++ [c] := by
  rw [trimmed, rdropWhile_concat]
  simp only [beq_iff_eq]
  rfl

theorem trimLen_append {min : Nat} {l : Bytes} (r : Bytes) {n : Nat} (hn : n ≤ l.length) :
    trimLen min (l ++ r) n = trimLen min l n := by
  induction n with
  | zero => rfl
  | succ n ih => rw [trimLen, trimLen, getElem?_append_left hn, ih (by omega)]

theorem trimLen_le (min : Nat) (p : Bytes) (n : Nat) : trimLen min p n ≤ n := by
  fun_induction trimLen min p n <;> omega

theorem trimLen_concat (min : Nat) (l : Bytes) (c : UInt8) :
    trimLen min (l ++ [c]) (l ++ [c]).length =
      if min ≤ l.length ∧ c = 47 then trimLen min l l.length else l.length + 1 := by
  rw [length_append, length_singleton, trimLen, getElem?_concat_length,
    trimLen_append _ le_rfl]
  simp only [Nat.lt_succ_iff, Option.some.injEq]

theorem take_trimLen_concat (l : Bytes) (c : UInt8) (min : Nat) :
    (l ++ [c]).take (trimLen min l l.length) = l.take (trimLen min l l.length) :=
  take_append_of_le_length (trimLen_le min l l.length)

/-- What the classifier compares of an item. -/
theorem take_trimLen_zero (item : Bytes) : item.take (trimLen 0 item item.length) = trimmed item := by
  induction item using List.reverseRecOn with
  | nil => rfl
  | append_singleton l c ih =>
    rw [trimLen_concat, trimmed_concat]
    by_cases hc : c = 47
    · rw [if_pos ⟨Nat.zero_le _, hc⟩, if_pos hc, take_trimLen_concat, ih]
    · rw [if_neg (fun h => hc h.2), if_neg hc]
      exact take_of_length_le (by simp)

/-- What the filter compares of an item: it keeps the first of the slashes of an item that has nothing else. -/
theorem take_trimLen_one (item : Bytes) :
    item.take (trimLen 1 item item.length) = if trimmed item = [] then item.take 1 else trimmed item := by
  induction item using List.reverseRecOn with
  | nil => rfl
  | append_singleton l c ih =>
    rw [trimLen_concat, trimmed_concat]
    by_cases hc : c = 47
    · rw [if_pos hc]
      by_cases hl : 1 ≤ l.length
      · rw [if_pos ⟨hl, hc⟩, take_trimLen_concat, ih, take_append_of_le_length hl]
      · obtain rfl : l = [] := length_eq_zero_iff.mp (by omega)
        subst hc
        rfl
    · rw [if_neg (fun h => hc h.2), if_neg hc, if_neg (by simp)]
      exact take_of_length_le (by simp)

theorem length_take_trimLen (min : Nat) (item : Bytes) :
    (item.take (trimLen min item item.length)).length = trimLen min item item.length :=
  length_take_of_le (trimLen_le min item item.length)

/-- A byte string at the front of a path that ends there or goes on with a slash. -/
theorem boundary_iff (t path : Bytes) :
    t <+: path ∧ (path.length = t.length ∨ path[t.length]? = some 47) ↔ path = t ∨ t ++ [47] <+: path := by
  constructor
  · rintro ⟨⟨rest, rfl⟩, h⟩
    cases rest with
    | nil => exact .inl (append_nil t)
    | cons c rest =>
      refine .inr ⟨rest, ?_⟩
      simp only [length_append, length_cons, getElem?_append_right, le_refl, Nat.sub_self,
        getElem?_cons_zero, Option.some.injEq] at h
      rw [h.resolve_left (by omega), append_assoc, singleton_append]
  · rintro (rfl | ⟨rest, rfl⟩)
    · exact ⟨prefix_rfl, .inl rfl⟩
    · simp

theorem itemHolds_iff (path item : Bytes) : itemHolds path item ↔ Covers item path := by
  have hlen := length_take_trimLen 0 item
  rw [take_trimLen_zero] at hlen
  simp only [itemHolds, decide_eq_true_eq, take_trimLen_zero]
  rw [← hlen, boundary_iff, length_pos_iff, Covers]

theorem eq_slash_of_trimmed {item : Bytes} (h : trimmed item = []) : ∀ c ∈ item, c = 47 := by
  intro c hc
  exact beq_iff_eq.mp (rdropWhile_eq_nil_iff.mp h c hc)

/-- The last byte of an item is no slash once the slashes are gone. -/
theorem getLast?_trimmed (item : Bytes) : (trimmed item).getLast? ≠ some 47 := by
  induction item using List.reverseRecOn with
  | nil => exact nofun
  | append_singleton l c ih =>
    rw [trimmed_concat]
    split
    · exact ih
    · rename_i hc
      rw [getLast?_concat]
      exact fun h => hc (Option.some.inj h)

theorem tokenHolds_iff (path tok : Bytes) :
    tokenHolds path tok ↔ (IsRoot tok ∧ path.head? = some 47) ∨ Covers tok path := by
  have hlen := length_take_trimLen 1 tok
  have htake := take_trimLen_one tok
  simp only [tokenHolds, decide_eq_true_eq, IsRoot, Covers]
  by_cases ht : trimmed tok = []
  · rw [if_pos ht] at htake
    cases tok with
    | nil => simp [trimLen, ht]
    | cons c tok =>
      obtain rfl : c = 47 := eq_slash_of_trimmed ht c mem_cons_self
      rw [htake, take_succ_cons, take_zero] at hlen ⊢
      rw [← hlen]
      cases path with
      | nil => simp [ht]
      | cons d path =>
        simpa [ht] using eq_comm
  · rw [if_neg ht] at htake
    rw [htake] at hlen ⊢
    -- the byte the filter looks at is the last one that is left
    have hlast : tok[(trimmed tok).length - 1]? = (trimmed tok).getLast? := by
      have hlt : (trimmed tok).length - 1 < trimLen 1 tok tok.length := by
        have := length_pos_iff.mpr ht
        omega
      have hget := getElem?_take_of_lt (l := tok) hlt
      rw [htake] at hget
      rw [← hget, getLast?_eq_getElem?]
    rw [← hlen, hlast]
    have hpos := length_pos_iff.mpr ht
    simp only [getLast?_trimmed, false_or, ht, and_false, not_false_iff, true_and, ne_eq, hpos.ne',
      or_comm (a := path[_]? = _), boundary_iff]
    simp

/-! ## The two loops -/

theorem splitOn_eq (p : Bytes) :
    p.splitOn 44 = p.takeWhile (· != 44) ::
      match p.dropWhile (· != 44) with
      | [] => []
      | _ :: rest => rest.splitOn 44 := by
  have hitem : (44 : UInt8) ∉ p.takeWhile (· != 44) := fun h => by
    simpa using mem_takeWhile_imp h
  cases hd : p.dropWhile (· != 44) with
  | nil =>
    conv_lhs => rw [← takeWhile_append_dropWhile (p := (· != 44)) (l := p), hd, append_nil]
    exact splitOn_eq_singleton hitem
  | cons c rest =>
    obtain rfl : c = 44 := by
      have := head_dropWhile_not (· != 44) (l := p) (by rw [hd]; exact cons_ne_nil _ _)
      simpa [hd] using this
    conv_lhs => rw [← takeWhile_append_dropWhile (p := (· != 44)) (l := p), hd]
    rw [splitOn_append_cons_self, splitOn_eq_singleton hitem, singleton_append]

/-- The classifier looks through the items. -/
theorem pathInSetFrom_eq (path p : Bytes) : pathInSetFrom path p = (p.splitOn 44).any (itemHolds path) := by
  fun_induction pathInSetFrom path p with
  | case1 => rfl
  | case2 p _ h => rw [splitOn_eq, any_cons, h, Bool.true_or]
  | case3 p _ h hd => rw [splitOn_eq, hd, any_cons, Bool.eq_false_iff.mpr h]; rfl
  | case4 p _ h _ rest hd ih => rw [splitOn_eq, hd, any_cons, Bool.eq_false_iff.mpr h, ih, Bool.false_or]

theorem any_splitOn_dropWhile {f : Bytes → Bool} (hf : f [] = false) (p : Bytes) :
    ((p.dropWhile (· == 44)).splitOn 44).any f = (p.splitOn 44).any f := by
  induction p with
  | nil => rfl
  | cons c p ih =>
    by_cases hc : c = 44
    · subst hc
      rw [dropWhile_cons_of_pos (by rfl), ih]
      have hskip : ((44 : UInt8) :: p).splitOn 44 = [] :: p.splitOn 44 := splitOn_append_cons_self [] p
      rw [hskip, any_cons, hf, Bool.false_or]
    · rw [dropWhile_cons_of_neg (by simpa using hc)]

/-- So does the filter: the items that `strtok` skips are empty. -/
theorem underCsvFrom_eq (path p : Bytes) : underCsvFrom path p = (p.splitOn 44).any (tokenHolds path) := by
  have hnil : tokenHolds path [] = false := rfl
  fun_induction underCsvFrom path p with
  | case1 p hd => rw [← any_splitOn_dropWhile hnil, hd]; rfl
  | case2 p c rest hd h => rw [← any_splitOn_dropWhile hnil, hd, splitOn_eq, any_cons, h, Bool.true_or]
  | case3 p c rest hd h ih =>
    have hc : c ≠ 44 := by
      have := head_dropWhile_not (· == 44) (l := p) (by rw [hd]; exact cons_ne_nil _ _)
      simpa [hd] using this
    rw [← any_splitOn_dropWhile hnil p, hd, splitOn_eq, any_cons, Bool.eq_false_iff.mpr h, Bool.false_or, ih,
      dropWhile_cons_of_pos (by simpa using hc)]
    cases rest.dropWhile (· != 44) with
    | nil => rfl
    | cons _ _ => rfl

theorem pathInSet_iff (path csv : Bytes) : pathInSet path csv ↔ Listed path csv := by
  have hloop : pathInSet path csv = pathInSetFrom path csv := by
    rw [pathInSet]
    split
    · next h => rw [h, pathInSetFrom, if_pos rfl]
    · rfl
  rw [hloop, pathInSetFrom_eq, any_eq_true]
  simp only [itemHolds_iff, Listed]

variable {path csv : Bytes}

theorem pathUnderCsv_iff (habs : path.head? = some 47) (csv : Bytes) :
    pathUnderCsv path csv ↔ HasRoot (csv.take 4095) ∨ Listed path (csv.take 4095) := by
  have hloop : pathUnderCsv path csv = underCsvFrom path (csv.take 4095) := by
    have hne : path ≠ [] := by
      rintro rfl
      cases habs
    rw [pathUnderCsv]
    split
    · next h => rw [h.resolve_right hne, underCsvFrom_eq]; rfl
    · rfl
  rw [hloop, underCsvFrom_eq, any_eq_true]
  simp only [tokenHolds_iff, habs, and_true, HasRoot, Listed, ← exists_or, ← and_or_left]

/-! ## Agreement -/

/-- The path and the list on which filter and classifier say the same. -/
structure Agrees (path csv : Bytes) : Prop where
  /-- No item in the filter's copy is the root of all paths, unless another item covers the path. -/
  roots : HasRoot (csv.take 4095) → Listed path csv
  /-- An item that covers the path is not beyond the end of the copy. -/
  kept : Listed path csv → HasRoot (csv.take 4095) ∨ Listed path (csv.take 4095)
  /-- The item that the end of the copy shortens covers the path only if the list does. -/
  cut : Listed path (csv.take 4095) → Listed path csv

/-- A list that the filter copies whole. -/
theorem agrees_of_short (hlen : csv.length < 4096) (path : Bytes) :
    Agrees path csv ↔ (HasRoot csv → Listed path csv) := by
  have hcopy : csv.take 4095 = csv := take_of_length_le (by omega)
  constructor
  · intro h
    simpa only [hcopy] using h.roots
  · intro h
    rw [← hcopy] at h
    exact ⟨by simpa only [hcopy] using h, by rw [hcopy]; exact .inr, by rw [hcopy]; exact id⟩

theorem matchers_agree_iff (habs : path.head? = some 47) (csv : Bytes) :
    pathUnderCsv path csv = pathInSet path csv ↔ Agrees path csv := by
  rw [Bool.eq_iff_iff, pathUnderCsv_iff habs, pathInSet_iff]
  constructor
  · intro h
    exact ⟨fun hr => h.mp (.inl hr), h.mpr, fun hl => h.mp (.inr hl)⟩
  · intro h
    exact ⟨fun hr => hr.elim h.roots h.cut, h.kept⟩

variable {cfg : ProvCfg} {mode : UInt32}

/-- What is classified is an executed file, or under a root. -/
theorem kept_of_classified (htransient : pathUnderCsv path cfg.transientPaths = pathInSet path cfg.transientPaths)
    (hsensitive : pathUnderCsv path cfg.sensitivePaths = pathInSet path cfg.sensitivePaths)
    (watchPaths event : Bytes) (h : provenanceClassify event path mode cfg ≠ []) :
    fanKeeps watchPaths cfg event path = true := by
  unfold provenanceClassify at h
  unfold fanKeeps underRoots
  rw [htransient, hsensitive]
  grind

theorem write_classified_iff (henabled : cfg.enabled = true) :
    provenanceClassify (asc "write") path mode cfg ≠ [] ↔ pathInSet path cfg.sensitivePaths = true ∨
      isExecutable mode = true ∧ pathInSet path cfg.transientPaths = true := by
  unfold provenanceClassify
  rw [henabled, if_neg (by decide), if_pos rfl]
  split_ifs with hsensitive htransient
  · exact iff_of_true (by decide) (.inl hsensitive)
  · exact iff_of_true (by decide) (.inr htransient)
  · exact iff_of_false (not_not_intro rfl) (not_or.mpr ⟨hsensitive, htransient⟩)

/-- The matchers agree on a path and a list exactly if `Agrees` holds. Where they agree on the roots of the
configuration, nothing is classified that the filter drops; and every write under a root passes the filter and
is classified exactly if the file is executable or one of the sensitive roots covers it. -/
theorem filter_and_classifier_agree (path : Bytes) (habs : path.head? = some 47) :
    (∀ csv, pathUnderCsv path csv = pathInSet path csv ↔ Agrees path csv) ∧
    ∀ (cfg : ProvCfg) (watchPaths : Bytes) (mode : UInt32), Agrees path cfg.transientPaths →
      Agrees path cfg.sensitivePaths →
      (∀ event, provenanceClassify event path mode cfg ≠ [] → fanKeeps watchPaths cfg event path = true) ∧
      (underRoots path cfg = true → fanKeeps watchPaths cfg (asc "write") path = true ∧
        (provenanceClassify (asc "write") path mode cfg ≠ [] ↔
          isExecutable mode = true ∨ pathUnderCsv path cfg.sensitivePaths = true)) := by
  refine ⟨matchers_agree_iff habs, fun cfg watchPaths mode ht hs => ?_⟩
  have htransient := (matchers_agree_iff habs _).mpr ht
  have hsensitive := (matchers_agree_iff habs _).mpr hs
  refine ⟨kept_of_classified htransient hsensitive watchPaths, fun hroots => ⟨?_, ?_⟩⟩
  · rw [fanKeeps, hroots, Bool.or_true]
  · obtain ⟨henabled, hunder⟩ := Bool.and_eq_true_iff.mp hroots
    rw [write_classified_iff henabled, ← hsensitive, ← htransient]
    rw [Bool.or_eq_true] at hunder
    constructor
    · exact fun h => h.symm.imp_left And.left
    · rintro (hmode | hlisted)
      · exact hunder.symm.imp_right fun h => ⟨hmode, h⟩
      · exact .inl hlisted

def serverCfg : ProvCfg := ⟨true, asc "/var/,,/tmp//", asc "/etc"⟩

theorem tmp_write_classified : (asc "/tmp/x").head? = some 47 ∧
    provenanceClassify (asc "write") (asc "/tmp/x") 0o755 serverCfg ≠ [] := by
  have hagrees := filter_and_classifier_agree (asc "/tmp/x") (by decide)
  have hroots := (hagrees.2 serverCfg [] 0o755 ((agrees_of_short (by decide) _).mpr (by decide +kernel))
    ((agrees_of_short (by decide) _).mpr (by decide +kernel))).2 (by decide +kernel)
  exact ⟨by decide, hroots.2.mpr (.inl (by decide))⟩

/-- The list `/`: the filter keeps every file, and the classifier passes over all of them, also over an
executable that is written. -/
theorem slash_unclassified :
    (pathUnderCsv (asc "/srv/x") (asc "/") = true ∧ pathInSet (asc "/srv/x") (asc "/") = false) ∧
      fanKeeps [] ⟨true, asc "/", asc "/"⟩ (asc "write") (asc "/srv/x") = true ∧
      provenanceClassify (asc "write") (asc "/srv/x") 0o755 ⟨true, asc "/", asc "/"⟩ = [] := by
  decide +kernel

end Packetsonde.Provenance
