import Packetsonde.Detect.Sandbox
import Packetsonde.Lib.Append
import Mathlib.Algebra.Order.BigOperators.Group.List

/-!
# Packetsonde — the text of a suggestion (`sandbox_synth.c`, `sandbox_suggest.c`)

`ps_sandbox_synth` prints one line after the other with `snprintf(out + o, cap - o, ..)` and adds up the
lengths that were asked for. Nothing looks at the room that is left: the lines stay in the buffer exactly if
what comes before the last one is no longer than it (`synth_inside_iff`).

A text that fits is a policy again, but not the one that was meant: what stands behind a `#` is part of the
setting. `means_iff` says for which envelopes nothing is lost by it.
-/

namespace Packetsonde.Detect

open Packetsonde.Lib
open List

/-! ## The buffer -/

/-- `ps_sandbox_synth`: the array `out` and what was written. -/
def synthInto (e : UnitEnvelope) (rollup : Int32) (out : Bytes) : Appender :=
  Appender.appendAll ((synthLines e rollup).map (· ++ [10])) (.start out)

def headText (e : UnitEnvelope) (rollup : Int32) : Bytes :=
  (settings e ++ (rules (writePaths e) (threshold rollup)).map Rule.line).flatMap (· ++ [10])

/-- Every write is in the array, and the offset of every call is. -/
structure StaysInside (e : UnitEnvelope) (rollup : Int32) (out : Bytes) : Prop where
  writes : (synthInto e rollup out).InBounds
  offsets : ∀ k < (synthLines e rollup).length,
    (Appender.appendAll (((synthLines e rollup).take k).map (· ++ [10])) (.start out)).off ≤ out.length

theorem synthLines_eq (e : UnitEnvelope) (rollup : Int32) : synthLines e rollup =
    settings e ++ (rules (writePaths e) (threshold rollup)).map Rule.line ++ [learnedLine e] := by
  rw [synthLines, rwRules_eq]

theorem length_rules_le (wr : List Bytes) (thr : Nat) : (rules wr thr).length ≤ 2 * wr.length := by
  have hdirs : (wr.map parentDir).eraseDups.length ≤ wr.length :=
    Nat.le_trans (subperm_of_subset (nodup_eraseDups _) fun _ => mem_eraseDups.mp).length_le
      (Nat.le_of_eq (length_map _))
  have hkept := length_filter_le (fun d => decide (thr ≤ (wr.map parentDir).count d))
    (wr.map parentDir).eraseDups
  have hfiles := length_filter_le (fun p => decide ((wr.map parentDir).count (parentDir p) < thr)) wr
  unfold rules
  simp only [length_append, length_map]
  omega

variable {ls : List Bytes} {k : Nat}

theorem length_lines_le (h : ∀ l ∈ ls, l.length ≤ k) :
    (ls.flatMap (· ++ [10])).length ≤ ls.length * (k + 1) := by
  have hsum := sum_le_card_nsmul (ls.map fun l => (l ++ [10]).length) (k + 1)
    (forall_mem_map.mpr fun l hl => by rw [length_append]; exact Nat.succ_le_succ (h l hl))
  rwa [length_map, smul_eq_mul, ← length_flatMap] at hsum

theorem le_length_lines (h : ∀ l ∈ ls, k ≤ l.length) :
    ls.length * (k + 1) ≤ (ls.flatMap (· ++ [10])).length := by
  have hsum := card_nsmul_le_sum (ls.map fun l => (l ++ [10]).length) (k + 1)
    (forall_mem_map.mpr fun l hl => by rw [length_append]; exact Nat.succ_le_succ (h l hl))
  rwa [length_map, smul_eq_mul, ← length_flatMap] at hsum

theorem length_line_le {wr : List Bytes} (hlen : wr.length ≤ 256) (hshort : ∀ p ∈ wr, p.length < 256)
    {thr : Nat} {r : Rule} (hr : r ∈ rules wr thr) : r.line.length ≤ 303 := by
  obtain ⟨p, hp, hprefix⟩ := path_of_mem_rules hr
  have hpath := hprefix.length_le
  have hp := hshort p hp
  have hcomment : r.comment.length ≤ 32 := Rule.comment_length_le fun d n heq =>
    Nat.le_trans (count_of_mem_rules (heq ▸ hr)) hlen
  rw [Rule.line, length_append, length_append]
  show 15 + _ + _ ≤ 303
  omega

/-- The offset cannot come round again. -/
theorem length_headText_lt (e : UnitEnvelope) (rollup : Int32) : (headText e rollup).length < 2 ^ 64 := by
  have hsettings : ∀ l ∈ settings e, l.length ≤ 303 := by
    unfold settings
    cases e.touchedHome <;> cases e.usedTmp <;> cases execFromWritable e <;> decide
  have hlines : (settings e ++ (rules (writePaths e) (threshold rollup)).map Rule.line).length ≤ 5 + 2 * 256 := by
    have hfive : (settings e).length ≤ 5 := by
      unfold settings
      cases e.touchedHome <;> cases e.usedTmp <;> cases execFromWritable e <;> decide
    have hrules := length_rules_le (writePaths e) (threshold rollup)
    have hpaths := length_writePaths e
    rw [length_append, length_map]
    omega
  refine Nat.lt_of_le_of_lt (length_lines_le (forall_mem_append.mpr ⟨hsettings, ?_⟩)) ?_
  · exact forall_mem_map.mpr fun r hr => length_line_le (length_writePaths e) (writePaths_short e) hr
  · exact Nat.lt_of_le_of_lt (Nat.mul_le_mul_right 304 hlines) (by decide)

section Buffer

variable (e : UnitEnvelope) (rollup : Int32) {out : Bytes} (hcap : 1 ≤ out.length)

include hcap

theorem synthInto_inBounds : (synthInto e rollup out).InBounds ↔ (headText e rollup).length ≤ out.length := by
  have hwrap := length_headText_lt e rollup
  have hstart : (Appender.start out).InBounds := forall_mem_nil _
  have hlines : (synthLines e rollup).map (· ++ [10]) =
      (settings e ++ (rules (writePaths e) (threshold rollup)).map Rule.line).map (· ++ [10]) ++
        [learnedLine e ++ [10]] := by
    rw [synthLines_eq, map_append, map_singleton]
  have hall := (Appender.appended_start out).inBounds_appendAll hcap
    ((settings e ++ (rules (writePaths e) (threshold rollup)).map Rule.line).map (· ++ [10]))
    (learnedLine e ++ [10]) (by rw [nil_append, ← flatMap_def]; exact Nat.lt_add_left _ hwrap)
  rw [synthInto, hlines, hall, nil_append, ← flatMap_def, and_iff_right hstart]
  rfl

/-- The offset after some of the lines. -/
theorem off_take (k : Nat) :
    (Appender.appendAll (((synthLines e rollup).take k).map (· ++ [10])) (.start out)).off =
      (((synthLines e rollup).take k).flatMap (· ++ [10])).length := by
  rw [((Appender.appended_start out).appendAll hcap _).off_eq, nil_append, flatMap_def]

/-- The calls stay in the array exactly if what is printed before the last line is no longer than it. -/
theorem synth_inside_iff : StaysInside e rollup out ↔ (headText e rollup).length ≤ out.length := by
  constructor
  · exact fun h => (synthInto_inBounds e rollup hcap).mp h.writes
  · intro h
    refine ⟨(synthInto_inBounds e rollup hcap).mpr h, fun k hk => ?_⟩
    rw [synthLines_eq, length_append, length_singleton] at hk
    have htake : (synthLines e rollup).take k =
        (settings e ++ (rules (writePaths e) (threshold rollup)).map Rule.line).take k := by
      rw [synthLines_eq, take_append_of_le_length (Nat.le_of_lt_succ hk)]
    rw [off_take e rollup hcap, htake]
    refine Nat.le_trans ?_ h
    rw [headText, ← take_append_drop k (settings e ++ _), flatMap_append, length_append,
      take_append_drop]
    exact Nat.le_add_right _ _

end Buffer

theorem service_inside : ∃ out : Bytes, out.length = 600 ∧ StaysInside (learn none serviceRecords) 2 out := by
  have hlen : (List.replicate 600 (0 : UInt8)).length = 600 := length_replicate
  refine ⟨_, hlen, (synth_inside_iff (learn none serviceRecords) 2 (by omega)).mpr ?_⟩
  rw [hlen]
  decide +kernel

variable {wr : List Bytes} {n : Nat}

/-- Below the threshold every path has a rule of its own. -/
theorem rules_of_lt {thr : Nat} (h : wr.length < thr) : rules wr thr = wr.map .file := by
  have hcount (d : Bytes) : (wr.map parentDir).count d < thr :=
    Nat.lt_of_le_of_lt (Nat.le_trans count_le_length (Nat.le_of_eq (length_map _))) h
  have hdirs : (wr.map parentDir).eraseDups.filter (fun d => decide (thr ≤ (wr.map parentDir).count d)) = [] :=
    filter_eq_nil_iff.mpr fun d _ => by simpa using hcount d
  have hfiles : wr.filter (fun p => decide ((wr.map parentDir).count (parentDir p) < thr)) = wr :=
    filter_eq_self.mpr fun p _ => by simpa using hcount (parentDir p)
  unfold rules
  dsimp only
  rw [hdirs, hfiles, map_nil, nil_append]

/-- An envelope with some paths that were written, and one that was executed. -/
def writer (path : Nat → Field 256) (n : Nat) (h : n ≤ 256) (ex : PathSet) : UnitEnvelope :=
  { UnitEnvelope.init none with wr := ⟨(List.range n).map path, by rw [length_map, length_range]; exact h⟩, ex }

theorem writePaths_writer (path : Nat → Field 256) (h : n ≤ 256) (ex : PathSet) :
    writePaths (writer path n h ex) = (List.range n).map fun i => (path i).bytes := by
  rw [writePaths, writer, map_map]
  rfl

def longPath (i : Nat) : Field 256 where
  bytes := 47 :: (List.replicate 253 97 ++ [UInt8.ofNat (i % 255 + 1)])
  length_lt := by
    rw [length_cons, length_append, length_replicate, length_singleton]
    decide
  noNul := by
    have hlast : 0 ≠ UInt8.ofNat (i % 255 + 1) := fun h => by
      have hnat := congrArg UInt8.toNat h
      rw [UInt8.toNat_ofNat_of_lt' (show i % 255 + 1 < 256 by omega)] at hnat
      exact absurd hnat (Nat.succ_ne_zero _).symm
    rw [mem_cons, mem_append, mem_singleton, not_or, not_or]
    exact ⟨by decide, fun h => absurd (eq_of_mem_replicate h) (by decide), hlast⟩

theorem length_longPath (i : Nat) : (longPath i).bytes.length = 255 := by
  rw [longPath, length_cons, length_append, length_replicate, length_singleton]

/-- The rules for paths of 255 bytes that are not put together. -/
theorem le_length_headText (hn : n ≤ 256) {rollup : Int32} (hthr : n < threshold rollup) :
    n * 286 ≤ (headText (writer longPath n hn .empty) rollup).length := by
  have hpaths := writePaths_writer longPath hn .empty
  have hlen : (writePaths (writer longPath n hn .empty)).length = n := by
    rw [hpaths, length_map, length_range]
  have hlong : ∀ l ∈ (rules (writePaths (writer longPath n hn .empty)) (threshold rollup)).map Rule.line,
      285 ≤ l.length := by
    rw [rules_of_lt (by rwa [hlen]), hpaths]
    simp only [forall_mem_map]
    intro i _
    rw [Rule.line, length_append, length_append, Rule.path, length_longPath]
    exact Nat.le_refl _
  have hmany := le_length_lines hlong
  rw [length_map, rules_of_lt (by rwa [hlen]), length_map, hlen] at hmany
  rw [headText, flatMap_append, length_append, rules_of_lt (by rwa [hlen])]
  exact Nat.le_trans hmany (Nat.le_add_left _ _)

/-- 240 paths of 255 bytes, none of which is put together with others, are more than the 65536 bytes of the
command; and into one byte not even the second line can be printed. -/
theorem long_paths_escape :
    (∀ out : Bytes, out.length = 65536 → ¬ StaysInside (writer longPath 240 (by decide) .empty) 300 out) ∧
      ¬ StaysInside (UnitEnvelope.init none) 5 [0] := by
  constructor
  · intro out hout h
    have hle := (synthInto_inBounds _ _ (by omega)).mp h.writes
    have hlong := le_length_headText (show 240 ≤ 256 by decide) (show 240 < threshold 300 by decide)
    omega
  · exact fun h => absurd ((synthInto_inBounds _ _ (by decide)).mp h.writes) (by decide +kernel)

/-! ## What the text means -/

/-- The policy is the one the suggestion describes. -/
structure Means (e : UnitEnvelope) (rollup : Int32) (p : UnitPolicy) : Prop where
  rw : (rules (writePaths e) (threshold rollup)).length ≤ polMaxPaths →
    p.rw.paths = (rules (writePaths e) (threshold rollup)).map Rule.path
  system : p.protectSystem = .strict
  home : p.protectHome = .inaccessible ↔ e.touchedHome = false
  mdwe : p.mdwe = true ↔ execFromWritable e = false

theorem derive_synth {e : UnitEnvelope} {rollup : Int32} {cap : Nat} {out : Bytes}
    (hout : sandboxSynth e rollup cap = some out)
    (hfits : ∀ r ∈ rules (writePaths e) (threshold rollup), r.Fits) :
    unitPolicyDerive out = ⟨false, .strict, if e.touchedHome then .no else .inaccessible, e.usedTmp, false,
        ((rules (writePaths e) (threshold rollup)).flatMap Rule.words).foldl PathList.add .empty, .empty,
        .empty⟩ := by
  rw [sandboxSynth_eq hout, derive_lines (synthLines_break hfits)]
  exact derive_synthLines hfits false

theorem rules_ne_nil {p : Bytes} (hp : p ∈ wr) (thr : Nat) : rules wr thr ≠ [] := by
  rcases Nat.lt_or_ge ((wr.map parentDir).count (parentDir p)) thr with hlt | hge
  · exact ne_nil_of_mem (mem_append_right _ (mem_map_of_mem
      (mem_filter.mpr ⟨hp, decide_eq_true hlt⟩)))
  · exact ne_nil_of_mem (mem_append_left _ (mem_map_of_mem (mem_filter.mpr
      ⟨mem_eraseDups.mpr (mem_map_of_mem hp), decide_eq_true hge⟩)))

/-- Every rule has at least two words in its comment. -/
theorem two_mul_le_words (rs : List Rule) : 2 * rs.length ≤ (rs.flatMap Rule.words).length := by
  have hsum := card_nsmul_le_sum (rs.map fun r => r.words.length) 2
    (forall_mem_map.mpr fun r _ => by
      rw [Rule.words, length_append]
      cases r with
      | dir d n => exact Nat.le_add_left_of_le (by decide : 2 ≤ 4)
      | file p => exact Nat.le_add_left_of_le (Nat.le_refl 2))
  rwa [length_map, smul_eq_mul, Nat.mul_comm, ← length_flatMap] at hsum

/-- The comments are read as paths, so the policy has other paths than the rules, unless there are too many
rules to say, or 64 that name the words of their own lines; and `yes` with a comment is not `yes`, so the
setting is right only if it is left out. -/
theorem means_iff {e : UnitEnvelope} {rollup : Int32} {cap : Nat} {out : Bytes}
    (hpaths : ∀ p ∈ writePaths e, (32 : UInt8) ∉ p ∧ (10 : UInt8) ∉ p)
    (hout : sandboxSynth e rollup cap = some out) :
    Means e rollup (unitPolicyDerive out) ↔ execFromWritable e = true ∧
      polMaxPaths ≤ (rules (writePaths e) (threshold rollup)).length ∧
      ((rules (writePaths e) (threshold rollup)).length = polMaxPaths →
        (rules (writePaths e) (threshold rollup)).map Rule.path =
          ((rules (writePaths e) (threshold rollup)).flatMap Rule.words).take polMaxPaths) := by
  have hbreak : ∀ r ∈ rules (writePaths e) (threshold rollup), (10 : UInt8) ∉ r.path := by
    intro r hr hmem
    obtain ⟨p, hp, hpre⟩ := path_of_mem_rules hr
    exact (hpaths p hp).2 (hpre.subset hmem)
  have hfits := rules_fits (length_writePaths e) (writePaths_short e) hbreak
  have hrw := rw_derive hfits
  rw [derive_synth hout hfits]
  constructor
  · intro h
    have hexec : execFromWritable e = true := by
      have hmdwe := h.mdwe
      simpa using hmdwe
    have hne : rules (writePaths e) (threshold rollup) ≠ [] := by
      obtain ⟨x, -, hx⟩ := any_eq_true.mp hexec
      obtain ⟨w, hw, -⟩ := any_eq_true.mp hx
      exact rules_ne_nil (mem_map_of_mem hw) _
    have hpos := length_pos_iff.mpr hne
    have hsame : (rules (writePaths e) (threshold rollup)).length ≤ polMaxPaths →
        ((rules (writePaths e) (threshold rollup)).flatMap Rule.words).take polMaxPaths =
          (rules (writePaths e) (threshold rollup)).map Rule.path := fun hle => hrw.symm.trans (h.rw hle)
    refine ⟨hexec, ?_, fun hfull => (hsame (Nat.le_of_eq hfull)).symm⟩
    -- with fewer rules there are more words than rules in the policy
    rcases Nat.lt_or_ge (rules (writePaths e) (threshold rollup)).length polMaxPaths with hlt | hge
    · have hlen := congrArg List.length (hsame (Nat.le_of_lt hlt))
      have hwords := two_mul_le_words (rules (writePaths e) (threshold rollup))
      rw [length_take, length_map] at hlen
      omega
    · exact hge
  · rintro ⟨hexec, hmany, hfull⟩
    refine ⟨fun hle => ?_, rfl, ?_, ?_⟩
    · rw [hfull (Nat.le_antisymm hle hmany)]
      exact hrw
    · cases e.touchedHome <;> simp
    · simp [hexec]

def shortPath (i : Nat) : Field 256 where
  bytes := [47, UInt8.ofNat (97 + i % 128)]
  length_lt := show 2 < 256 by decide
  noNul := by
    simp only [mem_cons, not_mem_nil, or_false, not_or, ← UInt8.toNat_inj, UInt8.toNat_ofNat']
    exact ⟨by decide, by show 0 ≠ _; omega⟩

/-- A unit that writes 65 files and executes one of them. -/
def manyWrites : UnitEnvelope := writer shortPath 65 (by decide) ⟨[shortPath 0], by decide⟩

/-- No comment is read where there are more rules than a policy has room for. -/
theorem manyWrites_means : ∃ cap out, sandboxSynth manyWrites 100 cap = some out ∧
    Means manyWrites 100 (unitPolicyDerive out) := by
  obtain ⟨cap, out, hout⟩ := exists_synth manyWrites 100
  have hrules : (rules (writePaths manyWrites) (threshold 100)).length = 65 := by decide +kernel
  refine ⟨cap, out, hout, (means_iff (by decide +kernel) hout).mpr ⟨by decide +kernel, ?_, fun h => ?_⟩⟩
  · rw [hrules]
    decide
  · rw [hrules] at h
    exact absurd h (by decide)

/-- For a log and two files of one directory, with nothing executed from there, the policy has eight paths
and no protection of memory. -/
theorem comments_are_paths : ∃ cap out, sandboxSynth (learn none serviceRecords) 2 cap = some out ∧
    (rules (writePaths (learn none serviceRecords)) (threshold 2)).map Rule.path =
      [asc "/var/lib/app", asc "/var/log/app.log"] ∧
    (unitPolicyDerive out).rw.paths = [asc "/var/lib/app", asc "#", asc "generalized:", asc "2", asc "files",
      asc "/var/log/app.log", asc "#", asc "exact"] ∧
    execFromWritable (learn none serviceRecords) = false ∧ (unitPolicyDerive out).mdwe = false := by
  obtain ⟨cap, out, hout⟩ := exists_synth (learn none serviceRecords) 2
  have hfits := rules_fits (length_writePaths (learn none serviceRecords)) (writePaths_short _)
    (by decide : ∀ r ∈ rules (writePaths (learn none serviceRecords)) (threshold 2), (10 : UInt8) ∉ r.path)
  refine ⟨cap, out, hout, by decide +kernel, ?_⟩
  rw [derive_synth hout hfits]
  decide +kernel

end Packetsonde.Detect
