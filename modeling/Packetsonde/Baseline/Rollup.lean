import Packetsonde.Baseline.Monitor
import Packetsonde.Lib.Tally
import Mathlib.Data.List.Perm.Subperm

/-!
# Packetsonde — rolling a baseline up (`ps_blset_rollup` of `baseline_set.c`)

A set with many files of one directory is made smaller: a directory that holds enough of them takes their
place. The function counts the parents of the entries (`dirs` and `dc`), then builds a new set of the
directories that reach the threshold and of the entries whose directory does not.

An entry can be replaced by its parent, since what is under the one is under the other (`under_parent`).
Every directory that is added stands for an entry that is not, so there is room (`length_rolled`).
-/

namespace Packetsonde.Baseline

open Packetsonde.Lib
open List hiding beq_eq_decide

/-! ## The code -/

/-- `parent_dir`, with a buffer of `PS_BL_PATHLEN`. -/
def parentDir (path : Bytes) : Bytes :=
  let len := match lastIdx 47 path with
    | some i => if i ≠ 0 then i else 1
    | none => 1
  let len := if len ≥ blPathLen then blPathLen - 1 else len
  if len = 1 ∧ path.head? = some 47 then [47] else path.take len

/-- `ps_blset_add` of a string in a buffer, with its result dropped. -/
def BaselineSet.addBytes (s : BaselineSet) (b : Bytes) : BaselineSet :=
  (s.add ⟨cstr b, nul_not_mem_cstr b⟩).1

/-- The tables `dirs` and `dc`. -/
def dirCounts (s : BaselineSet) : List (Bytes × Nat) := tally (s.paths.map parentDir)

/-- `dc[k]` for the place `k` of an entry's parent; it is 0 if the parent is not found. -/
def dirCount (s : BaselineSet) (path : Bytes) : Nat :=
  match (dirCounts s).find? (fun e => e.1 = parentDir path) with
  | some e => e.2
  | none => ((dirCounts s).head?.map Prod.snd).getD 0

/-- `ps_blset_rollup`: the set it leaves. -/
def rollup (s : BaselineSet) (threshold : Int32) : BaselineSet :=
  let threshold := if threshold < 1 then 1 else threshold
  let out := BaselineSet.init ⟨cstr s.exe, nul_not_mem_cstr s.exe⟩
  let out := (dirCounts s).foldl
    (fun out e => if (e.2 : Int) ≥ threshold.toInt then out.addBytes e.1 else out) out
  s.paths.foldl
    (fun out p => if (dirCount s p : Int) < threshold.toInt then out.addBytes p else out) out

/-! ## Parents -/

def Absolute (path : Bytes) : Prop := path.head? = some 47

instance (path : Bytes) : Decidable (Absolute path) := inferInstanceAs (Decidable (_ = _))

/-- The directory a path is in: what stands before the slash of its last component, and the root for a
component of the root. -/
def Parent (d path : Bytes) : Prop :=
  ∃ base : Bytes, (47 : UInt8) ∉ base ∧
    (d = [47] ∧ path = 47 :: base ∨ d ≠ [] ∧ path = d ++ 47 :: base)

/-- A string cut at its last `c`. -/
theorem lastIdx_cut {c : UInt8} {s : Bytes} (h : c ∈ s) :
    ∃ d base, s = d ++ c :: base ∧ c ∉ base ∧ lastIdx c s = some d.length := by
  obtain ⟨base, d, hs, hbase⟩ := eq_append_cons_of_mem (mem_reverse.mpr h)
  refine ⟨d.reverse, base.reverse, ?_, by simpa using hbase, ?_⟩
  · rw [← reverse_reverse s, hs]
    simp
  · have hlen : s.length = base.length + d.length + 1 := by
      rw [← length_reverse, hs]
      simp [Nat.add_assoc]
    have hidx : s.reverse.idxOf? c = some base.length := by
      rw [hs]
      exact idxOf?_append_self hbase d
    rw [lastIdx, hidx, Option.map_some, hlen, length_reverse]
    congr 1
    omega

variable {path d p : Bytes}

/-- What `parent_dir` leaves of a path, by what stands before its last slash. -/
theorem parentDir_cut (hidx : lastIdx 47 path = some d.length) (hlen : d.length < blPathLen) :
    parentDir path =
      if d = [] then if path.head? = some 47 then [47] else path.take 1
      else if d.length = 1 ∧ path.head? = some 47 then [47] else path.take d.length := by
  cases d with
  | nil => simp [parentDir, hidx, blPathLen]
  | cons c d =>
    rw [length_cons] at hlen
    simp [parentDir, hidx, Nat.not_le.mpr hlen]

/-- What `parent_dir` leaves of an absolute path is its parent. -/
theorem parentDir_parent (habs : Absolute path) (hlen : path.length < blPathLen) :
    Parent (parentDir path) path := by
  have hmem : (47 : UInt8) ∈ path := mem_of_mem_head? habs
  obtain ⟨d, base, hpath, hbase, hidx⟩ := lastIdx_cut hmem
  have hcut := parentDir_cut hidx (by rw [hpath, length_append] at hlen; omega)
  refine ⟨base, hbase, ?_⟩
  by_cases hd : d = []
  · left
    subst hd
    exact ⟨by rw [hcut, if_pos rfl]; exact if_pos habs, hpath⟩
  · right
    have hdir : parentDir path = d := by
      rw [hcut, if_neg hd]
      split
      · next h =>
        -- One byte before the slash, the first of an absolute path.
        obtain ⟨c, rfl⟩ := length_eq_one_iff.mp h.1
        rw [hpath] at habs
        rw [Option.some.inj habs]
      · rw [hpath, take_left]
    rw [hdir]
    exact ⟨hd, hpath⟩

theorem Parent.ne_nil (h : Parent d path) : d ≠ [] := by
  obtain ⟨base, -, ⟨rfl, -⟩ | ⟨hd, -⟩⟩ := h
  · exact cons_ne_nil _ _
  · exact hd

theorem Parent.isPrefix (h : Parent d path) : d <+: path := by
  obtain ⟨base, -, ⟨rfl, rfl⟩ | ⟨-, rfl⟩⟩ := h
  · exact ⟨base, rfl⟩
  · exact prefix_append _ _

theorem under_iff {path pre : Bytes} :
    under path pre = true ↔
      pre ≠ [] ∧ pre <+: path ∧
        (path.length = pre.length ∨ path[pre.length]? = some 47 ∨ pre.getLast? = some 47) := by
  unfold under
  by_cases hnil : pre = []
  · simp [hnil]
  · by_cases hpre : pre <+: path
    · simp [hnil, hpre]
    · simp [hnil, hpre]

/-- What is under an entry is under its parent. -/
theorem under_parent (hd : Parent d p) (h : under path p = true) :
    under path d = true := by
  obtain ⟨-, hpre, -⟩ := under_iff.mp h
  refine under_iff.mpr ⟨hd.ne_nil, hd.isPrefix.trans hpre, ?_⟩
  obtain ⟨base, -, ⟨rfl, -⟩ | ⟨-, rfl⟩⟩ := hd
  · exact .inr (.inr rfl)
  · obtain ⟨rest, rfl⟩ := hpre
    right; left
    simp [append_assoc]

/-! ## Adding many strings -/

/-- A string that fits into an entry as it is. -/
structure Entry (b : Bytes) : Prop where
  ne_nil : b ≠ []
  short : b.length < blPathLen
  noNul : (0 : UInt8) ∉ b

theorem paths_addBytes {s : BaselineSet} {b : Bytes} (hb : Entry b) (hroom : s.paths.length < blMax) :
    (s.addBytes b).paths = if b ∈ s.paths then s.paths else s.paths ++ [b] := by
  have hcut : b.take (blPathLen - 1) = b := take_of_length_le (Nat.le_sub_one_of_lt hb.short)
  simp only [BaselineSet.addBytes, BaselineSet.add, cstr_eq_self_iff.mpr hb.noNul, hb.ne_nil, hroom]
  by_cases hmem : b ∈ s.paths
  · simp [hmem]
  · simp [hmem, BaselineSet.push, hcut]

/-- Strings for which there is room are all added, each once. -/
theorem addAll_spec (bs : List Bytes) {s : BaselineSet} (hbs : ∀ b ∈ bs, Entry b)
    (hroom : s.paths.length + bs.length ≤ blMax) (hnodup : s.paths.Nodup) :
    let out := bs.foldl BaselineSet.addBytes s
    out.paths.Nodup ∧ (∀ b, b ∈ out.paths ↔ b ∈ s.paths ∨ b ∈ bs) ∧
      out.paths.length ≤ s.paths.length + bs.length := by
  induction bs generalizing s with
  | nil => simpa using hnodup
  | cons b bs ih =>
    rw [length_cons] at hroom
    have hadd := paths_addBytes (hbs b mem_cons_self) (s := s) (by omega)
    have hlen : (s.addBytes b).paths.length ≤ s.paths.length + 1 := by
      rw [hadd]
      split <;> simp
    have hmem : ∀ x, x ∈ (s.addBytes b).paths ↔ x ∈ s.paths ∨ x = b := by
      intro x
      rw [hadd]
      split
      · next h => exact ⟨.inl, fun hx => hx.elim id (· ▸ h)⟩
      · simp
    have hnd : (s.addBytes b).paths.Nodup := by
      rw [hadd]
      split
      · exact hnodup
      · next h => simpa [nodup_append] using ⟨hnodup, fun x hx hxb => h (hxb ▸ hx)⟩
    obtain ⟨h1, h2, h3⟩ := ih (fun x hx => hbs x (mem_cons_of_mem _ hx)) (by omega) hnd
    refine ⟨h1, fun x => ?_, ?_⟩
    · rw [foldl_cons, h2, hmem, mem_cons, or_assoc]
    · rw [foldl_cons, length_cons]
      omega

/-! ## The new set -/

theorem count_parents (paths : List Bytes) (d : Bytes) :
    (paths.map parentDir).count d = paths.countP (parentDir · = d) := by
  rw [List.count, countP_map]
  exact countP_congr fun p _ => by simp

/-- The count of an entry's directory. -/
theorem dirCount_eq {s : BaselineSet} (hp : p ∈ s.paths) :
    dirCount s p = s.paths.countP (parentDir · = parentDir p) := by
  have hfind := find_tally (mem_map_of_mem hp (f := parentDir))
  simp only [beq_eq_decide] at hfind
  rw [dirCount, dirCounts, hfind]
  exact count_parents s.paths _

/-- What the function adds, in its order. -/
def rolled (s : BaselineSet) (threshold : Int) : List Bytes :=
  ((dirCounts s).filter fun e => (e.2 : Int) ≥ threshold).map Prod.fst ++
    s.paths.filter fun p => (dirCount s p : Int) < threshold

def atLeastOne (threshold : Int32) : Int32 := if threshold < 1 then 1 else threshold

theorem rollup_eq (s : BaselineSet) (threshold : Int32) :
    rollup s threshold =
      (rolled s (atLeastOne threshold).toInt).foldl BaselineSet.addBytes
        (BaselineSet.init ⟨cstr s.exe, nul_not_mem_cstr s.exe⟩) := by
  rw [rolled, foldl_append, foldl_map, foldl_filter, foldl_filter]
  simp only [decide_eq_true_eq]
  rfl

theorem le_atLeastOne (threshold : Int32) : threshold.toInt ≤ (atLeastOne threshold).toInt := by
  unfold atLeastOne
  split
  · next h => exact Int.le_of_lt (Int32.lt_iff_toInt_lt.mp h)
  · exact Int.le_refl _

section Rolled

variable {s : BaselineSet} {t : Int}

/-- A directory the function adds is the parent of enough entries. -/
theorem mem_dirs_iff {d : Bytes} :
    d ∈ ((dirCounts s).filter fun e => (e.2 : Int) ≥ t).map Prod.fst ↔
      d ∈ s.paths.map parentDir ∧ t ≤ (s.paths.countP (parentDir · = d) : Int) := by
  simp only [mem_map, mem_filter, Prod.exists, exists_and_right, exists_eq_right, dirCounts,
    mem_tally, ge_iff_le, decide_eq_true_eq]
  constructor
  · rintro ⟨n, ⟨hd, rfl⟩, ht⟩
    exact ⟨hd, by rwa [count_parents] at ht⟩
  · rintro ⟨hd, ht⟩
    exact ⟨_, ⟨hd, rfl⟩, by rwa [count_parents]⟩

/-- Every directory that is added stands for an entry that is not. -/
theorem length_rolled : (rolled s t).length ≤ s.paths.length := by
  let big : Bytes → Bool := fun p => t ≤ (dirCount s p : Int)
  have hnodup : (((dirCounts s).filter fun e => (e.2 : Int) ≥ t).map Prod.fst).Nodup :=
    (nodup_tally _).sublist (filter_sublist.map _)
  have hsub : ((dirCounts s).filter fun e => (e.2 : Int) ≥ t).map Prod.fst ⊆
      (s.paths.filter big).map parentDir := by
    intro d hd
    obtain ⟨hmem, ht⟩ := mem_dirs_iff.mp hd
    obtain ⟨p, hp, rfl⟩ := mem_map.mp hmem
    exact mem_map_of_mem (mem_filter.mpr ⟨hp, by simpa [big, dirCount_eq hp] using ht⟩)
  have hdirs := (subperm_of_subset hnodup hsub).length_le
  have hsmall : (s.paths.filter fun p => (dirCount s p : Int) < t) = s.paths.filter fun p => !big p := by
    refine filter_congr fun p _ => ?_
    rw [← decide_not]
    exact decide_eq_decide.mpr Int.not_le.symm
  have hsplit := length_eq_length_filter_add big (l := s.paths)
  rw [rolled, length_append, hsmall]
  simp only [length_map] at hdirs ⊢
  omega

/-- What the function adds fits into an entry. -/
theorem entry_of_mem_rolled (habs : ∀ p ∈ s.paths, Absolute p) {b : Bytes} (hb : b ∈ rolled s t) :
    Entry b := by
  rcases mem_append.mp hb with hb | hb
  · obtain ⟨p, hp, rfl⟩ := mem_map.mp (mem_dirs_iff.mp hb).1
    have hparent := parentDir_parent (habs p hp) (s.short p hp)
    exact
      { ne_nil := hparent.ne_nil
        short := Nat.lt_of_le_of_lt hparent.isPrefix.length_le (s.short p hp)
        noNul := fun h0 => s.noNul p hp (hparent.isPrefix.subset h0) }
  · have hp := (mem_filter.mp hb).1
    have hne : b ≠ [] := by
      rintro rfl
      exact nomatch habs [] hp
    exact ⟨hne, s.short b hp, s.noNul b hp⟩

end Rolled

/-- What a rollup must keep and what it may add. -/
structure RolledUp (s s' : BaselineSet) (threshold : Int32) : Prop where
  covers : ∀ path, s.covered path = true → s'.covered path = true
  length_le : s'.paths.length ≤ s.paths.length
  nodup : s'.paths.Nodup
  entries : ∀ p ∈ s'.paths, p ∈ s.paths ∨
    ∃ qs : List Bytes, qs.Nodup ∧ qs ⊆ s.paths ∧ threshold.toInt ≤ qs.length ∧ ∀ q ∈ qs, Parent p q

/-- Rolling up a set of distinct absolute paths. -/
theorem rollup_keeps_coverage (s : BaselineSet) (threshold : Int32) (hnodup : s.paths.Nodup)
    (habs : ∀ p ∈ s.paths, Absolute p) : RolledUp s (rollup s threshold) threshold := by
  have hroom : (rolled s (atLeastOne threshold).toInt).length ≤ blMax :=
    Nat.le_trans length_rolled s.length_le
  obtain ⟨hnd, hmem, hlen⟩ := addAll_spec (rolled s (atLeastOne threshold).toInt)
    (s := BaselineSet.init ⟨cstr s.exe, nul_not_mem_cstr s.exe⟩)
    (fun _ => entry_of_mem_rolled habs) (by simpa [BaselineSet.init] using hroom) nodup_nil
  rw [← rollup_eq] at hnd hmem hlen
  replace hmem : ∀ b, b ∈ (rollup s threshold).paths ↔ b ∈ rolled s (atLeastOne threshold).toInt := by
    simpa [BaselineSet.init] using hmem
  have hparent : ∀ p ∈ s.paths, Parent (parentDir p) p := fun p hp =>
    parentDir_parent (habs p hp) (s.short p hp)
  refine ⟨fun path hpath => ?_, ?_, hnd, fun b hb => ?_⟩
  · obtain ⟨p, hp, hunder⟩ := any_eq_true.mp hpath
    refine any_eq_true.mpr ?_
    by_cases hbig : (atLeastOne threshold).toInt ≤ (dirCount s p : Int)
    · refine ⟨parentDir p, (hmem _).mpr (mem_append_left _ ?_), under_parent (hparent p hp) hunder⟩
      exact mem_dirs_iff.mpr ⟨mem_map_of_mem hp, by rwa [← dirCount_eq hp]⟩
    · refine ⟨p, (hmem _).mpr (mem_append_right _ ?_), hunder⟩
      exact mem_filter.mpr ⟨hp, by simpa using hbig⟩
  · exact Nat.le_trans hlen (by simpa [BaselineSet.init] using length_rolled)
  · rcases mem_append.mp ((hmem b).mp hb) with hb | hb
    · right
      refine ⟨s.paths.filter (parentDir · = b), hnodup.filter _, filter_subset_self _, ?_, fun q hq => ?_⟩
      · have hcount := (mem_dirs_iff.mp hb).2
        rw [countP_eq_length_filter] at hcount
        exact Int.le_trans (le_atLeastOne threshold) hcount
      · obtain ⟨hq, hdir⟩ := mem_filter.mp hq
        exact of_decide_eq_true hdir ▸ hparent q hq
    · exact .inl (mem_filter.mp hb).1

def threeFiles : BaselineSet where
  exe := asc "/usr/bin/tool"
  paths := [asc "/usr/lib/a", asc "/etc/x", asc "/usr/lib/b"]
  length_le := by decide
  short := by decide
  noNul := by decide

theorem threeFiles_rolled :
    RolledUp threeFiles (rollup threeFiles 2) 2 ∧
      (rollup threeFiles 2).paths = [asc "/usr/lib", asc "/etc/x"] :=
  ⟨rollup_keeps_coverage threeFiles 2 (by decide) (by decide), by decide +kernel⟩

end Packetsonde.Baseline
