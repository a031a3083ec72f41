import Packetsonde.Detect.Policy
import Packetsonde.Lib.Field
import Packetsonde.Lib.Tally
import Mathlib.Data.List.DropRight

/-!
# Packetsonde — suggested sandboxes (`unit_envelope.c`, `sandbox_synth.c`)

In learn mode the accesses of a unit are collected in an envelope, and `sandbox-suggest` writes the settings
for it: the file system is read-only but for the paths that were written, where files of one directory are
put together from a threshold on.

The settings are read back with the comments that were put behind them, because a comment at the end of a
line is not one: each comment uses up some of the 64 paths of a policy, a path with a space is more than one
path, and what was executed must not be under any of them. `derive_policyText` says what the policy is, and
`accepts_iff` which envelopes it accepts.
-/

namespace Packetsonde.Detect

open Packetsonde.Lib
open List

/-! ## Envelopes -/

def envMaxPaths : Nat := 256

structure PathSet where
  paths : List (Field 256)
  length_le : paths.length ≤ envMaxPaths

/-- `set_add`, with the `truncated` flag afterwards. The path is compared before it is cut. -/
def PathSet.add (s : PathSet) (path : CString) (truncated : Bool) : PathSet × Bool :=
  if s.paths.any (·.bytes == path.bytes) then (s, truncated)
  else if h : s.paths.length < envMaxPaths then
    (⟨s.paths ++ [Field.copy (some path)], by rw [length_append]; exact h⟩, truncated)
  else (s, true)

def PathSet.empty : PathSet := ⟨[], Nat.zero_le _⟩

/-- `struct ps_unit_envelope`. -/
structure UnitEnvelope where
  unit : Field 128
  rd : PathSet
  wr : PathSet
  ex : PathSet
  touchedHome : Bool
  usedTmp : Bool
  records : Nat
  truncated : Bool

/-- `under` of `unit_envelope.c` and `sandbox_synth.c`. -/
def below (path pre : Bytes) : Bool :=
  pre <+: path ∧ (path.length = pre.length ∨ path[pre.length]? = some 47)

namespace UnitEnvelope

/-- `ps_envelope_init`. -/
def init (unit : Option CString) : UnitEnvelope where
  unit := .copy unit
  rd := .empty
  wr := .empty
  ex := .empty
  touchedHome := false
  usedTmp := false
  records := 0
  truncated := false

def addPath (e : UnitEnvelope) (event path : CString) : UnitEnvelope :=
  if event.bytes = asc "write" then
    let (wr, truncated) := e.wr.add path e.truncated
    { e with wr, truncated }
  else if event.bytes = asc "exec" then
    let (ex, truncated) := e.ex.add path e.truncated
    { e with ex, truncated }
  else
    let (rd, truncated) := e.rd.add path e.truncated
    { e with rd, truncated }

/-- `ps_envelope_add`. -/
def add (e : UnitEnvelope) (event path : CString) : UnitEnvelope :=
  if path.bytes = [] then e
  else
    let e := { e with records := e.records + 1 }.addPath event path
    { e with
      touchedHome := e.touchedHome || below path.bytes (asc "/home") || below path.bytes (asc "/root")
      usedTmp := e.usedTmp || below path.bytes (asc "/tmp") || below path.bytes (asc "/var/tmp") ||
        below path.bytes (asc "/dev/shm") }

end UnitEnvelope

structure Access where
  event : CString
  path : CString
  deriving DecidableEq

def learn (unit : Option CString) (rs : List Access) : UnitEnvelope :=
  rs.foldl (fun e r => e.add r.event r.path) (.init unit)

/-! ## The settings -/

/-- `parent_dir`; without a slash behind the first byte it is the first byte. -/
def parentDir (path : Bytes) : Bytes :=
  let upto := path.rdropWhile (· != 47)
  if upto.length ≤ 1 then path.take 1 else upto.dropLast

/-- `dirs` and `dcount` after the first loop of `emit_rw`: the count of a directory goes up, or it is a new entry
behind the others. -/
def dirCounts (wr : List Bytes) : List (Bytes × Nat) := wr.foldl (fun ds p => bump (parentDir p) ds) []

/-- `dcount[k]` in the last loop, where `k` is 0 if the directory is not found. -/
def dirCount (dirs : List (Bytes × Nat)) (path : Bytes) : Nat :=
  ((dirs.find? (·.1 == parentDir path)).getD (dirs.headD ([], 0))).2

inductive Rule where
  | dir (d : Bytes) (files : Nat)
  | file (p : Bytes)
  deriving DecidableEq, Repr

namespace Rule

def path : Rule → Bytes
  | dir d _ => d
  | file p => p

def comment : Rule → Bytes
  | dir _ n => asc "        # generalized: " ++ natDecimal n ++ asc " files"
  | file _ => asc "        # exact"

def line (r : Rule) : Bytes := asc "ReadWritePaths=" ++ r.path ++ r.comment

end Rule

/-- What `emit_rw` prints. -/
def rwRules (wr : List Bytes) (thr : Nat) : List Rule :=
  let dirs := dirCounts wr
  (dirs.filter (thr ≤ ·.2)).map (fun d => .dir d.1 d.2) ++
    (wr.filter (dirCount dirs · < thr)).map .file

def threshold (rollup : Int32) : Nat := if rollup < 1 then 1 else rollup.toInt.toNat

/-- `exec_from_writable`. -/
def execFromWritable (e : UnitEnvelope) : Bool :=
  e.ex.paths.any fun x => e.wr.paths.any fun w => below x.bytes w.bytes

def learnedLine (e : UnitEnvelope) : Bytes :=
  asc "# learned over " ++ natDecimal e.records ++ asc " records" ++
    (if e.truncated then asc " (write set TRUNCATED — coverage capped)" else []) ++
    asc ". Review before applying; ReadWritePaths are minimal — widen if flows were missed."

def writePaths (e : UnitEnvelope) : List Bytes := e.wr.paths.map Field.bytes

def settings (e : UnitEnvelope) : List Bytes :=
  [asc "[Service]", asc "ProtectSystem=strict"] ++
  (if e.touchedHome then [] else [asc "ProtectHome=true"]) ++
  (if e.usedTmp then [asc "PrivateTmp=yes"] else []) ++
  (if execFromWritable e then [] else [asc
    "MemoryDenyWriteExecute=yes        # no exec from writable observed; verify (W^X != execve block)"])

/-- The lines of `ps_sandbox_synth`. -/
def synthLines (e : UnitEnvelope) (rollup : Int32) : List Bytes :=
  settings e ++ (rwRules (writePaths e) (threshold rollup)).map Rule.line ++ [learnedLine e]

/-- `ps_sandbox_synth` with a buffer that is large enough; the size of a smaller one wraps around. -/
def sandboxSynth (e : UnitEnvelope) (rollup : Int32) (cap : Nat) : Option Bytes :=
  let text := (synthLines e rollup).flatMap (· ++ [10])
  if text.length < cap then some text else none

/-- `ps_overwatch_op_for_event`. -/
def opForEvent (event : Bytes) : Op :=
  if event = asc "write" then .write
  else if event = asc "exec" then .exec
  else .read

def opsOf (event : Bytes) : List Op :=
  opForEvent event :: if opForEvent event = .exec then [.read] else []

/-! ## Directories and their counts -/

theorem dirCounts_eq_tally (wr : List Bytes) : dirCounts wr = tally (wr.map parentDir) := by
  simp only [dirCounts, tally, foldl_map]

/-- The directories in the order in which they first come, each with the number of its paths. -/
theorem dirCounts_eq (wr : List Bytes) :
    dirCounts wr =
      (wr.map parentDir).eraseDups.map fun d => (d, (wr.map parentDir).count d) := by
  rw [dirCounts_eq_tally, tally_eq]

variable {wr : List Bytes} {w : Bytes} {n thr : Nat}

/-- Every path has its directory in the list. -/
theorem dirCount_eq {p : Bytes} (hp : p ∈ wr) :
    dirCount (dirCounts wr) p = (wr.map parentDir).count (parentDir p) := by
  rw [dirCount, dirCounts_eq_tally, find_tally (mem_map_of_mem hp), Option.getD_some]

/-- The rules of the paths: the directories with as many files as the threshold, and the other paths. -/
def rules (wr : List Bytes) (thr : Nat) : List Rule :=
  let parents := wr.map parentDir
  (parents.eraseDups.filter (thr ≤ parents.count ·)).map (fun d => .dir d (parents.count d)) ++
    (wr.filter (fun p => parents.count (parentDir p) < thr)).map .file

theorem rwRules_eq (wr : List Bytes) (thr : Nat) : rwRules wr thr = rules wr thr := by
  have hfiles : wr.filter (fun p => dirCount (dirCounts wr) p < thr) =
      wr.filter fun p => (wr.map parentDir).count (parentDir p) < thr :=
    filter_congr fun p hp => by rw [dirCount_eq hp]
  unfold rwRules rules
  dsimp only
  rw [hfiles, dirCounts_eq, filter_map, map_map]
  rfl

/-! ## The policy of the settings -/

def Rule.commentWords : Rule → List Bytes
  | .dir _ n => [asc "#", asc "generalized:", natDecimal n, asc "files"]
  | .file _ => [asc "#", asc "exact"]

def Rule.words (r : Rule) : List Bytes := tokens r.path ++ r.commentWords

theorem tokens_self (hne : w ≠ []) (h : (32 : UInt8) ∉ w) : tokens w = [w] := by
  unfold tokens
  rw [splitOn_eq_singleton h, filter_cons_of_pos (by simpa using hne), filter_nil]

theorem not_mem_natDecimal {c : UInt8} (hc : isDigit c = false) : c ∉ natDecimal n :=
  fun hm => absurd (isDigit_of_mem_natDecimal hm) (by simp [hc])

theorem tokens_rule (r : Rule) : tokens (r.path ++ r.comment) = r.words := by
  cases r with
  | dir d n =>
    have hn : tokens (natDecimal n) = [natDecimal n] :=
      tokens_self (natDecimal_ne_nil n) (not_mem_natDecimal rfl)
    have htext : d ++ (Rule.dir d n).comment =
        d ++ 32 :: (asc "       # generalized:" ++ 32 :: (natDecimal n ++ 32 :: asc "files")) := by
      show d ++ (asc "        # generalized: " ++ natDecimal n ++ asc " files") = _
      rw [append_assoc]
      rfl
    show tokens (d ++ (Rule.dir d n).comment) = _
    rw [htext, tokens_append, tokens_append, tokens_append, hn]
    rfl
  | file p =>
    show tokens (p ++ 32 :: asc "       # exact") = _
    rw [tokens_append]
    rfl

/-- Words are no longer than what they are in. -/
theorem length_of_mem_tokens {v w : Bytes} (h : w ∈ tokens v) : w.length ≤ v.length := by
  have hpieces : ∀ {v w : Bytes}, w ∈ v.splitOn 32 → w.length ≤ v.length := by
    intro v
    induction v with
    | nil =>
      intro w hw
      rw [splitOn_nil, mem_singleton] at hw
      rw [hw]
    | cons c v ih =>
      intro w hw
      rw [length_cons]
      rw [splitOn_cons_eq_if_modifyHead] at hw
      split at hw
      · rcases mem_cons.mp hw with rfl | hw
        · exact Nat.zero_le _
        · exact Nat.le_succ_of_le (ih hw)
      · cases hsplit : v.splitOn 32 with
        | nil => exact absurd hsplit (splitOn_ne_nil _ _)
        | cons x xs =>
          rw [hsplit, modifyHead_cons] at hw
          rw [hsplit] at ih
          rcases mem_cons.mp hw with rfl | hw
          · exact Nat.succ_le_succ (ih mem_cons_self)
          · exact Nat.le_succ_of_le (ih (mem_cons_of_mem _ hw))
  exact hpieces (mem_of_mem_filter h)

theorem parentDir_prefix (p : Bytes) : parentDir p <+: p := by
  unfold parentDir
  dsimp only
  split
  · exact take_prefix 1 p
  · have hlast := dropLast_prefix (p.rdropWhile (· != 47))
    exact hlast.trans <| rdropWhile_prefix _ _

/-- What is known of the rules of an envelope. -/
structure Rule.Fits (r : Rule) : Prop where
  path : r.path.length < 256
  count : ∀ d n, r = .dir d n → n ≤ 256
  break_path : (10 : UInt8) ∉ r.path

/-- Where a rule comes from. -/
theorem mem_rules {r : Rule} (h : r ∈ rules wr thr) :
    ∃ p ∈ wr, r = .dir (parentDir p) ((wr.map parentDir).count (parentDir p)) ∨ r = .file p := by
  rcases mem_append.mp h with h | h
  · obtain ⟨d, hd, rfl⟩ := mem_map.mp h
    obtain ⟨p, hp, rfl⟩ := mem_map.mp (mem_eraseDups.mp (mem_of_mem_filter hd))
    exact ⟨p, hp, .inl rfl⟩
  · obtain ⟨p, hp, rfl⟩ := mem_map.mp h
    exact ⟨p, mem_of_mem_filter hp, .inr rfl⟩

theorem path_of_mem_rules {r : Rule} (h : r ∈ rules wr thr) :
    ∃ p ∈ wr, r.path <+: p := by
  obtain ⟨p, hp, rfl | rfl⟩ := mem_rules h
  · exact ⟨p, hp, parentDir_prefix p⟩
  · exact ⟨p, hp, prefix_rfl⟩

theorem count_of_mem_rules {d : Bytes} (h : Rule.dir d n ∈ rules wr thr) :
    n ≤ wr.length := by
  obtain ⟨p, -, heq | heq⟩ := mem_rules h
  · obtain ⟨-, rfl⟩ := Rule.dir.inj heq
    exact Nat.le_trans count_le_length (Nat.le_of_eq (length_map _))
  · cases heq

theorem rules_fits (hlen : wr.length ≤ 256) (hshort : ∀ p ∈ wr, p.length < 256)
    (hnl : ∀ r ∈ rules wr thr, (10 : UInt8) ∉ r.path) : ∀ r ∈ rules wr thr, r.Fits := by
  intro r hr
  obtain ⟨p, hp, hpre⟩ := path_of_mem_rules hr
  refine ⟨Nat.lt_of_le_of_lt hpre.length_le (hshort p hp), ?_, hnl r hr⟩
  rintro d n rfl
  exact Nat.le_trans (count_of_mem_rules hr) hlen

namespace Rule

variable {r : Rule}

theorem comment_length_le (h : ∀ d n, r = .dir d n → n ≤ 256) : r.comment.length ≤ 32 := by
  cases r with
  | dir d n =>
    have hn : (natDecimal n).length ≤ 2 + 1 := length_natDecimal_le (by have := h d n rfl; omega)
    show (asc "        # generalized: " ++ natDecimal n ++ asc " files").length ≤ 32
    rw [length_append, length_append]
    show 23 + _ + 6 ≤ 32
    omega
  | file p => exact show (asc "        # exact").length ≤ 32 by decide

theorem Fits.words_short (h : r.Fits) : ∀ w ∈ r.words, w.length < polPathLen := by
  intro w hw
  rcases mem_append.mp hw with hw | hw
  · exact Nat.lt_of_le_of_lt (length_of_mem_tokens hw) h.path
  · cases r with
    | dir d n =>
      have hn : (natDecimal n).length ≤ 2 + 1 := length_natDecimal_le (by have := h.count d n rfl; omega)
      simp only [commentWords, mem_cons, not_mem_nil, or_false] at hw
      rcases hw with rfl | rfl | rfl | rfl
      · decide
      · decide
      · exact Nat.lt_of_le_of_lt hn (by decide)
      · decide
    | file p =>
      simp only [commentWords, mem_cons, not_mem_nil, or_false] at hw
      rcases hw with rfl | rfl <;> decide

/-- A rule is read as the words of its path and of its comment. -/
theorem Fits.deriveLine (h : r.Fits) (p : UnitPolicy) :
    Detect.deriveLine p r.line = { p with rw := r.words.foldl PathList.add p.rw } := by
  have hlen : (r.path ++ r.comment).length ≤ 2047 := by
    have hpath := h.path
    have hcomment := comment_length_le h.count
    rw [length_append]
    omega
  have hline : r.line = asc "ReadWritePaths" ++ 61 :: (r.path ++ r.comment) := by
    unfold line
    rw [append_assoc]
    rfl
  rw [hline, deriveLine_key p (by decide), take_of_length_le hlen, ← tokens_rule]
  rfl

end Rule

/-- The rules together. -/
theorem derive_rules {rs : List Rule} (h : ∀ r ∈ rs, r.Fits) (p : UnitPolicy) :
    (rs.map Rule.line).foldl deriveLine p =
      { p with rw := (rs.flatMap Rule.words).foldl PathList.add p.rw } := by
  induction rs generalizing p with
  | nil => rfl
  | cons r rs ih =>
    obtain ⟨hr, hrs⟩ := forall_mem_cons.mp h
    rw [map_cons, foldl_cons, hr.deriveLine, ih hrs, flatMap_cons, foldl_append]

/-! ## What the policy accepts -/

/-- `systemctl show` of a unit with the settings, and the path of its unit file. -/
def policyText (fragment out : Bytes) : Bytes := asc "FragmentPath=" ++ fragment ++ [10] ++ out

def rwWords (wr : List Bytes) (thr : Nat) : List Bytes := ((rules wr thr).flatMap Rule.words).take polMaxPaths

section Envelope

variable (e : UnitEnvelope) (rollup : Int32)

theorem writePaths_short : ∀ p ∈ writePaths e, p.length < 256 := by
  intro p hp
  obtain ⟨f, -, rfl⟩ := mem_map.mp hp
  exact f.length_lt

theorem length_writePaths : (writePaths e).length ≤ 256 := by
  rw [writePaths, length_map]
  exact e.wr.length_le

theorem not_mem_learnedLine {c : UInt8} (hc : c ∈ [61, 10, 0]) : c ∉ learnedLine e := by
  have hlit : isDigit c = false ∧ c ∉ asc "# learned over " ∧ c ∉ asc " records" ∧
      c ∉ asc " (write set TRUNCATED — coverage capped)" ∧
      c ∉ asc ". Review before applying; ReadWritePaths are minimal — widen if flows were missed." := by
    revert c
    decide +kernel
  obtain ⟨hdigit, hstart, hrecords, htruncated, hend⟩ := hlit
  unfold learnedLine
  simp only [mem_append, not_or]
  refine ⟨⟨⟨⟨hstart, not_mem_natDecimal hdigit⟩, hrecords⟩, ?_⟩, hend⟩
  split
  · exact htruncated
  · exact not_mem_nil

theorem settings_break : ∀ l ∈ settings e, (10 : UInt8) ∉ l := by
  unfold settings
  cases e.touchedHome <;> cases e.usedTmp <;> cases execFromWritable e <;> decide

/-- What the lines before the rules say. The setting with the comment is not read as `yes`. -/
theorem derive_settings (known : Bool) :
    (settings e).foldl deriveLine { UnitPolicy.zero with known := known } =
      ⟨known, .strict, if e.touchedHome then .no else .inaccessible, e.usedTmp, false, .empty, .empty,
        .empty⟩ := by
  unfold settings
  cases e.touchedHome <;> cases e.usedTmp <;> cases execFromWritable e <;> rfl

theorem not_mem_comment (r : Rule) {c : UInt8} (hc : c ∈ [10, 0]) : c ∉ r.comment := by
  have hlit : isDigit c = false ∧ c ∉ asc "        # generalized: " ∧ c ∉ asc " files" ∧
      c ∉ asc "        # exact" := by
    revert c
    decide +kernel
  obtain ⟨hdigit, hstart, hfiles, hexact⟩ := hlit
  cases r with
  | dir d n =>
    simp only [Rule.comment, mem_append, not_or]
    exact ⟨⟨hstart, not_mem_natDecimal hdigit⟩, hfiles⟩
  | file p => exact hexact

theorem Rule.Fits.line_break {r : Rule} (h : r.Fits) : (10 : UInt8) ∉ r.line := by
  simp only [Rule.line, mem_append, not_or]
  exact ⟨⟨by decide, h.break_path⟩, not_mem_comment r (by decide)⟩

theorem synthLines_break {e : UnitEnvelope} {rollup : Int32}
    (hfits : ∀ r ∈ rules (writePaths e) (threshold rollup), r.Fits) :
    ∀ l ∈ synthLines e rollup, (10 : UInt8) ∉ l := by
  simp only [synthLines, rwRules_eq, forall_mem_append, forall_mem_map, forall_mem_singleton]
  exact ⟨⟨settings_break e, fun r hr => (hfits r hr).line_break⟩, not_mem_learnedLine e (by decide)⟩

/-- The settings and the rules. -/
theorem derive_synthLines {e : UnitEnvelope} {rollup : Int32}
    (hfits : ∀ r ∈ rules (writePaths e) (threshold rollup), r.Fits) (known : Bool) :
    (synthLines e rollup).foldl deriveLine { UnitPolicy.zero with known := known } =
      ⟨known, .strict, if e.touchedHome then .no else .inaccessible, e.usedTmp, false,
        ((rules (writePaths e) (threshold rollup)).flatMap Rule.words).foldl PathList.add .empty, .empty,
        .empty⟩ := by
  rw [synthLines, foldl_append, foldl_append, derive_settings, rwRules_eq, derive_rules hfits,
    foldl_cons, foldl_nil, deriveLine_none _ (not_mem_learnedLine e (by decide))]

theorem sandboxSynth_eq {e : UnitEnvelope} {rollup : Int32} {cap : Nat} {out : Bytes}
    (hout : sandboxSynth e rollup cap = some out) : out = (synthLines e rollup).flatMap (· ++ [10]) := by
  unfold sandboxSynth at hout
  dsimp only at hout
  split at hout
  · exact (Option.some.inj hout).symm
  · cases hout

/-- The policy that is read from the settings. -/
theorem derive_policyText {fragment out : Bytes} {cap : Nat} (hfragment : fragment ≠ [])
    (hline : (10 : UInt8) ∉ fragment) (hout : sandboxSynth e rollup cap = some out)
    (hfits : ∀ r ∈ rules (writePaths e) (threshold rollup), r.Fits) :
    unitPolicyDerive (policyText fragment out) =
      ⟨true, .strict, if e.touchedHome then .no else .inaccessible, e.usedTmp, false,
        ((rules (writePaths e) (threshold rollup)).flatMap Rule.words).foldl PathList.add .empty, .empty,
        .empty⟩ := by
  obtain rfl := sandboxSynth_eq hout
  have htext : policyText fragment ((synthLines e rollup).flatMap (· ++ [10])) =
      ((asc "FragmentPath" ++ 61 :: fragment) :: synthLines e rollup).flatMap (· ++ [10]) := by
    rw [flatMap_cons, policyText]
    rfl
  have hbreaks : ∀ l ∈ (asc "FragmentPath" ++ 61 :: fragment) :: synthLines e rollup, (10 : UInt8) ∉ l := by
    refine forall_mem_cons.mpr ⟨?_, synthLines_break hfits⟩
    rw [mem_append, mem_cons, not_or, not_or]
    exact ⟨by decide, by decide, hline⟩
  have hknown : deriveLine .zero (asc "FragmentPath" ++ 61 :: fragment) = { UnitPolicy.zero with known := true } := by
    have hcut : fragment.take 2047 ≠ [] := by
      cases fragment with
      | nil => exact absurd rfl hfragment
      | cons c f => exact cons_ne_nil _ _
    rw [deriveLine_key _ (by decide)]
    show { UnitPolicy.zero with known := decide (fragment.take 2047 ≠ []) } = _
    rw [decide_eq_true hcut]
  rw [htext, derive_lines hbreaks, foldl_cons, hknown, derive_synthLines hfits]

theorem rw_derive {wr : List Bytes} {thr : Nat} (hfits : ∀ r ∈ rules wr thr, r.Fits) :
    (((rules wr thr).flatMap Rule.words).foldl PathList.add .empty).paths = rwWords wr thr := by
  rw [PathList.paths_foldl_add]
  · rfl
  · intro w hw
    obtain ⟨r, hr, hw⟩ := mem_flatMap.mp hw
    exact (hfits r hr).words_short w hw

end Envelope

/-! ## What was learned -/

theorem learn_concat (unit : Option CString) (rs : List Access) (r : Access) :
    learn unit (rs ++ [r]) = (learn unit rs).add r.event r.path := by
  unfold learn
  rw [foldl_append]
  rfl

/-- The home directories as the envelope knows them. -/
def inHome (path : Bytes) : Bool := below path (asc "/home") || below path (asc "/root")

theorem touchedHome_addPath (e : UnitEnvelope) (event path : CString) :
    (e.addPath event path).touchedHome = e.touchedHome := by
  unfold UnitEnvelope.addPath
  split
  · rfl
  · split <;> rfl

theorem touchedHome_add (e : UnitEnvelope) (event path : CString) (hpath : path.bytes ≠ []) :
    (e.add event path).touchedHome = (e.touchedHome || inHome path.bytes) := by
  unfold UnitEnvelope.add
  rw [if_neg hpath]
  dsimp only
  rw [touchedHome_addPath, Bool.or_assoc]
  rfl

variable {rs : List Access} {path : CString} {p : Bytes}

theorem touchedHome_learn (unit : Option CString) (h : ∀ r ∈ rs, r.path.bytes ≠ []) :
    (learn unit rs).touchedHome = rs.any (inHome ·.path.bytes) := by
  induction rs using List.reverseRecOn with
  | nil => rfl
  | append_singleton rs r ih =>
    have hr := h r (mem_append_right _ (mem_singleton_self r))
    rw [learn_concat, touchedHome_add _ _ _ hr, ih fun q hq => h q (mem_append_left _ hq),
      any_append, any_cons, any_nil, Bool.or_false]

/-! ## Envelopes that are accepted -/

theorem under_eq_below {path pre : Bytes} (hne : pre ≠ []) (hlast : pre.getLast? ≠ some 47) :
    under path pre = below path pre := by
  unfold under below
  simp [hne, hlast]

theorem underHome_eq (path : Bytes) : underHome path = (inHome path || under path (asc "/run/user")) := by
  unfold underHome inHome
  rw [under_eq_below (by decide) (by decide), under_eq_below (by decide) (by decide)]

/-- What a policy of this form asks of a record. -/
theorem record_accepted_iff {home tmp : Bool} {l : PathList} {event path : Bytes} (hpath : path ≠ []) :
    (∀ op ∈ opsOf event, policyEval ⟨true, .strict, if home then .no else .inaccessible, tmp, false, l,
        .empty, .empty⟩ path op = none) ↔
      (home = true ∨ underHome path = false) ∧ (event = asc "write" → underAny path l.paths = true) ∧
        (event = asc "exec" → underAny path l.paths = false) := by
  have hhome : ¬ ((if home then ProtectHome.no else .inaccessible) = .inaccessible ∧ underHome path = true) ↔
      (home = true ∨ underHome path = false) := by
    cases home <;> simp
  have heval (op : Op) := policyEval_eq_none_iff (p := ⟨true, .strict,
    if home then .no else .inaccessible, tmp, false, l, .empty, .empty⟩) rfl hpath op
  have hnone : underAny path PathList.empty.paths = false := rfl
  simp only [hnone, hhome, true_and, protsysProtects, Bool.true_eq_false, and_false, or_false, or_true,
    and_true, reduceCtorEq, Bool.not_eq_true] at heval
  by_cases hwrite : event = asc "write"
  · have hexec : event ≠ asc "exec" := by
      rw [hwrite]
      decide
    have hops : opsOf event = [.write] := by
      rw [hwrite]
      rfl
    rw [hops, forall_mem_singleton, heval]
    simp only [hwrite, hwrite ▸ hexec, true_implies, false_implies, and_true]
  · by_cases hexec : event = asc "exec"
    · have hops : opsOf event = [.exec, .read] := by
        rw [hexec]
        rfl
      have hne : asc "exec" ≠ asc "write" := by decide
      rw [hops, forall_mem_cons, forall_mem_singleton, heval, heval]
      simp only [hexec, hne, true_implies, false_implies, true_and, and_true]
      exact ⟨And.left, fun h => ⟨h, h.1⟩⟩
    · have hops : opsOf event = [.read] := by
        unfold opsOf opForEvent
        rw [if_neg hwrite, if_neg hexec, if_neg (by decide)]
      simp only [hops, forall_mem_singleton, heval, hwrite, hexec, false_implies, and_true]

/-- The suggested settings accept what was learned exactly if home directories or none of the users'
runtime directories were used, every path that was written is under one of the words the policy has room
for, and no path that was executed is. -/
theorem accepts_iff (unit : Option CString) (rs : List Access) (rollup : Int32) {fragment out : Bytes}
    {cap : Nat} (hfragment : fragment ≠ []) (hline : (10 : UInt8) ∉ fragment)
    (hout : sandboxSynth (learn unit rs) rollup cap = some out)
    (habsolute : ∀ r ∈ rs, r.path.bytes.head? = some 47)
    (hbreak : ∀ r ∈ rules (writePaths (learn unit rs)) (threshold rollup), (10 : UInt8) ∉ r.path) :
    (∀ r ∈ rs, ∀ op ∈ opsOf r.event.bytes,
      policyEval (unitPolicyDerive (policyText fragment out)) r.path.bytes op = none) ↔
      ((∃ r ∈ rs, inHome r.path.bytes = true) ∨ ∀ r ∈ rs, under r.path.bytes (asc "/run/user") = false) ∧
      (∀ r ∈ rs, r.event.bytes = asc "write" →
        underAny r.path.bytes (rwWords (writePaths (learn unit rs)) (threshold rollup)) = true) ∧
      (∀ r ∈ rs, r.event.bytes = asc "exec" →
        underAny r.path.bytes (rwWords (writePaths (learn unit rs)) (threshold rollup)) = false) := by
  have hnonempty : ∀ r ∈ rs, r.path.bytes ≠ [] := by
    intro r hr hnil
    have hhead := habsolute r hr
    rw [hnil] at hhead
    cases hhead
  have hfits := rules_fits (length_writePaths (learn unit rs)) (writePaths_short _) hbreak
  rw [derive_policyText _ rollup hfragment hline hout hfits]
  generalize hW : rwWords (writePaths (learn unit rs)) (threshold rollup) = W
  have hrw := (rw_derive hfits).trans hW
  have hhome : (learn unit rs).touchedHome = true ↔ ∃ r ∈ rs, inHome r.path.bytes = true := by
    rw [touchedHome_learn unit hnonempty, any_eq_true]
  constructor
  · intro h
    have hrecord := fun r hr => (record_accepted_iff (hnonempty r hr)).mp (h r hr)
    rw [hrw] at hrecord
    refine ⟨?_, fun r hr => (hrecord r hr).2.1, fun r hr => (hrecord r hr).2.2⟩
    by_cases hany : ∃ r ∈ rs, inHome r.path.bytes = true
    · exact .inl hany
    · right
      intro r hr
      have hnot := (hrecord r hr).1.resolve_left fun ht => hany (hhome.mp ht)
      rw [underHome_eq, Bool.or_eq_false_iff] at hnot
      exact hnot.2
  · rintro ⟨hdirs, hwrites, hexecs⟩ r hr
    refine (record_accepted_iff (hnonempty r hr)).mpr ⟨?_, ?_, ?_⟩
    · by_cases hany : ∃ r ∈ rs, inHome r.path.bytes = true
      · exact .inl (hhome.mpr hany)
      · right
        rw [underHome_eq, Bool.or_eq_false_iff]
        exact ⟨Bool.eq_false_iff.mpr fun h => hany ⟨r, hr, h⟩, hdirs.resolve_left hany r hr⟩
    · rw [hrw]
      exact hwrites r hr
    · rw [hrw]
      exact hexecs r hr

theorem exists_synth (e : UnitEnvelope) (rollup : Int32) : ∃ cap out, sandboxSynth e rollup cap = some out :=
  ⟨((synthLines e rollup).flatMap (· ++ [10])).length + 1, _, if_pos (Nat.lt_succ_self _)⟩

def accessOf (event path : String) (h : (0 : UInt8) ∉ asc event) (h' : (0 : UInt8) ∉ asc path) : Access :=
  ⟨⟨asc event, h⟩, ⟨asc path, h'⟩⟩

theorem nul_not_mem_write : (0 : UInt8) ∉ asc "write" := by decide

/-- A service that writes its log and its database. -/
def serviceRecords : List Access :=
  [accessOf "exec" "/usr/bin/app" (by decide) (by decide),
    accessOf "open" "/etc/hosts" (by decide) (by decide),
    accessOf "write" "/var/log/app.log" (by decide) (by decide),
    accessOf "write" "/var/lib/app/1.dat" (by decide) (by decide),
    accessOf "write" "/var/lib/app/2.dat" (by decide) (by decide)]

/-- And a file of the database has a line feed in its name. -/
def oddRecords : List Access :=
  serviceRecords ++ [accessOf "write" "/var/lib/app/3\n.dat" (by decide) (by decide)]

theorem service_accepted : ∃ cap out, sandboxSynth (learn none oddRecords) 2 cap = some out ∧
    ∀ r ∈ oddRecords, ∀ op ∈ opsOf r.event.bytes, policyEval (unitPolicyDerive
      (policyText (asc "/etc/systemd/system/app.service") out)) r.path.bytes op = none := by
  obtain ⟨cap, out, hout⟩ := exists_synth (learn none oddRecords) 2
  refine ⟨cap, out, hout, ?_⟩
  exact (accepts_iff none oddRecords 2 (by decide) (by decide) hout (by decide) (by decide)).mpr
    ⟨.inr (by decide), by decide, by decide⟩

def spaceRecords : List Access := [accessOf "write" "/srv/my file" (by decide) (by decide)]

/-- The words of a path are not the path. -/
theorem space_rejected : ∃ cap out, sandboxSynth (learn none spaceRecords) 2 cap = some out ∧
    ∃ r ∈ spaceRecords, ∃ op ∈ opsOf r.event.bytes, policyEval (unitPolicyDerive
      (policyText (asc "/etc/systemd/system/app.service") out)) r.path.bytes op =
        some ⟨.protectSystem, false⟩ := by
  obtain ⟨cap, out, hout⟩ := exists_synth (learn none spaceRecords) 2
  refine ⟨cap, out, hout, _, mem_singleton_self _, .write, by decide, ?_⟩
  rw [derive_policyText _ 2 (by decide) (by decide) hout (rules_fits (by decide) (by decide) (by decide))]
  decide

end Packetsonde.Detect
