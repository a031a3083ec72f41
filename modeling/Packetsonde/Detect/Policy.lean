import Packetsonde.Lib.Chars

/-!
# Packetsonde — unit policies (`systemd_policy.c`, `policy_eval.c`)

The sandboxing settings of a unit, as `systemctl show` prints them, and the check of an access against
them. Lines are `Key=Value`; a list of paths is split at spaces, and what is longer than its buffer or
comes after the 64th path is left out.

`derive_lines` says what a text of whole lines is read as, and `policyEval_eq_none_iff` when an access is
allowed; nothing else of the two functions is used by what follows.
-/

namespace Packetsonde.Detect

open Packetsonde.Lib
open List

/-! ## Policies -/

def polMaxPaths : Nat := 64
def polPathLen : Nat := 256

/-- `enum ps_protect_system`. -/
inductive ProtectSystem where
  | no
  | yes
  | full
  | strict
  deriving DecidableEq, Repr

/-- `enum ps_protect_home`. -/
inductive ProtectHome where
  | no
  | ro
  | inaccessible
  deriving DecidableEq, Repr

structure PathList where
  paths : List Bytes
  length_le : paths.length ≤ polMaxPaths
  short : ∀ p ∈ paths, p.length < polPathLen

namespace PathList

def empty : PathList := ⟨[], Nat.zero_le _, fun _ hp => absurd hp not_mem_nil⟩

/-- A path is put behind the others, if there is room and it is short enough. -/
def add (l : PathList) (p : Bytes) : PathList :=
  if h : l.paths.length < polMaxPaths ∧ p.length < polPathLen then
    ⟨l.paths ++ [p], by rw [length_append]; exact h.1, fun q hq => by
      rw [mem_append, mem_singleton] at hq
      rcases hq with hq | rfl
      · exact l.short q hq
      · exact h.2⟩
  else l

theorem paths_add (l : PathList) {p : Bytes} (hp : p.length < polPathLen) :
    (l.add p).paths = (l.paths ++ [p]).take polMaxPaths := by
  unfold add
  by_cases hroom : l.paths.length < polMaxPaths
  · rw [dif_pos ⟨hroom, hp⟩, take_of_length_le (by rw [length_append]; exact hroom)]
  · have hfull : l.paths.length = polMaxPaths := Nat.le_antisymm l.length_le (Nat.le_of_not_lt hroom)
    rw [dif_neg fun h => hroom h.1, ← hfull, take_left]

/-- Of short paths the first 64 are kept. -/
theorem paths_foldl_add (l : PathList) {ps : List Bytes} (hps : ∀ p ∈ ps, p.length < polPathLen) :
    (ps.foldl add l).paths = (l.paths ++ ps).take polMaxPaths := by
  induction ps generalizing l with
  | nil => rw [foldl_nil, append_nil, take_of_length_le l.length_le]
  | cons p ps ih =>
    obtain ⟨hp, hps⟩ := forall_mem_cons.mp hps
    rw [foldl_cons, ih _ hps, paths_add l hp]
    rcases Nat.lt_or_ge l.paths.length polMaxPaths with hroom | hfull
    · rw [take_of_length_le (i := polMaxPaths) (l := l.paths ++ [p])
        (by rw [length_append]; exact hroom), append_assoc, singleton_append]
    · have hlen : l.paths.length = polMaxPaths := Nat.le_antisymm l.length_le hfull
      rw [← hlen, take_left, take_left, take_left]

end PathList

/-- `struct ps_unit_policy`. -/
structure UnitPolicy where
  known : Bool
  protectSystem : ProtectSystem
  protectHome : ProtectHome
  privateTmp : Bool
  mdwe : Bool
  rw : PathList
  ro : PathList
  inacc : PathList

/-- The policy after the `memset`. -/
def UnitPolicy.zero : UnitPolicy := ⟨false, .no, .no, false, false, .empty, .empty, .empty⟩

/-! ## Reading a policy -/

def tokens (v : Bytes) : List Bytes := (v.splitOn 32).filter (· ≠ [])

/-- `add_paths`. -/
def addPaths (v : Bytes) (l : PathList) : PathList := (tokens v).foldl PathList.add l

def isYes (v : Bytes) : Bool := v = asc "yes" ∨ v = asc "true"

def readProtectSystem (v : Bytes) : ProtectSystem :=
  if v = asc "strict" then .strict
  else if v = asc "full" then .full
  else if v = asc "yes" then .yes
  else .no

def readProtectHome (v : Bytes) : ProtectHome :=
  if v = asc "read-only" then .ro
  else if v = asc "yes" ∨ v = asc "true" ∨ v = asc "tmpfs" then .inaccessible
  else .no

def setKey (p : UnitPolicy) (key v : Bytes) : UnitPolicy :=
  if key = asc "FragmentPath" then { p with known := v ≠ [] }
  else if key = asc "ProtectSystem" then { p with protectSystem := readProtectSystem v }
  else if key = asc "ProtectHome" then { p with protectHome := readProtectHome v }
  else if key = asc "PrivateTmp" then { p with privateTmp := isYes v }
  else if key = asc "MemoryDenyWriteExecute" then { p with mdwe := isYes v }
  else if key = asc "ReadWritePaths" then { p with rw := addPaths v p.rw }
  else if key = asc "ReadOnlyPaths" then { p with ro := addPaths v p.ro }
  else if key = asc "InaccessiblePaths" then { p with inacc := addPaths v p.inacc }
  else p

/-- One turn of the loop of `ps_unit_policy_derive`. -/
def deriveLine (p : UnitPolicy) (line : Bytes) : UnitPolicy :=
  match line.idxOf? 61 with
  | none => p
  | some klen => setKey p (line.take klen) ((line.drop (klen + 1)).take 2047)

/-- `ps_unit_policy_derive`. Behind the last newline the loop ends; an empty line changes nothing. -/
def unitPolicyDerive (txt : Bytes) : UnitPolicy := (txt.splitOn 10).foldl deriveLine .zero

/-! ## Checking an access -/

/-- `enum ps_op`. -/
inductive Op where
  | read
  | write
  | exec
  deriving DecidableEq, Repr

inductive Directive where
  | inaccessiblePaths
  | protectHome
  | readOnlyPaths
  | protectSystem
  | execFromWritable
  deriving DecidableEq, Repr

/-- `struct ps_eval_result` of a violation. -/
structure Violation where
  directive : Directive
  heuristic : Bool
  deriving DecidableEq, Repr

/-- `under` of `policy_eval.c`. -/
def under (path pre : Bytes) : Bool :=
  pre ≠ [] ∧ pre <+: path ∧
    (path.length = pre.length ∨ path[pre.length]? = some 47 ∨ pre.getLast? = some 47)

/-- `under_any`. -/
def underAny (path : Bytes) (l : List Bytes) : Bool := l.any (under path ·)

/-- `protsys_protects`. -/
def protsysProtects (ps : ProtectSystem) (path : Bytes) : Bool :=
  match ps with
  | .strict => true
  | .full => under path (asc "/etc") || under path (asc "/usr") || under path (asc "/boot") ||
      under path (asc "/efi")
  | .yes => under path (asc "/usr") || under path (asc "/boot") || under path (asc "/efi")
  | .no => false

/-- The directories of `ProtectHome`. -/
def underHome (path : Bytes) : Bool :=
  under path (asc "/home") || under path (asc "/root") || under path (asc "/run/user")

/-- `ps_policy_eval`: the violation it reports. -/
def policyEval (p : UnitPolicy) (path : Bytes) (op : Op) : Option Violation :=
  if p.known = false ∨ path = [] then none
  else if underAny path p.inacc.paths then some ⟨.inaccessiblePaths, false⟩
  else if p.protectHome = .inaccessible ∧ underHome path then some ⟨.protectHome, false⟩
  else
    let rw := underAny path p.rw.paths
    match op with
    | .write =>
      if rw then none
      else if p.protectHome = .ro ∧ underHome path then some ⟨.protectHome, false⟩
      else if underAny path p.ro.paths then some ⟨.readOnlyPaths, false⟩
      else if protsysProtects p.protectSystem path then some ⟨.protectSystem, false⟩
      else none
    | .exec =>
      if rw ∧ (p.mdwe ∨ p.protectSystem = .strict) then some ⟨.execFromWritable, true⟩ else none
    | .read => none

/-! ## What is read -/

theorem tokens_append (a b : Bytes) : tokens (a ++ 32 :: b) = tokens a ++ tokens b := by
  unfold tokens
  rw [splitOn_append_cons_self, filter_append]

/-- The loop over whole lines. -/
theorem derive_lines {ls : List Bytes} (h : ∀ l ∈ ls, (10 : UInt8) ∉ l) :
    unitPolicyDerive (ls.flatMap (· ++ [10])) = ls.foldl deriveLine .zero := by
  have hsplit : (ls.flatMap (· ++ [10])).splitOn 10 = ls ++ [[]] := by
    induction ls with
    | nil => rfl
    | cons l ls ih =>
      obtain ⟨hl, hls⟩ := forall_mem_cons.mp h
      rw [flatMap_cons, append_assoc, singleton_append, splitOn_append_cons_self,
        splitOn_eq_singleton hl, ih hls, singleton_append, cons_append]
  unfold unitPolicyDerive
  rw [hsplit, foldl_append]
  rfl

theorem deriveLine_key (p : UnitPolicy) {key : Bytes} (hkey : (61 : UInt8) ∉ key) (v : Bytes) :
    deriveLine p (key ++ 61 :: v) = setKey p key (v.take 2047) := by
  unfold deriveLine
  rw [idxOf?_append_self hkey]
  show setKey p _ _ = _
  rw [take_left, ← drop_drop, drop_left, drop_succ_cons, drop_zero]

theorem deriveLine_none (p : UnitPolicy) {line : Bytes} (h : (61 : UInt8) ∉ line) : deriveLine p line = p := by
  unfold deriveLine
  rw [idxOf?_eq_none_iff.mpr h]

/-! ## What is allowed -/

/-- When an access is no violation. -/
theorem policyEval_eq_none_iff {p : UnitPolicy} {path : Bytes} (hknown : p.known = true) (hpath : path ≠ [])
    (op : Op) :
    policyEval p path op = none ↔
      underAny path p.inacc.paths = false ∧ ¬ (p.protectHome = .inaccessible ∧ underHome path = true) ∧
      match op with
      | .read => True
      | .write => underAny path p.rw.paths = true ∨
          ¬ (p.protectHome = .ro ∧ underHome path = true) ∧ underAny path p.ro.paths = false ∧
            protsysProtects p.protectSystem path = false
      | .exec => ¬ (underAny path p.rw.paths = true ∧ (p.mdwe = true ∨ p.protectSystem = .strict)) := by
  unfold policyEval
  rw [if_neg (by rintro (h | h) <;> [exact absurd (hknown.symm.trans h) (by decide); exact hpath h])]
  cases hinacc : underAny path p.inacc.paths with
  | true => simp
  | false =>
    simp only [Bool.false_eq_true, if_false, true_and]
    by_cases hhome : p.protectHome = .inaccessible ∧ underHome path = true
    · simp [hhome]
    · rw [if_neg hhome]
      simp only [hhome, not_false_iff, true_and]
      cases op with
      | read => simp
      | write =>
        by_cases hrw : underAny path p.rw.paths = true
        · simp [hrw]
        · by_cases hro : p.protectHome = .ro ∧ underHome path = true
          · simp [hrw, hro]
          · cases h₁ : underAny path p.ro.paths <;> cases h₂ : protsysProtects p.protectSystem path <;>
              simp [hrw, hro]
      | exec =>
        by_cases hexec : underAny path p.rw.paths = true ∧ (p.mdwe = true ∨ p.protectSystem = .strict)
        · simp [hexec]
        · simp [hexec]

end Packetsonde.Detect
