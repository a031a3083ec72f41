import Packetsonde.Baseline.Set
import Mathlib.Data.List.DropRight

/-!
# Packetsonde — one directory per program (`exe_slug.c`, `baseline_store.c`)

A program's files are kept under a name that is made from its path: every run of bytes other than letters,
digits, `.`, `_` and `-` becomes a dash, a dash in front is left out, the result is cut to the buffer, and
dashes at the end are removed.

In other words, the words of the path are joined by dashes (`exeSlug_spec`). Programs whose paths have the
same words share their files, and a path of one word `..` has its files outside the store; otherwise the
programs are apart (`isolated_iff`).
-/

namespace Packetsonde.Baseline

open Packetsonde.Lib
open List

/-! ## The name -/

/-- `ok`. -/
def slugOk (c : UInt8) : Bool := isAlnum c || c == 46 || c == 95 || c == 45

/-- The loop of `ps_exe_slug`; `dash` is `prev_dash`. -/
def slugLoop (cap : Nat) : Bytes → Bytes → Bool → Bytes
  | [], out, _ => out
  | c :: p, out, dash =>
    if out.length < cap - 1 then
      if slugOk c then slugLoop cap p (out ++ [c]) false
      else if dash then slugLoop cap p out dash
      else slugLoop cap p (out ++ [45]) true
    else out

/-- `ps_exe_slug`. -/
def exeSlug (exe : Bytes) (cap : Nat) : Option Bytes :=
  if exe = [] ∨ cap < 2 then none
  else
    let out := (slugLoop cap exe [] true).rdropWhile (· == 45)
    if out ≠ [] then some out else none

def slugSize : Nat := 256

/-! ## The files -/

/-- `dir` of `ps_baseline_append_candidate`. -/
def candidateDir (stateDir slug : Bytes) : Bytes := (stateDir ++ asc "/" ++ slug).take 511

/-- `path` of `load_one`. -/
def loadPath (stateDir slug file : Bytes) : Bytes :=
  (stateDir ++ asc "/" ++ slug ++ asc "/" ++ file).take 511

/-! ## The words of a path -/

/-- The words of a path: what is left between the other bytes. -/
def words (exe : Bytes) : List Bytes := (exe.splitOnP fun c => !slugOk c).filter (· ≠ [])

def dashed : List Bytes → Bytes
  | [] => []
  | w :: ws => w ++ ws.flatMap (45 :: ·)

/-- The name that the words make in a buffer of `cap` bytes. -/
def wordsName (cap : Nat) (exe : Bytes) : Bytes :=
  ((dashed (words exe)).take (cap - 1)).rdropWhile (· == 45)

/-- What the loop writes if there is room for it. -/
def slugText : Bytes → Bool → Bytes
  | [], _ => []
  | c :: p, dash =>
    if slugOk c then c :: slugText p false
    else if dash then slugText p dash
    else 45 :: slugText p true

theorem slugLoop_eq (cap : Nat) (exe out : Bytes) (dash : Bool) (h : out.length ≤ cap - 1) :
    slugLoop cap exe out dash = (out ++ slugText exe dash).take (cap - 1) := by
  induction exe generalizing out dash with
  | nil =>
    rw [slugLoop, slugText, append_nil, take_of_length_le h]
  | cons c p ih =>
    rw [slugLoop, slugText]
    by_cases hroom : out.length < cap - 1
    · have hlen (d : UInt8) : (out ++ [d]).length ≤ cap - 1 := by
        rw [length_append, length_singleton]
        exact hroom
      rw [if_pos hroom]
      by_cases hok : slugOk c = true
      · rw [if_pos hok, if_pos hok, ih _ _ (hlen c), append_assoc, singleton_append]
      · rw [if_neg hok, if_neg hok]
        cases dash with
        | true => rw [if_pos rfl, if_pos rfl, ih _ _ h]
        | false =>
          rw [if_neg Bool.false_ne_true, if_neg Bool.false_ne_true, ih _ _ (hlen 45), append_assoc,
            singleton_append]
    · rw [if_neg hroom, take_append_of_le_length (by omega), take_of_length_le h]

/-- What is written: the words, and a dash if something follows the last of them. `w` is the word the loop
is in, when it is in one. -/
theorem slugText_eq (exe : Bytes) :
    (∃ w ws t, exe.splitOnP (fun c => !slugOk c) = w :: ws ∧ (t = [] ∨ t = [45]) ∧
      slugText exe false = dashed (w :: ws.filter (· ≠ [])) ++ t) ∧
    ∃ t, (t = [] ∨ t = [45] ∧ words exe ≠ []) ∧ slugText exe true = dashed (words exe) ++ t := by
  induction exe with
  | nil => exact ⟨⟨[], [], [], rfl, .inl rfl, rfl⟩, [], .inl rfl, rfl⟩
  | cons c p ih =>
    obtain ⟨⟨w, ws, t, hsplit, ht, hin⟩, t', ht', hbetween⟩ := ih
    unfold words at hbetween ht' ⊢
    rw [splitOnP_cons_eq_if_modifyHead, hsplit]
    rw [hsplit] at hbetween ht'
    by_cases hok : slugOk c = true
    · have hword : slugText p false = w ++ (ws.filter (· ≠ [])).flatMap (45 :: ·) ++ t := hin
      have hfilter : ((c :: w) :: ws).filter (· ≠ []) = (c :: w) :: ws.filter (· ≠ []) :=
        filter_cons_of_pos (by simp)
      rw [if_neg (by simp [hok]), modifyHead_cons]
      refine ⟨⟨c :: w, ws, t, rfl, ht, ?_⟩, t, ?_, ?_⟩
      · rw [slugText, if_pos hok, hword]
        rfl
      · rw [hfilter]
        exact ht.imp_right fun h => ⟨h, cons_ne_nil _ _⟩
      · rw [slugText, if_pos hok, hword, hfilter]
        rfl
    · have hfilter : ([] :: w :: ws).filter (· ≠ []) = (w :: ws).filter (· ≠ []) :=
        filter_cons_of_neg (by simp)
      rw [if_pos (by simp [hok])]
      refine ⟨⟨[], w :: ws, ?_⟩, t', ?_, ?_⟩
      · -- a dash is written, whether a word follows or not
        rw [slugText, if_neg hok, if_neg Bool.false_ne_true, hbetween]
        cases hws : (w :: ws).filter (· ≠ []) with
        | nil =>
          rw [hws] at ht'
          obtain rfl : t' = [] := ht'.resolve_right fun h => h.2 rfl
          exact ⟨[45], rfl, .inr rfl, rfl⟩
        | cons v vs => exact ⟨t', rfl, ht'.imp_right And.left, by simp [dashed]⟩
      · rw [hfilter]
        exact ht'
      · rw [slugText, if_neg hok, if_pos rfl, hbetween, hfilter]

theorem rdropWhile_take_concat (n : Nat) (x : Bytes) :
    ((x ++ [45]).take n).rdropWhile (· == 45) = (x.take n).rdropWhile (· == 45) := by
  rcases Nat.lt_or_ge x.length n with hlt | hle
  · rw [take_of_length_le (by simpa using hlt), take_of_length_le (Nat.le_of_lt hlt),
      rdropWhile_concat_pos _ _ _ (by decide)]
  · rw [take_append_of_le_length hle]

theorem slug_loop_name (exe : Bytes) (cap : Nat) :
    (slugLoop cap exe [] true).rdropWhile (· == 45) = wordsName cap exe := by
  obtain ⟨-, t, ht, htext⟩ := slugText_eq exe
  rw [slugLoop_eq _ _ _ _ (Nat.zero_le _), nil_append, wordsName, htext]
  rcases ht with rfl | ⟨rfl, -⟩
  · rw [append_nil]
  · exact rdropWhile_take_concat _ _

theorem slugOk_slugText (exe : Bytes) (dash : Bool) : ∀ c ∈ slugText exe dash, slugOk c = true := by
  induction exe generalizing dash with
  | nil => exact fun c hc => absurd hc not_mem_nil
  | cons d p ih =>
    rw [slugText]
    by_cases hok : slugOk d = true
    · rw [if_pos hok]
      exact forall_mem_cons.mpr ⟨hok, ih false⟩
    · rw [if_neg hok]
      cases dash with
      | true => exact ih true
      | false => exact forall_mem_cons.mpr ⟨by decide, ih true⟩

theorem slug_byte : ∀ c : UInt8, slugOk c = true → c ≠ 47 := forall_byte (by decide +kernel)

/-- The name of a program is made of the words of its path; it is not empty and has no slash in it. -/
theorem exeSlug_spec {exe s : Bytes} {cap : Nat} (h : exeSlug exe cap = some s) :
    s = wordsName cap exe ∧ s ≠ [] ∧ (47 : UInt8) ∉ s := by
  unfold exeSlug at h
  dsimp only at h
  split at h
  · cases h
  split at h
  · rename_i hne
    obtain rfl := Option.some.inj h
    refine ⟨slug_loop_name exe cap, hne, fun hslash => ?_⟩
    have hpre := rdropWhile_prefix (· == 45) (slugLoop cap exe [] true)
    have hloop := hpre.subset hslash
    rw [slugLoop_eq _ _ _ _ (Nat.zero_le _), nil_append] at hloop
    exact slug_byte 47 (slugOk_slugText exe true 47 (mem_of_mem_take hloop)) rfl
  · cases h

/-! ## Programs apart -/

/-- The name of a directory in the store. -/
def Inside (s : Bytes) : Prop := s ≠ [] ∧ s ≠ asc "." ∧ s ≠ asc ".." ∧ (47 : UInt8) ∉ s

/-- The files of two names are in different directories of the store. -/
structure Isolated (stateDir s t : Bytes) : Prop where
  dirs : candidateDir stateDir s ≠ candidateDir stateDir t
  loads : ∀ file, loadPath stateDir s file ≠ loadPath stateDir t file
  left : Inside s
  right : Inside t

/-- What there is room for in a path of `load_one`. -/
def room (stateDir : Bytes) : Nat := 510 - stateDir.length

theorem take_under (stateDir rest : Bytes) :
    (stateDir ++ asc "/" ++ rest).take 511 = (stateDir ++ asc "/").take 511 ++ rest.take (room stateDir) := by
  rw [take_append, length_append]
  show _ = _ ++ rest.take (510 - stateDir.length)
  rw [show 511 - (stateDir.length + (asc "/").length) = 510 - stateDir.length from by
    show 511 - (stateDir.length + 1) = _
    omega]

theorem candidateDir_eq_iff {stateDir s t : Bytes} :
    candidateDir stateDir s = candidateDir stateDir t ↔ s.take (room stateDir) = t.take (room stateDir) := by
  unfold candidateDir
  rw [take_under, take_under, append_cancel_left_eq]

/-- Names without a slash end at the first one. -/
theorem take_eq_of_take_slash {s t f : Bytes} {n : Nat} (hs : (47 : UInt8) ∉ s) (ht : (47 : UInt8) ∉ t)
    (h : (s ++ 47 :: f).take n = (t ++ 47 :: f).take n) : s.take n = t.take n := by
  induction n generalizing s t with
  | zero => rfl
  | succ n ih =>
    cases s with
    | nil =>
      cases t with
      | nil => rfl
      | cons d t =>
        have hd : 47 = d := (List.cons.inj h).1
        exact absurd (hd ▸ mem_cons_self) ht
    | cons c s =>
      cases t with
      | nil =>
        have hc : c = 47 := (List.cons.inj h).1
        exact absurd (hc ▸ mem_cons_self) hs
      | cons d t =>
        obtain ⟨rfl, hrest⟩ := List.cons.inj h
        rw [take_succ_cons, take_succ_cons,
          ih (fun hm => hs (mem_cons_of_mem _ hm)) (fun hm => ht (mem_cons_of_mem _ hm)) hrest]

theorem loadPath_ne {stateDir s t : Bytes} (hs : (47 : UInt8) ∉ s) (ht : (47 : UInt8) ∉ t)
    (h : s.take (room stateDir) ≠ t.take (room stateDir)) (file : Bytes) :
    loadPath stateDir s file ≠ loadPath stateDir t file := by
  have hpath (u : Bytes) : loadPath stateDir u file =
      (stateDir ++ asc "/").take 511 ++ (u ++ 47 :: file).take (room stateDir) := by
    rw [← take_under, loadPath]
    congr 1
    simp only [append_assoc]
    rfl
  intro heq
  rw [hpath, hpath, append_cancel_left_eq] at heq
  exact h (take_eq_of_take_slash hs ht heq)

/-- The name is not that of a directory that is always there. -/
def Proper (name : Bytes) : Prop := name ≠ asc "." ∧ name ≠ asc ".."

/-- Two programs are apart exactly if the words of their paths, as far as there is room for them, make
different names, and neither is that of a directory that is always there. -/
theorem isolated_iff (stateDir : Bytes) {exe exe' s s' : Bytes} (h : exeSlug exe slugSize = some s)
    (h' : exeSlug exe' slugSize = some s') :
    Isolated stateDir s s' ↔
      (wordsName slugSize exe).take (room stateDir) ≠ (wordsName slugSize exe').take (room stateDir) ∧
      Proper (wordsName slugSize exe) ∧ Proper (wordsName slugSize exe') := by
  obtain ⟨hs, hne, hslash⟩ := exeSlug_spec h
  obtain ⟨hs', hne', hslash'⟩ := exeSlug_spec h'
  rw [← hs, ← hs']
  constructor
  · rintro ⟨hdirs, -, ⟨-, hdot, hup, -⟩, -, hdot', hup', -⟩
    exact ⟨fun heq => hdirs (candidateDir_eq_iff.mpr heq), ⟨hdot, hup⟩, hdot', hup'⟩
  · rintro ⟨hnames, ⟨hdot, hup⟩, hdot', hup'⟩
    exact ⟨fun heq => hnames (candidateDir_eq_iff.mp heq), loadPath_ne hslash hslash' hnames,
      ⟨hne, hdot, hup, hslash⟩, hne', hdot', hup', hslash'⟩

/-- `/usr/bin/a` and `/usr/lib/a` are apart. -/
theorem usr_paths_isolated : ∃ s s', exeSlug (asc "/usr/bin/a") slugSize = some s ∧
    exeSlug (asc "/usr/lib/a") slugSize = some s' ∧ Isolated (asc "/var/lib/kernelsonde/baseline") s s' :=
  have hbin : exeSlug (asc "/usr/bin/a") slugSize = some (asc "usr-bin-a") := by decide
  have hlib : exeSlug (asc "/usr/lib/a") slugSize = some (asc "usr-lib-a") := by decide
  ⟨_, _, hbin, hlib, (isolated_iff _ hbin hlib).mpr ⟨by decide, ⟨by decide, by decide⟩, by decide, by decide⟩⟩

/-- A slash and a dash make the same name. -/
theorem dash_path_shares : asc "/usr/bin/a" ≠ asc "/usr/bin-a" ∧
    ∃ s s', exeSlug (asc "/usr/bin/a") slugSize = some s ∧ exeSlug (asc "/usr/bin-a") slugSize = some s' ∧
      ¬ Isolated (asc "/var/lib/kernelsonde/baseline") s s' :=
  ⟨by decide, asc "usr-bin-a", asc "usr-bin-a", by decide, by decide, fun h => h.dirs rfl⟩

/-! ## The sets of a program -/

abbrev Files := Bytes → Option Bytes

/-- The set of a program in one of its files, as `ps_baseline_load` and its siblings have it. -/
def loadFile (key : StoreKey) (file : Bytes) (fs : Files) (stateDir : Bytes) (exe : CString) : BaselineSet :=
  match exeSlug exe.bytes slugSize with
  | none => .init exe
  | some slug => load key exe (fs (loadPath stateDir slug file))

end Packetsonde.Baseline
