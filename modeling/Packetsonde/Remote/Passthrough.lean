import Packetsonde.Lib.Append
import Packetsonde.Lib.Scan
import Packetsonde.Agent.Lines

/-!
# Findings from a remote agent (`remote_session.c`)

`emit_finding_passthrough` takes the payload object out of a `finding` frame, adds the name of the
agent it came through to the object's `via_agent` and hands the line to the output. Everything is
done on the raw text: the object is cut out by counting braces, `via_agent` is looked for as a
string, and the new line is put together in a buffer on the stack.

A position in the source is an offset into the object. Beside the line, the model returns the list
of writes into the two local arrays, so that "stays in its buffer" is a statement about a value.
-/

namespace Packetsonde.Remote

open Packetsonde.Lib
open Packetsonde.Agent (findingFrame)
open List

/-! ## Writes -/

inductive Local where
  | esc
  | buf
  deriving DecidableEq, Repr

/-- `sizeof`. -/
def Local.size : Local → Nat
  | .esc => 132
  | .buf => 8192

/-- Bytes `off` to `off + len` of an array are written. -/
structure Write where
  array : Local
  off : Nat
  len : Nat
  deriving DecidableEq, Repr

def Write.InBounds (w : Write) : Prop := w.off + w.len ≤ w.array.size

/-- What `snprintf(buf + off, size, ..)` writes: the text and a NUL, cut to `size` bytes. -/
def snprintfWrites (off size : Nat) (text : Bytes) : List Write :=
  if size = 0 then [] else [⟨.buf, off, min (text.length + 1) size⟩]

structure Spliced where
  line : Option Bytes
  writes : List Write
  deriving DecidableEq, Repr

/-! ## Severity -/

/-- `PS_SEV_*`, from `finding.h`. -/
inductive Severity where
  | info
  | low
  | medium
  | high
  | critical
  deriving DecidableEq, Repr

def Severity.text : Severity → Bytes
  | .info => asc "info"
  | .low => asc "low"
  | .medium => asc "medium"
  | .high => asc "high"
  | .critical => asc "critical"

/-- `parse_severity_from_jsonl`; the `-1` is `none`. The last place a key may start at leaves one
byte for the value. -/
def parseSeverity (buf : Bytes) : Option Severity :=
  match findSub (asc "\"severity\":\"") buf.dropLast with
  | none => none
  | some i =>
    let v := (buf.drop (i + 12)).takeWhile (· ≠ 34)
    [.info, .low, .medium, .high, .critical].find? (·.text = v)

/-! ## The payload -/

/-- The object behind the first `"payload"` of a frame. -/
def payloadObject (frame : Bytes) : Option Bytes :=
  match findSub (asc "\"payload\"") frame with
  | none => none
  | some i =>
    let q := (frame.drop (i + 9)).dropWhile isGap
    if q.head? = some 123 then (objectLen .code 0 q).map q.take else none

/-- The agent's name as it is written into a string literal: `eo` bytes of `esc` are used. -/
def escName : Nat → Bytes → Bytes
  | _, [] => []
  | eo, c :: rest =>
    if eo + 2 < Local.esc.size then
      if c = 34 ∨ c = 92 then 92 :: c :: escName (eo + 2) rest
      else if 0x20 ≤ c ∧ c < 0x7f then c :: escName (eo + 1) rest
      else escName eo rest
    else []

/-- What the search for an existing `via_agent` comes to. -/
inductive Via where
  | absent
  /-- A string of `oldLen` bytes at `oldStart`; what is replaced starts at `prefixLen`. -/
  | string (prefixLen oldStart oldLen : Nat)
  /-- An array whose `]` is at `insertOff`. -/
  | array (insertOff : Nat)
  /-- None of the shapes the code knows, or one that does not end in the object. -/
  | unknown
  deriving DecidableEq, Repr

def viaKey : Bytes := asc "\"via_agent\""

/-- Where the replaced region starts: at the key, or at a comma right before it. -/
def regionStart (obj : Bytes) (key : Nat) : Nat :=
  if obj[key - 1]? = some 44 ∧ 0 < key then key - 1 else key

/-- The scan for `via_agent` in the payload object. -/
def findVia (obj : Bytes) : Via :=
  match findSub viaKey obj with
  | none => .absent
  | some key =>
    let gap := ((obj.drop (key + 11)).takeWhile isGap).length
    let va := key + 11 + gap
    match obj[va]? with
    | some 34 =>
      let old := obj.drop (va + 1)
      if strLen old < old.length then
        -- `memmem` looks again, in the text before the value
        match findSub viaKey (obj.take va) with
        | none => .unknown
        | some region => .string (regionStart obj region) (va + 1) (strLen old)
      else .unknown
    | some 91 =>
      match closeLen .code (obj.drop (va + 1)) with
      | none => .unknown
      | some n => .array (va + 1 + n)
    | _ => .unknown

/-! ## The three shapes -/

/-- No `via_agent`: a member in front of the closing brace. -/
def spliceAbsent (obj esc : Bytes) : Spliced :=
  if obj.length + esc.length + 32 ≥ Local.buf.size then ⟨none, []⟩
  else
    let text := asc ",\"via_agent\":\"" ++ esc ++ asc "\"\x7d"
    let bo := obj.length - 1 + text.length
    let writes := ⟨.buf, 0, obj.length - 1⟩ ::
      snprintfWrites (obj.length - 1) (sizeSub Local.buf.size (obj.length - 1)) text
    if bo + 1 ≥ Local.buf.size then ⟨none, writes⟩
    else ⟨some (obj.dropLast ++ text ++ [10]), writes ++ [⟨.buf, bo, 1⟩]⟩

/-- A comma, unless the text in front ends with the opening bracket. -/
def separator (opening : UInt8) (pre : Bytes) : Bytes :=
  if pre.getLast? = some opening then [] else [44]

/-- `"%s\"via_agent\":[\"%.*s\",\"%s\"]"`; a NUL in the old value ends it. -/
def stringText (pre old esc : Bytes) : Bytes :=
  separator 123 pre ++ asc "\"via_agent\":[\"" ++ cstr old ++ asc "\",\"" ++ esc ++ asc "\"]"

/-- `"%s\"%s\""`. -/
def arrayText (pre esc : Bytes) : Bytes := separator 91 pre ++ asc "\"" ++ esc ++ asc "\""

/-- A string: it becomes an array of itself and the name. Nothing is said about `prefixLen` before
that many bytes are copied. -/
def spliceString (obj esc : Bytes) (prefixLen oldStart oldLen : Nat) : Spliced :=
  if oldLen + esc.length + 64 ≥ Local.buf.size then ⟨none, []⟩
  else
    let pre := obj.take prefixLen
    let suffix := obj.drop (oldStart + oldLen + 1)
    let text := stringText pre ((obj.drop oldStart).take oldLen) esc
    let room := sizeSub Local.buf.size prefixLen
    let copied := ⟨.buf, 0, prefixLen⟩ :: snprintfWrites prefixLen room text
    if text.length ≥ room then ⟨none, copied⟩
    else
      let bo := prefixLen + text.length
      if bo + suffix.length ≥ Local.buf.size then ⟨none, copied⟩
      else
        let whole := copied ++ [⟨.buf, bo, suffix.length⟩]
        if bo + suffix.length + 1 ≥ Local.buf.size then ⟨none, whole⟩
        else ⟨some (pre ++ text ++ suffix ++ [10]), whole ++ [⟨.buf, bo + suffix.length, 1⟩]⟩

/-- An array: the name goes in front of its closing bracket. -/
def spliceArray (obj esc : Bytes) (insertOff : Nat) : Spliced :=
  if obj.length + esc.length + 8 ≥ Local.buf.size then ⟨none, []⟩
  else
    let pre := obj.take insertOff
    let suffix := obj.drop insertOff
    let text := arrayText pre esc
    let room := sizeSub Local.buf.size insertOff
    let copied := ⟨.buf, 0, insertOff⟩ :: snprintfWrites insertOff room text
    if text.length ≥ room then ⟨none, copied⟩
    else
      let bo := insertOff + text.length
      let whole := copied ++ [⟨.buf, bo, suffix.length⟩]
      if bo + suffix.length + 1 ≥ Local.buf.size then ⟨none, whole⟩
      else ⟨some (pre ++ text ++ suffix ++ [10]), whole ++ [⟨.buf, bo + suffix.length, 1⟩]⟩

def splice (obj esc : Bytes) : Spliced :=
  match findVia obj with
  | .absent => spliceAbsent obj esc
  | .string prefixLen oldStart oldLen => spliceString obj esc prefixLen oldStart oldLen
  | .array insertOff => spliceArray obj esc insertOff
  | .unknown => ⟨none, []⟩

structure Passthrough where
  emitted : Option (Option Severity × Bytes)
  writes : List Write
  deriving DecidableEq, Repr

/-- `emit_finding_passthrough`. -/
def emitFindingPassthrough (agentName frame : Bytes) : Passthrough :=
  match payloadObject frame with
  | none => ⟨none, []⟩
  | some obj =>
    let esc := escName 0 (cstr agentName)
    let s := splice obj esc
    ⟨s.line.map (parseSeverity obj, ·), ⟨.esc, 0, esc.length + 1⟩ :: s.writes⟩

/-! ## What the scan for `via_agent` finds -/

/-- The text of an object around a `via_agent` with a string behind it. -/
structure StringVia (obj pre gap old suffix : Bytes) : Prop where
  text : obj = pre ++ viaKey ++ gap ++ 34 :: (old ++ 34 :: suffix)
  first : findSub viaKey obj = some pre.length
  gap_eq : ∀ c ∈ gap, isGap c = true
  closed : strLen (old ++ 34 :: suffix) = old.length

/-- The text of an object around a `via_agent` with an array behind it. -/
structure ArrayVia (obj pre gap items suffix : Bytes) : Prop where
  text : obj = pre ++ viaKey ++ gap ++ 91 :: (items ++ 93 :: suffix)
  first : findSub viaKey obj = some pre.length
  gap_eq : ∀ c ∈ gap, isGap c = true
  closed : closeLen .code (items ++ 93 :: suffix) = some items.length

/-- What is left of the text before the key when a comma at its end is given up. -/
def dropComma (pre : Bytes) : Bytes := if pre.getLast? = some 44 then pre.dropLast else pre

theorem regionStart_eq (pre rest : Bytes) :
    regionStart (pre ++ rest) pre.length = (dropComma pre).length := by
  unfold regionStart dropComma
  cases pre using List.reverseRecOn with
  | nil => simp
  | append_singleton init last => by_cases hlast : last = 44 <;> simp [hlast]

/-- The shape that a value `v` behind the key and the gap has. -/
def viaValue (pre gap v : Bytes) : Via :=
  match v with
  | 34 :: old =>
    if strLen old < old.length then
      .string (dropComma pre).length (pre.length + 11 + gap.length + 1) (strLen old)
    else .unknown
  | 91 :: rest =>
    match closeLen .code rest with
    | none => .unknown
    | some n => .array (pre.length + 11 + gap.length + 1 + n)
  | _ => .unknown

/-- The value behind the key decides. -/
theorem findVia_split {obj pre gap v : Bytes} (hobj : obj = pre ++ viaKey ++ gap ++ v)
    (hfirst : findSub viaKey obj = some pre.length) (hgap : ∀ c ∈ gap, isGap c = true)
    (hv : ∀ c, v.head? = some c → isGap c = false) :
    findVia obj = viaValue pre gap v := by
  have hkey : viaKey.length = 11 := by decide
  have hbehind : obj.drop (pre.length + 11) = gap ++ v := by
    rw [hobj, append_assoc, drop_left' (by rw [length_append, hkey])]
  have hwhile : (obj.drop (pre.length + 11)).takeWhile isGap = gap := by
    rw [hbehind, takeWhile_append_of_pos hgap]
    cases v with
    | nil => simp
    | cons c rest => rw [takeWhile_cons, hv c rfl]; simp
  have hva : ∀ n, obj.drop (pre.length + 11 + gap.length + n) = v.drop n := by
    intro n
    rw [Nat.add_assoc (pre.length + 11), ← drop_drop, hbehind, ← drop_drop,
      drop_left]
  have hat : obj[pre.length + 11 + gap.length]? = v.head? := by
    rw [← head?_drop]
    exact congrArg List.head? (hva 0)
  have hregion : regionStart obj pre.length = (dropComma pre).length := by
    rw [hobj, append_assoc, append_assoc, regionStart_eq]
  have hagain : findSub viaKey (obj.take (pre.length + 11 + gap.length)) = some pre.length :=
    findSub_take hfirst (by omega)
  unfold findVia
  simp only [hfirst, hwhile, hat, hva, hagain, hregion]
  cases v with
  | nil => rfl
  | cons c rest =>
    simp only [head?_cons, drop_succ_cons, drop_zero]
    unfold viaValue
    by_cases hq : c = 34
    · subst hq; rfl
    · by_cases hb : c = 91
      · subst hb; rfl
      · simp [hq, hb]

variable {obj : Bytes} {insertOff : Nat}

/-- An object with the key in it splits, and the value decides. -/
theorem exists_via_split (h : findVia obj ≠ .absent) :
    ∃ pre gap v, obj = pre ++ viaKey ++ gap ++ v ∧ findSub viaKey obj = some pre.length ∧
      (∀ c ∈ gap, isGap c = true) ∧ findVia obj = viaValue pre gap v := by
  obtain ⟨key, hkey⟩ : ∃ key, findSub viaKey obj = some key :=
    Option.ne_none_iff_exists'.mp fun hnone => h (by rw [findVia, hnone])
  obtain ⟨pre, post, hobj, rfl⟩ := findSub_split hkey
  have hsplit : obj = pre ++ viaKey ++ post.takeWhile isGap ++ post.dropWhile isGap := by
    rw [append_assoc, takeWhile_append_dropWhile, hobj]
  have hgap : ∀ c ∈ post.takeWhile isGap, isGap c = true := fun c hc => all_eq_true.mp all_takeWhile c hc
  refine ⟨pre, _, _, hsplit, hkey, hgap, findVia_split hsplit hkey hgap ?_⟩
  · intro c hc
    have hne : post.dropWhile isGap ≠ [] := by
      intro hnil
      rw [hnil] at hc
      cases hc
    have hhead := head_dropWhile_not isGap hne
    rw [head?_eq_some_head hne] at hc
    rw [← Option.some.inj hc]
    exact hhead

theorem findVia_eq_string_iff {prefixLen oldStart oldLen : Nat} :
    findVia obj = .string prefixLen oldStart oldLen ↔
      ∃ pre gap old suffix, StringVia obj pre gap old suffix ∧
        prefixLen = (dropComma pre).length ∧ oldStart = pre.length + 11 + gap.length + 1 ∧
        oldLen = old.length := by
  constructor
  · intro h
    obtain ⟨pre, gap, v, hobj, hkey, hgap, hvia⟩ := exists_via_split (by rw [h]; nofun)
    rw [hvia] at h
    unfold viaValue at h
    split at h
    · rename_i old
      split at h
      · rename_i hlt
        cases h
        obtain ⟨suffix, hsuffix⟩ := strLen_split hlt
        have hlen : (old.take (strLen old)).length = strLen old :=
          length_take_of_le (strLen_le old)
        refine ⟨pre, gap, old.take (strLen old), suffix, ⟨?_, hkey, hgap, ?_⟩, rfl, rfl, hlen.symm⟩
        · rw [← hsuffix]
          exact hobj
        · rw [← hsuffix, hlen]
      · cases h
    · split at h <;> cases h
    · cases h
  · rintro ⟨pre, gap, old, suffix, hvia, rfl, rfl, rfl⟩
    have hlt : strLen (old ++ 34 :: suffix) < (old ++ 34 :: suffix).length := by
      rw [hvia.closed, length_append]
      simp
    rw [findVia_split hvia.text hvia.first hvia.gap_eq (by rintro c ⟨⟩; rfl), viaValue, if_pos hlt,
      hvia.closed]

theorem findVia_eq_array_iff :
    findVia obj = .array insertOff ↔
      ∃ pre gap items suffix, ArrayVia obj pre gap items suffix ∧
        insertOff = (pre ++ viaKey ++ gap ++ 91 :: items).length := by
  have hlength : ∀ pre gap items : Bytes, (pre ++ viaKey ++ gap ++ 91 :: items).length =
      pre.length + 11 + gap.length + 1 + items.length := by
    intro pre gap items
    simp only [length_append, length_cons, show viaKey.length = 11 by decide]
    omega
  constructor
  · intro h
    obtain ⟨pre, gap, v, hobj, hkey, hgap, hvia⟩ := exists_via_split (by rw [h]; nofun)
    rw [hvia] at h
    unfold viaValue at h
    split at h
    · split at h <;> cases h
    · rename_i rest
      cases hclose : closeLen .code rest with
      | none => rw [hclose] at h; cases h
      | some n =>
        rw [hclose] at h
        cases h
        obtain ⟨suffix, hsuffix⟩ := closeLen_split hclose
        have hlen : (rest.take n).length = n :=
          length_take_of_le (Nat.le_of_lt (closeLen_lt hclose))
        refine ⟨pre, gap, rest.take n, suffix, ⟨?_, hkey, hgap, ?_⟩, ?_⟩
        · rw [← hsuffix]
          exact hobj
        · rw [← hsuffix, hlen, hclose]
        · rw [hlength, hlen]
    · cases h
  · rintro ⟨pre, gap, items, suffix, hvia, rfl⟩
    rw [findVia_split hvia.text hvia.first hvia.gap_eq (by rintro c ⟨⟩; rfl), viaValue, hvia.closed,
      hlength]

/-! ## Where the writes go -/

theorem escName_length_le (eo : Nat) (name : Bytes) (h : eo < Local.esc.size) :
    eo + (escName eo name).length < Local.esc.size := by
  induction name generalizing eo with
  | nil => exact h
  | cons c rest ih =>
    unfold escName
    split
    · split
      · have hrest := ih (eo + 2) (by assumption)
        simp only [length_cons]
        omega
      · split
        · have hrest := ih (eo + 1) (by omega)
          simp only [length_cons]
          omega
        · exact ih eo h
    · exact h

theorem inBounds_mk {array : Local} {off len : Nat} :
    Write.InBounds ⟨array, off, len⟩ ↔ off + len ≤ array.size := Iff.rfl

/-- `snprintf` itself respects the room it is told, which is right as long as the offset is. -/
theorem snprintfWrites_inBounds (off : Nat) (text : Bytes) (hoff : off ≤ Local.buf.size) :
    ∀ w ∈ snprintfWrites off (sizeSub Local.buf.size off) text, w.InBounds := by
  intro w hw
  unfold snprintfWrites sizeSub at hw
  rw [if_pos hoff] at hw
  split at hw
  · cases hw
  · cases mem_singleton.mp hw
    rw [inBounds_mk]
    omega

theorem spliceAbsent_inBounds (obj esc : Bytes) :
    ∀ w ∈ (spliceAbsent obj esc).writes, w.InBounds := by
  unfold spliceAbsent
  split
  · intro w hw
    cases hw
  · rename_i hroom
    have hsn := fun text => snprintfWrites_inBounds (obj.length - 1) text (by omega)
    have hcopy : Write.InBounds ⟨.buf, 0, obj.length - 1⟩ := inBounds_mk.mpr (by omega)
    dsimp only
    split
    · exact forall_mem_cons.mpr ⟨hcopy, hsn _⟩
    · rename_i hend
      refine forall_mem_append.mpr ⟨forall_mem_cons.mpr ⟨hcopy, hsn _⟩, ?_⟩
      rw [forall_mem_singleton, inBounds_mk]
      omega

theorem arrayText_length_le (pre esc : Bytes) : (arrayText pre esc).length ≤ esc.length + 3 := by
  have hsep : (separator 91 pre).length ≤ 1 := by
    unfold separator
    split <;> simp
  unfold arrayText
  simp only [length_append, show (asc "\"").length = 1 by decide]
  omega

theorem spliceArray_inBounds {obj esc : Bytes} (hoff : insertOff ≤ obj.length) :
    ∀ w ∈ (spliceArray obj esc insertOff).writes, w.InBounds := by
  unfold spliceArray
  split
  · intro w hw
    cases hw
  · rename_i hroom
    -- the object and the name fit with eight bytes to spare, three of which the new text takes
    have hsuffix : (obj.drop insertOff).length = obj.length - insertOff := length_drop
    have hcopied : ∀ text, ∀ w ∈ (⟨.buf, 0, insertOff⟩ : Write) ::
        snprintfWrites insertOff (sizeSub Local.buf.size insertOff) text, w.InBounds := by
      intro text
      refine forall_mem_cons.mpr ⟨?_, snprintfWrites_inBounds _ text (by omega)⟩
      rw [inBounds_mk]
      omega
    have htext := arrayText_length_le (obj.take insertOff) esc
    have hwhole : ∀ w ∈ [(⟨.buf, insertOff + (arrayText (obj.take insertOff) esc).length,
        (obj.drop insertOff).length⟩ : Write)], w.InBounds := by
      rw [forall_mem_singleton, inBounds_mk]
      omega
    dsimp only
    split
    · exact hcopied _
    · split
      · exact forall_mem_append.mpr ⟨hcopied _, hwhole⟩
      · refine forall_mem_append.mpr ⟨forall_mem_append.mpr ⟨hcopied _, hwhole⟩, ?_⟩
        rw [forall_mem_singleton, inBounds_mk]
        omega

/-- The string shape copies `prefixLen` bytes first and asks about the sum later. -/
theorem spliceString_inBounds_iff (obj esc : Bytes) (prefixLen oldStart oldLen : Nat) :
    (∀ w ∈ (spliceString obj esc prefixLen oldStart oldLen).writes, w.InBounds) ↔
      (oldLen + esc.length + 64 < Local.buf.size → prefixLen ≤ Local.buf.size) := by
  unfold spliceString
  split
  · rename_i hroom
    exact ⟨fun _ hlt => absurd hroom (by omega), fun _ w hw => by cases hw⟩
  · rename_i hroom
    have hcopied : prefixLen ≤ Local.buf.size → ∀ text, ∀ w ∈ (⟨.buf, 0, prefixLen⟩ : Write) ::
        snprintfWrites prefixLen (sizeSub Local.buf.size prefixLen) text, w.InBounds := by
      intro hle text
      refine forall_mem_cons.mpr ⟨?_, snprintfWrites_inBounds _ text hle⟩
      rw [inBounds_mk]
      omega
    -- the copy of the prefix is the first write on every path
    have hfirst : Write.InBounds ⟨.buf, 0, prefixLen⟩ → prefixLen ≤ Local.buf.size := by
      rw [inBounds_mk]
      omega
    refine ⟨fun h _ => hfirst (h _ ?_), fun h => ?_⟩
    · dsimp only
      split
      · exact mem_cons_self
      · split
        · exact mem_cons_self
        · split
          · exact mem_cons_self
          · exact mem_cons_self
    · replace hcopied := hcopied (h (by omega))
      dsimp only
      split
      · exact hcopied _
      · split
        · exact hcopied _
        · rename_i hfits
          have hwhole : ∀ bo suffix, ¬ bo + suffix ≥ Local.buf.size →
              ∀ w ∈ [(⟨.buf, bo, suffix⟩ : Write)], w.InBounds := by
            intro bo suffix hlt
            rw [forall_mem_singleton, inBounds_mk]
            omega
          split
          · exact forall_mem_append.mpr ⟨hcopied _, hwhole _ _ hfits⟩
          · rename_i hend
            refine forall_mem_append.mpr
              ⟨forall_mem_append.mpr ⟨hcopied _, hwhole _ _ hfits⟩, ?_⟩
            exact hwhole _ 1 (by omega)

/-- The first `via_agent` of the payload has a string behind it that the code takes, and more than
the buffer holds in front of it. -/
def ViaBeyondBuffer (agentName frame : Bytes) : Prop :=
  ∃ obj pre gap old suffix, payloadObject frame = some obj ∧ StringVia obj pre gap old suffix ∧
    old.length + (escName 0 (cstr agentName)).length + 64 < Local.buf.size ∧
    Local.buf.size < (dropComma pre).length

theorem not_inBounds_of_viaBeyondBuffer {agentName frame : Bytes}
    (h : ViaBeyondBuffer agentName frame) :
    ¬ ∀ w ∈ (emitFindingPassthrough agentName frame).writes, w.InBounds := by
  obtain ⟨obj, pre, gap, old, suffix, hobj, hvia, hroom, hfar⟩ := h
  have hfind := findVia_eq_string_iff.mpr ⟨pre, gap, old, suffix, hvia, rfl, rfl, rfl⟩
  unfold emitFindingPassthrough splice
  rw [hobj]
  dsimp only
  rw [hfind, forall_mem_cons]
  rintro ⟨-, hall⟩
  exact absurd ((spliceString_inBounds_iff ..).mp hall hroom) (by omega)

/-- Every write stays in its array except in that one case. -/
theorem passthrough_in_bounds_iff (agentName frame : Bytes) :
    (∀ w ∈ (emitFindingPassthrough agentName frame).writes, w.InBounds) ↔
      ¬ ViaBeyondBuffer agentName frame := by
  refine ⟨fun h hfar => not_inBounds_of_viaBeyondBuffer hfar h, fun hnear => ?_⟩
  unfold emitFindingPassthrough splice
  cases hobj : payloadObject frame with
  | none => exact fun w hw => by cases hw
  | some obj =>
    have hesc : Write.InBounds ⟨.esc, 0, (escName 0 (cstr agentName)).length + 1⟩ := by
      have hlt := escName_length_le 0 (cstr agentName) (by decide)
      rw [inBounds_mk]
      omega
    dsimp only
    refine forall_mem_cons.mpr ⟨hesc, ?_⟩
    cases hfind : findVia obj with
    | absent => exact spliceAbsent_inBounds obj _
    | array insertOff =>
      apply spliceArray_inBounds
      obtain ⟨pre, gap, items, suffix, hvia, rfl⟩ := findVia_eq_array_iff.mp hfind
      rw [hvia.text]
      simp only [length_append, length_cons]
      omega
    | unknown => exact fun w hw => by cases hw
    | string prefixLen oldStart oldLen =>
      obtain ⟨pre, gap, old, suffix, hvia, rfl, rfl, rfl⟩ := findVia_eq_string_iff.mp hfind
      apply (spliceString_inBounds_iff ..).mpr
      intro hroom
      exact Nat.not_lt.mp fun hfar => hnear ⟨obj, pre, gap, old, suffix, hobj, hvia, hroom, hfar⟩

/-- The payload of such a frame is taken out of it, if the count ends at its last brace. -/
theorem payloadObject_findingFrame {body : Bytes}
    (h : objectScan .code 1 body = some (.code, 1)) :
    payloadObject (findingFrame (123 :: body ++ [125])) = some (123 :: body ++ [125]) := by
  have hfind : findSub (asc "\"payload\"") (findingFrame (123 :: body ++ [125])) = some 18 := by
    unfold findingFrame
    rw [append_assoc]
    apply findSub_append_of_some
    decide
  have hlen : objectLen .code 0 (123 :: body ++ [125] ++ asc "\x7d") =
      some (123 :: body ++ [125]).length := by
    have hscan : objectScan .code 0 (123 :: body) = some (.code, 1) := h
    rw [append_assoc, objectLen_append hscan, show objectLen .code 1 ([125] ++ asc "\x7d") =
      some 1 from rfl, length_append]
    exact congrArg some (Nat.add_comm ..)
  unfold payloadObject
  rw [hfind]
  change (if (123 :: body ++ [125] ++ asc "\x7d").head? = some 123 then
    (objectLen .code 0 (123 :: body ++ [125] ++ asc "\x7d")).map
      (123 :: body ++ [125] ++ asc "\x7d").take else none) = _
  have hhead : (123 :: body ++ [125] ++ asc "\x7d").head? = some 123 := rfl
  rw [if_pos hhead, hlen, Option.map_some, take_left]

/-- A finding with `n + 10` bytes of evidence, up to its next member. -/
def evidencePrefix (n : Nat) : Bytes :=
  123 :: (asc "\"evidence\":\"" ++ (asc "xxxxxxxxxx" ++ List.replicate n 120) ++ [34])

/-- The finding came through the agent `edge`. -/
def longFinding (n : Nat) : Bytes :=
  evidencePrefix n ++ asc ",\"via_agent\":\"edge\"" ++ [125]

theorem length_evidencePrefix (n : Nat) : (evidencePrefix n).length = n + 24 := by
  simp only [evidencePrefix, length_cons, length_append, length_replicate,
    show (asc "\"evidence\":\"").length = 12 by decide, show (asc "xxxxxxxxxx").length = 10 by decide,
    length_nil]
  omega

theorem payloadObject_longFinding (n : Nat) :
    payloadObject (findingFrame (longFinding n)) = some (longFinding n) := by
  have hplain : ∀ c ∈ asc "xxxxxxxxxx" ++ List.replicate n 120, c ≠ 34 ∧ c ≠ 92 := by
    rw [forall_mem_append]
    refine ⟨by decide +kernel, fun c hc => ?_⟩
    rw [eq_of_mem_replicate hc]
    decide
  have hbody : longFinding n = 123 :: (asc "\"evidence\":\"" ++ ((asc "xxxxxxxxxx" ++
      List.replicate n 120) ++ asc "\",\"via_agent\":\"edge\"")) ++ [125] := by
    simp only [longFinding, evidencePrefix, append_assoc, cons_append]
    rfl
  rw [hbody]
  apply payloadObject_findingFrame
  rw [objectScan_append,
    show objectScan .code 1 (asc "\"evidence\":\"") = some (.str, 1) by decide, Option.bind_some,
    objectScan_append, objectScan_str hplain]
  decide

theorem longFinding_via (n : Nat) :
    StringVia (longFinding n) (evidencePrefix n ++ [44]) (asc ":") (asc "edge") [125] := by
  have hquote : (34 : UInt8) ∉ asc "xxxxxxxxxx" ++ List.replicate n 120 := by
    rw [mem_append, not_or]
    exact ⟨by decide, fun h => absurd (eq_of_mem_replicate h) (by decide)⟩
  have htail : findSub viaKey (asc "\",\"via_agent\":\"edge\"\x7d") = some 2 := by decide
  have hskip : findSub viaKey ((asc "xxxxxxxxxx" ++ List.replicate n 120) ++
      asc "\",\"via_agent\":\"edge\"\x7d") = some (n + 12) := by
    rw [show viaKey = 34 :: asc "via_agent\"" by decide] at htail ⊢
    rw [findSub_append_of_not_mem hquote, htail, Option.map_some, length_append,
      length_replicate, show (asc "xxxxxxxxxx").length = 10 by decide]
    exact congrArg some (by omega)
  have hopen : findSub viaKey (asc "\x7b\"evidence\":\"" ++ asc "xxxxxxxxxx") = none := by decide
  have hsplit : longFinding n = asc "\x7b\"evidence\":\"" ++ (asc "xxxxxxxxxx" ++
      (List.replicate n 120 ++ asc "\",\"via_agent\":\"edge\"\x7d")) := by
    simp only [longFinding, evidencePrefix, append_assoc, cons_append]
    rfl
  refine ⟨?_, ?_, by decide +kernel, by decide⟩
  · simp only [longFinding, append_assoc]
    rfl
  · rw [hsplit, findSub_append_of_none hopen (by decide +kernel), ← append_assoc, hskip,
      Option.map_some, length_append, length_evidencePrefix]
    rfl

/-- Such a finding makes the copy of the prefix run over the end of the buffer. -/
theorem long_finding_overruns :
    (findingFrame (longFinding 8192)).length ≤ 65536 ∧
      ¬ ∀ w ∈ (emitFindingPassthrough (asc "relay") (findingFrame (longFinding 8192))).writes,
        w.InBounds := by
  have hlength : (findingFrame (longFinding 8192)).length ≤ 65536 := by
    simp only [findingFrame, longFinding, length_append, length_evidencePrefix]
    decide
  have hcomma : dropComma (evidencePrefix 8192 ++ [44]) = evidencePrefix 8192 := by
    unfold dropComma
    rw [if_pos getLast?_concat, dropLast_concat]
  refine ⟨hlength, not_inBounds_of_viaBeyondBuffer ?_⟩
  refine ⟨_, _, _, _, _, payloadObject_longFinding 8192, longFinding_via 8192, by decide, ?_⟩
  rw [hcomma, length_evidencePrefix]
  decide

end Packetsonde.Remote
