import Packetsonde.Central.Collect
import Packetsonde.Lib.JsonKey

/-!
# Packetsonde — baseline sets and their files (`baseline_set.c`, `baseline_store.c`)

A baseline is the set of paths (or destinations, or parents) a program is known to use. It is kept in a
file: `ps_blset_to_json_key` writes it with the JSON writer, and `ps_blset_from_json_key` reads it back
with a scanner of its own, which takes what stands between two quotes.

The scanner does not know escapes. What it reads never holds a quote (`mem_scanItems`), and without
quotes it reads the texts as they were written (`scanItems_itemsText`), so a set survives exactly if
none of its entries needs an escape: `reload_iff`. An entry with a quote can even become two, one of
which nobody added (`smuggled_path`).
-/

namespace Packetsonde.Baseline

open Packetsonde.Lib
open Packetsonde.Central (PsJson jsonExtractString sep_true sep_false)
open List

/-! ## Sets -/

/-- `PS_BL_MAX` and `PS_BL_PATHLEN`. -/
def blMax : Nat := 512
def blPathLen : Nat := 256

/-- `struct ps_baseline_set`, with the strings its buffers hold. -/
structure BaselineSet where
  exe : Bytes
  paths : List Bytes
  length_le : paths.length ≤ blMax
  short : ∀ p ∈ paths, p.length < blPathLen
  noNul : ∀ p ∈ paths, (0 : UInt8) ∉ p

namespace BaselineSet

/-- `ps_blset_init`. -/
def init (exe : CString) : BaselineSet where
  exe := exe.bytes.take 255
  paths := []
  length_le := Nat.zero_le _
  short := fun _ h => nomatch h
  noNul := fun _ h => nomatch h

/-- The set with a path behind the others; it is cut to its buffer. -/
def push (s : BaselineSet) (path : CString) (h : s.paths.length < blMax) : BaselineSet where
  exe := s.exe
  paths := s.paths ++ [path.bytes.take (blPathLen - 1)]
  length_le := by
    rw [length_append]
    exact h
  short := by
    intro p hp
    rcases mem_append.mp hp with hp | hp
    · exact s.short p hp
    · rw [mem_singleton.mp hp]
      exact Nat.lt_of_le_of_lt (length_take_le _ _) (by decide)
  noNul := by
    intro p hp
    rcases mem_append.mp hp with hp | hp
    · exact s.noNul p hp
    · rw [mem_singleton.mp hp]
      exact fun h0 => path.noNul (mem_of_mem_take h0)

/-- `ps_blset_add`, with its return value. -/
def add (s : BaselineSet) (path : CString) : BaselineSet × Int32 :=
  if path.bytes = [] then (s, -1)
  else if path.bytes ∈ s.paths then (s, 0)
  else if h : s.paths.length < blMax then (s.push path h, 1)
  else (s, -1)

end BaselineSet

/-- `under`. -/
def under (path pre : Bytes) : Bool :=
  if pre = [] then false
  else if ¬ pre <+: path then false
  else path.length = pre.length ∨ path[pre.length]? = some 47 ∨ pre.getLast? = some 47

/-- `ps_blset_covered`. -/
def BaselineSet.covered (s : BaselineSet) (path : Bytes) : Bool := s.paths.any (under path ·)

/-! ## The text of a set -/

/-- `ps_blset_to_json_key`: the text in the buffer. -/
def BaselineSet.toJsonKey (s : BaselineSet) (key : Bytes) (cap : Nat) : Option Bytes :=
  let j := ((PsJson.init cap).objectBegin.keyString (asc "exe") s.exe).arrayBegin key
  (s.paths.foldl PsJson.arrayString j).arrayEnd.objectEnd.finish

/-- One turn of the loop of `ps_blset_from_json_key`: the text between the next two quotes, and where
the loop goes on, if it does. -/
def nextItem (p : Bytes) : Option (Bytes × Option Bytes) :=
  match p.idxOf? 34 with
  | none => none
  | some q =>
    if (p.idxOf? 93).any (· < q) then none
    else
      let body := p.drop (q + 1)
      match body.idxOf? 34 with
      | none => none
      | some e =>
        let p := body.drop (e + 1)
        match p.idxOf? 44 with
        | none => some (body.take e, none)
        | some comma =>
          if (p.idxOf? 93).any (· < comma) then some (body.take e, none)
          else some (body.take e, some (p.drop (comma + 1)))

def keepItem (acc : List Bytes) (x : Bytes) : List Bytes :=
  if x.length < blPathLen then acc ++ [x] else acc

/-- The loop behind the opening bracket, with room for `max` entries; it also stands in `unit_envelope.c`. -/
def scanItems (max : Nat) : Nat → Bytes → List Bytes → List Bytes
  | 0, _, acc => acc
  | fuel + 1, p, acc =>
    if p = [] ∨ p.head? = some 93 ∨ max ≤ acc.length then acc
    else
      match nextItem p with
      | none => acc
      | some (x, none) => keepItem acc x
      | some (x, some p) => scanItems max fuel p (keepItem acc x)

/-- The `pat` buffer of the reader. -/
def pattern (key : Bytes) : Bytes := (34 :: (key ++ asc "\":[")).take 63

/-- The entries the reader finds. Each turn of its loop moves on by at least a byte. -/
def readPaths (json key : Bytes) : List Bytes :=
  match behind (pattern key) json with
  | none => []
  | some p => scanItems blMax (p.length + 1) p []

/-! ## What the reader can find -/

variable {p x key : Bytes} {max fuel cap : Nat} {acc : List Bytes}

/-- What a turn finds holds no quote. -/
theorem nextItem_spec {next : Option Bytes} (h : nextItem p = some (x, next)) :
    (34 : UInt8) ∉ x ∧ (∀ c ∈ x, c ∈ p) ∧ ∀ p', next = some p' → ∀ c ∈ p', c ∈ p := by
  unfold nextItem at h
  cases hq : p.idxOf? 34 with
  | none => simp [hq] at h
  | some q =>
    simp only [hq] at h
    by_cases hclose : (p.idxOf? 93).any (· < q) = true
    · simp [hclose] at h
    · rw [if_neg hclose] at h
      cases he : (p.drop (q + 1)).idxOf? 34 with
      | none => simp [he] at h
      | some e =>
        simp only [he] at h
        -- either way the item is the same
        have hitem : x = (p.drop (q + 1)).take e ∧
            ∀ p', next = some p' → ∃ n, p' = ((p.drop (q + 1)).drop (e + 1)).drop n := by
          cases hcomma : ((p.drop (q + 1)).drop (e + 1)).idxOf? 44 with
          | none =>
            simp only [hcomma] at h
            obtain ⟨rfl, rfl⟩ := Prod.mk.inj (Option.some.inj h)
            exact ⟨rfl, fun _ hp' => nomatch hp'⟩
          | some comma =>
            simp only [hcomma] at h
            split at h
            · obtain ⟨rfl, rfl⟩ := Prod.mk.inj (Option.some.inj h)
              exact ⟨rfl, fun _ hp' => nomatch hp'⟩
            · obtain ⟨rfl, rfl⟩ := Prod.mk.inj (Option.some.inj h)
              exact ⟨rfl, fun _ hp' => ⟨comma + 1, (Option.some.inj hp').symm⟩⟩
        obtain ⟨rfl, hnext⟩ := hitem
        refine ⟨not_mem_take_of_idxOf? he, fun c hc => ?_, fun p' hp' c hc => ?_⟩
        · exact mem_of_mem_drop (mem_of_mem_take hc)
        · obtain ⟨n, rfl⟩ := hnext p' hp'
          exact mem_of_mem_drop (mem_of_mem_drop (mem_of_mem_drop hc))

/-- A turn, up to the end of its item. -/
theorem nextItem_quoted (hx : (34 : UInt8) ∉ x) (rest : Bytes) :
    nextItem (34 :: (x ++ 34 :: rest)) =
      match rest.idxOf? 44 with
      | none => some (x, none)
      | some comma =>
        if (rest.idxOf? 93).any (· < comma) then some (x, none)
        else some (x, some (rest.drop (comma + 1))) := by
  unfold nextItem
  have hdrop : (x ++ 34 :: rest).drop (x.length + 1) = rest := by
    rw [← drop_drop, drop_left]
    rfl
  have hnot : ¬ (((34 : UInt8) :: (x ++ 34 :: rest)).idxOf? 93).any (· < 0) = true := by
    simp
  simp only [idxOf?_cons_self]
  rw [if_neg hnot]
  simp only [Nat.zero_add, drop_one, tail_cons, idxOf?_append_self hx, take_left, hdrop]

theorem nextItem_comma (hx : (34 : UInt8) ∉ x) (rest : Bytes) :
    nextItem (34 :: (x ++ 34 :: 44 :: rest)) = some (x, some rest) := by
  rw [nextItem_quoted hx, idxOf?_cons_self]
  simp

theorem nextItem_close (hx : (34 : UInt8) ∉ x) (rest : Bytes) :
    nextItem (34 :: (x ++ 34 :: 93 :: rest)) = some (x, none) := by
  rw [nextItem_quoted hx, idxOf?_cons_self, idxOf?_cons, if_neg (by decide)]
  cases rest.idxOf? 44 with
  | none => rfl
  | some comma => rfl

/-- Whatever the text: the reader's entries are short and hold no quote. -/
theorem mem_scanItems (h : x ∈ scanItems max fuel p acc) :
    x ∈ acc ∨ x.length < blPathLen ∧ (34 : UInt8) ∉ x ∧ ∀ c ∈ x, c ∈ p := by
  have hkeep {acc : List Bytes} {y : Bytes} (hmem : x ∈ keepItem acc y) :
      x ∈ acc ∨ x = y ∧ x.length < blPathLen := by
    unfold keepItem at hmem
    split at hmem
    · rcases mem_append.mp hmem with hmem | hmem
      · exact .inl hmem
      · obtain rfl := mem_singleton.mp hmem
        exact .inr ⟨rfl, by assumption⟩
    · exact .inl hmem
  induction fuel generalizing p acc with
  | zero => exact .inl h
  | succ fuel ih =>
    unfold scanItems at h
    by_cases hstop : p = [] ∨ p.head? = some 93 ∨ max ≤ acc.length
    · rw [if_pos hstop] at h
      exact .inl h
    · rw [if_neg hstop] at h
      rcases hnext : nextItem p with _ | ⟨y, _ | p'⟩
      · simp only [hnext] at h
        exact .inl h
      · simp only [hnext] at h
        obtain ⟨hquote, hsub, -⟩ := nextItem_spec hnext
        rcases hkeep h with h | ⟨rfl, hlen⟩
        · exact .inl h
        · exact .inr ⟨hlen, hquote, hsub⟩
      · simp only [hnext] at h
        obtain ⟨hquote, hsub, hrest⟩ := nextItem_spec hnext
        rcases ih h with h | ⟨hlen, hq, hin⟩
        · rcases hkeep h with h | ⟨rfl, hlen⟩
          · exact .inl h
          · exact .inr ⟨hlen, hquote, hsub⟩
        · exact .inr ⟨hlen, hq, fun c hc => hrest p' rfl c (hin c hc)⟩

theorem length_keepItem_le (acc : List Bytes) (x : Bytes) :
    (keepItem acc x).length ≤ acc.length + 1 := by
  unfold keepItem
  split
  · rw [length_append, length_singleton]
  · exact Nat.le_succ _

theorem length_scanItems_le (h : acc.length ≤ max) :
    (scanItems max fuel p acc).length ≤ max := by
  induction fuel generalizing p acc with
  | zero => exact h
  | succ fuel ih =>
    unfold scanItems
    by_cases hstop : p = [] ∨ p.head? = some 93 ∨ max ≤ acc.length
    · rw [if_pos hstop]
      exact h
    · rw [if_neg hstop]
      have hroom : acc.length < max := by
        rw [not_or, not_or, Nat.not_le] at hstop
        exact hstop.2.2
      rcases nextItem p with _ | ⟨y, _ | p'⟩
      · exact h
      · exact Nat.le_trans (length_keepItem_le acc y) hroom
      · exact ih (Nat.le_trans (length_keepItem_le acc y) hroom)

theorem mem_readPaths {json key x : Bytes} (h : x ∈ readPaths json key) :
    x.length < blPathLen ∧ (34 : UInt8) ∉ x ∧ ∀ c ∈ x, c ∈ json := by
  unfold readPaths at h
  cases hp : behind (pattern key) json with
  | none => simp [hp] at h
  | some p =>
    simp only [hp] at h
    obtain ⟨hlen, hquote, hin⟩ := (mem_scanItems h).resolve_left not_mem_nil
    refine ⟨hlen, hquote, fun c hc => ?_⟩
    obtain ⟨i, -, rfl⟩ := Option.map_eq_some_iff.mp hp
    exact mem_of_mem_drop (hin c hc)

/-- `ps_blset_from_json_key`, of the string in a buffer. -/
def BaselineSet.fromJsonKey (json key : Bytes) : BaselineSet where
  exe := (jsonExtractString (cstr json) (asc "exe") 256).str
  paths := readPaths (cstr json) key
  length_le := by
    unfold readPaths
    split
    · exact Nat.zero_le _
    · exact length_scanItems_le (Nat.zero_le _)
  short := fun _ h => (mem_readPaths h).1
  noNul := fun _ h h0 => nul_not_mem_cstr json ((mem_readPaths h).2.2 0 h0)

/-! ## Reading back -/

def itemsText : List Bytes → Bytes
  | [] => []
  | r :: rs => quoted r ++ rs.flatMap fun r => 44 :: quoted r

theorem itemsText_singleton (r rest : Bytes) :
    itemsText [r] ++ rest = 34 :: (r ++ 34 :: rest) := by
  simp [itemsText, quoted]

theorem itemsText_cons_cons (r r' : Bytes) (rs : List Bytes) (rest : Bytes) :
    itemsText (r :: r' :: rs) ++ rest = 34 :: (r ++ 34 :: 44 :: (itemsText (r' :: rs) ++ rest)) := by
  simp [itemsText, quoted]

theorem length_le_itemsText (rs : List Bytes) : rs.length ≤ (itemsText rs).length := by
  induction rs with
  | nil => exact Nat.le_refl 0
  | cons r rs ih =>
    cases rs with
    | nil => simp [itemsText, quoted]
    | cons r' rs =>
      have htext := congrArg List.length (itemsText_cons_cons r r' rs [])
      simp only [append_nil, length_cons, length_append] at htext ih ⊢
      omega

/-- Without quotes inside, the texts are read as they stand, up to those that are too long. -/
theorem scanItems_itemsText {raws : List Bytes} (hquote : ∀ r ∈ raws, (34 : UInt8) ∉ r) (rest : Bytes)
    (hfuel : raws.length < fuel) (hroom : acc.length + raws.length ≤ max) :
    scanItems max fuel (itemsText raws ++ 93 :: rest) acc =
      acc ++ raws.filter fun r => r.length < blPathLen := by
  have hkeep (acc : List Bytes) (r : Bytes) (rs : List Bytes) :
      keepItem acc r ++ rs.filter (fun r => r.length < blPathLen) =
        acc ++ (r :: rs).filter fun r => r.length < blPathLen := by
    unfold keepItem
    by_cases hr : r.length < blPathLen
    · simp [hr]
    · simp [hr]
  induction raws generalizing acc fuel with
  | nil =>
    cases fuel with
    | zero => cases hfuel
    | succ fuel =>
      unfold scanItems
      rw [if_pos (.inr (.inl rfl)), filter_nil, append_nil]
  | cons r raws ih =>
    obtain ⟨hr, hraws⟩ := forall_mem_cons.mp hquote
    cases fuel with
    | zero => cases hfuel
    | succ fuel =>
      rw [length_cons] at hfuel hroom
      have hgo (rest : Bytes) :
          ¬ ((34 : UInt8) :: rest = [] ∨ ((34 : UInt8) :: rest).head? = some 93 ∨
            max ≤ acc.length) := by
        rintro (h | h | h)
        · cases h
        · exact absurd h (by simp)
        · omega
      cases raws with
      | nil =>
        rw [itemsText_singleton]
        unfold scanItems
        rw [if_neg (hgo _), nextItem_close hr]
        show keepItem acc r = _
        rw [← hkeep, filter_nil, append_nil]
      | cons r' raws =>
        rw [itemsText_cons_cons]
        unfold scanItems
        rw [if_neg (hgo _), nextItem_comma hr]
        show scanItems max fuel _ (keepItem acc r) = _
        have hlen := length_keepItem_le acc r
        rw [ih hraws (by omega) (by omega), hkeep]

/-! ## What is written -/

/-- An entry as the writer writes it, without its quotes. -/
def escaped (p : Bytes) : Bytes := p.flatMap PsJson.quoteChar

def textOf (s : BaselineSet) (key : Bytes) : Bytes :=
  asc "\x7b\"exe\":" ++ PsJson.quote (cstr s.exe) ++ asc "," ++ PsJson.quote (cstr key) ++ asc ":[" ++
    itemsText (s.paths.map escaped) ++ asc "]\x7d"

/-- The loop over the entries. -/
theorem holds_items {ps : List Bytes} (hnul : ∀ p ∈ ps, (0 : UInt8) ∉ p) {j : PsJson}
    {t : Bytes} (h : j.Holds cap false t) :
    ∃ comma, (ps.foldl PsJson.arrayString j).Holds cap comma (t ++ itemsText (ps.map escaped)) := by
  have hrest : ∀ {ps : List Bytes}, (∀ p ∈ ps, (0 : UInt8) ∉ p) → ∀ {j : PsJson} {t : Bytes},
      j.Holds cap true t → (ps.foldl PsJson.arrayString j).Holds cap true
        (t ++ (ps.map escaped).flatMap fun r => 44 :: quoted r) := by
    intro ps
    induction ps with
    | nil =>
      intro _ j t h
      rw [map_nil, flatMap_nil, append_nil]
      exact h
    | cons p ps ih =>
      intro hnul j t h
      obtain ⟨hp, hps⟩ := forall_mem_cons.mp hnul
      have hnext := ih hps (h.arrayString p)
      rw [cstr_eq_self_iff.mpr hp, sep_true, append_assoc, append_assoc] at hnext
      exact hnext
  cases ps with
  | nil => exact ⟨false, by rw [map_nil, itemsText, append_nil]; exact h⟩
  | cons p ps =>
    obtain ⟨hp, hps⟩ := forall_mem_cons.mp hnul
    have hall := hrest hps (h.arrayString p)
    rw [cstr_eq_self_iff.mpr hp, sep_false, append_nil, append_assoc] at hall
    exact ⟨true, hall⟩

variable (s : BaselineSet)

theorem toJsonKey_eq (key : Bytes) (hcap : 0 < cap) :
    s.toJsonKey key cap = if (textOf s key).length < cap then some (textOf s key) else none := by
  have hhead := ((PsJson.holds_init hcap).objectBegin.keyString (asc "exe") s.exe).arrayBegin key
  obtain ⟨comma, hitems⟩ := holds_items s.noNul hhead
  have hall := hitems.arrayEnd.objectEnd.finish
  have hopen : asc "\x7b\"exe\":" = asc "\x7b" ++ (PsJson.quote (cstr (asc "exe")) ++ asc ":") := rfl
  have hclose : asc "]\x7d" = asc "]" ++ asc "\x7d" := rfl
  unfold textOf
  rw [hopen, hclose]
  simp only [sep_false, sep_true, append_assoc, nil_append] at hall ⊢
  exact hall

/-! ## The store -/

/-- The members the store keeps its sets in. -/
inductive StoreKey where
  | paths
  | dests
  | parents
  deriving DecidableEq, Repr

def StoreKey.text : StoreKey → Bytes
  | .paths => asc "paths"
  | .dests => asc "dests"
  | .parents => asc "parents"

def storeSize : Nat := 65536

/-- What `fread` puts into the buffer of a file's reader, with the terminator behind it. -/
def readBack (file : Bytes) : Bytes := file.take (storeSize - 1) ++ [0]

/-- The set in a file of the store, as `load_one_key` has it. -/
def load (key : StoreKey) (exe : CString) (file : Option Bytes) : BaselineSet :=
  match file with
  | none => .init exe
  | some file => .fromJsonKey (readBack file) key.text

/-! ## Save and reload -/

/-- What the search for a key of the store relies on: it is plain text, it does not start like the rest
of the text, and nothing in front of the program's name looks like it. -/
structure Regular (key : Bytes) : Prop where
  pattern_eq : pattern key = 34 :: (key ++ 34 :: 58 :: [91])
  quote_eq : PsJson.quote (cstr key) = quoted key
  plain : Plain key
  ne_nil : key ≠ []
  head : key.head? ≠ some 44
  clashes : Clashes (pattern key) (asc "\x7b\"exe\":")

theorem StoreKey.regular (k : StoreKey) : Regular k.text := by
  cases k with
  | paths => exact ⟨by decide, by decide, by decide, by decide, by decide, by decide⟩
  | dests => exact ⟨by decide, by decide, by decide, by decide, by decide, by decide⟩
  | parents => exact ⟨by decide, by decide, by decide, by decide, by decide, by decide⟩

/-- The reader starts where the entries do, whatever the program's name is. -/
theorem behind_pattern (h : Regular key) :
    behind (pattern key) (textOf s key) = some (itemsText (s.paths.map escaped) ++ asc "]\x7d") := by
  have hraw : QuotesEscaped ((cstr s.exe).flatMap PsJson.quoteChar) :=
    quotesEscaped_of_strText (PsJson.strText_quote _)
  have htext : textOf s key = asc "\x7b\"exe\":" ++ 34 :: ((cstr s.exe).flatMap PsJson.quoteChar ++
      34 :: 44 :: (34 :: (key ++ 34 :: 58 :: [91]) ++
        (itemsText (s.paths.map escaped) ++ asc "]\x7d"))) := by
    unfold textOf
    rw [h.quote_eq, PsJson.quote, quoted, show asc "," = [44] from rfl,
      show asc ":[" = [58, 91] from rfl]
    simp only [append_assoc, cons_append, nil_append]
  rw [htext, behind_append_of_clashes h.clashes, h.pattern_eq,
    behind_key_quoted hraw h.plain h.ne_nil (by decide) h.head]
  have hcomma (rest : Bytes) : behind (34 :: (key ++ 34 :: 58 :: [91])) (44 :: rest) =
      behind (34 :: (key ++ 34 :: 58 :: [91])) rest := by
    show behind _ ([44] ++ rest) = _
    exact behind_append_of_not_mem (by decide) rest
  rw [hcomma, behind_self]

theorem nul_not_mem_escaped (h : (0 : UInt8) ∉ p) : (0 : UInt8) ∉ escaped p := by
  have hchar : ∀ c : UInt8, c ≠ 0 → (0 : UInt8) ∉ PsJson.quoteChar c := forall_byte (by decide +kernel)
  intro hmem
  obtain ⟨c, hc, h0⟩ := mem_flatMap.mp hmem
  exact hchar c (fun heq => h (heq ▸ hc)) h0

/-- Only a text that needs no escape is written as it is. -/
theorem escaped_eq_self_iff : escaped p = p ↔ Plain p := by
  constructor
  · intro h
    exact (strText_eq_of_length (PsJson.strText_quote p) (Nat.le_of_eq (congrArg List.length h))).2
  · exact Central.flatMap_quoteChar_of_plain

theorem quote_not_mem_escaped (h : (34 : UInt8) ∉ p) : (34 : UInt8) ∉ escaped p := by
  have hchar : ∀ c : UInt8, c ≠ 34 → (34 : UInt8) ∉ PsJson.quoteChar c := forall_byte (by decide +kernel)
  intro hmem
  obtain ⟨c, hc, hq⟩ := mem_flatMap.mp hmem
  exact hchar c (fun heq => h (heq ▸ hc)) hq

theorem nul_not_mem_itemsText {rs : List Bytes} (h : ∀ r ∈ rs, (0 : UInt8) ∉ r) :
    (0 : UInt8) ∉ itemsText rs := by
  have hquoted {r : Bytes} (hr : (0 : UInt8) ∉ r) : (0 : UInt8) ∉ quoted r := by
    simp [quoted, hr]
  cases rs with
  | nil => exact not_mem_nil
  | cons r rs =>
    obtain ⟨hr, hrs⟩ := forall_mem_cons.mp h
    rw [itemsText, mem_append, not_or]
    refine ⟨hquoted hr, fun hmem => ?_⟩
    obtain ⟨x, hx, h0⟩ := mem_flatMap.mp hmem
    exact hquoted (hrs x hx) ((mem_cons.mp h0).resolve_left (by decide))

theorem nul_not_mem_textOf (h : Regular key) :
    (0 : UInt8) ∉ textOf s key := by
  have hkey : (0 : UInt8) ∉ quoted key := by
    have hplain : (0 : UInt8) ∉ key := fun h0 => absurd (h.plain 0 h0).2.2 (by decide)
    simp [quoted, hplain]
  have hexe : (0 : UInt8) ∉ PsJson.quote (cstr s.exe) := by
    have hesc : (0 : UInt8) ∉ escaped (cstr s.exe) := nul_not_mem_escaped (nul_not_mem_cstr _)
    unfold escaped at hesc
    simp [PsJson.quote, hesc]
  have hitems : (0 : UInt8) ∉ itemsText (s.paths.map escaped) := by
    apply nul_not_mem_itemsText
    intro r hr
    obtain ⟨p, hp, rfl⟩ := mem_map.mp hr
    exact nul_not_mem_escaped (s.noNul p hp)
  unfold textOf
  rw [h.quote_eq]
  simp only [mem_append, not_or]
  exact ⟨⟨⟨⟨⟨⟨by decide, hexe⟩, by decide⟩, hkey⟩, by decide⟩, hitems⟩, by decide⟩

/-- A text that was written comes back whole. -/
theorem cstr_readBack {s : BaselineSet} {key file : Bytes} (h : Regular key)
    (hfile : s.toJsonKey key storeSize = some file) :
    file = textOf s key ∧ cstr (readBack file) = textOf s key := by
  rw [toJsonKey_eq s key (by decide)] at hfile
  by_cases hlen : (textOf s key).length < storeSize
  · rw [if_pos hlen] at hfile
    obtain rfl := Option.some.inj hfile
    refine ⟨rfl, ?_⟩
    unfold readBack
    rw [take_of_length_le (Nat.le_sub_one_of_lt hlen),
      cstr_append_of_not_mem (nul_not_mem_textOf s h)]
    exact append_nil _
  · rw [if_neg hlen] at hfile
    cases hfile

/-- Entries are read back from their array exactly if none of them needs an escape. -/
theorem scanItems_escaped_iff {paths : List Bytes} (hlen : paths.length ≤ max)
    (hshort : ∀ p ∈ paths, p.length < blPathLen) (hfuel : paths.length < fuel) (rest : Bytes) :
    scanItems max fuel (itemsText (paths.map escaped) ++ 93 :: rest) [] = paths ↔ ∀ p ∈ paths, Plain p := by
  have hread (hquote : ∀ p ∈ paths, (34 : UInt8) ∉ p) :
      scanItems max fuel (itemsText (paths.map escaped) ++ 93 :: rest) [] =
        (paths.map escaped).filter fun r => r.length < blPathLen := by
    rw [scanItems_itemsText, nil_append]
    · intro r hr
      obtain ⟨p, hp, rfl⟩ := mem_map.mp hr
      exact quote_not_mem_escaped (hquote p hp)
    · rwa [length_map]
    · rwa [length_nil, Nat.zero_add, length_map]
  constructor
  · intro hsame p hp
    have hquote : ∀ p ∈ paths, (34 : UInt8) ∉ p := fun p hp =>
      ((mem_scanItems (hsame ▸ hp)).resolve_left not_mem_nil).2.1
    rw [hread hquote] at hsame
    -- as many were read as were written, so none was too long
    have hall : paths.map escaped = paths := by
      have hcount : ((paths.map escaped).filter fun r => r.length < blPathLen).length =
          (paths.map escaped).length := by
        rw [hsame, length_map]
      rw [← filter_eq_self.mpr (length_filter_eq_length_iff.mp hcount), hsame]
    rw [← map_id paths, map_map] at hall
    exact escaped_eq_self_iff.mp (map_inj_left.mp hall p hp)
  · intro hplain
    have hall : paths.map escaped = paths := by
      conv_rhs => rw [← map_id paths]
      exact map_congr_left fun p hp => escaped_eq_self_iff.mpr (hplain p hp)
    rw [hread fun p hp hq => (hplain p hp 34 hq).1 rfl, hall]
    exact filter_eq_self.mpr fun p hp => decide_eq_true (hshort p hp)

theorem readPaths_textOf_iff (h : Regular key) :
    readPaths (textOf s key) key = s.paths ↔ ∀ p ∈ s.paths, Plain p := by
  have hcount := length_le_itemsText (s.paths.map escaped)
  rw [length_map] at hcount
  unfold readPaths
  rw [behind_pattern s h]
  show scanItems blMax _ (itemsText (s.paths.map escaped) ++ 93 :: asc "\x7d") [] = _ ↔ _
  refine scanItems_escaped_iff s.length_le s.short ?_ _
  rw [length_append]
  omega

/-- A set survives its file exactly if none of its entries needs an escape. -/
theorem reload_iff (s : BaselineSet) (key : StoreKey) {file : Bytes}
    (h : s.toJsonKey key.text storeSize = some file) :
    (BaselineSet.fromJsonKey (readBack file) key.text).paths = s.paths ↔ ∀ p ∈ s.paths, Plain p := by
  show readPaths (cstr (readBack file)) key.text = s.paths ↔ _
  rw [(cstr_readBack key.regular h).2]
  exact readPaths_textOf_iff s key.regular

def shell : CString := ⟨asc "/bin/sh", by decide⟩

def plainSet : BaselineSet := ((BaselineSet.init shell).add ⟨asc "/etc/passwd", by decide⟩).1

/-- A path without special characters. -/
theorem plain_path_reloaded :
    plainSet.toJsonKey StoreKey.paths.text storeSize = some (textOf plainSet StoreKey.paths.text) ∧
      (BaselineSet.fromJsonKey (readBack (textOf plainSet StoreKey.paths.text))
        StoreKey.paths.text).paths = plainSet.paths := by
  have hfits : plainSet.toJsonKey StoreKey.paths.text storeSize =
      some (textOf plainSet StoreKey.paths.text) := by
    rw [toJsonKey_eq _ _ (by decide), if_pos (by decide)]
  exact ⟨hfits, (reload_iff plainSet .paths hfits).mpr (by decide)⟩

/-- A file name with a quote, as a program under observation can create it. -/
def craftedName : CString := ⟨asc "/tmp/a\",\"/etc", by decide⟩

def craftedSet : BaselineSet := ((BaselineSet.init shell).add craftedName).1

def craftedFile : Bytes := asc "\x7b\"exe\":\"/bin/sh\",\"paths\":[\"/tmp/a\\\",\\\"/etc\"]\x7d"

/-- An entry is replaced by two others, and one of them covers a directory that nobody added. -/
theorem smuggled_path :
    craftedSet.toJsonKey StoreKey.paths.text storeSize = some craftedFile ∧
      craftedSet.paths = [craftedName.bytes] ∧
      (BaselineSet.fromJsonKey (readBack craftedFile) StoreKey.paths.text).paths =
        [asc "/tmp/a\\", asc "/etc"] ∧
      craftedSet.covered (asc "/etc/shadow") = false ∧
      (BaselineSet.fromJsonKey (readBack craftedFile) StoreKey.paths.text).covered
        (asc "/etc/shadow") = true := by
  refine ⟨?_, by decide, by decide, by decide, by decide⟩
  rw [toJsonKey_eq _ _ (by decide), if_pos (by decide)]
  decide

end Packetsonde.Baseline
