import Packetsonde.Central.JsonSequence

/-!
# Packetsonde — looking a key up in what was written (`json.c`, `json_extract.c`)

`ps_json_extract_string` and `ps_json_extract_int` search the raw text for `"key":`. In what the writer
wrote they find the first key of that name in document order, whatever the strings in front of it hold
(`lookup_first`): a quote in a string has a backslash in front of it, and behind the closing quote of a
value there is no colon. The text that is searched for has to fit into `needle[128]` (`long_key_not_found`).
-/

namespace Packetsonde.Lib.Json

open List

variable {ι : Type}

/-! ## Keys in document order -/

mutual

def keys : Json ι → List Bytes
  | .arr items => itemsKeys items
  | .obj members => membersKeys members
  | .null | .bool _ | .int _ | .str _ => []

def itemsKeys : List (Json ι) → List Bytes
  | [] => []
  | v :: vs => keys v ++ itemsKeys vs

def membersKeys : List (Bytes × Json ι) → List Bytes
  | [] => []
  | (k, v) :: ms => k :: (keys v ++ membersKeys ms)

end

mutual

def first (k : Bytes) : Json ι → Option (Json ι)
  | .arr items => firstItem k items
  | .obj members => firstMember k members
  | .null | .bool _ | .int _ | .str _ => none

def firstItem (k : Bytes) : List (Json ι) → Option (Json ι)
  | [] => none
  | v :: vs => (first k v).or (firstItem k vs)

def firstMember (k : Bytes) : List (Bytes × Json ι) → Option (Json ι)
  | [] => none
  | (k', v) :: ms => if k' = k then some v else (first k v).or (firstMember k ms)

end

/-- A key that has a value is a key. -/
theorem mem_keys_of_first {k : Bytes} {v w : Json ι} (h : v.first k = some w) : k ∈ v.keys := by
  revert w
  refine Json.induction (P := fun v => ∀ {w}, v.first k = some w → k ∈ v.keys)
    (Q := fun vs => ∀ {w}, firstItem k vs = some w → k ∈ itemsKeys vs)
    (R := fun ms => ∀ {w}, firstMember k ms = some w → k ∈ membersKeys ms)
    ?null ?bool ?int ?str ?arr ?obj ?nil ?cons ?mnil ?mcons v
  case null => exact fun h => nomatch h
  case bool => exact fun _ _ h => nomatch h
  case int => exact fun _ _ h => nomatch h
  case str => exact fun _ _ h => nomatch h
  case arr => exact fun _ ih _ h => ih h
  case obj => exact fun _ ih _ h => ih h
  case nil => exact fun h => nomatch h
  case mnil => exact fun h => nomatch h
  case cons =>
    intro v vs ihv ihvs w h
    rcases Option.or_eq_some_iff.mp h with h | ⟨-, h⟩
    · exact mem_append_left _ (ihv h)
    · exact mem_append_right _ (ihvs h)
  case mcons =>
    intro k' v ms ihv ihms w h
    rw [firstMember] at h
    split at h
    · rename_i heq
      rw [membersKeys, heq]
      exact mem_cons_self
    · rcases Option.or_eq_some_iff.mp h with h | ⟨-, h⟩
      · exact mem_cons_of_mem _ (mem_append_left _ (ihv h))
      · exact mem_cons_of_mem _ (mem_append_right _ (ihms h))

end Packetsonde.Lib.Json

namespace Packetsonde.Central

open Packetsonde.Lib
open List

def Word (k : Bytes) : Prop := k ≠ [] ∧ ∀ c ∈ k, isAlnum c = true ∨ c = 95

theorem Word.sought {k : Bytes} (h : Word k) : Sought k := by
  have hbyte : ∀ c : UInt8, isAlnum c = true ∨ c = 95 →
      (c ≠ 34 ∧ c ≠ 92 ∧ 0x20 ≤ c) ∧ decide (c ≠ 44 ∧ c ≠ 58 ∧ c ≠ 93 ∧ c ≠ 125) = true :=
    forall_byte (by decide +kernel)
  refine ⟨fun c hc => (hbyte c (h.2 c hc)).1, ?_⟩
  obtain ⟨c, k', rfl⟩ := exists_cons_of_ne_nil h.1
  exact (hbyte c (h.2 c mem_cons_self)).2

/-! ## The call of a key -/

def PsCall.key? : PsCall → Option Bytes
  | .base c => c.key?
  | .keyDouble k _ => some k
  | .keyNull k => some k
  | _ => none

/-- The call that wrote a value that can be extracted. -/
def WroteBy (k : Bytes) (c : PsCall) : Json Leaf → Prop
  | .str s => 0 ∉ s ∧ c = .base (.member k (.str s))
  | .int (.int i) => c = .base (.member k (.int i.toInt))
  | _ => True

/-- The first call with the key, for the value at its first occurrence. -/
def FirstCall (k : Bytes) (cs : List PsCall) : Option (Json Leaf) → Prop
  | none => cs.find? (fun c => c.key? == some k) = none
  | some w => ∃ c, cs.find? (fun c => c.key? == some k) = some c ∧ WroteBy k c w

theorem firstCall_or {k : Bytes} {cs ds : List PsCall} {v w : Option (Json Leaf)} (h : FirstCall k cs v)
    (h' : FirstCall k ds w) : FirstCall k (cs ++ ds) (v.or w) := by
  cases v with
  | some v =>
    obtain ⟨c, hc, hwrote⟩ := h
    exact ⟨c, by rw [find?_append, hc]; rfl, hwrote⟩
  | none =>
    have hskip : (cs ++ ds).find? (fun c => c.key? == some k) = ds.find? fun c => c.key? == some k := by
      rw [find?_append, show cs.find? (fun c => c.key? == some k) = none from h]
      rfl
    cases w with
    | none => exact hskip.trans h'
    | some w =>
      obtain ⟨c, hc, hwrote⟩ := h'
      exact ⟨c, hskip.trans hc, hwrote⟩

variable {cs : List PsCall} {v : Json Leaf} {w : Option (Json Leaf)} {c : PsCall} {cat : Cat}

/-- A call without the key does not count. -/
theorem firstCall_skip {k : Bytes} (hc : c.key? ≠ some k)
    {v : Option (Json Leaf)} (h : FirstCall k cs v) : FirstCall k (c :: cs) v := by
  have hnone : FirstCall k [c] none := by
    show [c].find? _ = none
    simpa using hc
  exact firstCall_or hnone h

/-- A member in front: its own key, or what is in its value, or the rest. -/
theorem firstCall_member {k k' : Bytes} (hc : c.key? = some k') (hv : k' = k → WroteBy k c v)
    (hw : FirstCall k cs w) :
    FirstCall k (c :: cs) (if k' = k then some v else w) := by
  split
  · rename_i heq
    refine ⟨c, ?_, hv heq⟩
    rw [find?_cons_of_pos (by simp [hc, heq])]
  · rename_i hne
    refine firstCall_skip (fun h => hne ?_) hw
    rw [hc] at h
    exact Option.some.inj h

theorem firstCall_of_writes {k : Bytes} (h : Writes cat cs v) : FirstCall k cs (v.first k) := by
  have hend : ∀ {c : PsCall} {ds : List PsCall} {w : Option (Json Leaf)}, c.key? = none →
      FirstCall k ds w → FirstCall k (c :: ds) w := by
    intro c ds w hc hds
    exact firstCall_skip (by rw [hc]; simp) hds
  induction h with
  | root _ ih =>
    have hclose : FirstCall k [.base .objectEnd] none := rfl
    have hbody := firstCall_or ih hclose
    rw [Option.or_none] at hbody
    exact hend rfl hbody
  | noMembers | noItems => rfl
  | keyString _ hs _ ih =>
    refine firstCall_member rfl (fun h => ?_) ih
    exact ⟨hs, by rw [h]⟩
  | keyInt _ _ _ ih => exact firstCall_member rfl (fun h => by rw [h]; rfl) ih
  | keyBool _ _ _ ih | keyDouble _ _ _ ih | keyNull _ _ ih =>
    refine firstCall_member rfl (fun _ => ?_) ih
    exact trivial
  | keyObject _ _ _ ihi ih | keyArray _ _ _ ihi ih =>
    refine firstCall_member rfl (fun _ => ?_) (firstCall_or ihi (hend rfl ih))
    exact trivial
  | string _ _ ih => exact hend rfl ih
  | double _ _ ih => exact hend rfl ih
  | object _ _ ihi ih => exact hend rfl (firstCall_or ihi (hend rfl ih))

/-- The keys of the calls are those of the document. -/
theorem mem_keys_of_writes (h : Writes cat cs v) :
    ∀ c ∈ cs, ∀ k ∈ c.key?, k ∈ v.keys := by
  have hunkeyed : ∀ {c : PsCall} {ks : List Bytes}, c.key? = none → ∀ k ∈ c.key?, k ∈ ks := by
    intro c ks hc k hk
    rw [hc] at hk
    cases hk
  have hkeyed : ∀ {c : PsCall} {k' : Bytes} {ks : List Bytes}, c.key? = some k' →
      ∀ k ∈ c.key?, k ∈ k' :: ks := by
    intro c k' ks hc k hk
    rw [hc] at hk
    cases hk
    exact mem_cons_self
  induction h with
  | root _ ih =>
    refine forall_mem_cons.mpr ⟨hunkeyed rfl, forall_mem_append.mpr ⟨ih, ?_⟩⟩
    exact forall_mem_singleton.mpr (hunkeyed rfl)
  | noMembers | noItems => exact fun c hc => nomatch hc
  | keyString _ _ _ ih | keyInt _ _ _ ih | keyBool _ _ _ ih | keyDouble _ _ _ ih | keyNull _ _ ih =>
    exact forall_mem_cons.mpr ⟨hkeyed rfl, fun c hc k hk => mem_cons_of_mem _ (ih c hc k hk)⟩
  | keyObject _ _ _ ihi ih | keyArray _ _ _ ihi ih =>
    refine forall_mem_cons.mpr ⟨hkeyed rfl, forall_mem_append.mpr ⟨fun c hc k hk => ?_,
      forall_mem_cons.mpr ⟨hunkeyed rfl, fun c hc k hk => ?_⟩⟩⟩
    · exact mem_cons_of_mem _ (mem_append_left _ (ihi c hc k hk))
    · exact mem_cons_of_mem _ (mem_append_right _ (ih c hc k hk))
  | string _ _ ih | double _ _ ih => exact forall_mem_cons.mpr ⟨hunkeyed rfl, ih⟩
  | object _ _ ihi ih =>
    refine forall_mem_cons.mpr ⟨hunkeyed rfl, forall_mem_append.mpr ⟨fun c hc k hk => ?_,
      forall_mem_cons.mpr ⟨hunkeyed rfl, fun c hc k hk => ?_⟩⟩⟩
    · exact mem_append_left _ (ihi c hc k hk)
    · exact mem_append_right _ (ih c hc k hk)

section Search

variable {k more : Bytes}

variable {cs : List PsCall} {rest : Bytes}

/-- Where a comma is due, the next call starts with one, or with a bracket. -/
theorem delimited_written
    (hrest : dueAfter true cs = true → Delimited rest) : Delimited (writtenText true cs ++ rest) := by
  cases cs with
  | nil => exact hrest rfl
  | cons c cs =>
    rw [writtenText, append_assoc]
    cases c with
    | base c =>
      cases c with
      | objectEnd => exact ⟨125, _, rfl, .inr (.inr rfl)⟩
      | arrayEnd => exact ⟨93, _, rfl, .inr (.inl rfl)⟩
      | objectBegin | member | keyObjectBegin | arrayBegin => exact ⟨44, _, rfl, .inl rfl⟩
    | keyDouble | keyNull | arrayString | arrayDouble => exact ⟨44, _, rfl, .inl rfl⟩

/-- A value without quotes behind another key. -/
theorem behind_keyed (hk : Sought k) {k' : Bytes} (hk' : Plain k') (hne : k' ≠ k) {x : Bytes}
    (hx : (34 : UInt8) ∉ x) (due : Bool) (rest : Bytes) :
    behind (memberText k more) (sep due ++ (PsJson.quote (cstr k') ++ 58 :: x) ++ rest) =
      behind (memberText k more) rest := by
  have htext : sep due ++ (PsJson.quote (cstr k') ++ 58 :: x) ++ rest =
      sep due ++ memberText k' (x ++ rest) := by
    rw [quote_of_plain hk']
    simp [memberText, quoted]
  rw [htext, behind_comma, behind_memberText_ne hk hk' hne]
  exact behind_append_of_not_mem hx rest

/-- The characters of a number are no quotes. -/
theorem quote_not_mem_take (d : Double) (n : Nat) : (34 : UInt8) ∉ d.text.take n := by
  intro hmem
  have hlit : NumLit d.text := numLit_fraction d.digits_int d.int_zero d.digits_frac
  exact (isNumChar_byte 34 (numLit_chars hlit 34 (mem_of_mem_take hmem))).2.2.1 rfl

/-- The search for a key gets past a call with another key, or none. -/
theorem behind_psCall (hk : Sought k) {c : PsCall} (hplain : ∀ k' ∈ c.key?, Plain k')
    (hne : c.key? ≠ some k) (hrest : c.comma = true → Delimited rest) (due : Bool) :
    behind (memberText k more) (c.text due ++ rest) = behind (memberText k more) rest := by
  cases c with
  | base c => exact behind_call hk hplain hne hrest due
  | keyDouble k' d =>
    exact behind_keyed hk (hplain k' rfl) (fun h => hne (congrArg some h)) (quote_not_mem_take d 62)
      due rest
  | keyNull k' =>
    exact behind_keyed hk (hplain k' rfl) (fun h => hne (congrArg some h))
      (show (34 : UInt8) ∉ asc "null" by decide) due rest
  | arrayString s =>
    obtain ⟨d, r, rfl, hd⟩ := hrest rfl
    have hnil : k ≠ [] := fun h => absurd hk.2 (by rw [h]; decide)
    have hcolon : d ≠ 58 := by rcases hd with rfl | rfl | rfl <;> decide
    have htext : sep due ++ PsJson.quote (cstr s) ++ d :: r =
        sep due ++ 34 :: ((cstr s).flatMap PsJson.quoteChar ++ 34 :: d :: r) := by
      simp [PsJson.quote]
    show behind _ (sep due ++ PsJson.quote (cstr s) ++ d :: r) = _
    rw [htext, behind_comma]
    exact behind_key_quoted (quotesEscaped_of_strText (PsJson.strText_quote _)) hk.1 hnil hcolon
      (head_ne_delimiter hk hd)
  | arrayDouble d =>
    show behind _ (sep due ++ d.text.take 63 ++ rest) = _
    rw [append_assoc, behind_comma]
    exact behind_append_of_not_mem (quote_not_mem_take d 63) rest

/-- It gets past any number of them. -/
theorem behind_written (hk : Sought k) (hplain : ∀ c ∈ cs, ∀ k' ∈ c.key?, Plain k')
    (hne : ∀ c ∈ cs, c.key? ≠ some k) {due : Bool}
    (hrest : dueAfter due cs = true → Delimited rest) :
    behind (memberText k more) (writtenText due cs ++ rest) = behind (memberText k more) rest := by
  induction cs generalizing due with
  | nil => rfl
  | cons c cs ih =>
    obtain ⟨hplainC, hplainCs⟩ := forall_mem_cons.mp hplain
    obtain ⟨hneC, hneCs⟩ := forall_mem_cons.mp hne
    have hnext : c.comma = true → Delimited (writtenText c.comma cs ++ rest) := by
      intro hcomma
      rw [hcomma]
      exact delimited_written fun h => hrest (by rw [dueAfter, hcomma, h])
    rw [writtenText, append_assoc, behind_psCall hk hplainC hneC hnext, ih hplainCs hneCs hrest]

/-- The search ends at the first call with the key. -/
theorem behind_first (hk : Sought k) (hplain : ∀ c ∈ cs, ∀ k' ∈ c.key?, Plain k')
    {v : Scalar} (hfind : cs.find? (fun c => c.key? == some k) = some (.base (.member k v)))
    (due : Bool) :
    ∃ post, behind (keyNeedle k) (writtenText due cs) = some (v.text ++ writtenText true post) := by
  obtain ⟨-, pre, post, rfl, hpre⟩ := find?_eq_some_iff_append.mp hfind
  have hne : ∀ c ∈ pre, c.key? ≠ some k := fun c hc => by simpa using hpre c hc
  have hkey : keyNeedle k = memberText k [] := rfl
  have hat : ∀ due, behind (memberText k [])
      ((PsCall.base (.member k v)).text due ++ writtenText true post) =
        some (v.text ++ writtenText true post) := by
    intro due
    show behind _ ((Call.member k v).text due ++ _) = _
    rw [text_keyed rfl hk.1, behind_comma]
    exact behind_memberText k [] _
  refine ⟨post, ?_⟩
  rw [writtenText_append, writtenText, hkey,
    behind_written hk (fun c hc => hplain c (mem_append_left _ hc)) hne fun hdue => ?_]
  · exact hat _
  · rw [hdue]
    exact ⟨44, _, rfl, .inl rfl⟩

theorem head_written (cs : List PsCall) : ∀ c ∈ (writtenText true cs).head?, isDigit c = false :=
  (@delimited_written cs [125] fun _ => ⟨125, [], rfl, .inr (.inr rfl)⟩).head

end Search

/-! ## Lookup -/

/-- In every document of the writer whose keys are words, a key of at most 124 bytes is looked up right:
the string or the integer at its first occurrence is what is returned. -/
theorem lookup_first {cs : List PsCall} {v : Json Leaf} (h : Writes .value cs v)
    (hkeys : ∀ key ∈ v.keys, Word key) {k : Bytes} (hlen : k.length ≤ 124) {mem : Nat → UInt8}
    {cap n : Nat} {b : JsonBuf} (hfinish : ((JsonBuf.init mem cap).calls cs).finish = some (n, b)) :
    (∀ s, v.first k = some (.str s) → ∀ size, s.length < size →
      jsonExtractString (b.bytes n) k size = ⟨s, true⟩) ∧
    ∀ i, v.first k = some (.int (.int i)) → jsonExtractInt (b.bytes n) k = some i := by
  have htext : b.bytes n = writtenText false cs := by
    rcases JsonBuf.finish_calls mem cap cs with ⟨hnone, -⟩ | ⟨b', hsome, -, hbytes, -⟩
    · rw [hnone] at hfinish
      cases hfinish
    · rw [hsome] at hfinish
      cases hfinish
      exact hbytes
  have hplain : ∀ c ∈ cs, ∀ k' ∈ c.key?, Plain k' := fun c hc k' hk' =>
    (hkeys k' (mem_keys_of_writes h c hc k' hk')).sought.1
  have hneedle : (keyNeedle k).length < 128 := by
    have hlength : (keyNeedle k).length = k.length + 3 := by simp [keyNeedle]
    omega
  have hfirst := firstCall_of_writes (k := k) h
  rw [htext]
  constructor
  · intro s hs size hsize
    have hk := (hkeys k (Json.mem_keys_of_first hs)).sought
    rw [hs] at hfirst
    obtain ⟨c, hfind, hnul, rfl⟩ := hfirst
    obtain ⟨post, hpost⟩ := behind_first hk hplain hfind false
    rw [jsonExtractString_of_behind hpost hneedle (Nat.zero_lt_of_lt hsize), cstr_eq_self_iff.mpr hnul,
      take_of_length_le (Nat.le_sub_one_of_lt hsize), decide_eq_true hsize]
  · intro i hi
    have hk := (hkeys k (Json.mem_keys_of_first hi)).sought
    rw [hi] at hfirst
    obtain ⟨c, hfind, rfl⟩ := hfirst
    obtain ⟨post, hpost⟩ := behind_first hk hplain hfind false
    rw [jsonExtractInt_of_behind hpost hneedle (head_written post), Int64.ofInt_toInt]

/-- The key is found behind a string that is all quotes and colons, and behind the same text in an array. -/
def hostileCalls : List PsCall :=
  [.base .objectBegin, .base (.member (asc "a") (.str (asc "\"_k\":\"no\""))),
    .base (.arrayBegin (asc "b")), .arrayString (asc "_k"), .base .arrayEnd,
    .base (.member (asc "_k") (.int (-9223372036854775808))), .base .objectEnd]

theorem hostileCalls_lookup :
    ∃ n b, ((JsonBuf.init (fun _ => 255) 100).calls hostileCalls).finish = some (n, b)
      ∧ jsonExtractInt (b.bytes n) (asc "_k") = some Int64.minValue := by
  have hlast : Writes .members [.base (.member (asc "_k") (.int (-9223372036854775808)))]
      (.obj [(asc "_k", .int (.int Int64.minValue))]) := .keyInt (by decide) Int64.minValue .noMembers
  have harray : Writes .members [.base (.arrayBegin (asc "b")), .arrayString (asc "_k"), .base .arrayEnd,
      .base (.member (asc "_k") (.int (-9223372036854775808)))]
      (.obj [(asc "b", .arr [.str (asc "_k")]), (asc "_k", .int (.int Int64.minValue))]) :=
    @Writes.keyArray _ [.arrayString (asc "_k")] _ _ _ (by decide) (.string (by decide) .noItems) hlast
  have hwrites : Writes .value hostileCalls
      (.obj [(asc "a", .str (asc "\"_k\":\"no\"")), (asc "b", .arr [.str (asc "_k")]),
        (asc "_k", .int (.int Int64.minValue))]) := .root (.keyString (by decide) (by decide) harray)
  have hlength : (writtenText false hostileCalls).length = 58 := by decide +kernel
  rcases JsonBuf.finish_calls (fun _ => 255) 100 hostileCalls with ⟨-, hlong⟩ | ⟨b, hsome, -⟩
  · rw [hlength] at hlong
    exact absurd hlong (by decide)
  · refine ⟨_, b, hsome, (lookup_first hwrites ?_ (by decide) hsome).2 _ rfl⟩
    intro key hkey
    rcases mem_cons.mp hkey with rfl | hkey
    · exact ⟨by decide, by decide +kernel⟩
    rcases mem_cons.mp hkey with rfl | hkey
    · exact ⟨by decide, by decide +kernel⟩
    rcases mem_cons.mp hkey with rfl | hkey
    · exact ⟨by decide, by decide +kernel⟩
    · cases hkey

def longKey : Bytes := List.replicate 125 97

def longKeyCalls : List PsCall :=
  [.base .objectBegin, .base (.member longKey (.str (asc "x"))), .base .objectEnd]

/-- A word that is in the document and is not found. -/
theorem long_key_not_found :
    Writes .value longKeyCalls (.obj [(longKey, .str (asc "x"))])
      ∧ Word longKey
      ∧ ((Json.obj [(longKey, .str (asc "x"))] : Json Leaf).first longKey = some (.str (asc "x")))
      ∧ ∃ n b, ((JsonBuf.init (fun _ => 255) 200).calls longKeyCalls).finish = some (n, b)
        ∧ jsonExtractString (b.bytes n) longKey 64 ≠ ⟨asc "x", true⟩ := by
  have hchars : ∀ c ∈ longKey, c = 97 := fun c hc => eq_of_mem_replicate hc
  have hlength : (writtenText false longKeyCalls).length = 133 := by decide +kernel
  refine ⟨.root (.keyString (fun hmem => absurd (hchars 0 hmem) (by decide)) (by decide) .noMembers),
    ⟨by decide, fun c hc => .inl (by rw [hchars c hc]; decide)⟩, ?_, ?_⟩
  · rw [Json.first, Json.firstMember, if_pos rfl]
  · rcases JsonBuf.finish_calls (fun _ => 255) 200 longKeyCalls with ⟨-, hlong⟩ | ⟨b, hsome, -, -, -⟩
    · rw [hlength] at hlong
      exact absurd hlong (by decide)
    · refine ⟨_, b, hsome, ?_⟩
      have hneedle : (keyNeedle longKey).length ≥ 128 := by decide +kernel
      unfold jsonExtractString
      rw [if_pos (.inr hneedle)]
      exact fun heq => absurd (congrArg Extracted.ok heq) (by decide)

end Packetsonde.Central
