import Packetsonde.Priv.Worker

/-!
# Packetsonde — the poll entries of the privileged worker (`run_loop`)

The `pollfd` array is built before the command of an iteration is handled; the loops behind it find
the entry of a slot by counting the slots that are open then. If the command opened or closed a handle,
or if a pcap handle has no descriptor to poll, the count and the array differ, and a slot is read because
another one's entry has data. A raw socket is blocking, so the worker can stop in `recv`.

`reads_own_entry_iff` says when the two agree, for each thing a command can do.
-/

namespace Packetsonde.Priv

open Packetsonde.Lib
open List

section Entries

variable {s before after : Slots} {k : Nat}

theorem length_entries (s : Slots) :
    s.entries.length = 1 + (countAll s.pcapPolled + countAll s.rawOpen) := by
  unfold Slots.entries countAll
  rw [length_cons, length_append, length_map, length_map,
    ← countP_eq_length_filter, ← countP_eq_length_filter, Nat.add_comm]

theorem pcap_entry {i : Fin maxPcapHandles} :
    s.entries[k]? = some (.pcap i) ↔ s.pcapPolled i = true ∧ k = 1 + countBelow s.pcapPolled i := by
  unfold Slots.entries
  cases k with
  | zero =>
    refine iff_of_false nofun ?_
    rintro ⟨-, h⟩
    omega
  | succ k =>
    rw [getElem?_cons_succ]
    have hlookup : ((((List.finRange maxPcapHandles).filter s.pcapPolled).map Entry.pcap ++
        ((List.finRange maxRawHandles).filter s.rawOpen).map Entry.raw)[k]? = some (.pcap i)) ↔
        ((List.finRange maxPcapHandles).filter s.pcapPolled)[k]? = some i := by
      rw [getElem?_append]
      split
      · simp [getElem?_map]
      · rename_i hlen
        rw [length_map, Nat.not_lt] at hlen
        rw [getElem?_eq_none hlen, getElem?_map]
        simp
    rw [hlookup, getElem?_filter_finRange]
    refine and_congr_right fun _ => ?_
    omega

theorem raw_entry {i : Fin maxRawHandles} :
    s.entries[k]? = some (.raw i) ↔
      s.rawOpen i = true ∧ k = 1 + countAll s.pcapPolled + countBelow s.rawOpen i := by
  unfold Slots.entries
  cases k with
  | zero =>
    refine iff_of_false nofun ?_
    rintro ⟨-, h⟩
    omega
  | succ k =>
    have hsize : (((List.finRange maxPcapHandles).filter s.pcapPolled).map Entry.pcap).length =
        countAll s.pcapPolled := by
      rw [length_map, ← countP_eq_length_filter]
      rfl
    rw [getElem?_cons_succ, getElem?_append, hsize]
    split
    · rename_i hlt
      rw [getElem?_map]
      refine iff_of_false (by simp) ?_
      rintro ⟨-, h⟩
      omega
    · rename_i hge
      have hlookup : (((List.finRange maxRawHandles).filter s.rawOpen).map Entry.raw)[
          k - countAll s.pcapPolled]? = some (.raw i) ↔
          ((List.finRange maxRawHandles).filter s.rawOpen)[k - countAll s.pcapPolled]? = some i := by
        simp [getElem?_map]
      rw [hlookup, getElem?_filter_finRange]
      refine and_congr_right fun _ => ?_
      omega

theorem pcapOpen_of_polled {i : Fin maxPcapHandles} (h : s.pcapPolled i = true) :
    s.pcapOpen i = true := by
  unfold Slots.pcapOpen
  rw [of_decide_eq_true h]
  rfl

/-! ## The loops -/

theorem mem_pcapReads {flags : Nat → Bool} {i : Fin maxPcapHandles} :
    i ∈ pcapReads before after flags ↔
      after.pcapPolled i = true ∧ 1 + countBelow after.pcapOpen i < before.entries.length ∧
        flags (1 + countBelow after.pcapOpen i) = true := by
  unfold pcapReads
  rw [mem_scan, Bool.and_eq_true, decide_eq_true_eq]
  refine ⟨fun h => h.2, fun h => ⟨pcapOpen_of_polled h.1, h⟩⟩

theorem mem_rawReads {flags : Nat → Bool} {i : Fin maxRawHandles} :
    i ∈ rawReads before after flags ↔
      after.rawOpen i = true ∧
        1 + countAll after.pcapPolled + countBelow after.rawOpen i < before.entries.length ∧
        flags (1 + countAll after.pcapPolled + countBelow after.rawOpen i) = true := by
  unfold rawReads
  rw [mem_scan, Bool.and_eq_true, decide_eq_true_eq, and_self_left]

def ReadsOwnEntry (before after : Slots) (flags : Nat → Bool) : Prop :=
  (∀ i ∈ pcapReads before after flags, ∃ k, before.entries[k]? = some (.pcap i) ∧ flags k = true) ∧
    ∀ i ∈ rawReads before after flags, ∃ k, before.entries[k]? = some (.raw i) ∧ flags k = true

/-- The entry a slot is looked up at is its own, or behind the last. -/
structure Agree (before after : Slots) : Prop where
  pcap : ∀ i, after.pcapPolled i = true → 1 + countBelow after.pcapOpen i < before.entries.length →
    before.entries[1 + countBelow after.pcapOpen i]? = some (.pcap i)
  raw : ∀ i, after.rawOpen i = true →
    1 + countAll after.pcapPolled + countBelow after.rawOpen i < before.entries.length →
    before.entries[1 + countAll after.pcapPolled + countBelow after.rawOpen i]? = some (.raw i)

theorem readsOwnEntry_iff_agree :
    (∀ flags, ReadsOwnEntry before after flags) ↔ Agree before after := by
  constructor
  · intro h
    -- only the entry that is looked at is flagged
    constructor
    · intro i hi hlt
      obtain ⟨k, hentry, hk⟩ := (h fun k => k = 1 + countBelow after.pcapOpen i).1 i
        (mem_pcapReads.mpr ⟨hi, hlt, decide_eq_true rfl⟩)
      rw [← of_decide_eq_true hk]
      exact hentry
    · intro i hi hlt
      obtain ⟨k, hentry, hk⟩ :=
        (h fun k => k = 1 + countAll after.pcapPolled + countBelow after.rawOpen i).2 i
          (mem_rawReads.mpr ⟨hi, hlt, decide_eq_true rfl⟩)
      rw [← of_decide_eq_true hk]
      exact hentry
  · intro h flags
    constructor
    · intro i hi
      obtain ⟨hopen, hlt, hflag⟩ := mem_pcapReads.mp hi
      exact ⟨_, h.pcap i hopen hlt, hflag⟩
    · intro i hi
      obtain ⟨hopen, hlt, hflag⟩ := mem_rawReads.mp hi
      exact ⟨_, h.raw i hopen hlt, hflag⟩

end Entries

section Applied

variable (s : Slots) (slot : Fin maxPcapHandles) (slot' : Fin maxRawHandles) (selectable : Bool)

theorem rawOpen_openRaw :
    (s.apply (.openRaw slot')).rawOpen = Function.update s.rawOpen slot' true :=
  get_set_update s.raw slot' true id

theorem rawOpen_closeRaw :
    (s.apply (.closeRaw slot')).rawOpen = Function.update s.rawOpen slot' false :=
  get_set_update s.raw slot' false id

theorem pcapOpen_openPcap :
    (s.apply (.openPcap slot selectable)).pcapOpen = Function.update s.pcapOpen slot true :=
  get_set_update s.pcap slot (some ⟨selectable⟩) Option.isSome

theorem pcapOpen_closePcap :
    (s.apply (.closePcap slot)).pcapOpen = Function.update s.pcapOpen slot false :=
  get_set_update s.pcap slot none Option.isSome

theorem pcapPolled_openPcap :
    (s.apply (.openPcap slot selectable)).pcapPolled = Function.update s.pcapPolled slot selectable := by
  have h := get_set_update s.pcap slot (some ⟨selectable⟩) fun p => decide (p = some (⟨true⟩ : Pcap))
  simp only [Option.some.injEq, Pcap.mk.injEq, Bool.decide_eq_true] at h
  exact h

theorem pcapPolled_closePcap :
    (s.apply (.closePcap slot)).pcapPolled = Function.update s.pcapPolled slot false :=
  get_set_update s.pcap slot none fun p => decide (p = some (⟨true⟩ : Pcap))

end Applied

/-- A command opens free slots and closes open ones. -/
def Effect.Fits (s : Slots) : Effect → Prop
  | .none => True
  | .openPcap slot _ => s.pcapOpen slot = false
  | .closePcap slot => s.pcapOpen slot = true
  | .openRaw slot => s.rawOpen slot = false
  | .closeRaw slot => s.rawOpen slot = true

theorem fits_find {n : Nat} {p : Fin n → Bool} {slot : Fin n}
    (h : (List.finRange n).find? (fun i => !p i) = some slot) : p slot = false := by
  have := @List.find?_some _ (fun i => !p i) _ _ h
  exact Bool.not_eq_true' _ |>.mp this

theorem fits_dispatch (calls : Calls) (s : Slots) (cmd : Command) : (dispatch calls s cmd).1.Fits s := by
  unfold dispatch
  split
  · unfold handleOpenPcap
    dsimp only
    repeat' split
    all_goals first | trivial | exact fits_find ‹_›
  split
  · unfold handleClosePcap
    split
    · split
      · exact ‹_›
      · trivial
    · trivial
  split
  · unfold handleCreateRawSocket
    dsimp only
    repeat' split
    all_goals first | trivial | exact fits_find ‹_›
  split
  · unfold handleCloseRawSocket
    split
    · split
      · exact ‹_›
      · trivial
    · trivial
  split
  · unfold handleSendRaw
    dsimp only
    repeat' split
    all_goals trivial
  · trivial

def Slots.polled (s : Slots) : Nat := countAll s.pcapPolled + countAll s.rawOpen

/-- A pcap slot with `k` handles counted before it finds its own entry, or none. -/
def Slots.InPlace (s : Slots) (i : Fin maxPcapHandles) (k : Nat) : Prop :=
  k = countBelow s.pcapPolled i ∨ s.polled ≤ k

/-- When the loops behind a command agree with the array built before it. -/
def Slots.Aligned (s : Slots) : Effect → Prop
  | .none => ∀ i, s.pcapPolled i = true → s.InPlace i (countBelow s.pcapOpen i)
  | .openRaw slot =>
    (∀ i, s.pcapPolled i = true → s.InPlace i (countBelow s.pcapOpen i)) ∧
      ∀ j, slot < j → s.rawOpen j = false
  | .closeRaw slot =>
    (∀ i, s.pcapPolled i = true → s.InPlace i (countBelow s.pcapOpen i)) ∧
      ∀ j, slot < j → s.rawOpen j = false
  | .openPcap slot selectable =>
    (∀ i, s.pcapPolled i = true →
        s.InPlace i (countBelow s.pcapOpen i + if slot < i then 1 else 0)) ∧
      (selectable = true → s.polled ≤ countBelow s.pcapOpen slot ∧ countAll s.rawOpen ≤ 1)
  | .closePcap slot =>
    (∀ i, i ≠ slot → s.pcapPolled i = true →
        s.InPlace i (countBelow s.pcapOpen i - if slot < i then 1 else 0)) ∧
      (s.pcapPolled slot = true → ∀ j, s.rawOpen j = false)

section Agreement

variable {s : Slots}

/-- The agreement in numbers. -/
theorem agree_iff {after : Slots} :
    Agree s after ↔
      (∀ i, after.pcapPolled i = true →
        s.pcapPolled i = true ∧ countBelow after.pcapOpen i = countBelow s.pcapPolled i ∨
          s.polled ≤ countBelow after.pcapOpen i) ∧
      ∀ i, after.rawOpen i = true →
        s.rawOpen i = true ∧ countAll after.pcapPolled + countBelow after.rawOpen i =
            countAll s.pcapPolled + countBelow s.rawOpen i ∨
          s.polled ≤ countAll after.pcapPolled + countBelow after.rawOpen i := by
  have hlen : s.entries.length = 1 + s.polled := length_entries s
  constructor
  · intro h
    refine ⟨fun i hi => ?_, fun i hi => ?_⟩
    · by_cases hlt : 1 + countBelow after.pcapOpen i < s.entries.length
      · obtain ⟨hopen, heq⟩ := pcap_entry.mp (h.pcap i hi hlt)
        exact .inl ⟨hopen, by omega⟩
      · exact .inr (by omega)
    · by_cases hlt : 1 + countAll after.pcapPolled + countBelow after.rawOpen i < s.entries.length
      · obtain ⟨hopen, heq⟩ := raw_entry.mp (h.raw i hi hlt)
        exact .inl ⟨hopen, by omega⟩
      · exact .inr (by omega)
  · rintro ⟨hpcap, hraw⟩
    refine ⟨fun i hi hlt => ?_, fun i hi hlt => ?_⟩
    · rcases hpcap i hi with ⟨hopen, heq⟩ | hle
      · exact pcap_entry.mpr ⟨hopen, by omega⟩
      · omega
    · rcases hraw i hi with ⟨hopen, heq⟩ | hle
      · exact raw_entry.mpr ⟨hopen, by omega⟩
      · omega

/-- A slot that has an entry. -/
theorem inPlace_of_polled {i : Fin maxPcapHandles} (hi : s.pcapPolled i = true) (k : Nat) :
    (s.pcapPolled i = true ∧ k = countBelow s.pcapPolled i ∨ s.polled ≤ k) ↔ s.InPlace i k := by
  rw [and_iff_right hi]
  rfl

theorem agree_none : Agree s (s.apply .none) ↔ s.Aligned .none := by
  rw [agree_iff]
  refine (and_iff_left ?_).trans (forall₂_congr fun i hi => inPlace_of_polled hi _)
  exact fun i hi => .inl ⟨hi, rfl⟩

theorem agree_openRaw {slot : Fin maxRawHandles} (hfree : s.rawOpen slot = false) :
    Agree s (s.apply (.openRaw slot)) ↔ s.Aligned (.openRaw slot) := by
  rw [agree_iff, rawOpen_openRaw]
  refine and_congr (forall₂_congr fun i (hi : s.pcapPolled i = true) => inPlace_of_polled hi _) ?_
  show (∀ i, _ → _ ∧ countAll s.pcapPolled + _ = _ ∨ s.polled ≤ countAll s.pcapPolled + _) ↔ _
  unfold Slots.polled
  constructor
  · -- the new slot is looked up at the place of the next open one
    intro h
    rcases h slot (Function.update_self ..) with ⟨hopen, -⟩ | hle
    · rw [hfree] at hopen
      cases hopen
    · rw [countBelow_update hfree, if_neg (lt_irrefl slot)] at hle
      exact (countAll_le_countBelow_iff hfree).mp (by omega)
  · intro h i hi
    by_cases heq : i = slot
    · subst heq
      have hle := (countAll_le_countBelow_iff hfree).mpr h
      rw [countBelow_update hfree]
      exact .inr (by omega)
    · rw [Function.update_of_ne heq] at hi
      have hbelow : ¬ slot < i := by
        intro hlt
        rw [h i hlt] at hi
        cases hi
      rw [countBelow_update hfree, if_neg hbelow]
      exact .inl ⟨hi, rfl⟩

theorem agree_closeRaw {slot : Fin maxRawHandles} (hopen : s.rawOpen slot = true) :
    Agree s (s.apply (.closeRaw slot)) ↔ s.Aligned (.closeRaw slot) := by
  rw [agree_iff, rawOpen_closeRaw]
  refine and_congr (forall₂_congr fun i (hi : s.pcapPolled i = true) => inPlace_of_polled hi _) ?_
  show (∀ i, _ → _ ∧ countAll s.pcapPolled + _ = _ ∨ s.polled ≤ countAll s.pcapPolled + _) ↔ _
  unfold Slots.polled
  constructor
  · intro h j hj
    -- an open slot above the closed one is looked up one place too low
    by_contra hne
    have hj' : s.rawOpen j = true := Bool.of_not_eq_false hne
    have hcount := @countBelow_update_false _ s.rawOpen j slot hopen
    have hlt := countBelow_lt_countAll hj'
    rw [if_pos hj] at hcount
    rcases h j (by rw [Function.update_of_ne (Fin.ne_of_gt hj)]; exact hj') with ⟨-, heq⟩ | hle
    · omega
    · omega
  · intro h i hi
    have hne : i ≠ slot := by
      rintro rfl
      rw [Function.update_self] at hi
      cases hi
    rw [Function.update_of_ne hne] at hi
    have hbelow : ¬ slot < i := by
      intro hlt
      rw [h i hlt] at hi
      cases hi
    have hcount := @countBelow_update_false _ s.rawOpen i slot hopen
    rw [if_neg hbelow] at hcount
    exact .inl ⟨hi, by omega⟩

theorem not_polled_of_free {slot : Fin maxPcapHandles} (hfree : s.pcapOpen slot = false) :
    s.pcapPolled slot = false := by
  rw [Bool.eq_false_iff]
  intro h
  rw [pcapOpen_of_polled h] at hfree
  cases hfree

theorem agree_openPcap {slot : Fin maxPcapHandles} {selectable : Bool}
    (hfree : s.pcapOpen slot = false) :
    Agree s (s.apply (.openPcap slot selectable)) ↔ s.Aligned (.openPcap slot selectable) := by
  have hpolled := not_polled_of_free hfree
  rw [agree_iff, pcapOpen_openPcap, pcapPolled_openPcap]
  show _ ∧ (∀ i, s.rawOpen i = true → _ ∧ _ + countBelow s.rawOpen i = _ ∨
    _ ≤ _ + countBelow s.rawOpen i) ↔ _
  -- the new slot, the other pcap slots, the raw slots
  have hnew : ∀ i, i ≠ slot → (Function.update s.pcapPolled slot selectable i = s.pcapPolled i) :=
    fun i hi => Function.update_of_ne hi ..
  constructor
  · rintro ⟨hpcap, hraw⟩
    refine ⟨fun i hi => ?_, ?_⟩
    · have hne : i ≠ slot := by
        rintro rfl
        rw [hpolled] at hi
        cases hi
      have := hpcap i (by rw [hnew i hne]; exact hi)
      rw [countBelow_update hfree] at this
      exact (inPlace_of_polled hi _).mp this
    · rintro rfl
      have hslot := hpcap slot (Function.update_self ..)
      rw [countBelow_update hfree, if_neg (lt_irrefl slot), hpolled] at hslot
      refine ⟨?_, ?_⟩
      · rcases hslot with ⟨hfalse, -⟩ | hle
        · cases hfalse
        · exact hle
      · rw [countAll_update hpolled] at hraw
        by_contra htwo
        obtain ⟨i, hi, hzero⟩ := exists_countBelow_eq_zero (p := s.rawOpen) (by omega)
        unfold Slots.polled at hraw
        rcases hraw i hi with ⟨-, heq⟩ | hle
        · omega
        · omega
  · rintro ⟨hpcap, hsel⟩
    refine ⟨fun i hi => ?_, fun i hi => ?_⟩
    · rw [countBelow_update hfree]
      by_cases hne : i = slot
      · subst hne
        rw [Function.update_self] at hi
        have := (hsel hi).1
        exact .inr (by omega)
      · rw [hnew i hne] at hi
        exact (inPlace_of_polled hi _).mpr (hpcap i hi)
    · cases selectable with
      | false =>
        rw [← hpolled, Function.update_eq_self]
        exact .inl ⟨hi, rfl⟩
      | true =>
        rw [countAll_update hpolled]
        have := (hsel rfl).2
        unfold Slots.polled
        exact .inr (by omega)

theorem agree_closePcap {slot : Fin maxPcapHandles} (hopen : s.pcapOpen slot = true) :
    Agree s (s.apply (.closePcap slot)) ↔ s.Aligned (.closePcap slot) := by
  rw [agree_iff, pcapOpen_closePcap, pcapPolled_closePcap]
  show _ ∧ (∀ i, s.rawOpen i = true → _ ∧ _ + countBelow s.rawOpen i = _ ∨
    _ ≤ _ + countBelow s.rawOpen i) ↔ _
  have hcount : ∀ i, countBelow (Function.update s.pcapOpen slot false) i =
      countBelow s.pcapOpen i - if slot < i then 1 else 0 := by
    intro i
    rw [@countBelow_update_false _ s.pcapOpen i slot hopen, Nat.add_sub_cancel]
  simp only [hcount]
  refine and_congr ?_ ?_
  · constructor
    · intro h i hne hi
      exact (inPlace_of_polled hi _).mp (h i (by rw [Function.update_of_ne hne]; exact hi))
    · intro h i hi
      have hne : i ≠ slot := by
        rintro rfl
        rw [Function.update_self] at hi
        cases hi
      rw [Function.update_of_ne hne] at hi
      exact (inPlace_of_polled hi _).mpr (h i hne hi)
  · unfold Slots.polled
    cases hslot : s.pcapPolled slot with
    | false =>
      rw [← hslot, Function.update_eq_self]
      exact iff_of_true (fun i hi => .inl ⟨hi, rfl⟩) fun h => by rw [hslot] at h; cases h
    | true =>
      have hall := countAll_update_false hslot
      constructor
      · intro h _ j
        by_contra hne
        have hj : s.rawOpen j = true := Bool.of_not_eq_false hne
        have hlt := countBelow_lt_countAll hj
        rcases h j hj with ⟨-, heq⟩ | hle
        · omega
        · omega
      · intro h i hi
        rw [h rfl i] at hi
        cases hi

end Agreement

/-- What the command of an iteration does to the slots; there may be none. -/
def Slots.effectOf (s : Slots) (calls : Calls) : Option Command → Effect
  | none => .none
  | some cmd => (dispatch calls s cmd).1

/-- In every iteration, with every set of handles, every command and every result of `poll`, a slot is
read only if its own entry reported data: exactly if the array and the slots agree. -/
theorem reads_own_entry_iff (s : Slots) (calls : Calls) (cmd : Option Command) :
    (∀ flags, ReadsOwnEntry s (s.apply (s.effectOf calls cmd)) flags) ↔
      s.Aligned (s.effectOf calls cmd) := by
  have hfits : (s.effectOf calls cmd).Fits s := by
    cases cmd with
    | none => trivial
    | some cmd => exact fits_dispatch calls s cmd
  rw [readsOwnEntry_iff_agree]
  cases heffect : s.effectOf calls cmd with
  | none => exact agree_none
  | openPcap slot selectable =>
    rw [heffect] at hfits
    exact agree_openPcap hfits
  | closePcap slot =>
    rw [heffect] at hfits
    exact agree_closePcap hfits
  | openRaw slot =>
    rw [heffect] at hfits
    exact agree_openRaw hfits
  | closeRaw slot =>
    rw [heffect] at hfits
    exact agree_closeRaw hfits

/-- Raw slot 1 is open, slot 0 was closed. -/
def secondRaw : Slots := Slots.init.apply (.openRaw 1)

/-- A new socket takes slot 0, and is read because slot 1 has data. -/
theorem new_socket_read :
    ¬ ReadsOwnEntry secondRaw
      (secondRaw.apply (secondRaw.effectOf {} (some ⟨opCreateRawSocket, 0, [2, 1]⟩)))
      (fun k => k = 1) := by
  rintro ⟨-, hraw⟩
  obtain ⟨k, hentry, -⟩ := hraw 0 (by decide)
  exact absurd (raw_entry.mp hentry).1 (by decide)

end Packetsonde.Priv
