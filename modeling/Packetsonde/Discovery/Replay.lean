import Packetsonde.Lib.Ring
import Packetsonde.Discovery.Wire

/-!
# Packetsonde — the discovery replay table

`struct ps_discovery_replay` and `ps_discovery_replay_check` (`src/lib/discovery.{h,c}`): a
bounded table of accepted `(pubkey, nonce)` pairs with an expiry each, and a ring of the pairs
evicted from it before their expiry.

The live prefix `entries[0 .. count)` is a list that carries its capacity bound, so a table
with more than `replayCap` entries cannot be built. `ReplayStep` lists the three things a call
can do and `replayCheck_step` shows that it does one of them; runs are folds of calls, and a
run's evictions (`evictions`) are the write history of the ring (`replayRun_models`).

A recorded pair is rejected until its expiry, unless it was evicted and `replayEvict` further
evictions followed (`replay_rejects_until_expiry`).
-/

namespace Packetsonde.Discovery

open Packetsonde.Lib
open List hiding Vector

def replayCap : Nat := 4096
def replayEvict : Nat := 256

instance : NeZero replayEvict := ⟨by decide⟩

abbrev ReplayKey := Pubkey × Nonce

structure ReplayEntry where
  key : ReplayKey
  expiresAtMs : UInt64
  deriving DecidableEq, Repr

structure Replay where
  entries : List ReplayEntry
  evicted : Ring ReplayKey replayEvict
  entries_le : entries.length ≤ replayCap
  deriving DecidableEq, Repr

/-- `memset(r, 0, sizeof(*r))`. -/
def replayInit : Replay where
  entries := []
  evicted := Ring.empty (Vector.replicate 32 0, Vector.replicate 16 0)
  entries_le := Nat.zero_le _

/-- In-place compaction: the entries that outlive `now`, in their order. -/
def replayPurgeExpired (r : Replay) (now : UInt64) : Replay where
  entries := r.entries.filter fun e => now < e.expiresAtMs
  evicted := r.evicted
  entries_le := Nat.le_trans (length_filter_le _ _) r.entries_le

def seenInEvicted (r : Replay) (key : ReplayKey) : Bool :=
  r.evicted.contents.any (· == key)

/-- The duplicate scan of the primary table, which skips expired entries. -/
def seenInEntries (r : Replay) (key : ReplayKey) (now : UInt64) : Bool :=
  r.entries.any fun e => now < e.expiresAtMs && e.key == key

/-- `if (entries[i].expires_at_ms < entries[oldest].expires_at_ms) oldest = i`, from entry `i`
on: the first index of least expiry. -/
def oldestFrom (best : ReplayEntry) (oldest i : Nat) : List ReplayEntry → Nat
  | [] => oldest
  | e :: rest =>
    if e.expiresAtMs < best.expiresAtMs then oldestFrom e i (i + 1) rest
    else oldestFrom best oldest (i + 1) rest

def oldestIndex : List ReplayEntry → Nat
  | [] => 0
  | e :: rest => oldestFrom e 0 1 rest

structure ReplayCall where
  key : ReplayKey
  expiresAtMs : UInt64
  nowMs : UInt64
  deriving DecidableEq, Repr

def ReplayCall.entry (c : ReplayCall) : ReplayEntry :=
  { key := c.key, expiresAtMs := c.expiresAtMs }

/-- The table a call inserts into: purged first when it is at capacity. -/
def replayRoom (r : Replay) (now : UInt64) : Replay :=
  if replayCap ≤ r.entries.length then replayPurgeExpired r now else r

/-- `true` is the C return value 1 (a replay, to be dropped), `false` is 0 (recorded). -/
def replayCheck (r : Replay) (c : ReplayCall) : Bool × Replay :=
  if seenInEntries r c.key c.nowMs then (true, r)
  else if seenInEvicted r c.key then (true, r)
  else
    let r := replayRoom r c.nowMs
    if h : r.entries.length < replayCap then
      (false, { r with
        entries := r.entries ++ [c.entry]
        entries_le := by simpa using h })
    else
      let oldest := oldestIndex r.entries
      let evicted := match r.entries[oldest]? with
        | some e => r.evicted.push e.key
        | none => r.evicted
      (false, { r with
        entries := r.entries.set oldest c.entry
        evicted := evicted
        entries_le := by simpa using r.entries_le })

/-! ## What one call does -/

/-- The pair a call hands to `record_eviction`, if it reaches it. -/
def evictedKey (r : Replay) (c : ReplayCall) : Option ReplayKey :=
  if seenInEntries r c.key c.nowMs || seenInEvicted r c.key then none
  else
    let r := replayRoom r c.nowMs
    if r.entries.length < replayCap then none
    else (r.entries[oldestIndex r.entries]?).map (·.key)

/-- The three outcomes of a call, with everything the later proofs need to know of each. -/
inductive ReplayStep (r : Replay) (c : ReplayCall) : Bool → Replay → Prop where
  | seen (hseen : seenInEntries r c.key c.nowMs ∨ seenInEvicted r c.key)
      (hkey : evictedKey r c = none) : ReplayStep r c true r
  | insert (r' : Replay) (hnew : ¬ seenInEntries r c.key c.nowMs) (hev : ¬ seenInEvicted r c.key)
      (hentries : r'.entries = (replayRoom r c.nowMs).entries ++ [c.entry])
      (hring : r'.evicted = r.evicted) (hkey : evictedKey r c = none) :
      ReplayStep r c false r'
  | evict (r' : Replay) (i : Nat) (e : ReplayEntry)
      (hnew : ¬ seenInEntries r c.key c.nowMs) (hev : ¬ seenInEvicted r c.key)
      (hfull : (replayRoom r c.nowMs).entries.length = replayCap)
      (hget : (replayRoom r c.nowMs).entries[i]? = some e)
      (hi : i = oldestIndex (replayRoom r c.nowMs).entries)
      (hentries : r'.entries = (replayRoom r c.nowMs).entries.set i c.entry)
      (hring : r'.evicted = r.evicted.push e.key) (hkey : evictedKey r c = some e.key) :
      ReplayStep r c false r'

theorem oldestFrom_lt (es : List ReplayEntry) (best : ReplayEntry) {oldest i : Nat}
    (h : oldest < i) : oldestFrom best oldest i es < i + es.length := by
  induction es generalizing best oldest i with
  | nil => simpa [oldestFrom] using h
  | cons e rest ih =>
    simp only [oldestFrom, length_cons]
    split
    · have := ih e (Nat.lt_add_one i)
      omega
    · have := ih best (Nat.lt_add_right 1 h)
      omega

theorem oldestIndex_lt {es : List ReplayEntry} (h : es ≠ []) : oldestIndex es < es.length := by
  cases es with
  | nil => exact absurd rfl h
  | cons e rest =>
    have := oldestFrom_lt rest e (show 0 < 1 by omega)
    simp only [oldestIndex, length_cons]
    omega

@[simp] theorem replayRoom_evicted (r : Replay) (now : UInt64) :
    (replayRoom r now).evicted = r.evicted := by
  unfold replayRoom
  split <;> rfl

variable {r r' : Replay} {now exp : UInt64} {e : ReplayEntry} {c : ReplayCall} {h evs : List ReplayKey}
    {key : ReplayKey} {n : Nat}

/-- Making room never drops an unexpired entry. -/
theorem mem_replayRoom_of_live
    (he : e ∈ r.entries) (hlive : now < e.expiresAtMs) : e ∈ (replayRoom r now).entries := by
  unfold replayRoom
  split
  · simpa [replayPurgeExpired] using ⟨he, hlive⟩
  · exact he

theorem replayStep_replayCheck (r : Replay) (c : ReplayCall) :
    ReplayStep r c (replayCheck r c).1 (replayCheck r c).2 := by
  unfold replayCheck
  split
  · next h => exact .seen (.inl h) (by simp [evictedKey, h])
  · next hnew =>
    split
    · next h => exact .seen (.inr h) (by simp [evictedKey, h])
    · next hev =>
      dsimp only
      split
      · next hlt =>
        refine .insert _ hnew hev rfl (replayRoom_evicted r c.nowMs) ?_
        simp [evictedKey, hnew, hev, hlt]
      · next hge =>
        -- the table is full of unexpired entries: the index of least expiry is in range
        have hfull : (replayRoom r c.nowMs).entries.length = replayCap :=
          Nat.le_antisymm (replayRoom r c.nowMs).entries_le (Nat.le_of_not_lt hge)
        have hne : (replayRoom r c.nowMs).entries ≠ [] := by
          intro hnil
          rw [hnil] at hfull
          exact absurd hfull (by decide)
        have hget := getElem?_eq_getElem (oldestIndex_lt hne)
        refine .evict _ _ _ hnew hev hfull hget rfl rfl ?_ ?_
        · simp only [hget, replayRoom_evicted]
        · simp [evictedKey, hnew, hev, hge, hget]

theorem replayCheck_step (r : Replay) (c : ReplayCall) :
    ∃ rc r', replayCheck r c = (rc, r') ∧ ReplayStep r c rc r' :=
  ⟨_, _, rfl, replayStep_replayCheck r c⟩

/-! ## Calls on a table with room -/

theorem replayRoom_of_lt (now : UInt64) (h : r.entries.length < replayCap) :
    replayRoom r now = r := by
  rw [replayRoom, if_neg (by omega)]

/-- Recording a pair in a table with room appends it and changes nothing else. -/
theorem replayCheck_recorded (hroom : r.entries.length < replayCap) (h : replayCheck r c = (false, r')) :
    r'.entries = r.entries ++ [c.entry] ∧ r'.evicted = r.evicted
      ∧ ¬ seenInEntries r c.key c.nowMs ∧ ¬ seenInEvicted r c.key := by
  obtain ⟨rc, r'', heq, hstep⟩ := replayCheck_step r c
  rw [h] at heq
  obtain ⟨rfl, rfl⟩ := Prod.mk.inj heq
  cases hstep with
  | insert _ hnew hev hentries hring _ =>
    rw [replayRoom_of_lt _ hroom] at hentries
    exact ⟨hentries, hring, hnew, hev⟩
  | evict _ _ _ _ _ hfull _ _ _ _ _ =>
    rw [replayRoom_of_lt _ hroom] at hfull
    omega

/-- At or after its expiry a pair is recorded again: an entry for it that is unexpired then
was unexpired, and in the way, when it was recorded the first time. -/
theorem replayCheck_again {c c' : ReplayCall}
    (hroom : r.entries.length < replayCap) (h : replayCheck r c = (false, r'))
    (hkey : c'.key = c.key) (hle : c.nowMs ≤ c'.nowMs) (hexp : c.expiresAtMs ≤ c'.nowMs) :
    (replayCheck r' c').1 = false := by
  obtain ⟨hentries, hring, hnew, hev⟩ := replayCheck_recorded hroom h
  obtain ⟨rc, r'', heq, hstep⟩ := replayCheck_step r' c'
  rw [heq]
  cases hstep with
  | insert => rfl
  | evict => rfl
  | seen hseen _ =>
    exfalso
    rcases hseen with hseen | hseen
    · obtain ⟨e, he, hmatch⟩ := any_eq_true.mp hseen
      simp only [Bool.and_eq_true, decide_eq_true_eq, beq_iff_eq, hkey] at hmatch
      rcases mem_append.mp (hentries ▸ he) with hold | hself
      · refine hnew (any_eq_true.mpr ⟨e, hold, ?_⟩)
        simp only [Bool.and_eq_true, decide_eq_true_eq, beq_iff_eq]
        exact ⟨UInt64.lt_of_le_of_lt hle hmatch.1, hmatch.2⟩
      · obtain rfl : e = c.entry := by simpa using hself
        exact UInt64.lt_irrefl _ (UInt64.lt_of_lt_of_le hmatch.1 hexp)
    · rw [seenInEvicted, hring, hkey] at hseen
      exact hev hseen

/-- Before the expiry of an entry its pair is rejected. -/
theorem replayCheck_of_mem (he : e ∈ r.entries)
    (hkey : e.key = c.key) (hlive : c.nowMs < e.expiresAtMs) : replayCheck r c = (true, r) := by
  have hseen : seenInEntries r c.key c.nowMs = true := by
    rw [seenInEntries, any_eq_true]
    refine ⟨e, he, ?_⟩
    simp only [Bool.and_eq_true, decide_eq_true_eq, beq_iff_eq]
    exact ⟨hlive, hkey⟩
  rw [replayCheck, if_pos hseen]

/-! ## Runs -/

/-- The clock handed to the calls of a run never goes back. -/
def ClockMonotone (calls : List ReplayCall) : Prop :=
  calls.Pairwise fun a b => a.nowMs ≤ b.nowMs

def replayRun (r : Replay) (calls : List ReplayCall) : Replay :=
  calls.foldl (fun r c => (replayCheck r c).2) r

@[simp] theorem replayRun_nil (r : Replay) : replayRun r [] = r := rfl

@[simp] theorem replayRun_cons (r : Replay) (c : ReplayCall) (cs : List ReplayCall) :
    replayRun r (c :: cs) = replayRun (replayCheck r c).2 cs := rfl

theorem replayRun_append (r : Replay) (xs ys : List ReplayCall) :
    replayRun r (xs ++ ys) = replayRun (replayRun r xs) ys := by
  simp [replayRun]

def evictions (r : Replay) : List ReplayCall → List ReplayKey
  | [] => []
  | c :: cs => (evictedKey r c).toList ++ evictions (replayCheck r c).2 cs

theorem evictions_append (r : Replay) (xs ys : List ReplayCall) :
    evictions r (xs ++ ys) = evictions r xs ++ evictions (replayRun r xs) ys := by
  induction xs generalizing r with
  | nil => rfl
  | cons c cs ih => simp [evictions, ih, append_assoc]

/-- One call extends the ring's write history by what it evicts. -/
theorem replayCheck_models (hm : r.evicted.Models h)
    (c : ReplayCall) : (replayCheck r c).2.evicted.Models (h ++ (evictedKey r c).toList) := by
  obtain ⟨rc, r', heq, hstep⟩ := replayCheck_step r c
  rw [heq]
  cases hstep with
  | seen _ hkey => simpa [hkey] using hm
  | insert _ _ _ _ hring hkey => simpa [hkey, hring] using hm
  | evict _ i e _ _ _ _ _ _ hring hkey => simpa [hkey, hring] using Ring.models_push hm e.key

/-- The ring after a run stands for the run's evictions. Induction on the calls. -/
theorem replayRun_models (hm : r.evicted.Models h)
    (calls : List ReplayCall) : (replayRun r calls).evicted.Models (h ++ evictions r calls) := by
  induction calls generalizing r h with
  | nil => simpa [evictions] using hm
  | cons c cs ih =>
    have := ih (replayCheck_models hm c)
    simpa [evictions, append_assoc] using this

theorem replayInit_models : replayInit.evicted.Models [] := Ring.models_empty _

/-! ## A recorded pair is remembered

What a run remembers of a recorded pair is either its entry or, once that was evicted, the
pair's place in the ring's write history. -/

/-- `key` with expiry `exp` is in the table, or among the evictions `evs`. -/
def Remembered (r : Replay) (evs : List ReplayKey) (key : ReplayKey) (exp : UInt64) : Prop :=
  { key := key, expiresAtMs := exp } ∈ r.entries ∨ key ∈ evs

/-- Before the expiry no call forgets: the entry survives the purge, an insertion and the
eviction of another entry, and its own eviction puts it on record. -/
theorem Remembered.step (hr : Remembered r evs key exp) (hlive : c.nowMs < exp) :
    Remembered (replayCheck r c).2 (evs ++ (evictedKey r c).toList) key exp := by
  rcases hr with hmem | hev
  swap
  · exact .inr (mem_append_left _ hev)
  have hroom := mem_replayRoom_of_live hmem hlive
  obtain ⟨rc, r', heq, hstep⟩ := replayCheck_step r c
  rw [heq]
  cases hstep with
  | seen _ _ => exact .inl hmem
  | insert _ _ _ hentries _ _ =>
    refine .inl ?_
    simp only [hentries]
    exact mem_append_left _ hroom
  | evict _ i e _ _ _ hget _ hentries _ hkey =>
    obtain ⟨j, hj, hjget⟩ := getElem_of_mem hroom
    by_cases hij : i = j
    · -- the entry's own eviction
      subst hij
      rw [getElem?_eq_getElem hj, hjget] at hget
      obtain rfl := Option.some.inj hget
      exact .inr (by simp [hkey])
    · refine .inl ?_
      simp only [hentries]
      rw [← hjget, ← getElem_set_ne hij (by simpa using hj)]
      exact getElem_mem _

theorem Remembered.run (hr : Remembered r evs key exp) {calls : List ReplayCall}
    (hlive : ∀ c ∈ calls, c.nowMs < exp) :
    Remembered (replayRun r calls) (evs ++ evictions r calls) key exp := by
  induction calls generalizing r evs with
  | nil => simpa [evictions] using hr
  | cons c cs ih =>
    have hstep := hr.step (hlive c (by simp))
    have := ih hstep (fun c' hc' => hlive c' (by simp [hc']))
    simpa [evictions, append_assoc] using this

/-- A call that returns 0 records its pair with its expiry. -/
theorem remembered_of_recorded (h : (replayCheck r c).1 = false) :
    Remembered (replayCheck r c).2 [] c.key c.expiresAtMs := by
  obtain ⟨rc, r', heq, hstep⟩ := replayCheck_step r c
  rw [heq] at h ⊢
  refine .inl ?_
  cases hstep with
  | seen _ _ => simp at h
  | insert _ _ _ hentries _ _ => simp [hentries, ReplayCall.entry]
  | evict _ i e _ _ _ hget _ hentries _ _ =>
    simp only [hentries, ReplayCall.entry]
    have hi : i < (replayRoom r c.nowMs).entries.length :=
      (List.getElem?_eq_some_iff.mp hget).1
    exact mem_set hi _

/-- **A recorded pair is rejected until its expiry.** In every run from an empty table with a
non-decreasing clock, once a call recorded a pair with expiry `c.expiresAtMs`, every later call
for the pair before that instant returns 1, whatever was inserted, purged or evicted in
between, as long as the pair's own eviction (if it happened) is followed by fewer than
`replayEvict` further ones: that is how long the ring keeps a pair. -/
theorem replay_rejects_until_expiry (pre mid : List ReplayCall) (c c' : ReplayCall)
    (hclock : ClockMonotone (pre ++ c :: mid ++ [c']))
    (hrec : (replayCheck (replayRun replayInit pre) c).1 = false)
    (hkey : c'.key = c.key) (hlive : c'.nowMs < c.expiresAtMs)
    (hring : ∀ older newer,
      evictions (replayRun replayInit (pre ++ [c])) mid = older ++ c.key :: newer →
        newer.length < replayEvict) :
    (replayCheck (replayRun replayInit (pre ++ c :: mid)) c').1 = true := by
  -- every call in between happens before the expiry
  have hmid : ∀ x ∈ mid, x.nowMs < c.expiresAtMs := by
    intro x hx
    have hle : x.nowMs ≤ c'.nowMs := by
      have := (pairwise_append.mp hclock).2.2 x (by simp [hx]) c' (by simp)
      exact this
    exact UInt64.lt_of_le_of_lt hle hlive
  set r₁ := replayRun replayInit (pre ++ [c]) with hr₁
  have hstart : Remembered r₁ [] c.key c.expiresAtMs := by
    rw [hr₁, replayRun_append]
    exact remembered_of_recorded hrec
  have hrun : replayRun replayInit (pre ++ c :: mid) = replayRun r₁ mid := by
    rw [hr₁, ← replayRun_append]
    simp
  have hmodels := replayRun_models (replayRun_models replayInit_models (pre ++ [c])) mid
  rw [hrun]
  rcases hstart.run hmid with hmem | hev
  · -- still in the primary table
    rw [replayCheck_of_mem hmem hkey.symm hlive]
  · -- evicted, but recently enough to be in the ring
    obtain ⟨older, newer, hsplit⟩ := append_of_mem (by simpa using hev)
    have hrecent := hring older newer hsplit
    have hcontents : c.key ∈ (replayRun r₁ mid).evicted.contents := by
      rw [← hr₁, hsplit, ← append_assoc] at hmodels
      exact Ring.mem_contents_of_recent hmodels hrecent
    have hseen : seenInEvicted (replayRun r₁ mid) c'.key = true := by
      rw [seenInEvicted, any_eq_true]
      exact ⟨_, hcontents, by simp [hkey]⟩
    rw [replayCheck, if_pos hseen]
    split <;> rfl

/-! ## The ring can be overrun

A flood of fresh pairs that outlive the victim's: the first `replayCap - 1` fill the table, the
next one evicts the victim, and `replayEvict` more push it out of the ring. Nothing has expired
meanwhile. -/

theorem oldestFrom_eq_of_le (es : List ReplayEntry) (best : ReplayEntry) (oldest i : Nat)
    (h : ∀ e ∈ es, best.expiresAtMs ≤ e.expiresAtMs) : oldestFrom best oldest i es = oldest := by
  induction es generalizing i with
  | nil => rfl
  | cons e rest ih =>
    have hle := h e (by simp)
    rw [oldestFrom, if_neg (by simpa using hle)]
    exact ih _ fun e' he' => h e' (by simp [he'])

theorem replayRoom_entries_of_live
    (h : ∀ e ∈ r.entries, now < e.expiresAtMs) : (replayRoom r now).entries = r.entries := by
  unfold replayRoom
  split
  · exact filter_eq_self.mpr fun e he => by simpa using h e he
  · rfl

theorem not_seen_of_fresh (hnew : ∀ e ∈ r.entries, e.key ≠ key) (hring : key ∉ r.evicted.contents) :
    ¬ (seenInEntries r key now ∨ seenInEvicted r key) := by
  rintro (h | h)
  · obtain ⟨e, he, hmatch⟩ := any_eq_true.mp h
    simp only [Bool.and_eq_true, beq_iff_eq] at hmatch
    exact hnew e he hmatch.2
  · obtain ⟨k, hmem, hmatch⟩ := any_eq_true.mp h
    rw [beq_iff_eq] at hmatch
    exact hring (hmatch ▸ hmem)

/-- A fresh pair goes to the end of a table with room. -/
theorem replayCheck_insert (hnew : ∀ e ∈ r.entries, e.key ≠ c.key)
    (hring : c.key ∉ r.evicted.contents) (hroom : r.entries.length < replayCap) :
    ∃ r', replayCheck r c = (false, r') ∧ r'.entries = r.entries ++ [c.entry]
      ∧ r'.evicted = r.evicted ∧ evictedKey r c = none := by
  obtain ⟨rc, r', heq, hstep⟩ := replayCheck_step r c
  cases hstep with
  | seen hseen _ => exact absurd hseen (not_seen_of_fresh hnew hring)
  | insert _ _ _ hentries hev hkey =>
    rw [replayRoom_of_lt _ hroom] at hentries
    exact ⟨r', heq, hentries, hev, hkey⟩
  | evict _ _ _ _ _ hfull _ _ _ _ _ =>
    rw [replayRoom_of_lt _ hroom] at hfull
    omega

/-- A fresh pair replaces the head of a full, unexpired table whose head expires first. -/
theorem replayCheck_evict_head {rest : List ReplayEntry} (hent : r.entries = e :: rest)
    (hnew : ∀ x ∈ r.entries, x.key ≠ c.key) (hring : c.key ∉ r.evicted.contents)
    (hfull : r.entries.length = replayCap) (hlive : ∀ x ∈ r.entries, c.nowMs < x.expiresAtMs)
    (hleast : ∀ x ∈ rest, e.expiresAtMs ≤ x.expiresAtMs) :
    ∃ r', replayCheck r c = (false, r') ∧ r'.entries = c.entry :: rest
      ∧ evictedKey r c = some e.key := by
  have hroom := replayRoom_entries_of_live hlive
  obtain ⟨rc, r', heq, hstep⟩ := replayCheck_step r c
  cases hstep with
  | seen hseen _ => exact absurd hseen (not_seen_of_fresh hnew hring)
  | insert _ _ _ hentries _ _ =>
    have hle := r'.entries_le
    rw [hentries, hroom, length_append, hfull] at hle
    simp at hle
  | evict _ i x _ _ _ hget hi hentries _ hkey =>
    have hzero : i = 0 := by
      rw [hi, hroom, hent]
      exact oldestFrom_eq_of_le rest e 0 1 hleast
    rw [hroom, hent, hzero] at hget hentries
    obtain rfl : e = x := by simpa using hget
    exact ⟨r', heq, by simpa using hentries, hkey⟩

def victimCall : ReplayCall where
  key := (Vector.replicate 32 0xaa, Vector.replicate 16 0x42)
  expiresAtMs := 1000
  nowMs := 0

def floodCall (i : Nat) : ReplayCall where
  key := (Vector.replicate 32 0xbb,
    #v[UInt8.ofNat i, UInt8.ofNat (i / 256), 0xcc, 0, 0, 0, 0, 0, 0, 0, 0, 0, 0, 0, 0, 0])
  expiresAtMs := 9999
  nowMs := 0

def floodCalls (n : Nat) : List ReplayCall := (List.range n).map floodCall

theorem floodCalls_succ (n : Nat) : floodCalls (n + 1) = floodCalls n ++ [floodCall n] := by
  simp [floodCalls, range_succ]

theorem floodCall_key_ne_victim (i : Nat) : (floodCall i).key ≠ victimCall.key := by
  intro h
  have hpub : (Vector.replicate 32 0xbb : Pubkey) = Vector.replicate 32 0xaa :=
    (Prod.mk.inj h).1
  exact absurd hpub (by decide)

theorem floodCall_key_injective {i j : Nat} (hi : i < 65536) (hj : j < 65536)
    (h : (floodCall i).key = (floodCall j).key) : i = j := by
  have hnonce := (Prod.mk.inj h).2
  have h0 : UInt8.ofNat i = UInt8.ofNat j := congrArg (fun v : Nonce => v[0]) hnonce
  have h1 : UInt8.ofNat (i / 256) = UInt8.ofNat (j / 256) :=
    congrArg (fun v : Nonce => v[1]) hnonce
  have h0' := congrArg UInt8.toNat h0
  have h1' := congrArg UInt8.toNat h1
  simp only [UInt8.toNat_ofNat'] at h0' h1'
  omega

/-- The clock never moves during the flood. -/
theorem flood_clock (n : Nat) :
    ClockMonotone ([] ++ victimCall :: floodCalls n ++ [victimCall]) := by
  have hzero : ∀ x ∈ [] ++ victimCall :: floodCalls n ++ [victimCall], x.nowMs = 0 := by
    simp only [floodCalls, nil_append, cons_append, mem_cons, mem_append,
      mem_map, not_mem_nil, or_false]
    rintro x (rfl | ⟨i, _, rfl⟩ | rfl) <;> rfl
  refine List.Pairwise.imp_of_mem (R := fun _ _ => True) ?_ (pairwise_of_forall (by simp))
  intro a b ha hb _
  rw [hzero a ha, hzero b hb]
  decide

/-- The head of the table after `k` evictions: the victim, then the flood pair that took its
place. -/
def floodHead : Nat → ReplayCall
  | 0 => victimCall
  | k + 1 => floodCall (replayCap - 1 + k)

theorem floodHead_key_ne {k : Nat} (hk : k + replayCap ≤ n + 1 ∨ k = 0) (hn : n < 65536) :
    (floodHead k).key ≠ (floodCall n).key := by
  cases k with
  | zero => exact (floodCall_key_ne_victim n).symm
  | succ k =>
    intro h
    have hcap : replayCap = 4096 := rfl
    have := floodCall_key_injective (by omega) hn h
    omega

theorem floodHead_expiry (k : Nat) :
    0 < (floodHead k).expiresAtMs ∧ (floodHead k).expiresAtMs ≤ 9999 := by
  cases k
  · decide
  · exact show (0 : UInt64) < 9999 ∧ (9999 : UInt64) ≤ 9999 from by decide

/-- The flood first queues up behind the victim; once the table is full every flood pair takes
the place of its head. -/
theorem flood_run (hn : n < 65536) :
    (replayRun replayInit (victimCall :: floodCalls n)).entries
        = (floodHead (n + 1 - replayCap)).entry
          :: (floodCalls (min n (replayCap - 1))).map ReplayCall.entry
      ∧ evictions replayInit (victimCall :: floodCalls n)
        = (List.range (n + 1 - replayCap)).map fun t => (floodHead t).key := by
  have hcap : replayCap = 4096 := rfl
  induction n with
  | zero => decide
  | succ n ih =>
    obtain ⟨hent, hev⟩ := ih (by omega)
    obtain ⟨k, hk⟩ : ∃ k, n + 1 - replayCap = k := ⟨_, rfl⟩
    obtain ⟨m, hm⟩ : ∃ m, min n (replayCap - 1) = m := ⟨_, rfl⟩
    rw [hk] at hent hev
    rw [hm] at hent
    set r := replayRun replayInit (victimCall :: floodCalls n) with hr
    have hmodels := replayRun_models replayInit_models (victimCall :: floodCalls n)
    rw [hev, nil_append] at hmodels
    have hring : (floodCall n).key ∉ r.evicted.contents := by
      intro hmem
      obtain ⟨older, newer, hsplit, _⟩ := Ring.recent_of_mem_contents hmodels hmem
      obtain ⟨t, ht, h⟩ := mem_map.mp (hsplit ▸ mem_append_right older mem_cons_self)
      rw [mem_range] at ht
      exact floodHead_key_ne (by omega) (by omega) h
    have hrest : ∀ x ∈ (floodCalls m).map ReplayCall.entry,
        x.key ≠ (floodCall n).key ∧ x.expiresAtMs = 9999 := by
      simp only [floodCalls, map_map, mem_map, mem_range]
      rintro x ⟨j, hj, rfl⟩
      exact ⟨fun h => absurd (floodCall_key_injective (by omega) (by omega) h) (by omega), rfl⟩
    have hnew : ∀ x ∈ r.entries, x.key ≠ (floodCall n).key := by
      rw [hent, forall_mem_cons]
      exact ⟨floodHead_key_ne (by omega) (by omega), fun x hx => (hrest x hx).1⟩
    have hlen : r.entries.length = m + 1 := by simp [hent, floodCalls]
    rw [floodCalls_succ, ← cons_append, replayRun_append, evictions_append, hev, ← hr,
      replayRun_cons, replayRun_nil]
    rcases Nat.lt_or_ge (n + 1) replayCap with hroom | hfull
    · obtain ⟨r', heq, hent', _, hkey⟩ := replayCheck_insert hnew hring (by omega)
      obtain rfl : m = n := by omega
      rw [heq, hent', hent, show m + 1 + 1 - replayCap = k by omega,
        show min (m + 1) (replayCap - 1) = m + 1 by omega, floodCalls_succ]
      simp [evictions, hkey]
    · obtain ⟨r', heq, hent', hkey⟩ := replayCheck_evict_head hent hnew hring (by omega)
        (by
          rw [hent, forall_mem_cons]
          exact ⟨(floodHead_expiry k).1, fun x hx => (hrest x hx).2 ▸ (floodHead_expiry 1).1⟩)
        (fun x hx => (hrest x hx).2 ▸ (floodHead_expiry k).2)
      rw [heq, hent', show n + 1 + 1 - replayCap = k + 1 by omega, range_succ, map_append,
        show min (n + 1) (replayCap - 1) = m by omega, floodHead,
        show replayCap - 1 + k = n by omega]
      simp [evictions, hkey, ReplayCall.entry]

/-- **The table forgets under flood.** A pair recorded with expiry 1000 is accepted again at
time 0, after `replayCap + replayEvict` other pairs: the `H-2` ring keeps only its last
`replayEvict` evictions. -/
theorem flood_forgets_victim :
    (replayCheck replayInit victimCall).1 = false
      ∧ ClockMonotone ([] ++ victimCall :: floodCalls (replayCap + replayEvict) ++ [victimCall])
      ∧ victimCall.nowMs < victimCall.expiresAtMs
      ∧ (replayCheck (replayRun replayInit
          (victimCall :: floodCalls (replayCap + replayEvict))) victimCall).1 = false := by
  refine ⟨by decide, flood_clock _, by decide, ?_⟩
  obtain ⟨hent, hev⟩ := flood_run (show replayCap + replayEvict < 65536 by decide)
  set r := replayRun replayInit (victimCall :: floodCalls (replayCap + replayEvict))
  have hmodels := replayRun_models replayInit_models
    (victimCall :: floodCalls (replayCap + replayEvict))
  rw [hev, show replayCap + replayEvict + 1 - replayCap = replayEvict + 1 from rfl,
    range_succ_eq_map, map_cons, map_map, nil_append] at hmodels
  -- the ring's last `replayEvict` writes are all flood pairs
  have hring : victimCall.key ∉ r.evicted.contents := by
    intro hmem
    obtain ⟨older, newer, hsplit, hlen⟩ := Ring.recent_of_mem_contents hmodels hmem
    cases older with
    | nil =>
      have := congrArg List.length hsplit
      simp at this
      omega
    | cons x older =>
      rw [cons_append, List.cons.injEq] at hsplit
      obtain ⟨t, _, ht⟩ := mem_map.mp (hsplit.2 ▸ mem_append_right older mem_cons_self)
      exact floodCall_key_ne_victim _ ht
  have hnew : ∀ e ∈ r.entries, e.key ≠ victimCall.key := by
    rw [hent, forall_mem_cons]
    refine ⟨floodCall_key_ne_victim _, ?_⟩
    simp only [floodCalls, map_map, mem_map]
    rintro e ⟨j, _, rfl⟩
    exact floodCall_key_ne_victim _
  obtain ⟨rc, r', heq, hstep⟩ := replayCheck_step r victimCall
  rw [heq]
  cases hstep with
  | seen hseen _ => exact absurd hseen (not_seen_of_fresh hnew hring)
  | insert => rfl
  | evict => rfl

theorem evictions_after_victim (calls : List ReplayCall) :
    evictions (replayRun replayInit [victimCall]) calls
      = evictions replayInit (victimCall :: calls) := by
  have hnone : evictions replayInit [victimCall] = [] := by decide
  have happ := evictions_append replayInit [victimCall] calls
  rw [hnone] at happ
  exact happ.symm

/-- The same flood, `replayEvict` pairs shorter: the victim has been evicted and is rejected
from the ring. -/
theorem flood_rejects_evicted_victim :
    evictions (replayRun replayInit [victimCall]) (floodCalls replayCap) = [victimCall.key]
      ∧ (replayCheck (replayRun replayInit ([] ++ victimCall :: floodCalls replayCap))
          victimCall).1 = true := by
  have hev : evictions (replayRun replayInit [victimCall]) (floodCalls replayCap)
      = [victimCall.key] :=
    (evictions_after_victim _).trans (flood_run (by decide)).2
  refine ⟨hev, replay_rejects_until_expiry [] (floodCalls replayCap) victimCall victimCall
    (flood_clock replayCap) (by decide) rfl (by decide) fun older newer h => ?_⟩
  have hlen := congrArg List.length (hev.symm.trans h)
  simp at hlen
  have hevict : replayEvict = 256 := rfl
  omega

end Packetsonde.Discovery
