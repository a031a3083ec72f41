import Packetsonde.Detect.Sandbox
import Packetsonde.Lib.Slots

/-!
# Packetsonde — the cache of policies (`ps_unit_policy_get`)

A policy is asked for by the name of its unit, and is read again when the one that is kept is older than the
caller allows. The cache should not be noticed: every answer is what the loader returned for that unit at a
call that was not too long ago.

What a call can do is `get_cases`: it answers from an entry with the name of the unit, or it loads and puts
the answer into some entry, whichever that is. So every entry comes from a call that loaded (`FromLog`), and
its name is the name of the unit as long as names are not cut (`cache_transparent`).
-/

namespace Packetsonde.Detect

open Packetsonde.Lib
open List hiding Vector

/-- A loader: the text it writes for a unit, if it returns 0. -/
abbrev Loader := Bytes → Option Bytes

/-- `struct pol_cache_ent`. -/
structure CacheEnt where
  unit : Bytes
  loadedSec : UInt64
  pol : UnitPolicy
  used : Bool

def CacheEnt.zero : CacheEnt := ⟨[], 0, .zero, false⟩

/-- `g_cache`. -/
abbrev PolCache := Vector CacheEnt 128

/-- The loop of `ps_unit_policy_get`: the slot it finds, and the oldest one. -/
def pickSlot (cache : PolCache) (unit : Bytes) :
    List (Fin 128) → Option (Fin 128) → Fin 128 → Option (Fin 128) × Fin 128
  | [], slot, lru => (slot, lru)
  | i :: is, slot, lru =>
    let e := cache.get i
    if e.used && e.unit == unit then (some i, lru)
    else
      pickSlot cache unit is (if e.used then slot else slot.or (some i))
        (if e.loadedSec < (cache.get lru).loadedSec then i else lru)

/-- `ps_unit_policy_get`. -/
def unitPolicyGet (cache : PolCache) (unit : Bytes) (nowSec ttlSec : UInt64) (loader : Loader) :
    PolCache × UnitPolicy :=
  let (slot, lru) := pickSlot cache unit (List.finRange 128) none 0
  match slot.filter fun i => (cache.get i).used && (cache.get i).unit == unit &&
      decide (nowSec - (cache.get i).loadedSec < ttlSec) with
  | some i => (cache, (cache.get i).pol)
  | none =>
    let i := slot.getD lru
    let text := ((loader unit).map fun t => cstr (t.take 8191)).getD []
    let pol := unitPolicyDerive text
    (cache.set i ⟨unit.take 127, nowSec, pol, true⟩, pol)

/-! ## Calls -/

/-- A call of `ps_unit_policy_get`, with what the loader would do then. -/
structure PolicyCall where
  unit : CString
  now : UInt64
  ttl : UInt64
  loader : Loader

def PolicyCall.loaded (c : PolicyCall) : UnitPolicy :=
  unitPolicyDerive (((c.loader c.unit.bytes).map fun t => cstr (t.take 8191)).getD [])

/-- A call that was made: its answer, and whether the loader was called. -/
structure Answered where
  call : PolicyCall
  answer : UnitPolicy
  fresh : Bool

structure PolicyRun where
  cache : PolCache
  log : List Answered

def servedBy (cache : PolCache) (c : PolicyCall) : Option (Fin 128) :=
  (pickSlot cache c.unit.bytes (List.finRange 128) none 0).1.filter fun i =>
    (cache.get i).used && (cache.get i).unit == c.unit.bytes && decide (c.now - (cache.get i).loadedSec < c.ttl)

def PolicyRun.step (r : PolicyRun) (c : PolicyCall) : PolicyRun :=
  let (cache, answer) := unitPolicyGet r.cache c.unit.bytes c.now c.ttl c.loader
  ⟨cache, r.log ++ [⟨c, answer, (servedBy r.cache c).isNone⟩]⟩

def policyRun (calls : List PolicyCall) : PolicyRun :=
  calls.foldl PolicyRun.step ⟨Vector.replicate 128 .zero, []⟩

/-- Every answer is what the loader returned for that unit at a call that is recent enough. -/
def Transparent (log : List Answered) : Prop :=
  ∀ a ∈ log, ∃ b ∈ log, b.fresh = true ∧ b.call.unit.bytes = a.call.unit.bytes ∧ a.answer = b.call.loaded ∧
    b.call.now ≤ a.call.now ∧
      (a.call.now.toNat - b.call.now.toNat < a.call.ttl.toNat ∨ b.call.now = a.call.now)

/-! ## One call -/

/-- What a call does to the cache and what it answers. -/
theorem get_cases (cache : PolCache) (c : PolicyCall) :
    (∃ i, servedBy cache c = some i ∧ (cache.get i).used = true ∧ (cache.get i).unit = c.unit.bytes ∧
      c.now - (cache.get i).loadedSec < c.ttl ∧
      unitPolicyGet cache c.unit.bytes c.now c.ttl c.loader = (cache, (cache.get i).pol)) ∨
    ∃ i : Fin 128, servedBy cache c = none ∧ unitPolicyGet cache c.unit.bytes c.now c.ttl c.loader =
      (cache.set i ⟨c.unit.bytes.take 127, c.now, c.loaded, true⟩, c.loaded) := by
  have hget : unitPolicyGet cache c.unit.bytes c.now c.ttl c.loader =
      (servedBy cache c).elim
        (let i := (pickSlot cache c.unit.bytes (List.finRange 128) none 0).1.getD
          (pickSlot cache c.unit.bytes (List.finRange 128) none 0).2
        (cache.set i ⟨c.unit.bytes.take 127, c.now, c.loaded, true⟩, c.loaded))
        fun i => (cache, (cache.get i).pol) := by
    unfold unitPolicyGet
    cases hserved : servedBy cache c with
    | none =>
      rw [servedBy] at hserved
      simp only [hserved, Option.elim_none]
      rfl
    | some i =>
      rw [servedBy] at hserved
      simp only [hserved, Option.elim_some]
  cases hserved : servedBy cache c with
  | some i =>
    rw [hserved] at hget
    have hentry := (Option.filter_eq_some_iff.mp hserved).2
    simp only [Bool.and_eq_true, beq_iff_eq, decide_eq_true_eq] at hentry
    exact .inl ⟨i, rfl, hentry.1.1, hentry.1.2, hentry.2, hget⟩
  | none =>
    rw [hserved] at hget
    exact .inr ⟨_, rfl, hget⟩

/-! ## Runs -/

/-- Every entry that is used was filled by a call that loaded. -/
def FromLog (r : PolicyRun) : Prop :=
  ∀ i : Fin 128, (r.cache.get i).used = true → ∃ b ∈ r.log, b.fresh = true ∧
    (r.cache.get i).unit = b.call.unit.bytes ∧ (r.cache.get i).loadedSec = b.call.now ∧
    (r.cache.get i).pol = b.call.loaded

theorem log_step (r : PolicyRun) (c : PolicyCall) : (r.step c).log =
    r.log ++ [⟨c, (unitPolicyGet r.cache c.unit.bytes c.now c.ttl c.loader).2, (servedBy r.cache c).isNone⟩] := rfl

theorem log_policyRun (calls : List PolicyCall) : (policyRun calls).log.map Answered.call = calls := by
  induction calls using List.reverseRecOn with
  | nil => rfl
  | append_singleton calls c ih =>
    rw [policyRun, foldl_append, foldl_cons, foldl_nil, log_step, map_append]
    exact congrArg (· ++ [c]) ih

section Step

variable {r : PolicyRun} {c : PolicyCall}

/-- The name of the unit is kept whole. -/
theorem fromLog_step (h : FromLog r) (hshort : c.unit.bytes.length < 128) : FromLog (r.step c) := by
  intro i hused
  rcases get_cases r.cache c with ⟨j, -, -, -, -, hget⟩ | ⟨j, hserved, hget⟩
  · have hcache : (r.step c).cache = r.cache := congrArg Prod.fst hget
    rw [hcache] at hused ⊢
    obtain ⟨b, hb, hfacts⟩ := h i hused
    exact ⟨b, mem_append_left _ hb, hfacts⟩
  · have hcache : (r.step c).cache = r.cache.set j ⟨c.unit.bytes.take 127, c.now, c.loaded, true⟩ :=
      congrArg Prod.fst hget
    rw [hcache] at hused ⊢
    rw [get_set_slot] at hused ⊢
    split at hused
    · next hij =>
      rw [if_pos hij]
      refine ⟨⟨c, c.loaded, true⟩, ?_, rfl, take_of_length_le (by omega), rfl, rfl⟩
      rw [log_step, hserved, hget]
      exact mem_append_right _ (mem_singleton_self _)
    · next hij =>
      rw [if_neg hij]
      obtain ⟨b, hb, hfacts⟩ := h i hused
      exact ⟨b, mem_append_left _ hb, hfacts⟩

/-- One more call is answered as it should be. -/
theorem transparent_step (h : FromLog r) (ht : Transparent r.log) (hnow : ∀ b ∈ r.log, b.call.now ≤ c.now) :
    Transparent (r.step c).log := by
  rw [log_step]
  intro a ha
  rcases mem_append.mp ha with ha | ha
  · obtain ⟨b, hb, hfacts⟩ := ht a ha
    exact ⟨b, mem_append_left _ hb, hfacts⟩
  · rw [mem_singleton] at ha
    rcases get_cases r.cache c with ⟨i, -, hused, hunit, hage, hget⟩ | ⟨i, hserved, hget⟩
    · obtain ⟨b, hb, hfresh, hname, htime, hpol⟩ := h i hused
      have hle := hnow b hb
      rw [htime] at hage
      have hnat := UInt64.lt_iff_toNat_lt.mp hage
      rw [UInt64.toNat_sub_of_le _ _ hle] at hnat
      refine ⟨b, mem_append_left _ hb, hfresh, ?_, ?_, ?_, ?_⟩
      · rw [ha]
        exact hname.symm.trans hunit
      · rw [ha, hget]
        exact hpol
      · rw [ha]
        exact hle
      · rw [ha]
        exact .inl hnat
    · have ha' : a = ⟨c, c.loaded, true⟩ := by rw [ha, hget, hserved]; rfl
      refine ⟨a, mem_append_right _ (by rw [ha]; exact mem_singleton_self _), ?_, rfl, ?_,
        UInt64.le_refl _, .inr rfl⟩
      · rw [ha']
      · rw [ha']

end Step

/-- In a run with times that do not go back and names that fit an entry, every answer is what the loader
returned for that unit not longer ago than the caller allows. -/
theorem cache_transparent {calls : List PolicyCall} (hsorted : calls.Pairwise (·.now ≤ ·.now))
    (hshort : ∀ c ∈ calls, c.unit.bytes.length < 128) : Transparent (policyRun calls).log := by
  suffices h : FromLog (policyRun calls) ∧ Transparent (policyRun calls).log from h.2
  induction calls using List.reverseRecOn with
  | nil =>
    refine ⟨fun i hused => ?_, forall_mem_nil _⟩
    have hzero : (policyRun []).cache.get i = .zero := Vector.getElem_replicate i.isLt
    rw [hzero] at hused
    cases hused
  | append_singleton calls c ih =>
    rw [pairwise_append] at hsorted
    obtain ⟨hold, hc⟩ := forall_mem_append.mp hshort
    obtain ⟨hfrom, htrans⟩ := ih hsorted.1 hold
    have hstep : policyRun (calls ++ [c]) = (policyRun calls).step c := foldl_concat ..
    have hnow : ∀ b ∈ (policyRun calls).log, b.call.now ≤ c.now := by
      intro b hb
      have hmem : b.call ∈ calls := by
        rw [← log_policyRun calls]
        exact mem_map_of_mem hb
      exact hsorted.2.2 b.call hmem c (mem_singleton_self c)
    rw [hstep]
    exact ⟨fromLog_step hfrom (hc c (mem_singleton_self c)), transparent_step hfrom htrans hnow⟩

def twoUnits : Loader := fun unit =>
  if unit.length < 128 then some (asc "ProtectSystem=strict\n") else some (asc "ProtectSystem=full\n")

def unitName (n : Nat) : CString := ⟨List.replicate n 97, fun h => absurd (eq_of_mem_replicate h) (by decide)⟩

theorem two_calls_transparent : Transparent (policyRun
    [⟨unitName 5, 10, 300, twoUnits⟩, ⟨unitName 5, 20, 300, fun _ => none⟩]).log :=
  cache_transparent (by decide) (by decide)

/-- The name of 130 bytes is cut to one of 127, and the unit with that name gets the policy of the other. -/
theorem cut_name_answers_other : ¬ Transparent (policyRun
    [⟨unitName 130, 10, 300, twoUnits⟩, ⟨unitName 127, 20, 300, twoUnits⟩]).log := by
  intro h
  have hother : ∃ a ∈ (policyRun [⟨unitName 130, 10, 300, twoUnits⟩, ⟨unitName 127, 20, 300, twoUnits⟩]).log,
      a.call.unit.bytes.length = 127 ∧ a.answer.protectSystem = .full := by decide +kernel
  have hown : ∀ b ∈ (policyRun [⟨unitName 130, 10, 300, twoUnits⟩, ⟨unitName 127, 20, 300, twoUnits⟩]).log,
      b.call.unit.bytes.length = 127 → b.call.loaded.protectSystem = .strict := by decide +kernel
  obtain ⟨a, ha, hlen, hfull⟩ := hother
  obtain ⟨b, hb, -, hunit, hanswer, -⟩ := h a ha
  have hstrict := hown b hb (by rw [hunit]; exact hlen)
  rw [← hanswer, hfull] at hstrict
  cases hstrict

end Packetsonde.Detect
