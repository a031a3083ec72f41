import Packetsonde.Lib.Chars
import Packetsonde.Lib.Slots
import Packetsonde.Lib.Sweep

/-!
# Packetsonde — the host table (`host_table.c`)

Everything the agent observes about a host goes through `ps_host_table_update`. The entry is looked up by
MAC address, then by IP address; what the observation knows and the entry does not is filled in.

The entry that the IP address finds may belong to another MAC address, and the entry that the MAC address
finds is given an IP address that another entry still lists. So an entry's own MAC and IP addresses
identify it only in runs whose observations agree with the table (`Consistent`), and in all of those
(`identity_kept_iff`). `Updated` lists what one update can do; everything else is read off it.
-/

namespace Packetsonde.Hosts

open Packetsonde.Lib
open List hiding Vector Disjoint

/-! ## The table -/

/-- `PS_MAX_HOSTS`, `PS_MAX_HOST_IPS` and `PS_MAX_HOST_SRCS`. -/
def maxHosts : Nat := 4096
def maxHostIps : Nat := 8
def maxHostSrcs : Nat := 16

abbrev Mac := Vector UInt8 6

/-- Adds a text that is not there yet, if there is room (the loop over `ips` and that over `sources`).
It is cut to `width` bytes. -/
def addNew (max width : Nat) (items : List Bytes) (s : Bytes) : List Bytes :=
  if s = [] then items
  else if s ∈ items then items
  else if items.length < max then items ++ [s.take width]
  else items

section AddNew

variable {max width : Nat} {items : List Bytes} {s : Bytes}

/-- Adding either changes nothing or puts the text at the end. -/
theorem addNew_cases (max width : Nat) (items : List Bytes) (s : Bytes) :
    addNew max width items s = items ∧ (s = [] ∨ s ∈ items ∨ max ≤ items.length) ∨
      addNew max width items s = items ++ [s.take width] ∧
        s ≠ [] ∧ s ∉ items ∧ items.length < max := by
  unfold addNew
  by_cases hnil : s = []
  · exact .inl ⟨if_pos hnil, .inl hnil⟩
  · rw [if_neg hnil]
    by_cases hmem : s ∈ items
    · exact .inl ⟨if_pos hmem, .inr (.inl hmem)⟩
    · rw [if_neg hmem]
      by_cases hroom : items.length < max
      · exact .inr ⟨if_pos hroom, hnil, hmem, hroom⟩
      · exact .inl ⟨if_neg hroom, .inr (.inr (Nat.le_of_not_lt hroom))⟩

theorem length_addNew_le (h : items.length ≤ max) : (addNew max width items s).length ≤ max := by
  rcases addNew_cases max width items s with
    ⟨heq, -⟩ | ⟨heq, -, -, hroom⟩
  · rw [heq]
    exact h
  · rw [heq, length_append]
    exact hroom

theorem ne_nil_of_mem_addNew [NeZero width] (h : ∀ a ∈ items, a ≠ []) :
    ∀ a ∈ addNew max width items s, a ≠ [] := by
  intro a ha
  rcases addNew_cases max width items s with
    ⟨heq, -⟩ | ⟨heq, hnil, -, -⟩
  · exact h a (heq ▸ ha)
  · rw [heq, mem_append, mem_singleton] at ha
    rcases ha with ha | rfl
    · exact h a ha
    · simp [hnil, NeZero.ne width]

end AddNew

/-- A fixed number of texts of an entry, none of them empty. -/
structure Roster (max width : Nat) where
  items : List Bytes
  length_le : items.length ≤ max
  ne_nil : ∀ a ∈ items, a ≠ []
  deriving DecidableEq

namespace Roster

variable {max width : Nat}

def empty : Roster max width := ⟨[], Nat.zero_le _, fun _ h => nomatch h⟩

def add [NeZero width] (r : Roster max width) (s : Bytes) : Roster max width :=
  ⟨addNew max width r.items s, length_addNew_le r.length_le, ne_nil_of_mem_addNew r.ne_nil⟩

end Roster

/-- `struct ps_host_entry`; `mac` is there if `has_mac` is set. -/
structure Entry where
  valid : Bool
  mac : Option Mac
  ips : Roster maxHostIps 45
  hostname : Bytes
  deviceType : Bytes
  sources : Roster maxHostSrcs 31
  firstSeenUsec : UInt64
  lastSeenUsec : UInt64
  eventCount : Int32
  deriving DecidableEq

/-- An entry after `memset`. -/
def Entry.zero : Entry := ⟨false, none, .empty, [], [], .empty, 0, 0, 0⟩

/-- The arguments of an update; `none` is `NULL`. -/
structure Observation where
  ip : Option CString
  mac : Option Mac
  hostname : Option CString
  deviceType : Option CString
  source : Option CString
  nowUsec : UInt64
  deriving DecidableEq

/-- An argument's text. `NULL` and the empty string are treated alike. -/
def given : Option CString → Bytes
  | none => []
  | some s => s.bytes

def fillText (width : Nat) (old new : Bytes) : Bytes :=
  if old = [] then new.take width else old

def Entry.observe (e : Entry) (u : Observation) : Entry where
  valid := e.valid
  mac := e.mac.or u.mac
  ips := e.ips.add (given u.ip)
  hostname := fillText 255 e.hostname (given u.hostname)
  deviceType := fillText 31 e.deviceType (given u.deviceType)
  sources := e.sources.add (given u.source)
  firstSeenUsec := e.firstSeenUsec
  lastSeenUsec := u.nowUsec
  eventCount := e.eventCount + 1

def Entry.fresh (now : UInt64) : Entry := { Entry.zero with valid := true, firstSeenUsec := now }

def Entry.macs (e : Entry) : Set Mac := {m | e.valid = true ∧ e.mac = some m}

def Entry.addrs (e : Entry) : Set Bytes := {a | e.valid = true ∧ a ∈ e.ips.items}

/-- `struct ps_host_table`. -/
structure HostTable where
  entries : Vector Entry maxHosts
  count : Nat

namespace HostTable

/-- `ps_host_table_init`. -/
def init : HostTable := ⟨Vector.replicate maxHosts Entry.zero, 0⟩

def entry (t : HostTable) (i : Fin maxHosts) : Entry := t.entries.get i

/-- `ps_host_table_find_by_mac`. -/
def findByMac (t : HostTable) (mac : Mac) : Option (Fin maxHosts) :=
  (List.finRange maxHosts).find? fun i => (t.entry i).valid && (t.entry i).mac = some mac

/-- `ps_host_table_find_by_ip`. -/
def findByIp (t : HostTable) (ip : Bytes) : Option (Fin maxHosts) :=
  if ip = [] then none
  else (List.finRange maxHosts).find? fun i => (t.entry i).valid && ip ∈ (t.entry i).ips.items

/-- By MAC address first, then by IP address. -/
def lookup (t : HostTable) (u : Observation) : Option (Fin maxHosts) :=
  match u.mac.bind t.findByMac with
  | some i => some i
  | none => t.findByIp (given u.ip)

def firstFree (t : HostTable) : Option (Fin maxHosts) :=
  (List.finRange maxHosts).find? fun i => !(t.entry i).valid

def put (t : HostTable) (i : Fin maxHosts) (e : Entry) : HostTable :=
  { t with entries := t.entries.set i e i.isLt }

def occupy (t : HostTable) (i : Fin maxHosts) (e : Entry) : HostTable :=
  { t.put i e with count := t.count + 1 }

/-- `ps_host_table_update`: the table, and the entry that is returned. -/
def update (t : HostTable) (u : Observation) : HostTable × Option (Fin maxHosts) :=
  match t.lookup u with
  | some i => (t.put i ((t.entry i).observe u), some i)
  | none =>
    if maxHosts ≤ t.count then (t, none)
    else
      match t.firstFree with
      | some i => (t.occupy i ((Entry.fresh u.nowUsec).observe u), some i)
      | none => (t, none)

def run (us : List Observation) : HostTable := us.foldl (fun t u => (t.update u).1) init

/-! ## Lookups and slots -/

variable {t : HostTable} {u : Observation} {i j : Fin maxHosts} {e : Entry} {mac : Mac} {ip : Bytes}

@[simp] theorem entry_init (i : Fin maxHosts) : init.entry i = Entry.zero := get_replicate_slot _ i

@[simp] theorem entry_put : (t.put i e).entry j = if i = j then e else t.entry j :=
  get_set_slot t.entries i j e

@[simp] theorem entry_occupy : (t.occupy i e).entry j = if i = j then e else t.entry j :=
  get_set_slot t.entries i j e

/-- A property of the entries, after one was replaced. -/
theorem comp_put {β : Type} (f : Entry → β) :
    (fun j => f ((t.put i e).entry j)) = Function.update (fun j => f (t.entry j)) i (f e) :=
  get_set_update t.entries i e f

def macs (t : HostTable) (i : Fin maxHosts) : Set Mac := (t.entry i).macs

def addrs (t : HostTable) (i : Fin maxHosts) : Set Bytes := (t.entry i).addrs

theorem mem_macs_of_findByMac (h : t.findByMac mac = some i) : mac ∈ t.macs i := by
  have hp := find?_some h
  rw [Bool.and_eq_true, decide_eq_true_eq] at hp
  exact hp

theorem not_mem_macs_of_findByMac (h : t.findByMac mac = none) (i : Fin maxHosts) :
    mac ∉ t.macs i := by
  rintro ⟨hvalid, hmac⟩
  have hp := find?_eq_none.mp h i (mem_finRange i)
  rw [hvalid, hmac] at hp
  exact hp (by simp)

theorem mem_addrs_of_findByIp (h : t.findByIp ip = some i) : ip ∈ t.addrs i := by
  unfold findByIp at h
  by_cases hnil : ip = []
  · rw [if_pos hnil] at h
    cases h
  · rw [if_neg hnil] at h
    have hp := find?_some h
    rw [Bool.and_eq_true, decide_eq_true_eq] at hp
    exact hp

theorem not_mem_addrs_of_findByIp (h : t.findByIp ip = none) (i : Fin maxHosts) :
    ip ∉ t.addrs i := by
  rintro ⟨hvalid, hmem⟩
  unfold findByIp at h
  rw [if_neg ((t.entry i).ips.ne_nil ip hmem)] at h
  have hp := find?_eq_none.mp h i (mem_finRange i)
  rw [hvalid, decide_eq_true hmem] at hp
  exact hp rfl

/-- What a lookup returns, and why. -/
theorem lookup_cases (t : HostTable) (u : Observation) :
    (∃ m i, u.mac = some m ∧ t.findByMac m = some i ∧ t.lookup u = some i) ∨
      (∀ m, u.mac = some m → t.findByMac m = none) ∧ t.lookup u = t.findByIp (given u.ip) := by
  unfold lookup
  cases hu : u.mac with
  | none => exact .inr ⟨fun m hm => (nomatch hm), rfl⟩
  | some m =>
    rw [Option.bind_some]
    cases hm : t.findByMac m with
    | some i => exact .inl ⟨m, i, rfl, hm, rfl⟩
    | none =>
      refine .inr ⟨fun m' hm' => ?_, rfl⟩
      rw [← Option.some.inj hm']
      exact hm

/-! ## What an update does -/

/-- The ways an update ends, with the table and the entry it returns. -/
inductive Updated (t : HostTable) (u : Observation) : HostTable → Option (Fin maxHosts) → Prop where
  | byMac (m : Mac) (i : Fin maxHosts) (hmac : u.mac = some m) (hit : t.findByMac m = some i) :
      Updated t u (t.put i ((t.entry i).observe u)) (some i)
  | byIp (i : Fin maxHosts) (hmac : ∀ m, u.mac = some m → t.findByMac m = none)
      (hit : t.findByIp (given u.ip) = some i) :
      Updated t u (t.put i ((t.entry i).observe u)) (some i)
  | fresh (i : Fin maxHosts) (hmac : ∀ m, u.mac = some m → t.findByMac m = none)
      (hip : t.findByIp (given u.ip) = none) (hfree : (t.entry i).valid = false) :
      Updated t u (t.occupy i ((Entry.fresh u.nowUsec).observe u)) (some i)
  | full (hmac : ∀ m, u.mac = some m → t.findByMac m = none)
      (hip : t.findByIp (given u.ip) = none)
      (hfull : maxHosts ≤ t.count ∨ ∀ i, (t.entry i).valid = true) : Updated t u t none

theorem updated (t : HostTable) (u : Observation) : Updated t u (t.update u).1 (t.update u).2 := by
  unfold update
  rcases lookup_cases t u with ⟨m, i, hmac, hit, hl⟩ | ⟨hmac, hl⟩
  · rw [hl]
    exact .byMac m i hmac hit
  · rw [hl]
    cases hip : t.findByIp (given u.ip) with
    | some i => exact .byIp i hmac hip
    | none =>
      by_cases hcount : maxHosts ≤ t.count
      · simp only [if_pos hcount]
        exact .full hmac hip (.inl hcount)
      · simp only [if_neg hcount]
        cases hfree : t.firstFree with
        | some i =>
          have hi := find?_some hfree
          exact .fresh i hmac hip (by simpa using hi)
        | none =>
          refine .full hmac hip (.inr fun i => ?_)
          have hi := find?_eq_none.mp hfree i (mem_finRange i)
          simpa using hi

/-! ## What the table is for -/

/-- An entry is identified by its MAC address and by each of its IP addresses, and `count` counts the
entries in use. -/
structure Sound (t : HostTable) : Prop where
  macs : Pairwise (Function.onFun Disjoint t.macs)
  addrs : Pairwise (Function.onFun Disjoint t.addrs)
  count : t.count = countAll fun i => (t.entry i).valid

/-- An update with a MAC address is dropped by a full table or returns an entry with this address. -/
def Answered (t : HostTable) (u : Observation) : Prop :=
  ∀ m, u.mac = some m →
    t.update u = (t, none) ∧ (∀ i, (t.entry i).valid = true) ∨
      ∃ i, (t.update u).2 = some i ∧ ((t.update u).1.entry i).mac = some m

/-- The observation agrees with the table: no other entry than that of its MAC address lists its IP
address (or that entry has no room for it), and if the MAC address is new, the entry of the IP address
has none. -/
structure Consistent (t : HostTable) (u : Observation) : Prop where
  known : ∀ m i j, u.mac = some m → t.findByMac m = some i → given u.ip ∈ t.addrs j →
    j = i ∨ (t.entry i).ips.items.length = maxHostIps
  unknown : ∀ m i, u.mac = some m → t.findByMac m = none → t.findByIp (given u.ip) = some i →
    (t.entry i).mac = none

/-! ## One update -/

/-- The MAC addresses stay apart if the entry is not given that of another. -/
theorem pairwise_macs_put (h : Pairwise (Function.onFun Disjoint t.macs)) (he : e.macs ⊆ t.macs i)
    (hnew : ∀ m, u.mac = some m → e.mac = none → ∀ j, m ∉ t.macs j) :
    Pairwise (Function.onFun Disjoint (t.put i (e.observe u)).macs) := by
  have hcomp : (t.put i (e.observe u)).macs = Function.update t.macs i (e.observe u).macs :=
    comp_put Entry.macs
  rw [hcomp, pairwise_disjoint_update_iff h]
  intro j hj
  rw [Set.disjoint_left]
  rintro m ⟨hvalid, hm⟩ hmj
  -- the address is the one the entry had, or the observation's
  rcases Option.or_eq_some_iff.mp hm with hold | ⟨hnone, hu⟩
  · exact Set.disjoint_left.mp (h hj.symm) (he ⟨hvalid, hold⟩) hmj
  · exact hnew m hu hnone j hmj

theorem mem_addrs_observe (hshort : (given u.ip).length < 46) {a : Bytes} :
    a ∈ (e.observe u).addrs ↔
      a ∈ e.addrs ∨ e.valid = true ∧ a = given u.ip ∧ given u.ip ≠ [] ∧
        given u.ip ∉ e.ips.items ∧ e.ips.items.length < maxHostIps := by
  show e.valid = true ∧ a ∈ addNew maxHostIps 45 e.ips.items (given u.ip) ↔
    e.valid = true ∧ a ∈ e.ips.items ∨ _
  rcases addNew_cases maxHostIps 45 e.ips.items (given u.ip) with
    ⟨heq, hkeep⟩ | ⟨heq, hnil, hmem, hroom⟩
  · rw [heq]
    refine ⟨.inl, fun h => h.resolve_right ?_⟩
    rintro ⟨-, -, hnil, hmem, hroom⟩
    rcases hkeep with hkeep | hkeep | hkeep
    · exact hnil hkeep
    · exact hmem hkeep
    · exact Nat.not_lt_of_le hkeep hroom
  · rw [heq, take_of_length_le (Nat.le_of_lt_succ hshort), mem_append, mem_singleton]
    tauto

/-- The IP addresses stay apart exactly if no other entry lists the one that is added. -/
theorem pairwise_addrs_put_iff (h : Pairwise (Function.onFun Disjoint t.addrs))
    (he : e.addrs ⊆ t.addrs i) (hvalid : e.valid = true) (hshort : (given u.ip).length < 46) :
    Pairwise (Function.onFun Disjoint (t.put i (e.observe u)).addrs) ↔
      ∀ j, j ≠ i → given u.ip ∈ t.addrs j →
        given u.ip ∈ e.ips.items ∨ e.ips.items.length = maxHostIps := by
  have hcomp : (t.put i (e.observe u)).addrs = Function.update t.addrs i (e.observe u).addrs :=
    comp_put Entry.addrs
  rw [hcomp, pairwise_disjoint_update_iff h]
  constructor
  · intro hd j hj hmem
    by_contra hno
    obtain ⟨hnot, hlen⟩ := not_or.mp hno
    have hroom : e.ips.items.length < maxHostIps := Nat.lt_of_le_of_ne e.ips.length_le hlen
    have hnil : given u.ip ≠ [] := (t.entry j).ips.ne_nil _ hmem.2
    exact Set.disjoint_left.mp (hd j hj)
      ((mem_addrs_observe hshort).mpr (.inr ⟨hvalid, rfl, hnil, hnot, hroom⟩)) hmem
  · intro hadd j hj
    rw [Set.disjoint_left]
    intro a ha haj
    rcases (mem_addrs_observe hshort).mp ha with ha | ⟨-, rfl, -, hnot, hroom⟩
    · exact Set.disjoint_left.mp (h hj.symm) (he ha) haj
    · rcases hadd j hj haj with hmem | hlen
      · exact hnot hmem
      · exact absurd hlen (Nat.ne_of_lt hroom)

theorem not_mem_macs_init {m : Mac} : m ∉ init.macs i := by
  rintro ⟨hvalid, -⟩
  rw [entry_init] at hvalid
  cases hvalid

theorem not_mem_addrs_init {a : Bytes} : a ∉ init.addrs i := by
  rintro ⟨hvalid, -⟩
  rw [entry_init] at hvalid
  cases hvalid

theorem Sound.init : init.Sound where
  macs := fun _ _ _ => Set.disjoint_left.mpr fun _ h => absurd h not_mem_macs_init
  addrs := fun _ _ _ => Set.disjoint_left.mpr fun _ h => absurd h not_mem_addrs_init
  count := by
    show 0 = (List.finRange maxHosts).countP _
    rw [eq_comm, countP_eq_zero]
    intro i _
    rw [entry_init]
    exact Bool.false_ne_true

section

variable (h : t.count = countAll fun i => (t.entry i).valid)

include h

/-- The count of a table that stays in step. -/
theorem count_put
    (hvalid : e.valid = (t.entry i).valid) :
    (t.put i e).count = countAll fun j => ((t.put i e).entry j).valid := by
  rw [comp_put Entry.valid, hvalid, Function.update_eq_self]
  exact h

theorem count_occupy
    (hfree : (t.entry i).valid = false) (hvalid : e.valid = true) :
    (t.occupy i e).count = countAll fun j => ((t.occupy i e).entry j).valid := by
  show t.count + 1 = countAll fun j => ((t.put i e).entry j).valid
  rw [comp_put Entry.valid, hvalid, countAll_update hfree, h]

/-- A table is full when its count says so. -/
theorem valid_of_full (hfull : maxHosts ≤ t.count)
    (i : Fin maxHosts) : (t.entry i).valid = true := by
  have hle : countAll (fun i => (t.entry i).valid) ≤ (List.finRange maxHosts).length :=
    countP_le_length
  have hlen : countAll (fun i => (t.entry i).valid) = (List.finRange maxHosts).length := by
    rw [length_finRange] at hle ⊢
    omega
  exact countP_eq_length.mp hlen i (mem_finRange i)

end

theorem fresh_macs (now : UInt64) : (Entry.fresh now).macs ⊆ t.macs i :=
  fun _ hm => nomatch hm.2

theorem fresh_addrs (now : UInt64) : (Entry.fresh now).addrs ⊆ t.addrs i :=
  fun _ ha => nomatch ha.2

/-- No update gives two entries the same MAC address. -/
theorem pairwise_macs_update (h : Pairwise (Function.onFun Disjoint t.macs)) (u : Observation) :
    Pairwise (Function.onFun Disjoint (t.update u).1.macs) := by
  have hu := updated t u
  generalize (t.update u).1 = t' at hu ⊢
  generalize (t.update u).2 = o at hu
  cases hu with
  | byMac m i hmac hit =>
    refine pairwise_macs_put h (fun _ hm => hm) fun m' _ hnone => ?_
    have hown : (t.entry i).mac = some m := (mem_macs_of_findByMac hit).2
    rw [hown] at hnone
    cases hnone
  | byIp i hmac hit =>
    exact pairwise_macs_put h (fun _ hm => hm) fun m hm _ => not_mem_macs_of_findByMac (hmac m hm)
  | fresh i hmac hip hfree =>
    exact pairwise_macs_put h (fresh_macs _) fun m hm _ => not_mem_macs_of_findByMac (hmac m hm)
  | full hmac hip hfull => exact h

theorem count_update (h : t.count = countAll fun i => (t.entry i).valid) (u : Observation) :
    (t.update u).1.count = countAll fun i => ((t.update u).1.entry i).valid := by
  have hu := updated t u
  generalize (t.update u).1 = t' at hu ⊢
  generalize (t.update u).2 = o at hu
  cases hu with
  | byMac m i hmac hit => exact count_put h rfl
  | byIp i hmac hit => exact count_put h rfl
  | fresh i hmac hip hfree => exact count_occupy h hfree rfl
  | full hmac hip hfull => exact h

/-- The IP addresses stay apart exactly if the entry of the MAC address is given none of another's. -/
theorem pairwise_addrs_update_iff (h : t.Sound) (hshort : (given u.ip).length < 46) :
    Pairwise (Function.onFun Disjoint (t.update u).1.addrs) ↔
      ∀ m i j, u.mac = some m → t.findByMac m = some i → given u.ip ∈ t.addrs j →
        j = i ∨ (t.entry i).ips.items.length = maxHostIps := by
  have hu := updated t u
  generalize (t.update u).1 = t' at hu ⊢
  generalize (t.update u).2 = o at hu
  cases hu with
  | byMac m i hmac hit =>
    have hvalid := (mem_macs_of_findByMac hit).1
    rw [pairwise_addrs_put_iff h.addrs (fun _ ha => ha) hvalid hshort]
    constructor
    · intro hadd m' i' j hm' hi' hmem
      obtain rfl : m = m' := Option.some.inj (hmac.symm.trans hm')
      obtain rfl : i = i' := Option.some.inj (hit.symm.trans hi')
      by_cases hj : j = i
      · exact .inl hj
      · -- an address that both list was in two entries before
        refine .inr ((hadd j hj hmem).resolve_left fun hown => ?_)
        exact Set.disjoint_left.mp (h.addrs hj) hmem ⟨hvalid, hown⟩
    · intro hknown j hj hmem
      exact .inr ((hknown m i j hmac hit hmem).resolve_left hj)
  | byIp i hmac hit =>
    have hmem := mem_addrs_of_findByIp hit
    rw [pairwise_addrs_put_iff h.addrs (fun _ ha => ha) hmem.1 hshort]
    refine iff_of_true (fun _ _ _ => .inl hmem.2) fun m i' j hm hi' => ?_
    rw [hmac m hm] at hi'
    cases hi'
  | fresh i hmac hip hfree =>
    show Pairwise (Function.onFun Disjoint (t.put i ((Entry.fresh u.nowUsec).observe u)).addrs) ↔ _
    rw [pairwise_addrs_put_iff h.addrs (fresh_addrs _) rfl hshort]
    have hnone := not_mem_addrs_of_findByIp hip
    exact iff_of_true (fun j _ hj => absurd hj (hnone j)) fun _ _ j _ _ hj => absurd hj (hnone j)
  | full hmac hip hfull =>
    have hnone := not_mem_addrs_of_findByIp hip
    exact iff_of_true h.addrs fun _ _ j _ _ hj => absurd hj (hnone j)

/-- The entry that is returned has the observation's MAC address, unless the IP address led to an entry
that already has another. -/
theorem answered_iff (h : t.Sound) :
    t.Answered u ↔
      ∀ m i, u.mac = some m → t.findByMac m = none → t.findByIp (given u.ip) = some i →
        (t.entry i).mac = none := by
  have hu := updated t u
  unfold Answered
  generalize t.update u = r at hu ⊢
  obtain ⟨t', o⟩ := r
  change Updated t u t' o at hu
  show (∀ m, u.mac = some m → (t', o) = (t, none) ∧ (∀ i, (t.entry i).valid = true) ∨
    ∃ i, o = some i ∧ (t'.entry i).mac = some m) ↔ _
  cases hu with
  | byMac m i hmac hit =>
    refine iff_of_true (fun m' hm' => .inr ⟨i, rfl, ?_⟩) fun m' _ hm' hnone => ?_
    · obtain rfl : m = m' := Option.some.inj (hmac.symm.trans hm')
      have hown : (t.entry i).mac = some m := (mem_macs_of_findByMac hit).2
      rw [entry_put, if_pos rfl]
      exact Option.or_eq_some_iff.mpr (.inl hown)
    · obtain rfl : m = m' := Option.some.inj (hmac.symm.trans hm')
      rw [hit] at hnone
      cases hnone
  | byIp i hmac hit =>
    constructor
    · intro hans m i' hm hnone hi'
      obtain rfl : i = i' := Option.some.inj (hit.symm.trans hi')
      obtain ⟨i', hi', hown⟩ := (hans m hm).resolve_left fun hd => nomatch (Prod.mk.inj hd.1).2
      obtain rfl : i = i' := Option.some.inj hi'
      rw [entry_put, if_pos rfl] at hown
      rcases Option.or_eq_some_iff.mp hown with hold | ⟨hnew, -⟩
      · -- then the entry would have been found by its MAC address
        exact absurd ⟨(mem_addrs_of_findByIp hit).1, hold⟩ (not_mem_macs_of_findByMac hnone i)
      · exact hnew
    · intro hunknown m hm
      refine .inr ⟨i, rfl, ?_⟩
      rw [entry_put, if_pos rfl]
      exact Option.or_eq_some_iff.mpr (.inr ⟨hunknown m i hm (hmac m hm) hit, hm⟩)
  | fresh i hmac hip hfree =>
    refine iff_of_true (fun m hm => .inr ⟨i, rfl, ?_⟩) fun m i' _ _ hi' => ?_
    · rw [entry_occupy, if_pos rfl]
      exact hm
    · rw [hip] at hi'
      cases hi'
  | full hmac hip hfull =>
    refine iff_of_true (fun m hm => .inl ⟨rfl, ?_⟩) fun m i' _ _ hi' => ?_
    · rcases hfull with hfull | hfull
      · exact valid_of_full h.count hfull
      · exact hfull
    · rw [hip] at hi'
      cases hi'

/-- One update keeps the entries apart and answers with the right one exactly if the observation agrees
with the table. -/
theorem sound_update_iff (h : t.Sound) (hshort : (given u.ip).length < 46) :
    (t.update u).1.Sound ∧ t.Answered u ↔ t.Consistent u := by
  constructor
  · rintro ⟨hs, ha⟩
    exact ⟨(pairwise_addrs_update_iff h hshort).mp hs.addrs, (answered_iff h).mp ha⟩
  · intro hc
    refine ⟨⟨pairwise_macs_update h.macs u, ?_, count_update h.count u⟩, (answered_iff h).mpr hc.unknown⟩
    exact (pairwise_addrs_update_iff h hshort).mpr hc.known

/-! ## Runs -/

theorem run_concat (us : List Observation) (u : Observation) :
    run (us ++ [u]) = ((run us).update u).1 := by
  unfold run
  rw [foldl_append]
  rfl

/-- Whatever comes first agrees with the empty table. -/
theorem consistent_init (u : Observation) : init.Consistent u where
  known := fun _ _ _ _ hit _ => absurd (mem_macs_of_findByMac hit) not_mem_macs_init
  unknown := fun _ _ _ _ hit => absurd (mem_addrs_of_findByIp hit) not_mem_addrs_init

/-- The first observation has an entry of its own, and there is no other. -/
theorem entry_run_singleton (u : Observation) :
    (∃ i, (run [u]).entry i = (Entry.fresh u.nowUsec).observe u) ∧
      ∀ j, (run [u]).entry j = (Entry.fresh u.nowUsec).observe u ∨ (run [u]).entry j = Entry.zero := by
  show (∃ i, (init.update u).1.entry i = _) ∧
    ∀ j, (init.update u).1.entry j = _ ∨ (init.update u).1.entry j = _
  have hu := updated init u
  generalize (init.update u).1 = t' at hu ⊢
  generalize (init.update u).2 = o at hu
  cases hu with
  | byMac m i hmac hit => exact absurd (mem_macs_of_findByMac hit) not_mem_macs_init
  | byIp i hmac hit => exact absurd (mem_addrs_of_findByIp hit) not_mem_addrs_init
  | fresh i hmac hip hfree =>
    refine ⟨⟨i, by rw [entry_occupy, if_pos rfl]⟩, fun j => ?_⟩
    rw [entry_occupy, entry_init]
    by_cases hj : i = j
    · exact .inl (if_pos hj)
    · exact .inr (if_neg hj)
  | full hmac hip hfull =>
    rcases hfull with hfull | hfull
    · exact absurd hfull (by decide)
    · have h0 := hfull ⟨0, by decide⟩
      rw [entry_init] at h0
      cases h0

/-- The run keeps every entry identified and answers every update with a MAC address by its own entry,
exactly if each observation agrees with the table it meets. -/
theorem identity_kept_iff (us : List Observation) (hshort : ∀ u ∈ us, (given u.ip).length < 46) :
    (∀ pre, pre <+: us → (run pre).Sound) ∧ (∀ pre u, pre ++ [u] <+: us → (run pre).Answered u) ↔
      ∀ pre u, pre ++ [u] <+: us → (run pre).Consistent u := by
  have hmem {pre : List Observation} {u : Observation} (hpre : pre ++ [u] <+: us) : u ∈ us :=
    hpre.subset (mem_append_right _ (mem_singleton_self u))
  constructor
  · rintro ⟨hs, ha⟩ pre u hpre
    have hnext : ((run pre).update u).1.Sound := run_concat pre u ▸ hs _ hpre
    exact (sound_update_iff (hs pre ((prefix_append _ _).trans hpre)) (hshort u (hmem hpre))).mp
      ⟨hnext, ha pre u hpre⟩
  · intro hc
    have hs : ∀ pre, pre <+: us → (run pre).Sound := by
      intro pre
      induction pre using List.reverseRecOn with
      | nil => exact fun _ => Sound.init
      | append_singleton pre u ih =>
        intro hpre
        have hprev := ih ((prefix_append _ _).trans hpre)
        rw [run_concat]
        exact ((sound_update_iff hprev (hshort u (hmem hpre))).mpr (hc pre u hpre)).1
    refine ⟨hs, fun pre u hpre => ?_⟩
    have hprev := hs pre ((prefix_append _ _).trans hpre)
    exact ((sound_update_iff hprev (hshort u (hmem hpre))).mpr (hc pre u hpre)).2

/-- An observation of an IP address, with a MAC address or without. -/
def sighting (ip : CString) (mac : Option Mac) : Observation := ⟨some ip, mac, none, none, none, 0⟩

def gateway : CString := ⟨asc "10.0.0.1", by decide⟩
def macA : Mac := #v[2, 0, 0, 0, 0, 1]
def macB : Mac := #v[2, 0, 0, 0, 0, 2]

/-- A host that is seen without its MAC address first. -/
theorem learned_mac_kept :
    (∀ pre, pre <+: [sighting gateway none, sighting gateway (some macA)] → (run pre).Sound) ∧
      ∀ pre u, pre ++ [u] <+: [sighting gateway none, sighting gateway (some macA)] →
        (run pre).Answered u := by
  apply (identity_kept_iff _ (by decide)).mpr
  rintro pre u ⟨post, hpre⟩
  rcases pre with _ | ⟨a, _ | ⟨b, pre⟩⟩
  · exact consistent_init u
  · obtain rfl : a = sighting gateway none := (List.cons.inj hpre).1
    -- no entry has a MAC address yet
    have hnone (j : Fin maxHosts) : ((run [sighting gateway none]).entry j).mac = none := by
      rcases (entry_run_singleton (sighting gateway none)).2 j with hj | hj
      · rw [hj]
        rfl
      · rw [hj]
        rfl
    exact {
      known := fun m i _ _ hit _ => nomatch (hnone i).symm.trans (mem_macs_of_findByMac hit).2
      unknown := fun _ i _ _ _ => hnone i }
  · simp at hpre

/-- The IP address passes to another device. Its observations go to the old one's entry. -/
theorem reassigned_address :
    (∀ u ∈ [sighting gateway (some macA), sighting gateway (some macB)], (given u.ip).length < 46) ∧
      ¬ ((∀ pre, pre <+: [sighting gateway (some macA), sighting gateway (some macB)] →
          (run pre).Sound) ∧
        ∀ pre u, pre ++ [u] <+: [sighting gateway (some macA), sighting gateway (some macB)] →
          (run pre).Answered u) := by
  refine ⟨by decide, fun ⟨hs, ha⟩ => ?_⟩
  have hsound : (run [sighting gateway (some macA)]).Sound := hs _ ⟨[_], rfl⟩
  have hans : (run [sighting gateway (some macA)]).Answered (sighting gateway (some macB)) :=
    ha _ _ ⟨[], rfl⟩
  obtain ⟨⟨i, hi⟩, hall⟩ := entry_run_singleton (sighting gateway (some macA))
  have hmac : (run [sighting gateway (some macA)]).findByMac macB = none := by
    by_contra hne
    obtain ⟨k, hit⟩ := Option.ne_none_iff_exists'.mp hne
    have hk : ((run [sighting gateway (some macA)]).entry k).mac = some macB :=
      (mem_macs_of_findByMac hit).2
    rcases hall k with heq | heq
    · rw [heq] at hk
      exact absurd hk (by decide)
    · rw [heq] at hk
      cases hk
  cases hip : (run [sighting gateway (some macA)]).findByIp gateway.bytes with
  | none =>
    apply not_mem_addrs_of_findByIp hip i
    show gateway.bytes ∈ Entry.addrs (HostTable.entry _ i)
    rw [hi]
    exact ⟨rfl, by decide⟩
  | some k =>
    -- the entry of the IP address has the first MAC address
    have hnone := (answered_iff hsound).mp hans macB k rfl hmac hip
    have hvalid := (mem_addrs_of_findByIp hip).1
    rcases hall k with heq | heq
    · rw [heq] at hnone
      exact absurd hnone (by decide)
    · rw [heq] at hvalid
      cases hvalid

end HostTable

end Packetsonde.Hosts
