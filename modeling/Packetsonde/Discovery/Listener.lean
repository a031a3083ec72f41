import Packetsonde.Discovery.Replay

/-!
# Packetsonde — the discovery responder

`on_packet` of `src/agent/src/modules/discovery_listener.c`: the gates a captured frame passes
(Ethernet broadcast, IPv4, UDP, probe layout, authorization, signature, timestamp window,
replay table) and the reply it is answered with. The fields of `struct discovery_state` that
never change after `dlist_init` are the `DiscoveryConfig`; what a run of packets changes is the
replay table alone.

The timestamp window and the replay table are two clocks on one probe: the window stays open
while `|now - timestamp| ≤ skew`, the table remembers the pair while `now < accepted + 2 * skew`.
`answered_once_iff` says exactly when the two overlap: unless the probe was accepted at the very
first instant of its window (`timestamp = now + skew`), where the table lets go of the pair at
the last instant the window is still open, or the expiry wraps around 64 bits.
-/

namespace Packetsonde.Discovery

open Packetsonde.Lib
open List hiding Vector

def ethHdrLen : Nat := 14
def ethertypeIpv4 : UInt16 := 0x0800
def maxAuthorized : Nat := 64

structure DiscoveryConfig where
  enabled : Bool
  agentPub : Pubkey
  agentSec : Seckey
  authorized : List Pubkey
  maxSkewCapMs : UInt16
  listenPort : UInt16
  listenIpV4mapped : Vector UInt8 16
  authorized_le : authorized.length ≤ maxAuthorized

/-- A captured packet and what `ps_discovery_now_ms` returns while it is handled. -/
structure Arrival where
  pkt : Bytes
  nowMs : UInt64

structure Frame where
  payload : Bytes
  srcPort : UInt16
  srcV4 : Vector UInt8 4

/-- The arguments `on_packet` hands to `send_reply`. -/
structure ReplyCall where
  probe : Probe
  clientV4 : Vector UInt8 4
  clientPort : UInt16

/-! ## The gates of `on_packet` -/

/-- Ethernet broadcast, IPv4, UDP, long enough for a probe. -/
def receiveFrame (pkt : Bytes) : Option Frame :=
  if pkt.length < ethHdrLen + 20 + 8 + probeSize then none
  else if pkt.take 6 ≠ List.replicate 6 0xff then none
  else if getU16 pkt 12 ≠ ethertypeIpv4 then none
  else
    let ihl := (pkt.getD ethHdrLen 0 &&& 0x0f).toNat * 4
    if ihl < 20 then none
    else if pkt.getD (ethHdrLen + 9) 0 ≠ 17 then none
    else if ethHdrLen + ihl + 8 + probeSize > pkt.length then none
    else
      let udp := ethHdrLen + ihl
      if (getU16 pkt (udp + 4)).toNat < 8 + probeSize then none
      else some
        { payload := (pkt.drop (udp + 8)).take probeSize
          srcPort := getU16 pkt udp
          srcV4 := bytesAt pkt (ethHdrLen + 12) 4 }

/-- Layout, version, authorization, signature: the gates that look at the probe alone. -/
def acceptProbe (ed : Ed25519) (cfg : DiscoveryConfig) (payload : Bytes) : Option Probe :=
  match probeUnpack payload with
  | none => none
  | some p =>
    if p.version ≠ discoveryVersion then none
    else if ¬ cfg.authorized.contains p.pubkey then none
    else if ¬ probeVerify ed p then none
    else some p

/-- The client's window, capped, with a default for zero. -/
def effectiveSkew (cfg : DiscoveryConfig) (p : Probe) : UInt16 :=
  let skew := if cfg.maxSkewCapMs < p.maxSkewMs then cfg.maxSkewCapMs else p.maxSkewMs
  if skew = 0 then defaultSkewMs else skew

def timestampDelta (p : Probe) (now : UInt64) : UInt64 :=
  if p.timestampMs < now then now - p.timestampMs else p.timestampMs - now

def replayCallOf (cfg : DiscoveryConfig) (p : Probe) (now : UInt64) : ReplayCall where
  key := (p.pubkey, p.nonce)
  expiresAtMs := now + 2 * (effectiveSkew cfg p).toUInt64
  nowMs := now

def onPacket (ed : Ed25519) (cfg : DiscoveryConfig) (r : Replay) (a : Arrival) :
    Replay × Option ReplyCall :=
  if ¬ cfg.enabled then (r, none)
  else
    match receiveFrame a.pkt with
    | none => (r, none)
    | some f =>
      match acceptProbe ed cfg f.payload with
      | none => (r, none)
      | some p =>
        if (effectiveSkew cfg p).toUInt64 < timestampDelta p a.nowMs then (r, none)
        else
          match replayCheck r (replayCallOf cfg p a.nowMs) with
          | (true, r') => (r', none)
          | (false, r') => (r', some { probe := p, clientV4 := f.srcV4, clientPort := f.srcPort })

/-! ## Runs of packets -/

def listenRun (ed : Ed25519) (cfg : DiscoveryConfig) (r : Replay) (as : List Arrival) : Replay :=
  as.foldl (fun r a => (onPacket ed cfg r a).1) r

def acceptedCount (ed : Ed25519) (cfg : DiscoveryConfig) (r : Replay) : List Arrival → Nat
  | [] => 0
  | a :: as =>
    (if (onPacket ed cfg r a).2.isSome then 1 else 0)
      + acceptedCount ed cfg (onPacket ed cfg r a).1 as

def ArrivalsInOrder (as : List Arrival) : Prop :=
  as.Pairwise fun a b => a.nowMs ≤ b.nowMs

instance (as : List Arrival) : Decidable (ArrivalsInOrder as) :=
  inferInstanceAs (Decidable (as.Pairwise fun a b => a.nowMs ≤ b.nowMs))

/-! ## What one packet does -/

def Fresh (cfg : DiscoveryConfig) (p : Probe) (now : UInt64) : Prop :=
  timestampDelta p now ≤ (effectiveSkew cfg p).toUInt64

instance (cfg : DiscoveryConfig) (p : Probe) (now : UInt64) : Decidable (Fresh cfg p now) :=
  inferInstanceAs (Decidable (timestampDelta p now ≤ (effectiveSkew cfg p).toUInt64))

/-- The window in plain arithmetic: `timestamp` is at most `skew` away from `now`. -/
theorem fresh_iff (cfg : DiscoveryConfig) (p : Probe) (now : UInt64) :
    Fresh cfg p now ↔ p.timestampMs.toNat ≤ now.toNat + (effectiveSkew cfg p).toNat
      ∧ now.toNat ≤ p.timestampMs.toNat + (effectiveSkew cfg p).toNat := by
  unfold Fresh timestampDelta
  split
  · next h =>
    rw [UInt64.lt_iff_toNat_lt] at h
    rw [UInt64.le_iff_toNat_le, UInt64.toNat_sub_of_le _ _ (UInt64.le_iff_toNat_le.mpr (by omega)),
      UInt16.toNat_toUInt64]
    omega
  · next h =>
    rw [UInt64.lt_iff_toNat_lt] at h
    rw [UInt64.le_iff_toNat_le, UInt64.toNat_sub_of_le _ _ (UInt64.le_iff_toNat_le.mpr (by omega)),
      UInt16.toNat_toUInt64]
    omega

/-- A frame is either dropped without a trace, or it passed every gate and the replay table
recorded its probe. -/
inductive PacketStep (ed : Ed25519) (cfg : DiscoveryConfig) (r : Replay) (a : Arrival) :
    Replay → Option ReplyCall → Prop where
  | dropped : PacketStep ed cfg r a r none
  | answered (f : Frame) (p : Probe) (r' : Replay) (hen : cfg.enabled = true)
      (hframe : receiveFrame a.pkt = some f) (hprobe : acceptProbe ed cfg f.payload = some p)
      (hfresh : Fresh cfg p a.nowMs)
      (hcheck : replayCheck r (replayCallOf cfg p a.nowMs) = (false, r')) :
      PacketStep ed cfg r a r' (some { probe := p, clientV4 := f.srcV4, clientPort := f.srcPort })

variable (ed : Ed25519)

theorem packetStep_onPacket (cfg : DiscoveryConfig) (r : Replay) (a : Arrival) :
    PacketStep ed cfg r a (onPacket ed cfg r a).1 (onPacket ed cfg r a).2 := by
  unfold onPacket
  split
  · exact .dropped
  next hen =>
  split
  · exact .dropped
  next f hframe =>
  split
  · exact .dropped
  next p hprobe =>
  split
  · exact .dropped
  next hfresh =>
  split
  · next r' hcheck =>
    -- a rejected pair leaves the table as it was
    obtain ⟨rc, r'', heq, hstep⟩ := replayCheck_step r (replayCallOf cfg p a.nowMs)
    rw [hcheck] at heq
    obtain ⟨rfl, rfl⟩ := Prod.mk.inj heq
    cases hstep with
    | seen => exact .dropped
  · next r' hcheck =>
    exact .answered f p r' (by simpa using hen) hframe hprobe (UInt64.not_lt.mp hfresh) hcheck

theorem onPacket_step (cfg : DiscoveryConfig) (r : Replay) (a : Arrival) :
    ∃ r' call, onPacket ed cfg r a = (r', call) ∧ PacketStep ed cfg r a r' call :=
  ⟨_, _, rfl, packetStep_onPacket ed cfg r a⟩

variable {cfg : DiscoveryConfig} {r : Replay} {a : Arrival} {p : Probe} {t₁ : UInt64}

/-- A frame that passes every gate is answered. -/
theorem onPacket_answered {ed : Ed25519}
    {f : Frame} (hen : cfg.enabled = true) (hframe : receiveFrame a.pkt = some f)
    (hprobe : acceptProbe ed cfg f.payload = some p) (hfresh : Fresh cfg p a.nowMs)
    (hcheck : (replayCheck r (replayCallOf cfg p a.nowMs)).1 = false) :
    (onPacket ed cfg r a).2.isSome = true := by
  have hpair : replayCheck r (replayCallOf cfg p a.nowMs)
      = (false, (replayCheck r (replayCallOf cfg p a.nowMs)).2) := Prod.ext hcheck rfl
  have hwin : ¬ (effectiveSkew cfg p).toUInt64 < timestampDelta p a.nowMs :=
    UInt64.not_lt.mpr hfresh
  simp only [onPacket, hen, hframe, hprobe, hwin, not_true_eq_false, if_false]
  rw [hpair]
  rfl

/-- While the table has room, an answered probe is appended to it and nothing else changes. -/
theorem onPacket_room (cfg : DiscoveryConfig)
    (hroom : r.entries.length < replayCap) (a : Arrival) :
    ((onPacket ed cfg r a).2 = none ∧ (onPacket ed cfg r a).1 = r)
      ∨ ∃ c : ReplayCall, (onPacket ed cfg r a).2.isSome = true
        ∧ (onPacket ed cfg r a).1.entries = r.entries ++ [c.entry]
        ∧ (onPacket ed cfg r a).1.evicted = r.evicted := by
  obtain ⟨r', call, heq, hstep⟩ := onPacket_step ed cfg r a
  rw [heq]
  cases hstep with
  | dropped => exact .inl ⟨rfl, rfl⟩
  | answered f p _ _ _ _ _ hcheck =>
    refine .inr ⟨replayCallOf cfg p a.nowMs, rfl, ?_⟩
    obtain ⟨hentries, hring, _⟩ := replayCheck_recorded hroom hcheck
    exact ⟨hentries, hring⟩

/-! ## What a run does while fewer than `replayCap` probes were answered -/

theorem listenRun_concat (cfg : DiscoveryConfig) (r : Replay)
    (as : List Arrival) (a : Arrival) :
    listenRun ed cfg r (as ++ [a]) = (onPacket ed cfg (listenRun ed cfg r as) a).1 := by
  simp [listenRun]

theorem acceptedCount_append (cfg : DiscoveryConfig) (r : Replay)
    (as bs : List Arrival) :
    acceptedCount ed cfg r (as ++ bs)
      = acceptedCount ed cfg r as + acceptedCount ed cfg (listenRun ed cfg r as) bs := by
  induction as generalizing r with
  | nil => simp [acceptedCount, listenRun]
  | cons a as ih =>
    simp only [cons_append, acceptedCount, ih, Nat.add_assoc]
    rfl

theorem acceptedCount_le_length (cfg : DiscoveryConfig) (r : Replay)
    (as : List Arrival) : acceptedCount ed cfg r as ≤ as.length := by
  induction as generalizing r with
  | nil => exact Nat.le_refl _
  | cons a as ih =>
    have := ih (onPacket ed cfg r a).1
    simp only [acceptedCount, length_cons]
    split <;> omega

/-- Until the table fills up it holds one entry per answered probe, and the ring is unused. -/
theorem listenRun_entries (cfg : DiscoveryConfig) (as : List Arrival)
    (h : acceptedCount ed cfg replayInit as ≤ replayCap) :
    (listenRun ed cfg replayInit as).entries.length = acceptedCount ed cfg replayInit as
      ∧ (listenRun ed cfg replayInit as).evicted = replayInit.evicted := by
  induction as using List.reverseRecOn with
  | nil => exact ⟨rfl, rfl⟩
  | append_singleton as a ih =>
    have hcount := acceptedCount_append ed cfg replayInit as [a]
    simp only [acceptedCount, Nat.add_zero] at hcount
    obtain ⟨hlen, hring⟩ := ih (by omega)
    set r := listenRun ed cfg replayInit as with hr
    rw [listenRun_concat, ← hr, hcount]
    rcases Nat.lt_or_ge r.entries.length replayCap with hroom | hfull
    · rcases onPacket_room ed cfg hroom a with
        ⟨hnone, hsame⟩ | ⟨c, hsome, hent, hev⟩
      · simp [hnone, hsame, hlen, hring]
      · simp [hsome, hent, hev, hlen, hring]
    · -- a full table: the bound leaves no room for another answer
      have hdrop : (onPacket ed cfg r a).2.isSome = false := by
        by_contra hsome
        simp only [Bool.not_eq_false] at hsome
        simp only [hsome, if_true] at hcount
        omega
      obtain ⟨r', call, heq, hstep⟩ := onPacket_step ed cfg r a
      rw [heq] at hdrop ⊢
      cases hstep with
      | dropped => simp [hlen, hring]
      | answered => simp at hdrop

/-- Entries stay in the table while fewer than `replayCap` probes were answered. -/
theorem mem_listenRun_of_mem (cfg : DiscoveryConfig) (as bs : List Arrival)
    (h : acceptedCount ed cfg replayInit (as ++ bs) < replayCap) {e : ReplayEntry}
    (he : e ∈ (listenRun ed cfg replayInit as).entries) :
    e ∈ (listenRun ed cfg replayInit (as ++ bs)).entries := by
  induction bs using List.reverseRecOn with
  | nil => simpa using he
  | append_singleton bs b ih =>
    rw [← append_assoc] at h ⊢
    have hcount := acceptedCount_append ed cfg replayInit (as ++ bs) [b]
    have hmem := ih (by omega)
    have hlen := (listenRun_entries ed cfg (as ++ bs) (by omega)).1
    rw [listenRun_concat]
    rcases onPacket_room ed cfg
        (r := listenRun ed cfg replayInit (as ++ bs)) (by omega) b with
      ⟨_, hsame⟩ | ⟨c, _, hent, _⟩
    · rw [hsame]
      exact hmem
    · rw [hent]
      exact mem_append_left _ hmem

/-! ## A probe is answered at most once -/

/-- The probe bytes a frame carries, when it is one `on_packet` looks into. -/
def carriedProbe (pkt : Bytes) : Option Bytes := (receiveFrame pkt).map (·.payload)

/-- The probe was not accepted at the first instant of its window, and the expiry the replay
table gets for it does not wrap around 64 bits. -/
def WindowsOverlap (cfg : DiscoveryConfig) (p : Probe) (now : UInt64) : Prop :=
  p.timestampMs.toNat ≠ now.toNat + (effectiveSkew cfg p).toNat
    ∧ now.toNat + 2 * (effectiveSkew cfg p).toNat < 2 ^ 64

instance (cfg : DiscoveryConfig) (p : Probe) (now : UInt64) :
    Decidable (WindowsOverlap cfg p now) :=
  inferInstanceAs (Decidable (_ ∧ _))

theorem replayCallOf_expiry (cfg : DiscoveryConfig) (p : Probe) (now : UInt64) :
    (replayCallOf cfg p now).expiresAtMs.toNat
      = (now.toNat + 2 * (effectiveSkew cfg p).toNat) % 2 ^ 64 := by
  simp only [replayCallOf, UInt64.toNat_add, UInt64.toNat_mul, UInt16.toNat_toUInt64]
  rw [show UInt64.toNat 2 = 2 from rfl, Nat.add_mod_mod]

/-- The pair of an accepted probe outlives its window when the two windows overlap: a later
instant at which the timestamp is still fresh comes before the expiry. -/
theorem lt_expiry_of_fresh {t₁ t₂ : UInt64}
    (hov : WindowsOverlap cfg p t₁) (h₁ : Fresh cfg p t₁) (h₂ : Fresh cfg p t₂) :
    t₂ < (replayCallOf cfg p t₁).expiresAtMs := by
  obtain ⟨hedge, hwrap⟩ := hov
  rw [fresh_iff] at h₁ h₂
  rw [UInt64.lt_iff_toNat_lt, replayCallOf_expiry, Nat.mod_eq_of_lt hwrap]
  omega

/-- When they do not overlap there is an instant, not before the acceptance, at which the
timestamp is still fresh and the pair already expired. -/
theorem exists_gap (hov : ¬ WindowsOverlap cfg p t₁) (h₁ : Fresh cfg p t₁) :
    ∃ t₂, t₁ ≤ t₂ ∧ Fresh cfg p t₂ ∧ (replayCallOf cfg p t₁).expiresAtMs ≤ t₂ := by
  have hskew := (effectiveSkew cfg p).toNat_lt
  have ht₁ := t₁.toNat_lt
  rcases Nat.lt_or_ge (t₁.toNat + 2 * (effectiveSkew cfg p).toNat) (2 ^ 64) with hwrap | hwrap
  · -- accepted at the first instant of the window: the gap is its last instant
    have hedge : p.timestampMs.toNat = t₁.toNat + (effectiveSkew cfg p).toNat := by
      by_contra hne
      exact hov ⟨hne, hwrap⟩
    have hexp : (replayCallOf cfg p t₁).expiresAtMs.toNat
        = t₁.toNat + 2 * (effectiveSkew cfg p).toNat := by
      rw [replayCallOf_expiry, Nat.mod_eq_of_lt hwrap]
    refine ⟨(replayCallOf cfg p t₁).expiresAtMs, ?_, ?_, UInt64.le_refl _⟩
    · rw [UInt64.le_iff_toNat_le, hexp]
      omega
    · rw [fresh_iff, hexp]
      omega
  · -- the expiry wrapped: the pair is already expired when it is recorded
    refine ⟨t₁, UInt64.le_refl _, h₁, ?_⟩
    rw [UInt64.le_iff_toNat_le, replayCallOf_expiry,
      Nat.mod_eq_sub_mod hwrap, Nat.mod_eq_of_lt (by omega)]
    omega

/-- Presenting the last frame of a run once more, not earlier, keeps the clock in order. -/
theorem arrivals_extend {pre : List Arrival} {t : UInt64}
    (h : ArrivalsInOrder (pre ++ [a])) (hle : a.nowMs ≤ t) :
    ArrivalsInOrder (pre ++ [a] ++ [] ++ [{ a with nowMs := t }]) := by
  rw [append_nil]
  refine pairwise_append.mpr ⟨h, pairwise_singleton _ _, ?_⟩
  intro x hx y hy
  obtain rfl : y = { a with nowMs := t } := by simpa using hy
  rcases mem_append.mp hx with hx | hx
  · exact UInt64.le_trans ((pairwise_append.mp h).2.2 x hx a (by simp)) hle
  · obtain rfl : x = a := by simpa using hx
    exact hle

/-- **A probe is answered at most once, exactly when its two windows overlap.** In every run
from an empty table with a non-decreasing clock and fewer than `replayCap` answers, an answered
probe is never answered again, at whatever later instant and in whatever frame the same bytes
arrive, if and only if it was accepted with `WindowsOverlap`. -/
theorem answered_once_iff (ed : Ed25519) (cfg : DiscoveryConfig) (pre : List Arrival)
    (a : Arrival) (p : Probe) (hclock : ArrivalsInOrder (pre ++ [a]))
    (hp : (carriedProbe a.pkt).bind (acceptProbe ed cfg) = some p)
    (hans : (onPacket ed cfg (listenRun ed cfg replayInit pre) a).2.isSome = true)
    (hcount : acceptedCount ed cfg replayInit (pre ++ [a]) < replayCap) :
    (∀ mid b, ArrivalsInOrder (pre ++ [a] ++ mid ++ [b]) →
        carriedProbe b.pkt = carriedProbe a.pkt →
        acceptedCount ed cfg replayInit (pre ++ [a] ++ mid) < replayCap →
        (onPacket ed cfg (listenRun ed cfg replayInit (pre ++ [a] ++ mid)) b).2 = none)
      ↔ WindowsOverlap cfg p a.nowMs := by
  have hcount₀ := acceptedCount_append ed cfg replayInit pre [a]
  obtain ⟨hlen, -⟩ := listenRun_entries ed cfg pre (by omega)
  have hroom : (listenRun ed cfg replayInit pre).entries.length < replayCap := by omega
  have hrun : listenRun ed cfg replayInit (pre ++ [a])
      = (onPacket ed cfg (listenRun ed cfg replayInit pre) a).1 := listenRun_concat ..
  -- what the answer recorded
  obtain ⟨r', call, heq, hstep⟩ := onPacket_step ed cfg (listenRun ed cfg replayInit pre) a
  rw [heq] at hans hrun
  cases hstep with
  | dropped => simp at hans
  | answered f q _ hen hframe hprobe hfresh hcheck =>
  obtain rfl : q = p := by
    have : (carriedProbe a.pkt).bind (acceptProbe ed cfg) = some q := by
      simp [carriedProbe, hframe, hprobe]
    exact Option.some.inj (this.symm.trans hp)
  constructor
  · -- a gap between the windows lets the same frame in a second time
    intro hdrop
    by_contra hov
    obtain ⟨t₂, hle, hfresh₂, hexp⟩ := exists_gap hov hfresh
    have hagain : (onPacket ed cfg r' { a with nowMs := t₂ }).2.isSome = true :=
      onPacket_answered (a := { a with nowMs := t₂ }) hen hframe hprobe hfresh₂
        (replayCheck_again hroom hcheck rfl hle hexp)
    have hnone := hdrop [] { a with nowMs := t₂ } (arrivals_extend hclock hle) rfl
      (by simpa using hcount)
    rw [append_nil, hrun] at hnone
    rw [hnone] at hagain
    simp at hagain
  · -- while the timestamp is fresh, the entry is still there and unexpired
    intro hov mid b _ hsame hcap
    have hmem : (replayCallOf cfg q a.nowMs).entry
        ∈ (listenRun ed cfg replayInit (pre ++ [a] ++ mid)).entries := by
      refine mem_listenRun_of_mem ed cfg (pre ++ [a]) mid hcap ?_
      rw [hrun, (replayCheck_recorded hroom hcheck).1]
      simp
    obtain ⟨r₂, call₂, heq₂, hstep₂⟩ :=
      onPacket_step ed cfg (listenRun ed cfg replayInit (pre ++ [a] ++ mid)) b
    rw [heq₂]
    cases hstep₂ with
    | dropped => rfl
    | answered g q₂ _ _ hframe₂ hprobe₂ hfresh₂ hcheck₂ =>
      obtain rfl : q₂ = q := by
        simp only [carriedProbe, hframe, hframe₂, Option.map_some, Option.some.injEq] at hsame
        rw [hsame, hprobe] at hprobe₂
        exact (Option.some.inj hprobe₂).symm
      have hrej := replayCheck_of_mem (c := replayCallOf cfg q₂ b.nowMs) hmem rfl
        (lt_expiry_of_fresh hov hfresh hfresh₂)
      rw [hcheck₂] at hrej
      simp at hrej

/-! A probe as a client signs it: `max_skew_ms` 2000, `timestamp_ms` 1749116116123. -/

def auditorPub : Pubkey :=
  #v[0xd7, 0x5a, 0x98, 0x01, 0x82, 0xb1, 0x0a, 0xb7, 0xd5, 0x4b, 0xfe, 0xd3, 0xc9, 0x64, 0x07,
    0x3a, 0x0e, 0xe1, 0x72, 0xf3, 0xda, 0xa6, 0x23, 0x25, 0xaf, 0x02, 0x1a, 0x68, 0xf7, 0x07,
    0x51, 0x1a]

def auditorProbe : Probe where
  version := 1
  flags := 0
  maxSkewMs := 2000
  timestampMs := 1749116116123
  nonce := #v[1, 2, 3, 4, 5, 6, 7, 8, 9, 10, 11, 12, 13, 14, 15, 16]
  reserved := Vector.replicate 16 0
  pubkey := auditorPub
  signature :=
    #v[0xab, 0x55, 0x40, 0x15, 0x1a, 0xa8, 0x20, 0x04, 0x90, 0x7c, 0x02, 0xa3, 0x85, 0x8f,
      0xd7, 0x64, 0x2b, 0xa9, 0xd2, 0x36, 0x17, 0x1b, 0x75, 0x61, 0x95, 0xf5, 0x2f, 0x0d, 0x89,
      0x28, 0x69, 0x24, 0xcb, 0x8b, 0x47, 0x10, 0xef, 0x52, 0x44, 0x0f, 0x06, 0x46, 0x5e, 0x3e,
      0xcd, 0xad, 0x1c, 0x7f, 0xf2, 0x25, 0x4b, 0x5e, 0x3e, 0x68, 0x94, 0x61, 0xb0, 0x5a, 0x23,
      0xce, 0xb7, 0x47, 0x56, 0x0c]

/-- Ed25519 as far as `auditorProbe` is concerned: its signature verifies. -/
def auditorEd : Ed25519 where
  sign := fun _ _ => none
  verify := fun pk msg sig =>
    pk = auditorPub ∧ msg = probeSignedPrefix auditorProbe ∧ sig = auditorProbe.signature

def auditorConfig : DiscoveryConfig where
  enabled := true
  agentPub := Vector.replicate 32 0
  agentSec := Vector.replicate 32 0
  authorized := [auditorPub]
  maxSkewCapMs := hardcapSkewMs
  listenPort := 0
  listenIpV4mapped := Vector.replicate 16 0
  authorized_le := by decide

/-- The probe broadcast in UDP over IPv4 from 10.0.0.2:40000. -/
def auditorFrame : Bytes :=
  List.replicate 6 0xff ++ [2, 0, 0, 0, 0, 2] ++ [0x08, 0x00]
    ++ [0x45, 0, 0, 172, 0, 0, 0, 0, 64, 17, 0, 0, 10, 0, 0, 2, 255, 255, 255, 255]
    ++ [0x9c, 0x40, 0x9c, 0x40, 0, 152, 0, 0] ++ probePack auditorProbe

def auditorArrival (now : UInt64) : Arrival where
  pkt := auditorFrame
  nowMs := now

theorem auditorFrame_received :
    ∃ f, receiveFrame auditorFrame = some f ∧ f.payload = probePack auditorProbe := by
  have hcarried : carriedProbe auditorFrame = some (probePack auditorProbe) := by decide +kernel
  exact Option.map_eq_some_iff.mp hcarried

theorem auditorProbe_accepted :
    acceptProbe auditorEd auditorConfig (probePack auditorProbe) = some auditorProbe := by
  rw [acceptProbe, probeUnpack_probePack]
  decide

/-- The first presentation is answered whenever its timestamp is fresh. -/
theorem auditorProbe_answered (now : UInt64) (hfresh : Fresh auditorConfig auditorProbe now) :
    (onPacket auditorEd auditorConfig replayInit (auditorArrival now)).2.isSome = true := by
  obtain ⟨f, hframe, hpayload⟩ := auditorFrame_received
  exact onPacket_answered rfl hframe (hpayload ▸ auditorProbe_accepted) hfresh rfl

/-- Accepted when the clock reads its timestamp, the probe is dropped two seconds later. -/
theorem auditorProbe_dropped_at_window_end :
    (onPacket auditorEd auditorConfig
      (listenRun auditorEd auditorConfig replayInit ([] ++ [auditorArrival 1749116116123] ++ []))
      (auditorArrival 1749116118123)).2 = none := by
  obtain ⟨f, hframe, hpayload⟩ := auditorFrame_received
  have hp : (carriedProbe (auditorArrival 1749116116123).pkt).bind
      (acceptProbe auditorEd auditorConfig) = some auditorProbe := by
    rw [carriedProbe, show (auditorArrival 1749116116123).pkt = auditorFrame from rfl, hframe,
      Option.map_some, Option.bind_some, hpayload, auditorProbe_accepted]
  have hcount : ∀ as : List Arrival, as.length < replayCap →
      acceptedCount auditorEd auditorConfig replayInit as < replayCap :=
    fun as => Nat.lt_of_le_of_lt (acceptedCount_le_length ..)
  exact (answered_once_iff auditorEd auditorConfig [] (auditorArrival 1749116116123) auditorProbe
    (by decide) hp (auditorProbe_answered _ (by decide)) (hcount _ (by decide))).mpr
    (by decide) [] (auditorArrival 1749116118123) (by decide) rfl (hcount _ (by decide))

/-- **The gap.** Accepted `skew` before its timestamp, the probe is answered a second time when
its window closes: the table's entry expires at that very millisecond. -/
theorem auditorProbe_answered_twice :
    ArrivalsInOrder [auditorArrival 1749116114123, auditorArrival 1749116118123]
      ∧ (onPacket auditorEd auditorConfig replayInit (auditorArrival 1749116114123)).2.isSome
      ∧ acceptedCount auditorEd auditorConfig replayInit [auditorArrival 1749116114123]
        < replayCap
      ∧ (onPacket auditorEd auditorConfig
          (listenRun auditorEd auditorConfig replayInit [auditorArrival 1749116114123])
          (auditorArrival 1749116118123)).2.isSome := by
  have hfirst := auditorProbe_answered 1749116114123 (by decide)
  refine ⟨by decide, hfirst, Nat.lt_of_le_of_lt (acceptedCount_le_length ..) (by decide), ?_⟩
  obtain ⟨f, hframe, hpayload⟩ := auditorFrame_received
  have hrun : listenRun auditorEd auditorConfig replayInit [auditorArrival 1749116114123]
      = (onPacket auditorEd auditorConfig replayInit (auditorArrival 1749116114123)).1 := rfl
  obtain ⟨r', call, heq, hstep⟩ :=
    onPacket_step auditorEd auditorConfig replayInit (auditorArrival 1749116114123)
  rw [heq] at hfirst hrun
  cases hstep with
  | dropped => simp at hfirst
  | answered g q _ _ hframe' hprobe' _ hcheck =>
    obtain rfl : g = f := Option.some.inj (hframe'.symm.trans hframe)
    rw [hpayload, auditorProbe_accepted] at hprobe'
    obtain rfl := Option.some.inj hprobe'
    rw [hrun]
    exact onPacket_answered rfl hframe (hpayload ▸ auditorProbe_accepted) (by decide)
      (replayCheck_again (by decide) hcheck rfl (by decide) (by decide))

end Packetsonde.Discovery
