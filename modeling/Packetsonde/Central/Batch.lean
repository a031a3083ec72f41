import Packetsonde.Central.Reporter
import Packetsonde.Recipe.Envelope

/-!
# What a batch leaves in the caller's buffer

`buildEnvelopes` looks at the offset only after it has moved past an envelope, and gives up 64 bytes
early. `buildEnvelopes_run` says what is in the buffer then: as much as fits of the array text of a
prefix of the events. From it follows when that is a complete JSON array (`batch_built_iff`).
-/

namespace Packetsonde.Central

open Packetsonde.Lib
open Packetsonde.Discovery (Signature)
open Packetsonde.Recipe (Evp Keypair authorKeys hexBytes)
open List hiding Vector

def batchText (host : Host) (kp : Keypair) (id : CString) (events : List CString) : Bytes :=
  91 :: ((pieces host kp id 0 events).flatten ++ [93])

section Run

variable {host : Host} {kp : Keypair} {id : CString} {cc : CentralConfig} {events : List CString}
  {out : Bytes} {built : Built} {m : Nat}

theorem length_batchText (host : Host) (kp : Keypair) (id : CString) (events : List CString) :
    (batchText host kp id events).length = 2 + (pieces host kp id 0 events).flatten.length := by
  unfold batchText
  rw [length_cons, length_append, length_singleton]
  omega

theorem nul_not_mem_batchText (events : List CString) :
    (0 : UInt8) ∉ batchText host kp id events := by
  unfold batchText
  rw [mem_cons, mem_append, mem_singleton, not_or, not_or]
  exact ⟨by decide, nul_not_mem_pieces 0 events, by decide⟩

theorem Stops.unique {cap n i m m' : Nat} (h : Stops host kp id cap n i events m)
    (h' : Stops host kp id cap n i events m') : m = m' := by
  have hle : ∀ {m m' : Nat}, Stops host kp id cap n i events m →
      Stops host kp id cap n i events m' → ¬ m < m' := by
    intro m m' h h' hlt
    have hfull := h.full (Nat.lt_of_lt_of_le hlt h'.le)
    exact absurd (h'.before m hlt) (Nat.not_lt.mpr hfull)
  exact Nat.le_antisymm (Nat.not_lt.mp (hle h' h)) (Nat.not_lt.mp (hle h h'))

/-! ## Returned lengths -/

/-- A length as an `int`. -/
theorem toInt_ofNat_int32 (n : Nat) : (Int32.ofNat n).toInt =
    if n % 4294967296 < 2147483648 then (n % 4294967296 : Int)
    else (n % 4294967296 : Int) - 4294967296 := by
  rw [Int32.toInt_ofNat', Int.bmod_def]
  simp only [Int32.size]
  split <;> split <;> omega

theorem ofNat_eq_neg_one_iff (n : Nat) : Int32.ofNat n = -1 ↔ n % 2 ^ 32 = 2 ^ 32 - 1 := by
  have hneg : (-1 : Int32).toInt = -1 := by decide
  rw [← Int32.toInt_inj, toInt_ofNat_int32, hneg]
  split <;> omega

theorem toInt_ofNat_eq_self_iff (n : Nat) : (Int32.ofNat n).toInt = n ↔ n < 2 ^ 31 := by
  rw [toInt_ofNat_int32]
  split <;> omega

/-- A text that was cut is not as long as the return value says. -/
theorem toInt_ofNat_ne_of_cut {n len : Nat} (hlt : len < n) (hle : n ≤ len + 2) :
    (Int32.ofNat n).toInt ≠ len := by
  rw [toInt_ofNat_int32]
  split <;> omega

/-! ## Complete arrays -/

/-- The buffer holds a string of the returned length, and nothing was written behind it. -/
structure Terminated (built : Built) : Prop where
  inBounds : built.out.InBounds
  nul : (cstr built.out.mem).length < built.out.mem.length
  ret_eq : built.ret.toInt = (cstr built.out.mem).length

/-- That string is a JSON array with one signed envelope for each of the first events whose payload
fits. -/
structure WellBuilt (host : Host) (kp : Keypair) (id : CString) (events : List CString)
    (built : Built) : Prop extends Terminated built where
  array : ∃ m, Doc .value (cstr built.out.mem)
      (.arr (((events.take m).filter (Fits id)).map (jsonOf host kp id))) ∧
    ∀ e ∈ events.take m, Fits id e → (sigText host kp (payloadOf id e)).isSome

/-- The whole text is in the buffer exactly if it is shorter than that and its length is an `int`. -/
theorem terminated_iff {t : Bytes} (hcap : 0 < out.length) (ht : t ≠ []) (hnul : (0 : UInt8) ∉ t)
    (happ : built.out.Appended out.length t)
    (hin : built.out.InBounds ↔ t.length ≤ out.length + 1)
    (hret : built.ret = Int32.ofNat t.length) :
    Terminated built ↔ t.length < out.length ∧ t.length < 2 ^ 31 := by
  have hstr : cstr built.out.mem = t.take (out.length - 1) := happ.cstr_mem ht hnul
  have hsize := happ.size
  constructor
  · intro h
    have hle := hin.mp h.inBounds
    have heq := h.ret_eq
    rw [hret, hstr, length_take] at heq
    rcases Nat.lt_or_ge t.length out.length with hlt | hge
    · rw [Nat.min_eq_right (by omega), toInt_ofNat_eq_self_iff] at heq
      exact ⟨hlt, heq⟩
    · -- the string was cut, but the whole length is returned
      rw [Nat.min_eq_left (by omega)] at heq
      exact absurd heq (toInt_ofNat_ne_of_cut (by omega) (by omega))
  · rintro ⟨hlt, hint⟩
    rw [take_of_length_le (by omega)] at hstr
    refine ⟨hin.mpr (by omega), ?_, ?_⟩
    · rw [hstr, hsize]
      exact hlt
    · rw [hstr, hret]
      exact (toInt_ofNat_eq_self_iff _).mpr hint

theorem batchText_ne_nil (events : List CString) : batchText host kp id events ≠ [] :=
  cons_ne_nil _ _

theorem lex_batchText (h : ¬ FirstFits id events) {s : Lex} (hs : s.Ready) :
    s.run (batchText host kp id events) = none := by
  obtain ⟨t, ht⟩ : ∃ t, (pieces host kp id 0 events).flatten = 44 :: t := pieces_of_not_firstFits h
  unfold batchText
  rw [ht, cons_append]
  exact lex_leading_comma hs _

/-- If the loop stops in front of an event, something was written. -/
theorem FirstFits.of_take {cap : Nat} (hcap : 256 ≤ cap)
    (hstops : Stops host kp id cap 1 0 events m) (h : FirstFits id (events.take m)) :
    FirstFits id events := by
  rcases Nat.lt_or_ge m events.length with hlt | hge
  · have hfull := hstops.full hlt
    rcases h with h | h
    · left
      intro e he
      apply h
      cases m with
      | zero =>
        change cap - 64 ≤ 1 + 0 at hfull
        omega
      | succ m => simpa [head?_take] using he
    · rw [pieces_eq_nil h] at hfull
      change cap - 64 ≤ 1 + 0 at hfull
      omega
  · rwa [take_of_length_le hge] at h

/-! ## Batches that fit completely -/

/-- Every event of the batch has its envelope in the array. -/
structure Complete (host : Host) (kp : Keypair) (id : CString) (events : List CString)
    (built : Built) : Prop extends Terminated built where
  array : Doc .value (cstr built.out.mem) (.arr (events.map (jsonOf host kp id)))

theorem pieces_append (i : Nat) (es es' : List CString) :
    pieces host kp id i (es ++ es') = pieces host kp id i es ++ pieces host kp id (i + es.length) es' := by
  induction es generalizing i with
  | nil => rfl
  | cons e es ih =>
    rw [length_cons, show i + (es.length + 1) = i + 1 + es.length by omega, cons_append]
    by_cases hfits : Fits id e
    · rw [pieces_cons hfits, pieces_cons hfits, ih, cons_append]
    · rw [pieces_skip hfits, pieces_skip hfits, ih]

/-- The frame of an envelope alone is longer than what the loop keeps free. -/
theorem length_envelopeOf (e : CString) : 64 ≤ (envelopeOf host kp id e).length := by
  have hid := PsJson.length_le_quote id.bytes
  have hpayload := PsJson.length_le_quote (payloadOf id e)
  have hsig := PsJson.length_le_quote (sigOf host kp id e)
  unfold envelopeOf envelopeText
  simp only [length_append,
    show (asc "\x7b\"envelope_v\":1,\"origin_agent_id\":").length = 34 by decide,
    show (asc ",\"payload\":").length = 11 by decide,
    show (asc ",\"ed25519_sig\":").length = 15 by decide, show (asc "\x7d").length = 1 by decide]
  omega

/-- A batch that fits as a whole is not cut short. -/
theorem Stops.eq_length (hstops : Stops host kp id out.length 1 0 events m)
    (hfits : ∀ e ∈ events, Fits id e)
    (hlt : (batchText host kp id events).length < out.length) : m = events.length := by
  rcases Nat.lt_or_ge m events.length with hm | hm
  · have hfull := hstops.full hm
    have hsplit : events = events.take m ++ events[m] :: events.drop (m + 1) := by
      rw [getElem_cons_drop, take_append_drop]
    have henv : 64 ≤ (envelopeOf host kp id events[m]).length := length_envelopeOf _
    rw [length_batchText] at hlt
    rw [hsplit, pieces_append, pieces_cons (hfits _ (getElem_mem hm)), flatten_append,
      flatten_cons, length_append, length_append, length_append] at hlt
    omega
  · exact Nat.le_antisymm hstops.le hm

theorem exists_appendEvents {i : Nat} {events : List CString}
    (h : ∀ e ∈ events, Fits id e → Sealed host kp id e) (a : Appender) :
    ∃ a', appendEvents host kp id i events a = some a' := by
  induction events generalizing i a with
  | nil => exact ⟨a, rfl⟩
  | cons e events ih =>
    obtain ⟨he, hes⟩ := forall_mem_cons.mp h
    rw [appendEvents]
    by_cases hfits : Fits id e
    · rw [turn_of_sealed hfits (he hfits)]
      dsimp only
      split
      · exact ⟨_, rfl⟩
      · exact ih hes _
    · rw [turn_eq, if_neg hfits]
      exact ih hes a

/-- With every event in it, the text says so. -/
theorem doc_batchText (hfits : ∀ e ∈ events, Fits id e) :
    Doc .value (batchText host kp id events) (.arr (events.map (jsonOf host kp id))) := by
  have hdoc : Doc .value (batchText host kp id events)
      (.arr ((events.filter (Fits id)).map (jsonOf host kp id))) :=
    doc_array_of_firstFits (Or.inl fun e he => hfits e (mem_of_mem_head? he))
  rwa [filter_eq_self.mpr (by simpa using hfits)] at hdoc

/-- An array that speaks of all events has them all. -/
theorem all_of_filter
    (h : ((events.take m).filter (Fits id)).map (jsonOf host kp id) = events.map (jsonOf host kp id)) :
    events.take m = events ∧ ∀ e ∈ events, Fits id e := by
  have hcount := congrArg List.length h
  rw [length_map, length_map] at hcount
  have hfilter := length_filter_le (fun e => decide (Fits id e)) (events.take m)
  rw [length_take] at hfilter
  have hall : events.take m = events := take_of_length_le (by omega)
  rw [hall] at hcount
  exact ⟨hall, by simpa using length_filter_eq_length_iff.mp hcount⟩

/-! ## A call -/

variable (hcap : 256 ≤ out.length)
  (hload : host.keystoreLoad cc.keydir.bytes (asc "agent") = some kp)
  (hid : agentId host cc = id)

include hload hid

theorem exists_buildEnvelopes (h : ∀ e ∈ events, Fits id e → Sealed host kp id e) :
    ∃ built, buildEnvelopes host cc events out = some built := by
  obtain ⟨a, ha⟩ := exists_appendEvents h ((Appender.start out).append (asc "["))
  unfold buildEnvelopes
  rw [hload, hid]
  dsimp only
  rw [ha]
  exact ⟨_, rfl⟩

include hcap

/-- What a call that gets through leaves behind: the array of the first `m` events, as far as it
fits. -/
theorem buildEnvelopes_run (hbuild : buildEnvelopes host cc events out = some built) :
    ∃ m, Stops host kp id out.length 1 0 events m ∧
      built.out.Appended out.length (batchText host kp id (events.take m)) ∧
      (built.out.InBounds ↔ (batchText host kp id (events.take m)).length ≤ out.length + 1) ∧
      built.ret = Int32.ofNat (batchText host kp id (events.take m)).length ∧
      ∀ e ∈ events.take m, Fits id e → Sealed host kp id e := by
  unfold buildEnvelopes at hbuild
  rw [hload, hid] at hbuild
  dsimp only at hbuild
  have hopen := (Appender.appended_start out).append (show 0 < out.length by omega) (asc "[")
  have hopenIn : ((Appender.start out).append (asc "[")).InBounds := by
    rw [Appender.inBounds_append_of_le (Nat.zero_le _)]
    exact fun w hw => absurd hw (by simp [Appender.start])
  split at hbuild
  · cases hbuild
  · rename_i a hrun
    obtain rfl := Option.some.inj hbuild
    obtain ⟨m, hstops, happ, hin, hsealed, hsize⟩ :=
      appendEvents_spec (by omega) hrun hopen (show 1 < out.length - 64 by omega)
    have hwrap : envSize < 2 ^ 64 := by decide
    have hlast := happ.append (show 0 < out.length by omega) (asc "]")
    have htext : [] ++ asc "[" ++ (pieces host kp id 0 (events.take m)).flatten ++ asc "]" =
        batchText host kp id (events.take m) := rfl
    rw [htext] at hlast
    refine ⟨m, hstops, hlast, ?_, ?_, hsealed⟩
    · have hbounds := happ.inBounds_append (by omega) (asc "]")
      rw [hbounds, hin, and_iff_right hopenIn, length_batchText, length_append]
      show 1 + _ ≤ _ ↔ _
      omega
    · show Int32.ofNat (a.append (asc "]")).off = _
      rw [hlast.off_eq]

/-- The two ways out of a batch that is not cut short, in terms of the events. -/
theorem wellBuilt_iff (hbuild : buildEnvelopes host cc events out = some built)
    (hstops : Stops host kp id out.length 1 0 events m) :
    WellBuilt host kp id events built ↔
      (batchText host kp id (events.take m)).length < out.length ∧
      (batchText host kp id (events.take m)).length < 2 ^ 31 ∧ FirstFits id events := by
  obtain ⟨k, hstops', happ, hin, hret, hsealed⟩ := buildEnvelopes_run hcap hload hid hbuild
  obtain rfl := hstops.unique hstops'
  have hterm := terminated_iff (by omega) (batchText_ne_nil _) (nul_not_mem_batchText _) happ hin hret
  have hstr := happ.cstr_mem (batchText_ne_nil _) (nul_not_mem_batchText _)
  rw [← and_assoc, ← hterm]
  constructor
  · intro h
    refine ⟨h.toTerminated, ?_⟩
    obtain ⟨_, hdoc, _⟩ := h.array
    have hlt := (hterm.mp h.toTerminated).1
    rw [hstr, take_of_length_le (by omega)] at hdoc
    by_contra hnot
    exact not_doc_of_lex (lex_batchText (fun hf => hnot (hf.of_take hcap hstops)) (Or.inl rfl)) _ hdoc
  · rintro ⟨h, hfirst⟩
    have hlt := (hterm.mp h).1
    refine ⟨h, m, ?_, fun e he hf => (hsealed e he hf).1⟩
    rw [hstr, take_of_length_le (by omega)]
    exact doc_array_of_firstFits (hfirst.take m)

/-- A batch that fits as a whole is in the buffer as a whole. -/
theorem buildEnvelopes_all
    (heach : ∀ e ∈ events, Fits id e ∧ Sealed host kp id e)
    (hlt : (batchText host kp id events).length < out.length) :
    ∃ built, buildEnvelopes host cc events out = some built ∧
      built.out.Appended out.length (batchText host kp id events) ∧
      (built.out.InBounds ↔ (batchText host kp id events).length ≤ out.length + 1) ∧
      built.ret = Int32.ofNat (batchText host kp id events).length := by
  obtain ⟨built, hbuild⟩ : ∃ built, buildEnvelopes host cc events out = some built :=
    exists_buildEnvelopes hload hid fun e he _ => (heach e he).2
  obtain ⟨m, hstops, happ, hin, hret, -⟩ := buildEnvelopes_run hcap hload hid hbuild
  obtain rfl := hstops.eq_length (fun e he => (heach e he).1) hlt
  rw [take_length] at happ hin hret
  exact ⟨built, hbuild, happ, hin, hret⟩

/-- A batch is complete exactly if every payload and every envelope fits its buffer and the whole
text the caller's. -/
theorem complete_iff (hsig : ∀ payload, (sigText host kp payload).isSome) :
    (∃ built, buildEnvelopes host cc events out = some built ∧ Complete host kp id events built) ↔
      (∀ e ∈ events, Fits id e ∧ (envelopeOf host kp id e).length < envSize) ∧
      (batchText host kp id events).length < out.length ∧
      (batchText host kp id events).length < 2 ^ 31 := by
  constructor
  · rintro ⟨built, hbuild, hcomplete⟩
    obtain ⟨m, hstops, happ, hin, hret, hsealed⟩ := buildEnvelopes_run hcap hload hid hbuild
    have hterm := terminated_iff (by omega) (batchText_ne_nil _) (nul_not_mem_batchText _) happ hin
      hret
    have hlt := hterm.mp hcomplete.toTerminated
    have hdoc := hcomplete.array
    rw [happ.cstr_mem (batchText_ne_nil _) (nul_not_mem_batchText _),
      take_of_length_le (by omega)] at hdoc
    have hfirst : FirstFits id (events.take m) := by
      by_contra hnot
      -- the array opens with a comma
      exact not_doc_of_lex (lex_batchText hnot (Or.inl rfl)) _ hdoc
    obtain ⟨hall, hfits⟩ :=
      all_of_filter (Json.arr.inj (doc_unique (doc_array_of_firstFits hfirst) hdoc))
    rw [hall] at hlt hsealed
    exact ⟨fun e he => ⟨hfits e he, (hsealed e he (hfits e he)).2⟩, hlt⟩
  · rintro ⟨heach, hlt⟩
    obtain ⟨built, hbuild, happ, hin, hret⟩ := buildEnvelopes_all hcap hload hid
      (fun e he => ⟨(heach e he).1, hsig (payloadOf id e), (heach e he).2⟩) hlt.1
    have hterm := terminated_iff (by omega) (batchText_ne_nil _) (nul_not_mem_batchText _) happ hin
      hret
    refine ⟨built, hbuild, hterm.mpr hlt, ?_⟩
    rw [happ.cstr_mem (batchText_ne_nil _) (nul_not_mem_batchText _),
      take_of_length_le (by omega)]
    exact doc_batchText fun e he => (heach e he).1

end Run

/-- A call that gets through its events leaves a complete array exactly if the array of the events
up to where the loop stops is shorter than the buffer and the commas come out right; an `int` can
hold its length, or happens to be -1. All events of a batch are in it exactly if every payload and
every envelope fits its buffer and the whole text the caller's. -/
theorem batch_built_iff {host : Host} {cc : CentralConfig} {kp : Keypair} {events : List CString}
    {out : Bytes} (hload : host.keystoreLoad cc.keydir.bytes (asc "agent") = some kp)
    (hcap : 256 ≤ out.length) :
    (∀ built, buildEnvelopes host cc events out = some built →
      (built.ret = -1 ∨ WellBuilt host kp (agentId host cc) events built ↔
        ∀ m, Stops host kp (agentId host cc) out.length 1 0 events m →
          (batchText host kp (agentId host cc) (events.take m)).length % 2 ^ 32 = 2 ^ 32 - 1 ∨
          ((batchText host kp (agentId host cc) (events.take m)).length < out.length ∧
            (batchText host kp (agentId host cc) (events.take m)).length < 2 ^ 31 ∧
            FirstFits (agentId host cc) events))) ∧
    ((∀ payload, (sigText host kp payload).isSome) → out.length = 262144 →
      ((∃ built, buildEnvelopes host cc events out = some built ∧
          Complete host kp (agentId host cc) events built) ↔
        (∀ e ∈ events, Fits (agentId host cc) e ∧
          (envelopeOf host kp (agentId host cc) e).length < envSize) ∧
        (batchText host kp (agentId host cc) events).length < 262144)) := by
  refine ⟨fun built hbuild => ?_, fun hsig hsize => ?_⟩
  · obtain ⟨m, hstops, -, -, hret, -⟩ := buildEnvelopes_run hcap hload rfl hbuild
    rw [wellBuilt_iff hcap hload rfl hbuild hstops, hret, ofNat_eq_neg_one_iff]
    constructor
    · intro h k hk
      obtain rfl := hstops.unique hk
      exact h
    · exact fun h => h m hstops
  · rw [complete_iff hcap hload rfl hsig, hsize]
    constructor
    · exact fun h => ⟨h.1, h.2.1⟩
    · exact fun h => ⟨h.1, h.2, by omega⟩

/-- OpenSSL as far as one payload needs it: the author's signature over that payload. -/
def evpSigning (sig : Signature) : Evp where
  sha256 := fun _ =>
    hexBytes 32 "e3b0c44298fc1c149afbf4c8996fb92427ae41e4649b934ca495991b7852b855"
  encodeBlock := fun src n => Base64.encode (src.take n.toInt.toNat)
  decodeBlock := fun text n => Base64.decode (text.take n.toInt.toNat)
  ed25519 :=
    { sign := fun sk _ => if sk = authorKeys.seckey then some sig else none
      verify := fun pk _ s => decide (pk = authorKeys.pubkey ∧ s = sig) }

def reportingHost (sig : Signature) (hostname : CString) : Host where
  evp := evpSigning sig
  keystoreLoad := fun dir name =>
    if dir = asc "/etc/packetsonded/keys" ∧ name = asc "agent" then some authorKeys else none
  hostname := some hostname

def plainConfig : CentralConfig := ⟨some ⟨asc "https://central.example", by decide⟩, none, none⟩

def emptyEvent : CString := ⟨asc "\x7b\x7d", by decide⟩

theorem keystoreLoad_reportingHost (sig : Signature) (hostname : CString) :
    (reportingHost sig hostname).keystoreLoad plainConfig.keydir.bytes (asc "agent") =
      some authorKeys := by
  have hkey : plainConfig.keydir.bytes = asc "/etc/packetsonded/keys" ∧ asc "agent" = asc "agent" := by
    decide
  unfold reportingHost
  dsimp only
  rw [if_pos hkey]

theorem sigText_reportingHost_eq (sig : Signature) (hostname : CString) (payload : Bytes) :
    sigText (reportingHost sig hostname) authorKeys payload = some (Base64.encode sig.toList) := by
  have htake : sig.toList.take 64 = sig.toList :=
    take_of_length_le (by rw [Vector.length_toList])
  have hlen : (Base64.encode (sig.toList.take 64)).length < 128 := by
    rw [Base64.length_encode, length_take, Vector.length_toList]
    decide
  have hb64 : b64 (evpSigning sig) sig = some (Base64.encode (sig.toList.take 64)) := if_pos hlen
  unfold sigText
  show (if authorKeys.seckey = authorKeys.seckey then some sig else none).bind _ = _
  rw [if_pos rfl]
  show b64 (evpSigning sig) sig = _
  rw [hb64, htake]

theorem sigText_reportingHost (sig : Signature) (hostname : CString) (payload : Bytes) :
    (sigText (reportingHost sig hostname) authorKeys payload).isSome := by
  rw [sigText_reportingHost_eq]
  rfl

def edgeId : CString := ⟨asc "edge-1", by decide⟩

def collectTime : CString := ⟨asc "2026-06-13T09:30:00Z", by decide⟩

/-- The event `{}` reported by `edge-1`. -/
def edgeHost : Host :=
  reportingHost
    (hexBytes 64 ("ee10f4496fe2baa65116c8fd964c5d76e81686d80cc35a52ff811827dd813bb2" ++
      "66295c9215d9617471a13265c8d8c7f710361226cbf7524e2339336ce9a50206"))
    edgeId

def connEvent : CString := ⟨asc "\x7b\"kind\":\"conn\"\x7d", by decide⟩

def twoEvents : List CString := [connEvent, emptyEvent]

theorem two_events_built :
    ∃ built, buildEnvelopes edgeHost plainConfig twoEvents (List.replicate 262144 0) = some built ∧
      Complete edgeHost authorKeys (agentId edgeHost plainConfig) twoEvents built ∧
      (built.ret = -1 ∨
        WellBuilt edgeHost authorKeys (agentId edgeHost plainConfig) twoEvents built) := by
  have hlen : (List.replicate 262144 (0 : UInt8)).length = 262144 := length_replicate
  obtain ⟨hwell, hcomplete⟩ := @batch_built_iff edgeHost plainConfig authorKeys twoEvents
    (List.replicate 262144 0) (keystoreLoad_reportingHost _ _) (by rw [hlen]; decide)
  have hsize : (batchText edgeHost authorKeys (agentId edgeHost plainConfig) twoEvents).length =
      496 := by decide +kernel
  have htext := hsize.trans_lt (show 496 < 262144 by decide)
  have henv : ∀ e ∈ twoEvents, Fits (agentId edgeHost plainConfig) e ∧
      (envelopeOf edgeHost authorKeys (agentId edgeHost plainConfig) e).length < envSize := by
    decide +kernel
  obtain ⟨built, hbuild, hall⟩ := (hcomplete (sigText_reportingHost _ _) hlen).mpr ⟨henv, htext⟩
  refine ⟨built, hbuild, hall, (hwell built hbuild).mpr fun m hstops => Or.inr ?_⟩
  obtain rfl := hstops.eq_length (fun e he => (henv e he).1) (by rw [hlen]; exact htext)
  rw [take_length, hlen]
  refine ⟨htext, ?_, Or.inl fun e he => (henv e (mem_of_mem_head? he)).1⟩
  rw [hsize]
  decide

def longNameHost : Host :=
  reportingHost
    (hexBytes 64 ("e5653ad06d2076af8568e4f4fda88f8945c058f070ee36565d21f29ecbabf3fc" ++
      "acfed2c26109c3d51193fa590f544a2cad37517b9ea0e8be7343866124d94a01"))
    ⟨asc "edge-07.example.net", by decide⟩

/-- An event whose only member is a string of `n` backslashes. -/
def backslashEvent (n : Nat) : CString where
  bytes := asc "\x7b\"m\":\"" ++ List.replicate n 92 ++ asc "\"\x7d"
  noNul := by
    have hopen : (0 : UInt8) ∉ asc "\x7b\"m\":\"" := by decide
    have hclose : (0 : UInt8) ∉ asc "\"\x7d" := by decide
    simp [hopen, hclose, mem_replicate]

/-- Escaping doubles the backslashes, in every envelope. -/
theorem length_backslash_batch (host : Host) (kp : Keypair) (id : CString) (n k : Nat) (i : Nat)
    (hfits : Fits id (backslashEvent n)) :
    k * (2 * n) ≤ (pieces host kp id i (List.replicate k (backslashEvent n))).flatten.length := by
  have hquote : 2 * n ≤ (envelopeOf host kp id (backslashEvent n)).length := by
    have hslash : ((List.replicate n (92 : UInt8)).flatMap PsJson.quoteChar).length = 2 * n := by
      rw [flatMap_replicate]
      simp [show PsJson.quoteChar 92 = [92, 92] by decide]
      omega
    unfold envelopeOf envelopeText PsJson.quote payloadOf payloadText
    simp only [length_append, length_cons, flatMap_append]
    show _ ≤ _
    simp only [backslashEvent, flatMap_append, length_append, hslash]
    omega
  induction k generalizing i with
  | zero => simp
  | succ k ih =>
    rw [replicate_succ, pieces_cons hfits, flatten_cons, length_append,
      length_append]
    have hrest := ih (i + 1)
    rw [Nat.succ_mul]
    omega

/-- With a buffer of 256 bytes, one event is enough to write behind it. And of 50 items of 4000 bytes
not all fit the buffer of the caller. -/
theorem batch_overruns_buffer :
    (∃ built, buildEnvelopes longNameHost plainConfig [emptyEvent] (List.replicate 256 0) =
        some built ∧ ¬ built.out.InBounds ∧ built.ret = 266) ∧
    (backslashEvent 3992).bytes.length < 4096 ∧
    ¬ ∃ built, buildEnvelopes edgeHost plainConfig (List.replicate 50 (backslashEvent 3992))
        (List.replicate 262144 0) = some built ∧
      Complete edgeHost authorKeys (agentId edgeHost plainConfig)
        (List.replicate 50 (backslashEvent 3992)) built := by
  refine ⟨?_, ?_, ?_⟩
  · have hsize : (batchText longNameHost authorKeys (agentId longNameHost plainConfig)
        [emptyEvent]).length = 266 := by decide +kernel
    have hsealed : Sealed longNameHost authorKeys (agentId longNameHost plainConfig) emptyEvent :=
      ⟨sigText_reportingHost _ _ _, by decide +kernel⟩
    have hload : longNameHost.keystoreLoad plainConfig.keydir.bytes (asc "agent") = some authorKeys :=
      keystoreLoad_reportingHost _ _
    obtain ⟨built, hbuild⟩ := @exists_buildEnvelopes longNameHost authorKeys _ plainConfig [emptyEvent]
      (List.replicate 256 0) hload rfl fun e he _ => mem_singleton.mp he ▸ hsealed
    obtain ⟨m, hstops, -, hin, hret, -⟩ :=
      buildEnvelopes_run (by rw [length_replicate]) hload rfl hbuild
    -- the first turn is made in any case
    have hone : m = 1 := by
      have hle : m ≤ 1 := hstops.le
      have hfull : m = 0 → ¬ m < 1 := by
        rintro rfl hm
        exact absurd (hstops.full hm) (by rw [length_replicate]; decide)
      omega
    rw [hone, take_succ_cons, take_zero, hsize] at hin hret
    rw [length_replicate] at hin
    refine ⟨built, hbuild, ?_, hret⟩
    rw [hin]
    decide
  · show (_ ++ List.replicate 3992 (92 : UInt8) ++ _).length < 4096
    rw [length_append, length_append, length_replicate]
    decide
  · have hlen : (List.replicate 262144 (0 : UInt8)).length = 262144 := length_replicate
    have hload : edgeHost.keystoreLoad plainConfig.keydir.bytes (asc "agent") = some authorKeys :=
      keystoreLoad_reportingHost _ _
    rw [complete_iff (by rw [hlen]; decide) hload rfl (sigText_reportingHost _ _), hlen,
      length_batchText]
    rintro ⟨heach, hlt, -⟩
    have hfits := (heach (backslashEvent 3992) (mem_replicate.mpr ⟨by decide, rfl⟩)).1
    have hsize := length_backslash_batch edgeHost authorKeys (agentId edgeHost plainConfig) 3992 50 0
      hfits
    omega

end Packetsonde.Central
