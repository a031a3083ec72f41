import Packetsonde.Lib.Bytes

/-!
# Agent frames (`agent_proto.c`)

A frame is a four-byte length and a JSON payload. `ps_ap_read_frame` and `ps_ap_write_frame` work
over two callbacks that may transfer fewer bytes than they are asked for; `ReadsChunks` and
`WritesChunks` say what is known of the callbacks, with the chunk sizes left open.

What a rejected frame leaves behind depends on the check that failed: a payload that is too long is
not read (`readFrame_tooLong`), one that is no JSON object is (`readFrame_fits`). Every caller gives
up the connection at the first error, and up to there the reader is always at the start of a frame
(`session_frames`).
-/

namespace Packetsonde.Agent

open Packetsonde.Lib
open List

variable {σ : Type}

/-- `PS_AP_ERR_*`. -/
inductive ApErr where
  | eof
  | io
  | oversize
  | short
  | badJson
  deriving DecidableEq, Repr

/-- `struct ps_ap_io`. A negative return value is `none`. -/
structure ApIo (σ : Type) where
  /-- The bytes that were read, at most as many as asked for; no bytes at the end. -/
  read : σ → Nat → Option Bytes × σ
  /-- How many of the bytes were taken. -/
  write : σ → Bytes → Option Nat × σ

/-! ## The loops -/

/-- `io_read_all`, for `n` bytes. A round that goes on has read at least one, so there are no more
than `n` rounds. -/
def ioReadRounds (io : ApIo σ) : Nat → Nat → σ → Except ApErr Bytes × σ
  | 0, _, s => (.ok [], s)
  | fuel + 1, n, s =>
    if n = 0 then (.ok [], s)
    else
      match io.read s n with
      | (none, s') => (.error .io, s')
      | (some [], s') => (.error .eof, s')
      | (some bs, s') =>
        match ioReadRounds io fuel (n - bs.length) s' with
        | (.ok rest, s'') => (.ok (bs ++ rest), s'')
        | (.error e, s'') => (.error e, s'')

def ioReadAll (io : ApIo σ) (n : Nat) (s : σ) : Except ApErr Bytes × σ := ioReadRounds io n n s

/-- `io_write_all`, with as many rounds as there are bytes. -/
def ioWriteRounds (io : ApIo σ) : Nat → Bytes → σ → Except ApErr Unit × σ
  | 0, _, s => (.ok (), s)
  | fuel + 1, bs, s =>
    if bs.isEmpty then (.ok (), s)
    else
      match io.write s bs with
      | (none, s') => (.error .io, s')
      | (some 0, s') => (.error .io, s')
      | (some w, s') => ioWriteRounds io fuel (bs.drop w) s'

def ioWriteAll (io : ApIo σ) (bs : Bytes) (s : σ) : Except ApErr Unit × σ :=
  ioWriteRounds io bs.length bs s

/-! ## Frames -/

/-- `PS_AGENT_FRAME_MAX`. -/
def agentFrameMax : Nat := 1024 * 1024

/-- `ps_ap_read_frame` with a buffer of `cap` bytes. -/
def readFrame (io : ApIo σ) (cap : Nat) (s : σ) : Except ApErr Bytes × σ :=
  match ioReadAll io 4 s with
  | (.error e, s₁) => (.error e, s₁)
  | (.ok hdr, s₁) =>
    let len := getBE hdr
    if len > agentFrameMax then (.error .oversize, s₁)
    else if len > cap then (.error .short, s₁)
    else
      match ioReadAll io len s₁ with
      | (.error e, s₂) => (.error e, s₂)
      | (.ok payload, s₂) =>
        if len < 2 ∨ payload.head? ≠ some 123 then (.error .badJson, s₂) else (.ok payload, s₂)

/-- `ps_ap_write_frame`. -/
def writeFrame (io : ApIo σ) (payload : Bytes) (s : σ) : Except ApErr Unit × σ :=
  if payload.length > agentFrameMax then (.error .oversize, s)
  else
    match ioWriteAll io (putBE 4 payload.length) s with
    | (.error e, s₁) => (.error e, s₁)
    | (.ok (), s₁) => ioWriteAll io payload s₁

def frame (payload : Bytes) : Bytes := putBE 4 payload.length ++ payload

def wire (payloads : List Bytes) : Bytes := payloads.flatMap frame

/-! ## Callbacks that transfer in chunks -/

/-- `read` hands out the pending bytes in chunks of positive size, then none. -/
structure ReadsChunks (io : ApIo σ) (pending : σ → Bytes) : Prop where
  eof : ∀ s n, pending s = [] → ∃ s', io.read s n = (some [], s') ∧ pending s' = []
  chunk : ∀ s n, pending s ≠ [] → 0 < n → ∃ k s', 0 < k ∧ k ≤ n ∧ k ≤ (pending s).length ∧
    io.read s n = (some ((pending s).take k), s') ∧ pending s' = (pending s).drop k

/-- `write` takes a positive number of the bytes it is given, and sends them. -/
structure WritesChunks (io : ApIo σ) (sent : σ → Bytes) : Prop where
  chunk : ∀ s bs, bs ≠ [] → ∃ k s', 0 < k ∧ k ≤ bs.length ∧ io.write s bs = (some k, s') ∧
    sent s' = sent s ++ bs.take k

variable {fuel n : Nat}

theorem ioReadRounds_ok {io : ApIo σ} {pending : σ → Bytes} (h : ReadsChunks io pending) {s : σ}
    (hfuel : n ≤ fuel) (hn : n ≤ (pending s).length) :
    ∃ s', ioReadRounds io fuel n s = (.ok ((pending s).take n), s') ∧
      pending s' = (pending s).drop n := by
  induction fuel generalizing n s with
  | zero =>
    obtain rfl : n = 0 := by omega
    exact ⟨s, rfl, rfl⟩
  | succ fuel ih =>
    unfold ioReadRounds
    split
    · rename_i hzero
      subst hzero
      exact ⟨s, rfl, rfl⟩
    · rename_i hpos
      have hne : pending s ≠ [] := by
        intro hnil
        rw [hnil, length_nil] at hn
        omega
      obtain ⟨k, s₁, hk, hkn, hklen, hread, hdrop⟩ := h.chunk s n hne (by omega)
      have hlen : ((pending s).take k).length = k := length_take_of_le hklen
      have hleft : n - k ≤ (pending s₁).length := by
        rw [hdrop, length_drop]
        omega
      obtain ⟨s₂, hrest, hpending⟩ := ih (by omega) hleft
      refine ⟨s₂, ?_, ?_⟩
      · rw [hread]
        cases hchunk : (pending s).take k with
        | nil =>
          rw [hchunk, length_nil] at hlen
          omega
        | cons c cs =>
          dsimp only
          rw [← hchunk, hlen, hrest, hdrop]
          dsimp only
          rw [show n = k + (n - k) by omega, take_add, Nat.add_sub_cancel_left]
      · rw [hpending, hdrop, drop_drop, show k + (n - k) = n by omega]

/-- All `n` bytes are read when they are there, whatever the chunks. -/
theorem ioReadAll_ok {io : ApIo σ} {pending : σ → Bytes} (h : ReadsChunks io pending)
    {s : σ} {front rest : Bytes} (hpending : pending s = front ++ rest) (hn : front.length = n) :
    ∃ s', ioReadAll io n s = (.ok front, s') ∧ pending s' = rest := by
  have hle : n ≤ (pending s).length := by
    rw [hpending, length_append]
    omega
  obtain ⟨s', hread, hdrop⟩ := ioReadRounds_ok h (Nat.le_refl n) hle
  rw [hpending, take_left' hn] at hread
  rw [hpending, drop_left' hn] at hdrop
  exact ⟨s', hread, hdrop⟩

theorem ioReadAll_eof {io : ApIo σ} {pending : σ → Bytes} (h : ReadsChunks io pending)
    {s : σ} (hpending : pending s = []) :
    ∃ s', ioReadAll io (n + 1) s = (.error .eof, s') ∧ pending s' = [] := by
  obtain ⟨s', hread, hnil⟩ := h.eof s (n + 1) hpending
  refine ⟨s', ?_, hnil⟩
  unfold ioReadAll ioReadRounds
  rw [if_neg (Nat.succ_ne_zero n), hread]

theorem ioWriteRounds_ok {io : ApIo σ} {sent : σ → Bytes} (h : WritesChunks io sent) {bs : Bytes} {s : σ}
    (hfuel : bs.length ≤ fuel) :
    ∃ s', ioWriteRounds io fuel bs s = (.ok (), s') ∧ sent s' = sent s ++ bs := by
  induction fuel generalizing bs s with
  | zero =>
    obtain rfl : bs = [] := length_eq_zero_iff.mp (by omega)
    exact ⟨s, rfl, (append_nil _).symm⟩
  | succ fuel ih =>
    unfold ioWriteRounds
    cases bs with
    | nil => exact ⟨s, rfl, (append_nil _).symm⟩
    | cons c cs =>
      obtain ⟨k, s₁, hk, hklen, hwrite, hsent⟩ := h.chunk s (c :: cs) (cons_ne_nil c cs)
      have hleft : ((c :: cs).drop k).length ≤ fuel := by
        rw [length_drop]
        omega
      obtain ⟨s₂, hrest, hall⟩ := ih (s := s₁) hleft
      refine ⟨s₂, ?_, ?_⟩
      · rw [if_neg (by simp), hwrite]
        cases k with
        | zero => omega
        | succ k => exact hrest
      · rw [hall, hsent, append_assoc, take_append_drop]

theorem ioWriteAll_ok {io : ApIo σ} {sent : σ → Bytes} (h : WritesChunks io sent) (bs : Bytes)
    (s : σ) : ∃ s', ioWriteAll io bs s = (.ok (), s') ∧ sent s' = sent s ++ bs :=
  ioWriteRounds_ok h (Nat.le_refl _)

/-! ## One frame -/

/-- What a reader with a buffer of `cap` bytes has against a payload. -/
def reject (cap : Nat) (payload : Bytes) : Option ApErr :=
  if payload.length > agentFrameMax then some .oversize
  else if payload.length > cap then some .short
  else if payload.length < 2 ∨ payload.head? ≠ some 123 then some .badJson
  else none

theorem writeFrame_ok {io : ApIo σ} {sent : σ → Bytes} (h : WritesChunks io sent) {payload : Bytes}
    (hlen : payload.length ≤ agentFrameMax) (s : σ) :
    ∃ s', writeFrame io payload s = (.ok (), s') ∧ sent s' = sent s ++ frame payload := by
  obtain ⟨s₁, hhdr, hsent₁⟩ := ioWriteAll_ok h (putBE 4 payload.length) s
  obtain ⟨s₂, hbody, hsent₂⟩ := ioWriteAll_ok h payload s₁
  refine ⟨s₂, ?_, ?_⟩
  · unfold writeFrame
    rw [if_neg (by omega), hhdr]
    exact hbody
  · rw [hsent₂, hsent₁, append_assoc]
    rfl

section Reading

variable {io : ApIo σ} {pending : σ → Bytes}

variable {payload rest : Bytes} {cap : Nat}

variable (h : ReadsChunks io pending)

include h

/-- The header of a frame is its payload's length. -/
theorem readFrame_header {s : σ}
    (hsize : payload.length < 2 ^ 32) (hs : pending s = frame payload ++ rest) :
    ∃ s₁, ioReadAll io 4 s = (.ok (putBE 4 payload.length), s₁) ∧
      pending s₁ = payload ++ rest ∧ getBE (putBE 4 payload.length) = payload.length := by
  rw [frame, append_assoc] at hs
  obtain ⟨s₁, hread, hpending⟩ := ioReadAll_ok h hs (putBE_length 4 _)
  exact ⟨s₁, hread, hpending, getBE_putBE_of_lt hsize⟩

/-- A payload that is too long stays in the stream. -/
theorem readFrame_tooLong {s : σ}
    (hsize : payload.length < 2 ^ 32) (hs : pending s = frame payload ++ rest)
    (hlong : ¬ (payload.length ≤ agentFrameMax ∧ payload.length ≤ cap)) :
    ∃ e s', reject cap payload = some e ∧ readFrame io cap s = (.error e, s') ∧
      pending s' = payload ++ rest := by
  obtain ⟨s₁, hread, hpending, hlen⟩ := readFrame_header h hsize hs
  unfold reject readFrame
  rw [hread]
  dsimp only
  rw [hlen]
  by_cases hmax : payload.length > agentFrameMax
  · rw [if_pos hmax, if_pos hmax]
    exact ⟨.oversize, s₁, rfl, rfl, hpending⟩
  · have hcap : payload.length > cap := by omega
    rw [if_neg hmax, if_neg hmax, if_pos hcap, if_pos hcap]
    exact ⟨.short, s₁, rfl, rfl, hpending⟩

/-- A payload that fits is read, and judged by its first byte. -/
theorem readFrame_fits {s : σ}
    (hmax : payload.length ≤ agentFrameMax) (hcap : payload.length ≤ cap)
    (hs : pending s = frame payload ++ rest) :
    ∃ s', readFrame io cap s =
        ((match reject cap payload with | some e => .error e | none => .ok payload), s') ∧
      pending s' = rest := by
  have hsize : payload.length < 2 ^ 32 := by
    unfold agentFrameMax at hmax
    omega
  obtain ⟨s₁, hread, hpending, hlen⟩ := readFrame_header h hsize hs
  obtain ⟨s₂, hbody, hrest⟩ := ioReadAll_ok h hpending rfl
  refine ⟨s₂, ?_, hrest⟩
  unfold reject readFrame
  rw [hread]
  dsimp only
  rw [hlen, if_neg (by omega), if_neg (by omega), if_neg (by omega), if_neg (by omega), hbody]
  dsimp only
  split
  · rfl
  · rfl

/-- Whatever the frame, the reader knows what to think of it. -/
theorem readFrame_frame {s : σ} (cap : Nat)
    (hsize : payload.length < 2 ^ 32) (hs : pending s = frame payload ++ rest) :
    ∃ s', readFrame io cap s =
        ((match reject cap payload with | some e => .error e | none => .ok payload), s') ∧
      (reject cap payload = none → pending s' = rest) := by
  by_cases hfits : payload.length ≤ agentFrameMax ∧ payload.length ≤ cap
  · obtain ⟨s', hread, hrest⟩ := readFrame_fits h hfits.1 hfits.2 hs
    exact ⟨s', hread, fun _ => hrest⟩
  · obtain ⟨e, s', hreject, hread, -⟩ := readFrame_tooLong h hsize hs hfits
    refine ⟨s', ?_, ?_⟩
    · rw [hreject, hread]
    · rw [hreject]
      rintro ⟨⟩

theorem readFrame_eof {s : σ} (cap : Nat) (hs : pending s = []) :
    ∃ s', readFrame io cap s = (.error .eof, s') ∧ pending s' = [] := by
  obtain ⟨s', hread, hnil⟩ := ioReadAll_eof h (n := 3) hs
  refine ⟨s', ?_, hnil⟩
  unfold readFrame
  rw [hread]

end Reading

/-! ## Sessions -/

structure Session (σ : Type) where
  payloads : List Bytes
  ended : Option ApErr
  state : σ

/-- The loop around `ps_ap_read_frame` that every caller has (`session_thread`, `ps_remote_run`,
`ps_ingest_via` and the collector): it is left at the first error. `k` calls at most; a caller may
have seen enough before. -/
def session (io : ApIo σ) (cap : Nat) : Nat → σ → Session σ
  | 0, s => ⟨[], none, s⟩
  | k + 1, s =>
    match readFrame io cap s with
    | (.error e, s') => ⟨[], some e, s'⟩
    | (.ok payload, s') =>
      let tail := session io cap k s'
      ⟨payload :: tail.payloads, tail.ended, tail.state⟩

/-- `ps_ap_write_frame`, payload after payload, up to the first error. -/
def writeFrames (io : ApIo σ) : List Bytes → σ → Except ApErr Unit × σ
  | [], s => (.ok (), s)
  | payload :: rest, s =>
    match writeFrame io payload s with
    | (.error e, s') => (.error e, s')
    | (.ok (), s') => writeFrames io rest s'

/-- The payloads in front of the first one that is rejected. -/
def accepted (cap : Nat) (payloads : List Bytes) : List Bytes :=
  payloads.takeWhile fun p => (reject cap p).isNone

/-- What ends a session that has gone through those: the first rejection, or the end. -/
def verdict (cap : Nat) (payloads : List Bytes) : ApErr :=
  match payloads.find? fun p => (reject cap p).isSome with
  | some p => (reject cap p).getD .eof
  | none => .eof

variable {cap : Nat} {p : Bytes} {payloads : List Bytes}

theorem accepted_cons_of_reject {e : ApErr} (h : reject cap p = some e)
    (payloads : List Bytes) : accepted cap (p :: payloads) = [] ∧ verdict cap (p :: payloads) = e := by
  simp [accepted, verdict, h]

theorem accepted_cons_of_none (h : reject cap p = none)
    (payloads : List Bytes) : accepted cap (p :: payloads) = p :: accepted cap payloads ∧
      verdict cap (p :: payloads) = verdict cap payloads := by
  simp [accepted, verdict, h]

/-- A session goes through the accepted payloads and ends at the first other one. Before each of its
calls the stream is at the start of a frame. -/
theorem session_frames {io : ApIo σ} {pending : σ → Bytes} (h : ReadsChunks io pending) (cap : Nat)
    (hsize : ∀ p ∈ payloads, p.length < 2 ^ 32) (k : Nat) {s : σ}
    (hs : pending s = wire payloads) :
    (session io cap k s).payloads = (accepted cap payloads).take k ∧
      (k ≤ (accepted cap payloads).length → (session io cap k s).ended = none ∧
        pending (session io cap k s).state = wire (payloads.drop k)) ∧
      ((accepted cap payloads).length < k →
        (session io cap k s).ended = some (verdict cap payloads)) := by
  induction k generalizing payloads s with
  | zero => exact ⟨rfl, fun _ => ⟨rfl, hs⟩, fun hlt => absurd hlt (Nat.not_lt_zero _)⟩
  | succ k ih =>
    unfold session
    cases payloads with
    | nil =>
      obtain ⟨s', hread, -⟩ := readFrame_eof h cap hs
      rw [hread]
      exact ⟨rfl, fun hle => absurd hle (Nat.not_succ_le_zero k), fun _ => rfl⟩
    | cons p payloads =>
      obtain ⟨s', hread, hrest⟩ := readFrame_frame h cap (hsize p mem_cons_self) hs
      cases hreject : reject cap p with
      | some e =>
        obtain ⟨haccepted, hverdict⟩ := accepted_cons_of_reject hreject payloads
        rw [hread, hreject, haccepted, hverdict]
        exact ⟨rfl, fun hle => absurd hle (Nat.not_succ_le_zero k), fun _ => rfl⟩
      | none =>
        obtain ⟨haccepted, hverdict⟩ := accepted_cons_of_none hreject payloads
        obtain ⟨hpayloads, hopen, hended⟩ :=
          ih (fun q hq => hsize q (mem_cons_of_mem p hq)) (hrest hreject)
        rw [hread, hreject, haccepted, hverdict]
        refine ⟨?_, fun hle => ?_, fun hlt => ?_⟩
        · exact congrArg (p :: ·) hpayloads
        · exact hopen (Nat.le_of_succ_le_succ hle)
        · exact hended (Nat.lt_of_succ_lt_succ hlt)

theorem writeFrames_ok {io : ApIo σ} {sent : σ → Bytes} (h : WritesChunks io sent)
    (hlen : ∀ p ∈ payloads, p.length ≤ agentFrameMax) (s : σ) :
    ∃ s', writeFrames io payloads s = (.ok (), s') ∧ sent s' = sent s ++ wire payloads := by
  induction payloads generalizing s with
  | nil => exact ⟨s, rfl, (append_nil _).symm⟩
  | cons p payloads ih =>
    obtain ⟨s₁, hwrite, hsent₁⟩ := writeFrame_ok h (hlen p mem_cons_self) s
    obtain ⟨s₂, hrest, hsent₂⟩ := ih (fun q hq => hlen q (mem_cons_of_mem p hq)) s₁
    refine ⟨s₂, ?_, ?_⟩
    · unfold writeFrames
      rw [hwrite]
      exact hrest
    · rw [hsent₂, hsent₁, append_assoc]
      rfl

/-! ## A pipe in memory -/

/-- Bytes in memory, transferred at most `k + 1` at a time. -/
def pipe (k : Nat) : ApIo Bytes where
  read s n := (some (s.take (min n (k + 1))), s.drop (min n (k + 1)))
  write s bs := (some (min bs.length (k + 1)), s ++ bs.take (k + 1))

theorem pipe_reads (k : Nat) : ReadsChunks (pipe k) id where
  eof := by
    rintro s n rfl
    exact ⟨[], by simp [pipe], rfl⟩
  chunk := by
    intro s n hne hn
    have hpos : 0 < s.length := length_pos_iff.mpr hne
    have htake : s.take (min n (k + 1)) = s.take (min (min n (k + 1)) s.length) := by
      rw [Nat.min_comm, take_eq_take_iff]
      omega
    have hdrop : s.drop (min n (k + 1)) = s.drop (min (min n (k + 1)) s.length) := by
      by_cases hle : min n (k + 1) ≤ s.length
      · rw [Nat.min_eq_left hle]
      · rw [drop_of_length_le (by omega), drop_of_length_le (by omega)]
    refine ⟨min (min n (k + 1)) s.length, _, by omega, by omega, Nat.min_le_right _ _, ?_, rfl⟩
    show (some (s.take (min n (k + 1))), s.drop (min n (k + 1))) = _
    rw [htake, hdrop]
    rfl

theorem pipe_writes (k : Nat) : WritesChunks (pipe k) id where
  chunk := by
    intro s bs hne
    have hpos : 0 < bs.length := length_pos_iff.mpr hne
    refine ⟨min bs.length (k + 1), _, by omega, Nat.min_le_left _ _, rfl, ?_⟩
    show s ++ bs.take (k + 1) = s ++ bs.take (min bs.length (k + 1))
    congr 1
    rw [take_eq_take_iff]
    omega

/-! ## The transport -/

theorem accepted_eq_self (h : ∀ p ∈ payloads, 2 ≤ p.length ∧ p.length ≤ agentFrameMax ∧ p.head? = some 123 ∧
      p.length ≤ cap) : accepted cap payloads = payloads := by
  suffices hall : ∀ p ∈ payloads, (reject cap p).isNone = true by
    unfold accepted
    rw [← append_nil payloads, takeWhile_append_of_pos hall, takeWhile_nil]
  intro p hp
  obtain ⟨htwo, hmax, hhead, hcap⟩ := h p hp
  unfold reject
  rw [if_neg (by omega), if_neg (by omega), if_neg]
  · rfl
  · rintro (hlt | hne)
    · omega
    · exact hne hhead

/-- Frames written in any chunks and read in any chunks arrive whole and in order. Whatever frames a
stream holds and however small the reader's buffer is, a session only ever calls
`ps_ap_read_frame` at the start of a frame: it is over with the first frame that is rejected. -/
theorem frames_arrive_or_end_session {σ τ : Type} {out : ApIo σ} {sent : σ → Bytes} {inp : ApIo τ}
    {pending : τ → Bytes} (hout : WritesChunks out sent) (hin : ReadsChunks inp pending)
    (cap : Nat) (payloads : List Bytes) :
    ((∀ p ∈ payloads, 2 ≤ p.length ∧ p.length ≤ agentFrameMax ∧ p.head? = some 123 ∧
        p.length ≤ cap) →
      ∀ w, ∃ w', writeFrames out payloads w = (.ok (), w') ∧
        ∀ r, sent w ++ pending r = sent w' →
          (session inp cap payloads.length r).payloads = payloads ∧
          (session inp cap payloads.length r).ended = none ∧
          pending (session inp cap payloads.length r).state = []) ∧
    ((∀ p ∈ payloads, p.length < 2 ^ 32) → ∀ k r, pending r = wire payloads →
      (session inp cap k r).payloads = (accepted cap payloads).take k ∧
      (k ≤ (accepted cap payloads).length → (session inp cap k r).ended = none ∧
        pending (session inp cap k r).state = wire (payloads.drop k)) ∧
      ((accepted cap payloads).length < k →
        (session inp cap k r).ended = some (verdict cap payloads))) := by
  refine ⟨fun hgood w => ?_, fun hsize k r hr => session_frames hin cap hsize k hr⟩
  have hsize : ∀ p ∈ payloads, p.length < 2 ^ 32 := by
    intro p hp
    have hmax := (hgood p hp).2.1
    unfold agentFrameMax at hmax
    omega
  obtain ⟨w', hwrite, hsent⟩ := writeFrames_ok hout (fun p hp => (hgood p hp).2.1) w
  refine ⟨w', hwrite, fun r hr => ?_⟩
  rw [hsent] at hr
  obtain ⟨hpayloads, hopen, -⟩ :=
    session_frames hin cap hsize payloads.length (append_cancel_left hr)
  rw [accepted_eq_self hgood] at hpayloads hopen
  obtain ⟨hended, hstate⟩ := hopen (Nat.le_refl _)
  refine ⟨by rw [hpayloads, take_length], hended, ?_⟩
  rw [hstate, drop_length]
  rfl

theorem two_frames_bytewise :
    WritesChunks (pipe 0) id ∧ ReadsChunks (pipe 2) id ∧
      ∃ w', writeFrames (pipe 0) [asc "\x7b\x7d", asc "\x7b\"a\":1\x7d"] [] = (.ok (), w') ∧
        (session (pipe 2) 16 2 w').payloads = [asc "\x7b\x7d", asc "\x7b\"a\":1\x7d"] := by
  refine ⟨pipe_writes 0, pipe_reads 2, ?_⟩
  obtain ⟨w', hwrite, hread⟩ := (frames_arrive_or_end_session (pipe_writes 0) (pipe_reads 2) 16
    [asc "\x7b\x7d", asc "\x7b\"a\":1\x7d"]).1 (by decide) []
  exact ⟨w', hwrite, (hread w' rfl).1⟩

/-- A caller that read on after an error would take the rejected payload for frames: here the second
call returns an object that nobody sent. -/
theorem rejected_payload_read_as_frame :
    let sent := wire [[0, 0, 0, 2, 123, 125]]
    (readFrame (pipe 0) 2 sent).1 = .error .short ∧
      (readFrame (pipe 0) 2 (readFrame (pipe 0) 2 sent).2).1 = .ok [123, 125] := by
  decide +kernel

end Packetsonde.Agent
