import Packetsonde.Lib.Chars
import Packetsonde.Lib.Lines

/-!
# Subprocess output (`network_listener.c`, `main.c`)

Two loops of the agent turn what a child process prints into messages, line by line: `run_subprocess`
wraps each line that starts with a brace into a `finding` frame for the session's peer, and
`ps_sweep_drain` broadcasts such lines to the local clients. Both collect lines as `Lib.Lines`
describes it, with one byte of their buffers left unused.

How much a `read` returns is left open (`pick`), and so is which write to the peer fails (`ok`); a
failed write ends `run_subprocess`.
-/

namespace Packetsonde.Agent

open Packetsonde.Lib
open List

/-! ## Reading -/

/-- What a `read` with room for `room` bytes returns of the `avail` that will still come: any
positive number that fits. -/
def readSize (want room avail : Nat) : Nat := max 1 (min want (min room avail))

theorem readSize_spec (want : Nat) {room avail : Nat} (hroom : 0 < room) (havail : 0 < avail) :
    0 < readSize want room avail ∧ readSize want room avail ≤ room ∧
      readSize want room avail ≤ avail := by
  unfold readSize
  omega

/-- `line_len > 0 && line[0] == '{'`. -/
def isFinding (line : Bytes) : Bool := line.head? = some 123

/-- The lines both loops are after: those that start with a brace and fit the buffer with their
newline. -/
def findings (cap : Nat) (stream : Bytes) : List Bytes :=
  (lines stream).filter fun l => isFinding l && decide (l.length < cap)

/-! ## `run_subprocess` -/

def findingFrame (payload : Bytes) : Bytes :=
  asc "\x7b\"type\":\"finding\",\"payload\":" ++ payload ++ asc "\x7d"

/-- The frames given to `ps_ap_write_frame`, and whether the last one failed. -/
structure Sent where
  frames : List Bytes
  failed : Bool
  deriving DecidableEq, Repr

/-- Write a frame; nothing is written after a failure. `ok n` is how the write number `n` goes. -/
def Sent.push (ok : Nat → Bool) (sent : Sent) (frame : Bytes) : Sent :=
  if sent.failed then sent else ⟨sent.frames ++ [frame], !ok sent.frames.length⟩

def upTo (ok : Nat → Bool) (frames : List Bytes) : List Bytes :=
  (frames.foldl (Sent.push ok) ⟨[], false⟩).frames

/-- A complete line. `%.*s` ends at a NUL; the frame has a buffer of 20000 bytes. -/
def forwardLine (ok : Nat → Bool) (sent : Sent) (line : Bytes) : Sent :=
  if isFinding line then
    let frame := findingFrame (cstr line)
    if frame.length < 20000 then sent.push ok frame else sent
  else sent

/-- `sizeof(buf) - 1`. -/
def subprocessCap : Nat := 16384 - 1

/-- The rounds of the read loop, up to the end of the output or a write that fails. -/
def subprocessRounds (pick : Nat → Nat) (ok : Nat → Bool) : Nat → Bytes → Bytes → Sent → Sent
  | 0, _, _, sent => sent
  | fuel + 1, buf, stream, sent =>
    if stream.isEmpty then sent
    else
      let n := readSize (pick fuel) (subprocessCap - buf.length) stream.length
      let fed := feed subprocessCap buf (stream.take n)
      let sent' := fed.1.foldl (forwardLine ok) sent
      if sent'.failed then sent' else subprocessRounds pick ok fuel fed.2 (stream.drop n) sent'

/-- The read loop of `run_subprocess` on the output of the child. Each round reads at least one
byte. -/
def runSubprocess (pick : Nat → Nat) (ok : Nat → Bool) (stream : Bytes) : List Bytes :=
  (subprocessRounds pick ok stream.length [] stream ⟨[], false⟩).frames

/-! ## `ps_sweep_drain` -/

/-- `sizeof(sl->buf) - 1`. -/
def sweepCap : Nat := 65536 - 1

/-- The rounds over a slot; a `read` that would block only ends the tick. A full buffer is thrown
away before the next read, not right after the last. -/
def sweepRounds (pick : Nat → Nat) : Nat → Bytes → Bytes → List Bytes
  | 0, _, _ => []
  | fuel + 1, buf, stream =>
    let buf := if buf.length ≥ sweepCap then [] else buf
    if stream.isEmpty then []
    else
      let n := readSize (pick fuel) (sweepCap - buf.length) stream.length
      let split := splitFrom [] (buf ++ stream.take n)
      split.1.filter isFinding ++ sweepRounds pick fuel split.2 (stream.drop n)

/-- What `ps_sweep_drain` broadcasts of the output of one child. -/
def sweepDrain (pick : Nat → Nat) (stream : Bytes) : List Bytes :=
  sweepRounds pick stream.length [] stream

/-! ## What is forwarded -/

variable {sent : Sent} {fuel cap : Nat} {buf stream : Bytes} {ls : List Bytes}

theorem push_of_failed (h : sent.failed = true) (ok : Nat → Bool) (frame : Bytes) :
    sent.push ok frame = sent := by
  unfold Sent.push
  rw [if_pos h]

theorem forward_of_failed (h : sent.failed = true) (ok : Nat → Bool)
    (ls : List Bytes) : ls.foldl (forwardLine ok) sent = sent := by
  induction ls with
  | nil => rfl
  | cons l ls ih =>
    have hstep : forwardLine ok sent l = sent := by
      unfold forwardLine
      dsimp only
      rw [push_of_failed h]
      split
      · split <;> rfl
      · rfl
    rw [foldl_cons, hstep, ih]

variable (pick : Nat → Nat)

/-- However the output is read, its pieces are forwarded in order. -/
theorem subprocessRounds_eq (ok : Nat → Bool)
    (sent : Sent) (hbuf : (10 : UInt8) ∉ buf) (hlt : buf.length < subprocessCap)
    (hfuel : stream.length ≤ fuel) :
    subprocessRounds pick ok fuel buf stream sent =
      (pieces subprocessCap buf stream).1.foldl (forwardLine ok) sent := by
  induction fuel generalizing buf stream sent with
  | zero =>
    have hnil : stream = [] := length_eq_zero_iff.mp (by omega)
    subst hnil
    rfl
  | succ fuel ih =>
    unfold subprocessRounds
    split
    · rename_i hempty
      rw [List.isEmpty_iff.mp hempty]
      rfl
    · rename_i hne
      have hpos : 0 < stream.length := by
        apply length_pos_iff.mpr
        simpa using hne
      dsimp only
      have hroom : 0 < subprocessCap - buf.length := by omega
      obtain ⟨hn, hle, havail⟩ := readSize_spec (pick fuel) hroom hpos
      generalize readSize (pick fuel) (subprocessCap - buf.length) stream.length = n at *
      have hchunk : (stream.take n).length = n := length_take_of_le havail
      have hfed : feed subprocessCap buf (stream.take n) =
          pieces subprocessCap buf (stream.take n) := feed_eq_pieces hbuf hlt (by omega)
      have hsplit := pieces_append subprocessCap buf (stream.take n) (stream.drop n)
      rw [take_append_drop] at hsplit
      rw [hfed, hsplit, foldl_append]
      split
      · rename_i hfailed
        rw [forward_of_failed hfailed]
      · apply ih
        · exact pieces_buf_no_newline hbuf _
        · exact pieces_buf_lt (by decide) hlt _
        · rw [length_drop]
          omega

/-- The same for the sweep, whose buffer may still be full at the start of a round. -/
theorem sweepRounds_eq (hbuf : (10 : UInt8) ∉ buf) (hfuel : stream.length ≤ fuel) :
    sweepRounds pick fuel buf stream =
      (pieces sweepCap (if buf.length ≥ sweepCap then [] else buf) stream).1.filter isFinding := by
  induction fuel generalizing buf stream with
  | zero =>
    have hnil : stream = [] := length_eq_zero_iff.mp (by omega)
    subst hnil
    rfl
  | succ fuel ih =>
    unfold sweepRounds
    dsimp only
    generalize hkept : (if buf.length ≥ sweepCap then [] else buf) = kept
    have hlt : kept.length < sweepCap := by
      rw [← hkept]
      split
      · decide
      · omega
    have hclean : (10 : UInt8) ∉ kept := by
      rw [← hkept]
      split
      · exact not_mem_nil
      · exact hbuf
    split
    · rename_i hempty
      rw [List.isEmpty_iff.mp hempty]
      rfl
    · rename_i hne
      have hpos : 0 < stream.length := by
        apply length_pos_iff.mpr
        simpa using hne
      have hroom : 0 < sweepCap - kept.length := by omega
      obtain ⟨hn, hle, havail⟩ := readSize_spec (pick fuel) hroom hpos
      generalize readSize (pick fuel) (sweepCap - kept.length) stream.length = n at *
      have hchunk : (stream.take n).length = n := length_take_of_le havail
      have hfed : feed sweepCap kept (stream.take n) = pieces sweepCap kept (stream.take n) :=
        feed_eq_pieces hclean hlt (by omega)
      have hsplit := pieces_append sweepCap kept (stream.take n) (stream.drop n)
      rw [take_append_drop, ← hfed] at hsplit
      have hrest := splitFrom_rest_length_le [] (kept ++ stream.take n)
      have hreset : (if (splitFrom [] (kept ++ stream.take n)).2.length ≥ sweepCap then []
          else (splitFrom [] (kept ++ stream.take n)).2) =
          (feed sweepCap kept (stream.take n)).2 := by
        unfold feed
        rw [length_append, length_nil] at hrest
        dsimp only
        congr 1
        apply propext
        omega
      rw [hsplit, filter_append, ih (splitFrom_no_newline not_mem_nil _).2, hreset]
      · rfl
      · rw [length_drop]
        omega

/-! ## Exactly the lines -/

theorem length_findingFrame (payload : Bytes) :
    (findingFrame payload).length = payload.length + 29 := by
  simp only [findingFrame, length_append,
    show (asc "\x7b\"type\":\"finding\",\"payload\":").length = 28 by decide,
    show (asc "\x7d").length = 1 by decide]
  omega

theorem findingFrame_injective {p q : Bytes} (h : findingFrame p = findingFrame q) : p = q := by
  unfold findingFrame at h
  exact append_cancel_left (append_cancel_right h)

/-- Lines that fit go out as frames, so what is forwarded of some lines are the frames of the
findings among them. -/
theorem forward_eq_push (ok : Nat → Bool) (sent : Sent) (h : ∀ l ∈ ls, l.length < subprocessCap) :
    ls.foldl (forwardLine ok) sent =
      ((ls.filter isFinding).map fun l => findingFrame (cstr l)).foldl (Sent.push ok) sent := by
  induction ls generalizing sent with
  | nil => rfl
  | cons l ls ih =>
    obtain ⟨hl, hls⟩ := forall_mem_cons.mp h
    have hframe : (findingFrame (cstr l)).length < 20000 := by
      have hle := length_cstr_le l
      unfold subprocessCap at hl
      rw [length_findingFrame]
      omega
    rw [foldl_cons, ih _ hls, filter_cons]
    unfold forwardLine
    dsimp only
    rw [if_pos hframe]
    split
    · rfl
    · rfl

theorem length_of_mem_tails (hcap : 0 < cap) :
    ∀ l ∈ ls.map (lineTail cap), l.length < cap := by
  intro l hl
  obtain ⟨line, -, rfl⟩ := mem_map.mp hl
  rw [length_lineTail]
  exact Nat.mod_lt _ hcap

/-- `run_subprocess` forwards the tails that look like findings, each cut at a NUL. -/
theorem runSubprocess_eq (ok : Nat → Bool) (stream : Bytes) :
    runSubprocess pick ok stream =
      upTo ok ((((lines stream).map (lineTail subprocessCap)).filter isFinding).map
        fun l => findingFrame (cstr l)) := by
  have hcap : 0 < subprocessCap := by decide
  have hnil : lineTail subprocessCap [] = [] := lineTail_of_lt hcap
  have hpieces := pieces_lines hcap [] stream
  rw [hnil] at hpieces
  unfold runSubprocess
  rw [subprocessRounds_eq pick ok _ not_mem_nil hcap (Nat.le_refl _), hpieces,
    forward_eq_push ok _ (length_of_mem_tails hcap)]
  rfl

theorem sweepDrain_eq (stream : Bytes) :
    sweepDrain pick stream = ((lines stream).map (lineTail sweepCap)).filter isFinding := by
  have hcap : 0 < sweepCap := by decide
  have hnil : lineTail sweepCap [] = [] := lineTail_of_lt hcap
  have hpieces := pieces_lines hcap [] stream
  rw [hnil] at hpieces
  unfold sweepDrain
  rw [sweepRounds_eq pick not_mem_nil (Nat.le_refl _), if_neg (by decide), hpieces]
  rfl

theorem upTo_always (frames : List Bytes) : upTo (fun _ => true) frames = frames := by
  have hall : ∀ done, frames.foldl (Sent.push fun _ => true) ⟨done, false⟩ =
      ⟨done ++ frames, false⟩ := by
    induction frames with
    | nil => exact fun done => by rw [append_nil]; rfl
    | cons frame frames ih =>
      intro done
      rw [foldl_cons]
      exact (ih (done ++ [frame])).trans (by rw [append_assoc]; rfl)
  unfold upTo
  rw [hall, nil_append]

/-- No line that is too long ends in something that looks like a finding. -/
def NoFalseTail (cap : Nat) (stream : Bytes) : Prop :=
  ∀ l ∈ lines stream, cap ≤ l.length → isFinding (lineTail cap l) = false

/-- One finding too many is forwarded for each such tail. -/
theorem noFalseTail_of_length_eq (h : (((lines stream).map (lineTail cap)).filter isFinding).length =
      (findings cap stream).length) : NoFalseTail cap stream := by
  rw [length_filter_tails] at h
  have hcount : (lines stream).countP (fun l => isFinding (lineTail cap l) &&
      decide (cap ≤ l.length)) = 0 := by
    unfold findings at h
    omega
  intro l hl hlong
  have hnot := countP_eq_zero.mp hcount l hl
  simpa [hlong] using hnot

/-- Both loops forward the findings of the output and nothing else, whatever the reads and the
writes do, exactly if no overlong line has such a tail and, for the frames, no finding holds a
NUL. -/
theorem lines_forwarded_iff (stream : Bytes) :
    ((∀ pick ok, runSubprocess pick ok stream =
        upTo ok ((findings subprocessCap stream).map findingFrame)) ↔
      NoFalseTail subprocessCap stream ∧ ∀ l ∈ findings subprocessCap stream, (0 : UInt8) ∉ l) ∧
    ((∀ pick, sweepDrain pick stream = findings sweepCap stream) ↔
      NoFalseTail sweepCap stream) := by
  refine ⟨⟨fun h => ?_, ?_⟩, ⟨fun h => ?_, fun h pick => ?_⟩⟩
  · -- when no write fails, the frames themselves are equal
    have hframes := h (fun _ => 0) (fun _ => true)
    rw [runSubprocess_eq, upTo_always, upTo_always] at hframes
    have hlength := congrArg List.length hframes
    rw [length_map, length_map] at hlength
    have hno := noFalseTail_of_length_eq hlength
    refine ⟨hno, fun l hl => ?_⟩
    rw [filter_tails_eq hno] at hframes
    have hcut := map_inj_left.mp hframes l hl
    exact cstr_eq_self_iff.mp (findingFrame_injective hcut)
  · rintro ⟨hno, hnul⟩ pick ok
    rw [runSubprocess_eq, filter_tails_eq hno]
    congr 1
    apply map_congr_left
    intro l hl
    rw [cstr_eq_self_iff.mpr (hnul l hl)]
  · have hlines := h fun _ => 0
    rw [sweepDrain_eq] at hlines
    exact noFalseTail_of_length_eq (congrArg List.length hlines)
  · rw [sweepDrain_eq, filter_tails_eq h]
    rfl

/-- A line of `cap` bytes that ends in an empty object. -/
def overlongLine (cap : Nat) : Bytes := List.replicate cap 120 ++ asc "\x7b\x7d\n"

theorem lines_overlongLine (cap : Nat) :
    lines (overlongLine cap) = [List.replicate cap 120 ++ asc "\x7b\x7d"] := by
  have hx : (10 : UInt8) ∉ List.replicate cap 120 :=
    fun h => absurd (eq_of_mem_replicate h) (by decide)
  unfold lines overlongLine
  rw [splitFrom_append hx, nil_append, show asc "\x7b\x7d\n" = [123, 125, 10] by decide,
    show asc "\x7b\x7d" = [123, 125] by decide]
  simp [splitFrom]

theorem overlong_line_end_forwarded :
    runSubprocess (fun _ => 4096) (fun _ => true) (overlongLine subprocessCap) =
        [findingFrame (asc "\x7b\x7d")] ∧
      findings subprocessCap (overlongLine subprocessCap) = [] ∧
      sweepDrain (fun _ => 4096) (overlongLine sweepCap) = [asc "\x7b\x7d"] ∧
      findings sweepCap (overlongLine sweepCap) = [] := by
  have htail : ∀ cap, 2 < cap →
      lineTail cap (List.replicate cap 120 ++ asc "\x7b\x7d") = asc "\x7b\x7d" := by
    intro cap hcap
    have hdiv : (cap + 2) / cap * cap = cap := by
      rw [Nat.add_div_left _ (by omega), Nat.div_eq_of_lt hcap]
      omega
    unfold lineTail
    rw [length_append, length_replicate, show (asc "\x7b\x7d").length = 2 by decide, hdiv,
      drop_left' length_replicate]
  have hnone : ∀ cap, findings cap (overlongLine cap) = [] := by
    intro cap
    unfold findings
    rw [lines_overlongLine]
    simp
  refine ⟨?_, hnone _, ?_, hnone _⟩
  · rw [runSubprocess_eq, upTo_always, lines_overlongLine, map_singleton, htail _ (by decide)]
    decide
  · rw [sweepDrain_eq, lines_overlongLine, map_singleton, htail _ (by decide)]
    decide

end Packetsonde.Agent
