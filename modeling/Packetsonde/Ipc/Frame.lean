import Mathlib.Data.List.Forall2
import Packetsonde.Lib.Chars

/-!
# Packetsonde — IPC frames (`ipc_server.c`)

A frame is a channel name and a payload, each behind its length. `ps_frame_reader_feed` takes one byte
at a time. Its payload buffer is kept from frame to frame and only grown, and an empty payload does
not touch it; so a reader whose first frames are empty has no buffer at all
(`frames_round_trip_iff`).

A byte of allocated memory that was never written is `none`.
-/

namespace Packetsonde.Ipc

open Packetsonde.Lib
open List

/-- `PS_IPC_MAX_CHANNEL` and `PS_IPC_MAX_PAYLOAD`. -/
def maxChannel : Nat := 128

def maxPayload : Nat := 256 * 1024

structure Frame where
  channel : Bytes
  payload : Bytes
  deriving DecidableEq, Repr

/-! ## The encoder -/

/-- `ps_ipc_encode_frame` into a buffer of `bufsz` bytes. The sizes are 32-bit numbers, and so is
their sum. -/
def encodeFrame (bufsz : Nat) (f : Frame) : Option Bytes :=
  let chLen := UInt32.ofNat f.channel.length
  let plLen := UInt32.ofNat f.payload.length
  if (4 + chLen + 4 + plLen).toNat > bufsz then none
  else
    some (putLE 4 chLen.toNat ++ f.channel.take chLen.toNat ++ putLE 4 plLen.toNat ++
      f.payload.take plLen.toNat)

/-! ## The reader -/

/-- `enum ps_frame_state`. -/
inductive FrameState where
  | chLen
  | chData
  | plLen
  | plData
  deriving DecidableEq, Repr

/-- What `malloc` returned. -/
abbrev Block := List (Option UInt8)

/-- `struct ps_frame_reader`; `lenBuf` is the part of `len_buf` that is filled. -/
structure FrameReader where
  state : FrameState := .chLen
  lenBuf : Bytes := []
  channel : Bytes := List.replicate maxChannel 0
  channelLen : Nat := 0
  channelPos : Nat := 0
  payload : Option Block := none
  payloadLen : Nat := 0
  payloadPos : Nat := 0
  payloadCap : Nat := 0
  deriving DecidableEq, Repr

/-- The return values 1, 0 and -1. -/
inductive Fed where
  | ready
  | more
  | error
  deriving DecidableEq, Repr

namespace FrameReader

/-- "Grow payload buffer if needed"; `malloc n` is whether `n` bytes can be had. -/
def grow (malloc : Nat → Bool) (r : FrameReader) : Option FrameReader :=
  if r.payloadLen > r.payloadCap then
    if malloc (r.payloadLen + 1) then
      some { r with
        payload := some (List.replicate (r.payloadLen + 1) none)
        payloadCap := r.payloadLen }
    else none
  else some r

def next (r : FrameReader) : FrameReader := { r with state := .chLen, lenBuf := [], channelPos := 0 }

/-- `r->payload[i] = byte`. -/
def putPayload (r : FrameReader) (i : Nat) (byte : UInt8) : FrameReader :=
  { r with payload := r.payload.map fun block => block.set i (some byte) }

/-- `ps_frame_reader_feed`. -/
def feed (malloc : Nat → Bool) (r : FrameReader) (byte : UInt8) : FrameReader × Fed :=
  match r.state with
  | .chLen =>
    let buf := r.lenBuf ++ [byte]
    if buf.length = 4 then
      let r := { r with lenBuf := [], channelLen := getLE buf }
      if r.channelLen = 0 ∨ r.channelLen ≥ maxChannel then (r, .error)
      else ({ r with channelPos := 0, state := .chData }, .more)
    else ({ r with lenBuf := buf }, .more)
  | .chData =>
    let r := { r with channel := r.channel.set r.channelPos byte, channelPos := r.channelPos + 1 }
    if r.channelPos = r.channelLen then
      ({ r with channel := r.channel.set r.channelPos 0, lenBuf := [], state := .plLen }, .more)
    else (r, .more)
  | .plLen =>
    let buf := r.lenBuf ++ [byte]
    if buf.length = 4 then
      let r := { r with lenBuf := [], payloadLen := getLE buf }
      if r.payloadLen > maxPayload then (r, .error)
      else
        match r.grow malloc with
        | none => ({ r with payload := none, payloadCap := 0 }, .error)
        | some r =>
          let r := { r with payloadPos := 0 }
          if r.payloadLen = 0 then ((r.putPayload 0 0).next, .ready)
          else ({ r with state := .plData }, .more)
    else ({ r with lenBuf := buf }, .more)
  | .plData =>
    let r := { r.putPayload r.payloadPos byte with payloadPos := r.payloadPos + 1 }
    if r.payloadPos = r.payloadLen then ((r.putPayload r.payloadPos 0).next, .ready)
    else (r, .more)

end FrameReader

/-- What `on_frame` is given: `channel`, `payload` and `payload_len`. -/
structure Delivered where
  channel : Bytes
  payload : Option Block
  payloadLen : Nat
  deriving DecidableEq, Repr

def FrameReader.delivered (r : FrameReader) : Delivered := ⟨r.channel, r.payload, r.payloadLen⟩

/-- The reader behind some bytes, the frames it delivered, and whether it accepted all of them. -/
structure Feeding where
  reader : FrameReader
  frames : List Delivered
  ok : Bool
  deriving DecidableEq, Repr

def FrameReader.feedAll (malloc : Nat → Bool) : FrameReader → Bytes → Feeding
  | r, [] => ⟨r, [], true⟩
  | r, byte :: bs =>
    match r.feed malloc byte with
    | (r, .more) => r.feedAll malloc bs
    | (r, .ready) =>
      let rest := r.feedAll malloc bs
      { rest with frames := r.delivered :: rest.frames }
    | (r, .error) => ⟨r, [], false⟩

section Append

variable {malloc : Nat → Bool} {r r' : FrameReader} {byte : UInt8} {xs : Bytes}

theorem feedAll_of_more (h : r.feed malloc byte = (r', .more)) (bs : Bytes) :
    r.feedAll malloc (byte :: bs) = r'.feedAll malloc bs := by
  rw [FrameReader.feedAll, h]

theorem feedAll_of_ready (h : r.feed malloc byte = (r', .ready)) (bs : Bytes) :
    r.feedAll malloc (byte :: bs) =
      { r'.feedAll malloc bs with frames := r'.delivered :: (r'.feedAll malloc bs).frames } := by
  rw [FrameReader.feedAll, h]

theorem feedAll_of_error (h : r.feed malloc byte = (r', .error)) (bs : Bytes) :
    r.feedAll malloc (byte :: bs) = ⟨r', [], false⟩ := by
  rw [FrameReader.feedAll, h]

theorem feedAll_append (h : (r.feedAll malloc xs).ok = true) (ys : Bytes) :
    r.feedAll malloc (xs ++ ys) =
      let first := r.feedAll malloc xs
      let second := first.reader.feedAll malloc ys
      { second with frames := first.frames ++ second.frames } := by
  induction xs generalizing r with
  | nil => rfl
  | cons byte xs ih =>
    rw [cons_append]
    rcases hfeed : r.feed malloc byte with ⟨r', _ | _ | _⟩
    · rw [feedAll_of_ready hfeed] at h
      rw [feedAll_of_ready hfeed, feedAll_of_ready hfeed, ih h]
      rfl
    · rw [feedAll_of_more hfeed] at h
      rw [feedAll_of_more hfeed, feedAll_of_more hfeed, ih h]
    · rw [feedAll_of_error hfeed] at h
      cases h

/-- The reader that accepts some bytes has accepted those before them. -/
theorem ok_of_append {ys : Bytes} (h : (r.feedAll malloc (xs ++ ys)).ok = true) :
    (r.feedAll malloc xs).ok = true := by
  induction xs generalizing r with
  | nil => rfl
  | cons byte xs ih =>
    rw [cons_append] at h
    rcases hfeed : r.feed malloc byte with ⟨r', _ | _ | _⟩
    · rw [feedAll_of_ready hfeed] at h ⊢
      exact ih h
    · rw [feedAll_of_more hfeed] at h ⊢
      exact ih h
    · rw [feedAll_of_error hfeed] at h
      cases h

/-- One more byte. -/
theorem feedAll_concat {ds : List Delivered} {r'' : FrameReader} {fed : Fed}
    (h : r.feedAll malloc xs = ⟨r', ds, true⟩) (hfeed : r'.feed malloc byte = (r'', fed)) :
    r.feedAll malloc (xs ++ [byte]) =
      ⟨r'', ds ++ (if fed = .ready then [r''.delivered] else []), fed ≠ .error⟩ := by
  have hok : (r.feedAll malloc xs).ok = true := by rw [h]
  rw [feedAll_append hok, h]
  dsimp only
  cases fed with
  | more =>
    rw [feedAll_of_more hfeed]
    rfl
  | ready =>
    rw [feedAll_of_ready hfeed]
    rfl
  | error =>
    rw [feedAll_of_error hfeed]
    rfl

end Append

/-! ## Frames on the wire -/

/-- The frames the protocol is for: the channel is a C string that fits its array. -/
structure Frame.Valid (f : Frame) : Prop where
  named : f.channel ≠ []
  short : f.channel.length < maxChannel
  noNul : (0 : UInt8) ∉ f.channel
  small : f.payload.length ≤ maxPayload

def Frame.wire (f : Frame) : Bytes :=
  putLE 4 f.channel.length ++ (f.channel ++ (putLE 4 f.payload.length ++ f.payload))

theorem wire_of_encodeFrame {bufsz : Nat} {f : Frame} {bs : Bytes} (hf : f.Valid)
    (h : encodeFrame bufsz f = some bs) : bs = f.wire := by
  have hshort := hf.short
  have hsmall := hf.small
  unfold maxChannel at hshort
  unfold maxPayload at hsmall
  have hch : (UInt32.ofNat f.channel.length).toNat = f.channel.length :=
    UInt32.toNat_ofNat_of_lt' (show _ < 2 ^ 32 by omega)
  have hpl : (UInt32.ofNat f.payload.length).toNat = f.payload.length :=
    UInt32.toNat_ofNat_of_lt' (show _ < 2 ^ 32 by omega)
  unfold encodeFrame at h
  dsimp only at h
  split at h
  · cases h
  · obtain rfl := Option.some.inj h
    rw [hch, hpl, take_length, take_length]
    simp only [Frame.wire, append_assoc]

section Pieces

variable {malloc : Nat → Bool} {r r' : FrameReader} {byte : UInt8}

theorem take_set_succ {α : Type*} {l : List α} {p : Nat} (h : p < l.length) (x : α) :
    (l.set p x).take (p + 1) = l.take p ++ [x] := by
  rw [take_add_one, take_set, set_eq_of_length_le (by rw [length_take]; omega)]
  simp [h]

/-- A length is four bytes. -/
theorem putLE_four (n : Nat) : ∃ a b c d, putLE 4 n = [a, b, c, d] := ⟨_, _, _, _, rfl⟩

theorem feedAll_chLen (hstate : r.state = .chLen) (hbuf : r.lenBuf = []) {n : Nat} (hpos : n ≠ 0)
    (hn : n < maxChannel) (rest : Bytes) :
    r.feedAll malloc (putLE 4 n ++ rest) =
      { r with lenBuf := [], channelLen := n, channelPos := 0, state := .chData }.feedAll malloc
        rest := by
  have hsmall : n < 256 ^ 4 := by
    unfold maxChannel at hn
    omega
  have hread := getLE_putLE_of_lt hsmall
  obtain ⟨a, b, c, d, hbytes⟩ := putLE_four n
  rw [hbytes] at hread ⊢
  cases r
  subst hstate hbuf
  simp [FrameReader.feedAll, FrameReader.feed, hread, hpos, Nat.not_le.mpr hn]

/-- The length of the payload, where its buffer can be had. -/
theorem feedAll_plLen (hstate : r.state = .plLen) (hbuf : r.lenBuf = []) {n : Nat} (hpos : n ≠ 0)
    (hn : n ≤ maxPayload)
    (hgrow : { r with lenBuf := [], payloadLen := n }.grow malloc = some r') (rest : Bytes) :
    r.feedAll malloc (putLE 4 n ++ rest) =
      { r' with payloadPos := 0, state := .plData }.feedAll malloc rest := by
  have hsmall : n < 256 ^ 4 := by
    unfold maxPayload at hn
    omega
  have hread := getLE_putLE_of_lt hsmall
  have hlen : r'.payloadLen = n := by
    unfold FrameReader.grow at hgrow
    split at hgrow
    · split at hgrow
      · obtain rfl := Option.some.inj hgrow
        rfl
      · cases hgrow
    · obtain rfl := Option.some.inj hgrow
      rfl
  obtain ⟨a, b, c, d, hbytes⟩ := putLE_four n
  rw [hbytes] at hread ⊢
  cases r
  subst hstate hbuf
  simp [FrameReader.feedAll, FrameReader.feed, hread, hgrow, hlen, hpos, Nat.not_lt.mpr hn]

/-- No payload: the frame is complete, and the buffer, if there is one, holds a NUL. -/
theorem feedAll_plLen_zero (hstate : r.state = .plLen) (hbuf : r.lenBuf = []) (rest : Bytes) :
    r.feedAll malloc (putLE 4 0 ++ rest) =
      let r' := ({ r with lenBuf := [], payloadLen := 0, payloadPos := 0 }.putPayload 0 0).next
      { r'.feedAll malloc rest with frames := r'.delivered :: (r'.feedAll malloc rest).frames } := by
  obtain ⟨a, b, c, d, hbytes⟩ := putLE_four 0
  have hread : getLE [a, b, c, d] = 0 := by
    rw [← hbytes]
    decide
  rw [hbytes]
  cases r
  subst hstate hbuf
  simp [FrameReader.feedAll, FrameReader.feed, FrameReader.grow, hread]

/-- The bytes of the channel, and the NUL behind them. Induction on the bytes; the array is filled up
to `channelPos`. -/
theorem feedAll_chData {bs : Bytes} (hbs : bs ≠ []) (hstate : r.state = .chData)
    (hlen : r.channelPos + bs.length = r.channelLen) (hroom : r.channelLen < r.channel.length)
    (rest : Bytes) :
    ∃ channel, channel.length = r.channel.length ∧
      channel.take (r.channelLen + 1) = r.channel.take r.channelPos ++ bs ++ [0] ∧
      r.feedAll malloc (bs ++ rest) =
        { r with
          channel := channel
          channelPos := r.channelLen
          lenBuf := []
          state := .plLen }.feedAll malloc rest := by
  induction bs generalizing r with
  | nil => exact absurd rfl hbs
  | cons b bs ih =>
    rw [length_cons] at hlen
    have hpos : r.channelPos < r.channel.length := by omega
    by_cases hlast : bs = []
    · subst hlast
      have hend : r.channelPos + 1 = r.channelLen := hlen
      have hfeed : r.feed malloc b =
          ({ r with
              channel := (r.channel.set r.channelPos b).set r.channelLen 0
              channelPos := r.channelLen
              lenBuf := []
              state := .plLen }, .more) := by
        unfold FrameReader.feed
        rw [hstate]
        dsimp only
        rw [hend, if_pos rfl]
      refine ⟨_, ?_, ?_, feedAll_of_more hfeed rest⟩
      · rw [length_set, length_set]
      · rw [take_set_succ (by rw [length_set]; exact hroom), ← hend, take_set_succ hpos]
    · have hmore : ¬ r.channelPos + 1 = r.channelLen := by
        have := length_pos_of_ne_nil hlast
        omega
      have hfeed : r.feed malloc b =
          ({ r with channel := r.channel.set r.channelPos b, channelPos := r.channelPos + 1 },
            .more) := by
        unfold FrameReader.feed
        rw [hstate]
        dsimp only
        rw [if_neg hmore]
      obtain ⟨channel, hsize, htake, hrest⟩ :=
        @ih { r with channel := r.channel.set r.channelPos b, channelPos := r.channelPos + 1 } hlast
          hstate (show r.channelPos + 1 + bs.length = r.channelLen by omega) (by rw [length_set]; exact hroom)
      refine ⟨channel, by rw [hsize, length_set], ?_, ?_⟩
      · rw [htake, take_set_succ hpos, append_assoc, append_assoc, append_assoc]
        rfl
      · rw [cons_append, feedAll_of_more hfeed, hrest]

/-- The same for the payload, whose last byte completes the frame. -/
theorem feedAll_plData {bs : Bytes} (hbs : bs ≠ []) (hstate : r.state = .plData) {block : Block}
    (hblock : r.payload = some block) (hlen : r.payloadPos + bs.length = r.payloadLen)
    (hroom : r.payloadLen < block.length) (rest : Bytes) :
    ∃ block' : Block, block'.length = block.length ∧
      block'.take (r.payloadLen + 1) = block.take r.payloadPos ++ bs.map some ++ [some 0] ∧
      r.feedAll malloc (bs ++ rest) =
        let r' := { r with payload := some block', payloadPos := r.payloadLen }.next
        { r'.feedAll malloc rest with
          frames := r'.delivered :: (r'.feedAll malloc rest).frames } := by
  induction bs generalizing r block with
  | nil => exact absurd rfl hbs
  | cons b bs ih =>
    rw [length_cons] at hlen
    have hpos : r.payloadPos < block.length := by omega
    by_cases hlast : bs = []
    · subst hlast
      have hend : r.payloadPos + 1 = r.payloadLen := hlen
      have hfeed : r.feed malloc b =
          ({ r with
              payload := some ((block.set r.payloadPos (some b)).set r.payloadLen (some 0))
              payloadPos := r.payloadLen }.next, .ready) := by
        simp [FrameReader.feed, FrameReader.putPayload, FrameReader.next, hstate, hblock, hend]
      refine ⟨_, ?_, ?_, feedAll_of_ready hfeed rest⟩
      · rw [length_set, length_set]
      · rw [take_set_succ (by rw [length_set]; exact hroom), ← hend, take_set_succ hpos]
        rfl
    · have hmore : ¬ r.payloadPos + 1 = r.payloadLen := by
        have := length_pos_of_ne_nil hlast
        omega
      have hfeed : r.feed malloc b =
          ({ r with
              payload := some (block.set r.payloadPos (some b))
              payloadPos := r.payloadPos + 1 }, .more) := by
        simp [FrameReader.feed, FrameReader.putPayload, hstate, hblock, hmore]
      obtain ⟨block', hsize, htake, hrest⟩ :=
        @ih { r with
              payload := some (block.set r.payloadPos (some b))
              payloadPos := r.payloadPos + 1 } hlast hstate (block.set r.payloadPos (some b)) rfl
          (show r.payloadPos + 1 + bs.length = r.payloadLen by omega) (by rw [length_set]; exact hroom)
      refine ⟨block', by rw [hsize, length_set], ?_, ?_⟩
      · rw [htake, take_set_succ hpos, append_assoc, append_assoc, append_assoc]
        rfl
      · rw [cons_append, feedAll_of_more hfeed, hrest]

end Pieces

/-! ## Frame after frame -/

/-- The callback finds the frame's channel in the array, and its payload in the block if there is
one. -/
structure Delivered.Carries (d : Delivered) (f : Frame) : Prop where
  channel : d.channel.take (f.channel.length + 1) = f.channel ++ [0]
  length : d.payloadLen = f.payload.length
  payload : ∀ block, d.payload = some block →
    block.take (f.payload.length + 1) = f.payload.map some ++ [some 0]

/-- And there is one: both are strings. -/
structure Delivered.Reads (d : Delivered) (f : Frame) : Prop extends d.Carries f where
  nonNull : d.payload ≠ none

/-- The payload buffer has room for `payloadCap` bytes and a NUL. -/
structure FrameReader.Buffered (r : FrameReader) : Prop where
  channel : r.channel.length = maxChannel
  block : ∀ block, r.payload = some block → block.length = r.payloadCap + 1
  noBlock : r.payload = none → r.payloadCap = 0

structure FrameReader.Between (r : FrameReader) : Prop extends r.Buffered where
  state : r.state = .chLen
  lenBuf : r.lenBuf = []

/-- The reader between the channel of a frame and its payload. -/
structure FrameReader.Named (r : FrameReader) (f : Frame) : Prop extends r.Buffered where
  state : r.state = .plLen
  lenBuf : r.lenBuf = []
  name : r.channel.take (f.channel.length + 1) = f.channel ++ [0]

theorem between_init : ({} : FrameReader).Between where
  channel := length_replicate
  block := fun _ h => nomatch h
  noBlock := fun _ => rfl
  state := rfl
  lenBuf := rfl

/-- Whether there is memory for the payload of a frame. -/
def Allocates (malloc : Nat → Bool) : Prop := ∀ n ≤ maxPayload + 1, malloc n = true

section Frames

variable {malloc : Nat → Bool} {r : FrameReader} {f : Frame}

/-- There is a block for a payload: the old one, or a new one of its size. -/
theorem exists_grow (hmalloc : Allocates malloc) (h : r.Buffered) (hpos : r.payloadLen ≠ 0)
    (hle : r.payloadLen ≤ maxPayload) :
    ∃ block cap, r.grow malloc = some { r with payload := some block, payloadCap := cap } ∧
      block.length = cap + 1 ∧ r.payloadLen ≤ cap := by
  unfold FrameReader.grow
  by_cases hcap : r.payloadLen > r.payloadCap
  · rw [if_pos hcap, if_pos (hmalloc _ (by omega))]
    exact ⟨_, _, rfl, length_replicate, Nat.le_refl _⟩
  · rw [if_neg hcap]
    cases hpayload : r.payload with
    | none =>
      have := h.noBlock hpayload
      omega
    | some block =>
      refine ⟨block, r.payloadCap, ?_, h.block block hpayload, Nat.not_lt.mp hcap⟩
      rw [← hpayload]

theorem feedAll_name (h : r.Between) (hf : f.Valid) (rest : Bytes) :
    ∃ r' : FrameReader, r'.Named f ∧ r'.payload = r.payload ∧
      r.feedAll malloc (putLE 4 f.channel.length ++ (f.channel ++ rest)) =
        r'.feedAll malloc rest := by
  have hname : f.channel.length ≠ 0 := fun h => hf.named (length_eq_zero_iff.mp h)
  have hroom : f.channel.length < r.channel.length := by
    rw [h.channel]
    exact hf.short
  rw [feedAll_chLen h.state h.lenBuf hname hf.short]
  obtain ⟨channel, hsize, htake, hrest⟩ := @feedAll_chData malloc
    { r with lenBuf := [], channelLen := f.channel.length, channelPos := 0, state := .chData }
    f.channel hf.named rfl (Nat.zero_add _) hroom rest
  refine ⟨_, ?_, ?_, hrest⟩
  · exact ⟨⟨hsize.trans h.channel, h.block, h.noBlock⟩, rfl, rfl, htake⟩
  · rfl

theorem feedAll_noPayload (h : r.Named f) (hempty : f.payload = []) (rest : Bytes) :
    ∃ r' : FrameReader, r'.Between ∧ r'.delivered.Carries f ∧
      (r'.payload = none ↔ r.payload = none) ∧
      r.feedAll malloc (putLE 4 f.payload.length ++ (f.payload ++ rest)) =
        { r'.feedAll malloc rest with
          frames := r'.delivered :: (r'.feedAll malloc rest).frames } := by
  rw [hempty]
  refine ⟨_, ⟨⟨?room, ?block, ?noBlock⟩, ?_, ?_⟩, ⟨?name, ?length, ?payload⟩, ?null,
    feedAll_plLen_zero h.state h.lenBuf rest⟩
  case room => exact h.channel
  case block =>
    intro block hblock
    obtain ⟨old, hold, rfl⟩ := Option.map_eq_some_iff.mp hblock
    rw [length_set]
    exact h.block old hold
  case noBlock =>
    intro hnull
    exact h.noBlock (Option.map_eq_none_iff.mp hnull)
  case name => exact h.name
  case length =>
    rw [hempty]
    rfl
  case payload =>
    intro block hblock
    obtain ⟨old, hold, rfl⟩ := Option.map_eq_some_iff.mp hblock
    have hroom := h.block old hold
    rw [hempty]
    exact take_set_succ (show 0 < old.length by omega) _
  case null => exact Option.map_eq_none_iff
  all_goals rfl

variable (hmalloc : Allocates malloc)

include hmalloc

theorem feedAll_payload (h : r.Named f) (hsome : f.payload ≠ [])
    (hsmall : f.payload.length ≤ maxPayload) (rest : Bytes) :
    ∃ r' : FrameReader, r'.Between ∧ r'.delivered.Carries f ∧ r'.payload ≠ none ∧
      r.feedAll malloc (putLE 4 f.payload.length ++ (f.payload ++ rest)) =
        { r'.feedAll malloc rest with
          frames := r'.delivered :: (r'.feedAll malloc rest).frames } := by
  have hlen : f.payload.length ≠ 0 := fun h => hsome (length_eq_zero_iff.mp h)
  obtain ⟨block, cap, hgrow, hblock, hcap⟩ := @exists_grow malloc
    { r with lenBuf := [], payloadLen := f.payload.length } hmalloc
    ⟨h.channel, h.block, h.noBlock⟩ hlen hsmall
  have hroom : f.payload.length < block.length := by
    rw [hblock]
    exact Nat.lt_succ_of_le hcap
  rw [feedAll_plLen h.state h.lenBuf hlen hsmall hgrow]
  obtain ⟨block', hsize, htake, hfeed⟩ := @feedAll_plData malloc
    { r with
      lenBuf := []
      payload := some block
      payloadLen := f.payload.length
      payloadPos := 0
      payloadCap := cap
      state := .plData } f.payload hsome rfl block rfl (Nat.zero_add _) hroom rest
  refine ⟨_, ⟨⟨?room, ?block, ?noBlock⟩, ?_, ?_⟩, ⟨?name, ?_, ?payload⟩, ?null, hfeed⟩
  case room => exact h.channel
  case block =>
    intro b hb
    obtain rfl := Option.some.inj hb
    exact hsize.trans hblock
  case noBlock => exact fun hnull => nomatch hnull
  case name => exact h.name
  case payload =>
    intro b hb
    obtain rfl := Option.some.inj hb
    exact htake
  case null => exact fun hnull => nomatch hnull
  all_goals rfl

/-- One frame. -/
theorem feedAll_wire (h : r.Between) (hf : f.Valid) (rest : Bytes) :
    ∃ r' : FrameReader, r'.Between ∧ r'.delivered.Carries f ∧
      (r'.payload = none ↔ r.payload = none ∧ f.payload = []) ∧
      r.feedAll malloc (f.wire ++ rest) =
        { r'.feedAll malloc rest with
          frames := r'.delivered :: (r'.feedAll malloc rest).frames } := by
  unfold Frame.wire
  simp only [append_assoc]
  obtain ⟨r₁, hnamed, hpayload, hname⟩ :=
    @feedAll_name malloc r f h hf (putLE 4 f.payload.length ++ (f.payload ++ rest))
  rw [hname, ← hpayload]
  by_cases hempty : f.payload = []
  · obtain ⟨r', hbetween, hcarries, hnull, hfeed⟩ := feedAll_noPayload hnamed hempty rest
    exact ⟨r', hbetween, hcarries, by rw [hnull, and_iff_left hempty], hfeed⟩
  · obtain ⟨r', hbetween, hcarries, hblock, hfeed⟩ :=
      feedAll_payload hmalloc hnamed hempty hf.small rest
    exact ⟨r', hbetween, hcarries, iff_of_false hblock fun h => hempty h.2, hfeed⟩

/-- Frame after frame. Once there is a block there always is one. -/
theorem feedAll_wires (h : r.Between) {fs : List Frame}
    (hfs : ∀ f ∈ fs, f.Valid) :
    (r.feedAll malloc (fs.flatMap Frame.wire)).ok = true ∧
      List.Forall₂ Delivered.Carries (r.feedAll malloc (fs.flatMap Frame.wire)).frames fs ∧
      (r.payload ≠ none →
        ∀ d ∈ (r.feedAll malloc (fs.flatMap Frame.wire)).frames, d.payload ≠ none) := by
  induction fs generalizing r with
  | nil => exact ⟨rfl, .nil, fun _ d hd => nomatch hd⟩
  | cons f fs ih =>
    obtain ⟨hf, hfs⟩ := forall_mem_cons.mp hfs
    obtain ⟨r', hbetween, hcarries, hnull, hfeed⟩ := feedAll_wire hmalloc h hf (fs.flatMap Frame.wire)
    obtain ⟨hok, hall, hblocks⟩ := ih hbetween hfs
    rw [flatMap_cons, hfeed]
    refine ⟨hok, .cons hcarries hall, fun hblock => ?_⟩
    have hkeeps : r'.payload ≠ none := fun h => hblock (hnull.mp h).1
    exact forall_mem_cons.mpr ⟨hkeeps, hblocks hkeeps⟩

end Frames

/-- The concatenated output of `ps_ipc_encode_frame` comes back frame by frame, with strings the
handlers can read, exactly if the first frame has a payload. -/
theorem frames_round_trip_iff {malloc : Nat → Bool} (hmalloc : Allocates malloc) {fs : List Frame}
    {encoded : List Bytes} (hfs : ∀ f ∈ fs, f.Valid)
    (hencoded : List.Forall₂ (fun f bs => ∃ bufsz, encodeFrame bufsz f = some bs) fs encoded) :
    ((({} : FrameReader).feedAll malloc encoded.flatten).ok = true ∧
        List.Forall₂ Delivered.Reads (({} : FrameReader).feedAll malloc encoded.flatten).frames fs) ↔
      ∀ f ∈ fs.head?, f.payload ≠ [] := by
  have hwire : encoded.flatten = fs.flatMap Frame.wire := by
    induction hencoded with
    | nil => rfl
    | cons hbs _ ih =>
      obtain ⟨hf, hfs⟩ := forall_mem_cons.mp hfs
      obtain ⟨bufsz, hbs⟩ := hbs
      rw [flatten_cons, flatMap_cons, ih hfs, wire_of_encodeFrame hf hbs]
  rw [hwire]
  cases fs with
  | nil => exact ⟨fun _ f hf => (nomatch hf), fun _ => ⟨rfl, .nil⟩⟩
  | cons f fs =>
    obtain ⟨hf, hrest⟩ := forall_mem_cons.mp hfs
    obtain ⟨r, hbetween, hcarries, hnull, hfeed⟩ :=
      feedAll_wire hmalloc between_init hf (fs.flatMap Frame.wire)
    rw [flatMap_cons, hfeed]
    constructor
    · rintro ⟨-, hreads⟩ g hg hempty
      obtain rfl : f = g := Option.some.inj hg
      cases hreads with
      | cons hfirst _ => exact hfirst.nonNull (hnull.mpr ⟨rfl, hempty⟩)
    · intro hfirst
      have hblock : r.payload ≠ none := fun h => hfirst f rfl (hnull.mp h).2
      obtain ⟨hok, hall, hblocks⟩ := feedAll_wires hmalloc hbetween hrest
      refine ⟨hok, .cons ⟨hcarries, hblock⟩ ?_⟩
      exact ((forall₂_and_left _ _).mpr ⟨hblocks hblock, hall⟩).imp fun _ _ h => ⟨h.2, h.1⟩

def hello : Frame := ⟨asc "query", asc "x"⟩

def hosts : Frame := ⟨asc "query.hosts", []⟩

theorem hello_valid : hello.Valid where
  named := by decide
  short := by decide
  noNul := by decide
  small := by decide

theorem hosts_valid : hosts.Valid where
  named := by decide
  short := by decide
  noNul := by decide
  small := by decide

theorem hello_then_hosts :
    (({} : FrameReader).feedAll (fun _ => true) [hello.wire, hosts.wire].flatten).ok = true ∧
      List.Forall₂ Delivered.Reads
        (({} : FrameReader).feedAll (fun _ => true) [hello.wire, hosts.wire].flatten).frames
        [hello, hosts] :=
  (frames_round_trip_iff (fun _ _ => rfl)
    (forall_mem_cons.mpr ⟨hello_valid, forall_mem_singleton.mpr hosts_valid⟩)
    (.cons ⟨64, by decide⟩ (.cons ⟨64, by decide⟩ .nil))).mpr
    (by rintro f ⟨⟩; decide)

/-- `query.hosts` as the first frame of a connection: the handler is given a null pointer. -/
theorem hosts_first_is_null :
    encodeFrame 64 hosts = some hosts.wire ∧
      (({} : FrameReader).feedAll (fun _ => true) hosts.wire).ok = true ∧
      (({} : FrameReader).feedAll (fun _ => true) hosts.wire).frames.map
        (fun d => (d.payload, d.payloadLen)) = [(none, 0)] := by
  decide

end Packetsonde.Ipc
