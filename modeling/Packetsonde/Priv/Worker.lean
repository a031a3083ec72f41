import Packetsonde.Lib.Sweep
import Packetsonde.Lib.Slots
import Packetsonde.Priv.Protocol

/-!
# Packetsonde — the privileged worker (`priv_worker.c`)

One iteration of `run_loop`: poll, at most one command and its response, then the captured packets and
the raw sockets. What the system calls return is the data of the iteration.

Responses go out by `write_all`, which comes back until all bytes are taken. Packets are written once,
and "EAGAIN is acceptable — packet dropped"; but a stream socket may also take a part, and then a part
of a message stands in the stream. Without such a write the stream is a row of messages, of which only
packets are missing (`stream_of_whole_messages`).
-/

namespace Packetsonde.Priv

open Packetsonde.Lib
open List hiding Vector

/-! ## Handles -/

/-- An open pcap handle, and whether `pcap_get_selectable_fd` has a descriptor for it. -/
structure Pcap where
  selectable : Bool
  deriving DecidableEq, Repr

/-- `g_pcap` and `g_raw`. -/
structure Slots where
  pcap : Vector (Option Pcap) maxPcapHandles
  raw : Vector Bool maxRawHandles

namespace Slots

def init : Slots where
  pcap := Vector.replicate maxPcapHandles none
  raw := Vector.replicate maxRawHandles false

def pcapOpen (s : Slots) (i : Fin maxPcapHandles) : Bool := (s.pcap.get i).isSome

def pcapPolled (s : Slots) (i : Fin maxPcapHandles) : Bool := s.pcap.get i = some ⟨true⟩

def rawOpen (s : Slots) (i : Fin maxRawHandles) : Bool := s.raw.get i

end Slots

inductive Effect where
  | none
  | openPcap (slot : Fin maxPcapHandles) (selectable : Bool)
  | closePcap (slot : Fin maxPcapHandles)
  | openRaw (slot : Fin maxRawHandles)
  | closeRaw (slot : Fin maxRawHandles)
  deriving DecidableEq, Repr

def Slots.apply (s : Slots) : Effect → Slots
  | .none => s
  | .openPcap slot selectable => { s with pcap := s.pcap.set slot (some ⟨selectable⟩) slot.isLt }
  | .closePcap slot => { s with pcap := s.pcap.set slot none slot.isLt }
  | .openRaw slot => { s with raw := s.raw.set slot true slot.isLt }
  | .closeRaw slot => { s with raw := s.raw.set slot false slot.isLt }

/-! ## Commands -/

structure Command where
  opcode : UInt8
  handleId : UInt16
  payload : Bytes
  deriving DecidableEq, Repr

/-- Whether the system calls of the handlers succeed; `selectable` is the descriptor of a new pcap
handle. -/
structure Calls where
  ifNameToIndex : Bool := true
  pcapCreate : Bool := true
  pcapActivate : Bool := true
  pcapFilter : Bool := true
  selectable : Bool := true
  socket : Bool := true
  sendto : Bool := true
  deriving DecidableEq, Repr

/-- The response of `send_response` without data. -/
def answer (opcode status : UInt8) (handleId : UInt16) : Msg := ⟨opcode, status, handleId, []⟩

/-- `handle_open_pcap`: `iface`, `filter`, each with its NUL, and four bytes of `snaplen`. -/
def handleOpenPcap (calls : Calls) (s : Slots) (payload : Bytes) : Effect × Msg :=
  let fail (status : UInt8) := (Effect.none, answer opOpenPcap status 0)
  if payload.length < 2 then fail statusInternal
  else
    let iface := cstr payload
    if iface.length ≥ payload.length then fail statusInternal
    else
      let filterOffset := iface.length + 1
      let filter := cstr (payload.drop filterOffset)
      if filterOffset + filter.length + 1 + 4 > payload.length then fail statusInternal
      else if ¬ calls.ifNameToIndex then fail statusBadIface
      else
        match (List.finRange maxPcapHandles).find? fun i => !s.pcapOpen i with
        | none => fail statusHandleLimit
        | some slot =>
          if ¬ calls.pcapCreate ∨ ¬ calls.pcapActivate then fail statusInternal
          else if filter ≠ [] ∧ ¬ calls.pcapFilter then fail statusBadFilter
          else (.openPcap slot calls.selectable, answer opOpenPcap statusOk (UInt16.ofNat slot))

/-- `handle_close_pcap`. -/
def handleClosePcap (s : Slots) (handleId : UInt16) : Effect × Msg :=
  if h : handleId.toNat < maxPcapHandles then
    if s.pcapOpen ⟨handleId.toNat, h⟩ then
      (.closePcap ⟨handleId.toNat, h⟩, answer opClosePcap statusOk handleId)
    else (.none, answer opClosePcap statusBadHandle handleId)
  else (.none, answer opClosePcap statusBadHandle handleId)

/-- `handle_create_raw_socket`. -/
def handleCreateRawSocket (calls : Calls) (s : Slots) (payload : Bytes) : Effect × Msg :=
  let fail (status : UInt8) := (Effect.none, answer opCreateRawSocket status 0)
  if payload.length < 2 then fail statusInternal
  else
    match (List.finRange maxRawHandles).find? fun i => !s.rawOpen i with
    | none => fail statusHandleLimit
    | some slot =>
      if ¬ calls.socket then fail statusInternal
      else (.openRaw slot, answer opCreateRawSocket statusOk (UInt16.ofNat slot))

/-- `handle_close_raw_socket`. -/
def handleCloseRawSocket (s : Slots) (handleId : UInt16) : Effect × Msg :=
  if h : handleId.toNat < maxRawHandles then
    if s.rawOpen ⟨handleId.toNat, h⟩ then
      (.closeRaw ⟨handleId.toNat, h⟩, answer opCloseRawSocket statusOk handleId)
    else (.none, answer opCloseRawSocket statusBadHandle handleId)
  else (.none, answer opCloseRawSocket statusBadHandle handleId)

/-- `handle_send_raw`: a TTL, the length of the address in two bytes, the address, the packet. -/
def handleSendRaw (calls : Calls) (s : Slots) (handleId : UInt16) (payload : Bytes) : Effect × Msg :=
  let reply (status : UInt8) := (Effect.none, answer opSendRaw status handleId)
  if payload.length < 3 then reply statusInternal
  else if h : handleId.toNat < maxRawHandles then
    if ¬ s.rawOpen ⟨handleId.toNat, h⟩ then reply statusBadHandle
    else if 3 + getLE ((payload.drop 1).take 2) > payload.length then reply statusInternal
    else if ¬ calls.sendto then reply statusSendFailed
    else reply statusOk
  else reply statusBadHandle

/-- The `switch` over the opcode. -/
def dispatch (calls : Calls) (s : Slots) (cmd : Command) : Effect × Msg :=
  if cmd.opcode = opOpenPcap then handleOpenPcap calls s cmd.payload
  else if cmd.opcode = opClosePcap then handleClosePcap s cmd.handleId
  else if cmd.opcode = opCreateRawSocket then handleCreateRawSocket calls s cmd.payload
  else if cmd.opcode = opCloseRawSocket then handleCloseRawSocket s cmd.handleId
  else if cmd.opcode = opSendRaw then handleSendRaw calls s cmd.handleId cmd.payload
  else (.none, answer opError statusInternal 0)

/-! ## Writing to the brain -/

/-- What `write` does: `EAGAIN`, `EINTR`, another error, or it takes up to `n` bytes. -/
inductive Write where
  | again
  | interrupted
  | failed
  | took (n : Nat)
  deriving DecidableEq, Repr

/-- Where `write_all` is after the given writes. -/
inductive Progress where
  | done
  | failed
  | waiting
  deriving DecidableEq, Repr

/-- `write_all`: the bytes taken so far. -/
def writeAll : List Write → Bytes → Bytes × Progress
  | _, [] => ([], .done)
  | [], _ :: _ => ([], .waiting)
  | .again :: ws, b :: bs => writeAll ws (b :: bs)
  | .interrupted :: ws, b :: bs => writeAll ws (b :: bs)
  | .failed :: _, _ :: _ => ([], .failed)
  | .took n :: ws, b :: bs =>
    let (taken, progress) := writeAll ws ((b :: bs).drop n)
    ((b :: bs).take n ++ taken, progress)

/-- A single `write`, whose result nobody looks at. -/
def writeOnce : Write → Bytes → Bytes
  | .took n, bs => bs.take n
  | _, _ => []

/-- In the loop, inside a `write_all` that has not come back, or done. -/
inductive Phase where
  | running
  | waiting
  | exited
  deriving DecidableEq, Repr

/-- The worker: its slots, all bytes it has written, and the messages it wanted to write. -/
structure Worker where
  slots : Slots
  phase : Phase
  stream : Bytes
  offered : List Msg

def Worker.init : Worker := ⟨.init, .running, [], []⟩

namespace Worker

/-- `sizeof(buf)` in `send_response`. -/
def responseSize : Nat := headerSize + 256

/-- `send_response`. -/
def sendResponse (w : Worker) (m : Msg) (writes : List Write) : Worker :=
  match encodeResponse responseSize m with
  | none => w
  | some bytes =>
    let (taken, progress) := writeAll writes bytes
    { w with
      stream := w.stream ++ taken
      offered := w.offered ++ [m]
      phase := if progress = .waiting then .waiting else w.phase }

/-- A best-effort write of an encoded message. -/
def sendData (w : Worker) (m : Msg) (encoded : Option Bytes) (write : Write) : Worker :=
  match encoded with
  | none => w
  | some bytes =>
    { w with stream := w.stream ++ writeOnce write bytes, offered := w.offered ++ [m] }

end Worker

/-! ## One iteration -/

/-- The entries of the `pollfd` array. -/
inductive Entry where
  | brain
  | pcap (slot : Fin maxPcapHandles)
  | raw (slot : Fin maxRawHandles)
  deriving DecidableEq, Repr

def Slots.entries (s : Slots) : List Entry :=
  .brain :: (((List.finRange maxPcapHandles).filter s.pcapPolled).map .pcap ++
    ((List.finRange maxRawHandles).filter s.rawOpen).map .raw)

/-- The slots `pcap_next_ex` is called for: the slots as they are after the command, the flags and
the number of entries as they were before it. A handle without a descriptor counts as an entry. -/
def pcapReads (before after : Slots) (flags : Nat → Bool) : List (Fin maxPcapHandles) :=
  scan after.pcapOpen after.pcapPolled (fun k => decide (k < before.entries.length) && flags k)
    (List.finRange maxPcapHandles) 1

/-- The slots `recv` is called for. The pcap entries are counted again, without those handles. -/
def rawReads (before after : Slots) (flags : Nat → Bool) : List (Fin maxRawHandles) :=
  scan after.rawOpen after.rawOpen (fun k => decide (k < before.entries.length) && flags k)
    (List.finRange maxRawHandles) (1 + countAll after.pcapPolled)

/-- What `poll` returns, errors apart from `EINTR` included. -/
inductive PollResult where
  | failed
  | interrupted
  | ready
  deriving DecidableEq, Repr

/-- The command in the socket, or none because a read failed. -/
abbrev Incoming := Option Command

structure Iteration where
  poll : PollResult := .ready
  hangup : Bool := false
  flags : Nat → Bool := fun _ => false
  incoming : Incoming := none
  calls : Calls := {}
  answerWrites : List Write := []
  pcapNext : Fin maxPcapHandles → Option Packet := fun _ => none
  pcapWrite : Fin maxPcapHandles → Write := fun _ => .again
  recv : Fin maxRawHandles → Bytes := fun _ => []
  rawWrite : Fin maxRawHandles → Write := fun _ => .again

/-- `sizeof(pkt_buf)` and `sizeof(recv_buf)`. -/
def pktBufSize : Nat := 65536 + headerSize + 8
def recvBufSize : Nat := 65536

namespace Worker

def command (it : Iteration) (w : Worker) : Worker :=
  if it.flags 0 then
    match it.incoming with
    | none => { w with phase := .exited }
    | some cmd =>
      if cmd.payload.length > maxMsgPayload then { w with phase := .exited }
      else
        let (effect, m) := dispatch it.calls w.slots cmd
        { w with slots := w.slots.apply effect }.sendResponse m it.answerWrites
  else w

/-- `pcap_next_ex` and what follows. -/
def pcapRead (it : Iteration) (w : Worker) (i : Fin maxPcapHandles) : Worker :=
  match it.pcapNext i with
  | none => w
  | some pkt =>
    w.sendData (packetMsg (UInt16.ofNat i) pkt)
      (encodePacketData pktBufSize (UInt16.ofNat i) pkt) (it.pcapWrite i)

def rawMsg (it : Iteration) (i : Fin maxRawHandles) : Msg :=
  ⟨opRawResponse, statusOk, UInt16.ofNat i, (it.recv i).take recvBufSize⟩

/-- `recv` and what follows. -/
def rawRead (it : Iteration) (w : Worker) (i : Fin maxRawHandles) : Worker :=
  if it.recv i = [] then w
  else w.sendData (rawMsg it i) (encodeResponse pktBufSize (rawMsg it i)) (it.rawWrite i)

def reads (it : Iteration) (before : Slots) (w : Worker) : Worker :=
  let w := (pcapReads before w.slots it.flags).foldl (pcapRead it) w
  (rawReads before w.slots it.flags).foldl (rawRead it) w

/-- One iteration of `run_loop`. -/
def iterate (w : Worker) (it : Iteration) : Worker :=
  if w.phase ≠ .running then w
  else
    match it.poll with
    | .interrupted => w
    | .failed => { w with phase := .exited }
    | .ready =>
      if it.hangup then { w with phase := .exited }
      else
        let w' := w.command it
        if w'.phase ≠ .running then w' else w'.reads it w.slots

def run (its : List Iteration) : Worker := its.foldl iterate .init

end Worker

/-! ## The stream -/

def Msg.isData (m : Msg) : Bool := m.opcode = opPacketData || m.opcode = opRawResponse

/-- The stream is the row of messages that were offered, with some of the data left out. -/
structure Row (kept offered : List Msg) (stream : Bytes) : Prop where
  sized : ∀ m ∈ offered, m.Sized
  sublist : kept.Sublist offered
  answers : kept.filter (!·.isData) = offered.filter (!·.isData)
  stream_eq : stream = kept.flatMap Msg.encode

section Rows

variable {kept offered : List Msg} {stream : Bytes} {m : Msg}

theorem Row.nil : Row [] [] [] := ⟨nofun, .slnil, rfl, rfl⟩

theorem sized_concat (h : ∀ m ∈ offered, m.Sized) (hm : m.Sized) : ∀ m' ∈ offered ++ [m], m'.Sized :=
  forall_mem_append.mpr ⟨h, forall_mem_singleton.mpr hm⟩

/-- A message that was written whole. -/
theorem Row.keep (h : Row kept offered stream) (hm : m.Sized) :
    Row (kept ++ [m]) (offered ++ [m]) (stream ++ m.encode) where
  sized := sized_concat h.sized hm
  sublist := h.sublist.append (List.Sublist.refl [m])
  answers := by rw [filter_append, filter_append, h.answers]
  stream_eq := by rw [flatMap_append, flatMap_singleton, h.stream_eq]

/-- A packet that was not written. -/
theorem Row.drop (h : Row kept offered stream) (hm : m.Sized) (hdata : m.isData = true) :
    Row kept (offered ++ [m]) stream where
  sized := sized_concat h.sized hm
  sublist := h.sublist.trans (sublist_append_left offered [m])
  answers := by
    rw [filter_append, h.answers, filter_singleton]
    simp [hdata]
  stream_eq := h.stream_eq

end Rows

/-- What is in the stream: whole messages, and while a `write_all` lasts a first part of its response. -/
structure Framed (w : Worker) : Prop where
  whole : w.phase ≠ .waiting → ∃ kept, Row kept w.offered w.stream
  part : w.phase = .waiting → ∃ kept before m row part,
    w.offered = before ++ [m] ∧ m.Sized ∧ Row kept before row ∧ w.stream = row ++ part ∧
      part <+: m.encode

theorem writeAll_spec {ws : List Write} {bs : Bytes} :
    (writeAll ws bs).1 <+: bs ∧ ((writeAll ws bs).2 = .done → (writeAll ws bs).1 = bs) ∧
      ((writeAll ws bs).2 = .failed → .failed ∈ ws) := by
  induction ws, bs using writeAll.induct with
  | case1 ws =>
    rw [writeAll]
    exact .intro nil_prefix ⟨fun _ => rfl, nofun⟩
  | case2 b bs =>
    rw [writeAll]
    exact .intro nil_prefix ⟨nofun, nofun⟩
  | case3 ws b bs ih =>
    rw [writeAll]
    exact ⟨ih.1, ih.2.1, fun h => mem_cons_of_mem _ (ih.2.2 h)⟩
  | case4 ws b bs ih =>
    rw [writeAll]
    exact ⟨ih.1, ih.2.1, fun h => mem_cons_of_mem _ (ih.2.2 h)⟩
  | case5 ws b bs =>
    rw [writeAll]
    exact .intro nil_prefix ⟨nofun, fun _ => mem_cons_self⟩
  | case6 n ws b bs taken progress hrest ih =>
    rw [writeAll]
    obtain ⟨hpre, hdone, hfailed⟩ := ih
    refine ⟨?_, fun h => ?_, fun h => mem_cons_of_mem _ (hfailed h)⟩
    · conv_rhs => rw [← take_append_drop n (b :: bs)]
      exact prefix_append_right_inj _ |>.mpr hpre
    · show (b :: bs).take n ++ (writeAll ws ((b :: bs).drop n)).1 = b :: bs
      rw [hdone h, take_append_drop]

/-! ## What an iteration writes -/

/-- A single write takes all of a message or nothing. -/
def Write.Whole (write : Write) (size : Nat) : Prop := ∀ n, write = .took n → n = 0 ∨ size ≤ n

theorem writeOnce_of_whole {write : Write} {bs : Bytes} (h : write.Whole bs.length) :
    writeOnce write bs = [] ∨ writeOnce write bs = bs := by
  cases write with
  | took n =>
    rcases h n rfl with rfl | hle
    · exact .inl rfl
    · exact .inr (take_of_length_le hle)
  | again => exact .inl rfl
  | interrupted => exact .inl rfl
  | failed => exact .inl rfl

/-- No best-effort write of the iteration takes only a part of its message, and no write of the response
fails. -/
structure Iteration.WholeWrites (it : Iteration) : Prop where
  answer : .failed ∉ it.answerWrites
  pcap : ∀ i pkt, it.pcapNext i = some pkt →
    (it.pcapWrite i).Whole (packetMsg (UInt16.ofNat i) pkt).encode.length
  raw : ∀ i, (it.rawWrite i).Whole (Worker.rawMsg it i).encode.length

/-- The responses of the handlers have no data, and are no data. -/
structure Answer (m : Msg) : Prop where
  payload : m.payload = []
  isData : m.isData = false

theorem answer_of {opcode : UInt8} (h : opcode < opPacketData) (status : UInt8) (handleId : UInt16) :
    Answer (answer opcode status handleId) := by
  refine ⟨rfl, ?_⟩
  have h₁ : opcode ≠ opPacketData := UInt8.ne_of_lt h
  have h₂ : opcode ≠ opRawResponse := UInt8.ne_of_lt (UInt8.lt_trans h (by decide))
  simp [answer, Msg.isData, h₁, h₂]

theorem answer_dispatch (calls : Calls) (s : Slots) (cmd : Command) :
    Answer (dispatch calls s cmd).2 := by
  have hopen := answer_of (show opOpenPcap < opPacketData by decide)
  have hclose := answer_of (show opClosePcap < opPacketData by decide)
  have hcreate := answer_of (show opCreateRawSocket < opPacketData by decide)
  have hcloseRaw := answer_of (show opCloseRawSocket < opPacketData by decide)
  have hsend := answer_of (show opSendRaw < opPacketData by decide)
  unfold dispatch
  split
  · unfold handleOpenPcap
    grind
  split
  · unfold handleClosePcap
    grind
  split
  · unfold handleCreateRawSocket
    grind
  split
  · unfold handleCloseRawSocket
    grind
  split
  · unfold handleSendRaw
    grind
  · exact ⟨rfl, rfl⟩

theorem encodeResponse_answer {m : Msg} (h : Answer m) :
    encodeResponse Worker.responseSize m = some m.encode := by
  unfold encodeResponse
  rw [h.payload]
  rfl

theorem Answer.sized {m : Msg} (h : Answer m) : m.Sized := by
  unfold Msg.Sized
  rw [h.payload]
  decide

section Runs

variable {w : Worker} {it : Iteration}

theorem Framed.sendResponse (h : Framed w) (hrunning : w.phase = .running) {m : Msg} (hm : Answer m)
    {writes : List Write} (hwrites : .failed ∉ writes) : Framed (w.sendResponse m writes) := by
  obtain ⟨kept, hrow⟩ := h.whole (by rw [hrunning]; decide)
  obtain ⟨hpre, hdone, hfailed⟩ := @writeAll_spec writes m.encode
  unfold Worker.sendResponse
  rw [encodeResponse_answer hm]
  dsimp only
  cases hprogress : (writeAll writes m.encode).2 with
  | failed => exact absurd (hfailed hprogress) hwrites
  | waiting =>
    constructor
    · intro hphase
      exact absurd rfl hphase
    · exact fun _ => ⟨kept, _, m, _, _, rfl, hm.sized, hrow, rfl, hpre⟩
  | done =>
    constructor
    · intro _
      show ∃ kept, Row kept (w.offered ++ [m]) (w.stream ++ (writeAll writes m.encode).1)
      rw [hdone hprogress]
      exact ⟨_, hrow.keep hm.sized⟩
    · intro hphase
      rw [show w.phase = .waiting from hphase] at hrunning
      cases hrunning

/-- A best-effort write that is not partial. -/
theorem Framed.sendData (h : Framed w) (hrunning : w.phase = .running) {m : Msg} (hm : m.Sized)
    (hdata : m.isData = true) {encoded : Option Bytes} (hencoded : ∀ bs, encoded = some bs → bs = m.encode)
    {write : Write} (hwhole : write.Whole m.encode.length) :
    Framed (w.sendData m encoded write) ∧ (w.sendData m encoded write).phase = .running := by
  unfold Worker.sendData
  cases encoded with
  | none => exact ⟨h, hrunning⟩
  | some bs =>
    obtain rfl := hencoded bs rfl
    obtain ⟨kept, hrow⟩ := h.whole (by rw [hrunning]; decide)
    refine ⟨⟨fun _ => ?_, fun hphase => ?_⟩, hrunning⟩
    · show ∃ kept, Row kept (w.offered ++ [m]) (w.stream ++ writeOnce write m.encode)
      rcases writeOnce_of_whole hwhole with hnone | hall
      · rw [hnone, append_nil]
        exact ⟨kept, hrow.drop hm hdata⟩
      · rw [hall]
        exact ⟨_, hrow.keep hm⟩
    · rw [show w.phase = .waiting from hphase] at hrunning
      cases hrunning

theorem Framed.pcapRead (h : Framed w) (hrunning : w.phase = .running) (hit : it.WholeWrites)
    (i : Fin maxPcapHandles) : Framed (w.pcapRead it i) ∧ (w.pcapRead it i).phase = .running := by
  unfold Worker.pcapRead
  cases hnext : it.pcapNext i with
  | none => exact ⟨h, hrunning⟩
  | some pkt =>
    refine h.sendData hrunning (packetMsg_sized _ pkt) rfl ?_ (hit.pcap i pkt hnext)
    intro bs hbs
    unfold encodePacketData at hbs
    dsimp only at hbs
    split at hbs
    · cases hbs
    · exact (Option.some.inj hbs).symm

theorem rawMsg_sized (it : Iteration) (i : Fin maxRawHandles) : (Worker.rawMsg it i).Sized := by
  have hlen : ((it.recv i).take recvBufSize).length ≤ recvBufSize := length_take_le ..
  exact Nat.lt_of_le_of_lt hlen (by decide)

theorem Framed.rawRead (h : Framed w) (hrunning : w.phase = .running) (hit : it.WholeWrites)
    (i : Fin maxRawHandles) : Framed (w.rawRead it i) ∧ (w.rawRead it i).phase = .running := by
  unfold Worker.rawRead
  split
  · exact ⟨h, hrunning⟩
  · refine h.sendData hrunning (rawMsg_sized it i) rfl ?_ (hit.raw i)
    intro bs hbs
    unfold encodeResponse at hbs
    split at hbs
    · cases hbs
    · exact (Option.some.inj hbs).symm

/-- A loop over slots, each turn of which keeps the stream whole. -/
theorem framed_foldl {ι : Type*} {f : Worker → ι → Worker} {is : List ι}
    (hf : ∀ w i, Framed w → w.phase = .running → Framed (f w i) ∧ (f w i).phase = .running)
    (h : Framed w) (hrunning : w.phase = .running) :
    Framed (is.foldl f w) ∧ (is.foldl f w).phase = .running := by
  induction is generalizing w with
  | nil => exact ⟨h, hrunning⟩
  | cons i is ih =>
    obtain ⟨h', hrunning'⟩ := hf w i h hrunning
    exact ih h' hrunning'

theorem Framed.reads (h : Framed w) (hrunning : w.phase = .running) (hit : it.WholeWrites)
    (before : Slots) : Framed (w.reads it before) := by
  obtain ⟨hpcap, hrunning'⟩ := @framed_foldl w _ (Worker.pcapRead it)
    (pcapReads before w.slots it.flags) (fun w i hw hr => Framed.pcapRead hw hr hit i) h hrunning
  exact (framed_foldl (fun w i hw hr => Framed.rawRead hw hr hit i) hpcap hrunning').1

theorem Framed.exit (h : Framed w) (hrunning : w.phase = .running) :
    Framed { w with phase := .exited } :=
  ⟨fun _ => h.whole (by rw [hrunning]; decide), nofun⟩

theorem Framed.command (h : Framed w) (hrunning : w.phase = .running) (hit : it.WholeWrites) :
    Framed (w.command it) := by
  unfold Worker.command
  split
  · split
    · exact h.exit hrunning
    · split
      · exact h.exit hrunning
      · rename_i cmd _ _
        have hslots : Framed { w with slots := w.slots.apply (dispatch it.calls w.slots cmd).1 } :=
          ⟨h.whole, h.part⟩
        exact hslots.sendResponse hrunning (answer_dispatch ..) hit.answer
  · exact h

theorem Framed.iterate (h : Framed w) (hit : it.WholeWrites) : Framed (w.iterate it) := by
  unfold Worker.iterate
  split
  · exact h
  rename_i hphase
  have hrunning : w.phase = .running := not_not.mp hphase
  split
  · exact h
  · exact h.exit hrunning
  · split
    · exact h.exit hrunning
    · have hcommand := h.command hrunning hit
      dsimp only
      split
      · exact hcommand
      · rename_i hafter
        exact hcommand.reads (not_not.mp hafter) hit w.slots

end Runs

/-- In every run in which no best-effort write takes a part of its message, the stream is a row of
complete messages: the responses all, and the packets and raw responses whole or not at all. While a
response is being written, a first part of it follows. -/
theorem stream_of_whole_messages {its : List Iteration} (h : ∀ it ∈ its, it.WholeWrites) :
    Framed (Worker.run its) := by
  unfold Worker.run
  have hstart : Framed .init := ⟨fun _ => ⟨[], .nil⟩, nofun⟩
  generalize Worker.init = w at hstart
  induction its generalizing w with
  | nil => exact hstart
  | cons it its ih =>
    obtain ⟨hit, hits⟩ := forall_mem_cons.mp h
    exact ih hits _ (hstart.iterate hit)

/-- The brain asks for a raw socket, and the response is written at the second attempt. -/
def openingRaw : Iteration where
  flags := fun k => k = 0
  incoming := some ⟨opCreateRawSocket, 0, [2, 1]⟩
  answerWrites := [.again, .took 5, .took 5]

/-- Three bytes come in on the first raw socket; a single write takes `n` bytes of the message. -/
def receiving (n : Nat) : Iteration where
  flags := fun k => k = 1
  recv := fun _ => [69, 0, 0]
  rawWrite := fun _ => .took n

theorem received_whole : Framed (Worker.run [openingRaw, receiving 100]) := by
  refine stream_of_whole_messages (forall_mem_cons.mpr ⟨?_, forall_mem_singleton.mpr ?_⟩)
  · exact ⟨by decide, nofun, fun _ _ h => nomatch h⟩
  · refine ⟨by decide, nofun, fun i n hn => .inr ?_⟩
    obtain rfl := Write.took.inj hn
    rw [Msg.length_encode]
    exact (by decide : headerSize + 3 ≤ 100)

/-- The socket takes five of the eleven bytes. -/
theorem received_part :
    (Worker.run [openingRaw, receiving 5]).phase = .running ∧
      ¬ ∃ ms : List Msg, (∀ m ∈ ms, m.Sized) ∧
        (Worker.run [openingRaw, receiving 5]).stream = ms.flatMap Msg.encode :=
  ⟨by decide, not_row_of_parse (by decide)⟩

end Packetsonde.Priv
