import Mathlib.Data.List.Forall2
import Packetsonde.Priv.Protocol

/-!
# Packetsonde — the privileged client (`priv_client.c`)

While a command waits for its response, packets that arrive go into a queue of 64 entries with room for
8192 bytes each; `ps_priv_client_recv` takes them out before it reads the socket. `Fifo` is what this is
for: messages come out as they were sent, in order, and one that finds the queue full is dropped whole.

A payload that is longer than an entry is cut when it is stored, and its header is not. What comes out
has the length of the header, so the bytes behind the entry are copied with it (`queued_message_cut`).
`received_as_sent` is the refinement for the messages that fit.
-/

namespace Packetsonde.Priv

open Packetsonde.Lib
open List

/-! ## What the client is for -/

def isAsync (opcode : UInt8) : Bool :=
  opcode = opPacketData || opcode = opRawResponse || opcode = opActivityData

/-- `PS_PRIV_CLIENT_ASYNC_QUEUE_SIZE` and `PS_PRIV_CLIENT_ASYNC_MSG_MAX`. -/
def asyncQueueSize : Nat := 64
def asyncMsgMax : Nat := 8192

/-- What happens: the worker sends, a command is written and waits, the event loop receives. `poll` is
what `poll` and the first `read` say if the queue is empty. -/
inductive RecvPoll where
  | again
  | failed
  | ready
  deriving DecidableEq, Repr

inductive ClientEvent where
  | arrive (m : Msg)
  | command (written : Bool)
  | recv (poll : RecvPoll) (bufsz : Nat)
  deriving DecidableEq, Repr

structure Fifo where
  queue : List Msg := []
  pending : List Msg := []
  deriving DecidableEq, Repr

namespace Fifo

/-- Up to the response, asynchronous messages go into the queue while there is room. -/
def wait : List Msg → List Msg → Fifo
  | queue, [] => ⟨queue, []⟩
  | queue, m :: pending =>
    if isAsync m.opcode then
      wait (if queue.length < asyncQueueSize then queue ++ [m] else queue) pending
    else ⟨queue, pending⟩

/-- The message `recv` returns, and the rest. -/
def recv (f : Fifo) (poll : RecvPoll) : Fifo × Option Msg :=
  match f.queue with
  | m :: queue => ({ f with queue := queue }, some m)
  | [] =>
    match poll, f.pending with
    | .ready, m :: pending => ({ f with pending := pending }, some m)
    | _, _ => (f, none)

def step (f : Fifo) : ClientEvent → Fifo × Option Msg
  | .arrive m => ({ f with pending := f.pending ++ [m] }, none)
  | .command written => (if written then wait f.queue f.pending else f, none)
  | .recv poll _ => f.recv poll

def run : Fifo → List ClientEvent → List Msg
  | _, [] => []
  | f, ev :: evs => (f.step ev).2.toList ++ run (f.step ev).1 evs

end Fifo

/-! ## The code -/

/-- `struct ps_async_msg`. -/
structure AsyncMsg where
  hdr : Header
  payload : Bytes
  full : payload.length = asyncMsgMax

/-- The entry after a payload was read into it; the rest of the bytes stay. -/
def AsyncMsg.store (am : AsyncMsg) (hdr : Header) (data : Bytes) : AsyncMsg where
  hdr := hdr
  payload := data.take asyncMsgMax ++ am.payload.drop (data.take asyncMsgMax).length
  full := by
    have := am.full
    have : (data.take asyncMsgMax).length ≤ asyncMsgMax := length_take_le ..
    rw [length_append, length_drop]
    omega

/-- `struct ps_priv_client`, and the bytes in the socket. -/
structure Client where
  queue : List AsyncMsg
  size : queue.length = asyncQueueSize
  count : Nat
  fits : count ≤ asyncQueueSize
  stream : Bytes

/-- An entry as `memset` leaves it. -/
def zeroed : AsyncMsg where
  hdr := ⟨0, 0, 0, 0⟩
  payload := List.replicate asyncMsgMax 0
  full := length_replicate

/-- `ps_priv_client_init`. -/
def Client.init : Client where
  queue := List.replicate asyncQueueSize zeroed
  size := length_replicate
  count := 0
  fits := Nat.zero_le _
  stream := []

/-- What a call of `ps_priv_client_recv` gives: the header, the bytes placed in `payload_buf`, and the
return value. -/
structure Received where
  hdr : Header
  placed : Bytes
  rc : Nat
  deriving DecidableEq, Repr

namespace Client

/-- The message goes into the first entry that is free. -/
def enqueue (c : Client) (room : c.count < asyncQueueSize) (hdr : Header) (data : Bytes) : Client :=
  { c with
    queue := c.queue.set c.count ((c.queue.getD c.count zeroed).store hdr data)
    size := by rw [length_set, c.size]
    count := c.count + 1
    fits := room }

/-- The loop of `send_and_recv`: the response's header, or none if the stream ends before. `fuel`
bounds the messages. An empty payload takes the same way as any other. -/
def waitResponse : Nat → Client → Client × Option Header
  | 0, c => (c, none)
  | fuel + 1, c =>
    match readHeader c.stream with
    | none => ({ c with stream := [] }, none)
    | some (hdr, rest) =>
      if rest.length < hdr.payloadLen then ({ c with stream := [] }, none)
      else
        let c := { c with stream := rest.drop hdr.payloadLen }
        if isAsync hdr.opcode then
          if room : c.count < asyncQueueSize then
            waitResponse fuel (c.enqueue room hdr (rest.take hdr.payloadLen))
          else waitResponse fuel c
        else (c, some hdr)

/-- `send_and_recv`, whose `write_all` may fail. -/
def sendAndRecv (c : Client) (written : Bool) : Client × Option Header :=
  if written then c.waitResponse c.stream.length else (c, none)

def memory (queue : List AsyncMsg) : Bytes := queue.flatMap fun am => am.hdr.bytes ++ am.payload

/-- `memmove` of the entries behind the first. -/
def shift (queue : List AsyncMsg) (count : Nat) : List AsyncMsg :=
  (queue.drop 1).take count ++ queue.drop count

theorem length_shift {queue : List AsyncMsg} {count : Nat} (h : count < queue.length) :
    (shift queue count).length = queue.length := by
  unfold shift
  rw [length_append, length_take, length_drop, length_drop]
  omega

/-- The first entry of the queue: its header, and as many bytes behind it as the header says. -/
def recvQueued (c : Client) (bufsz : Nat) : Client × Received :=
  let hdr := (c.queue.getD 0 zeroed).hdr
  ({ c with
      queue := shift c.queue (c.count - 1)
      size := by
        have := c.fits
        have := c.size
        rw [length_shift (by unfold asyncQueueSize at *; omega), c.size]
      count := c.count - 1
      fits := Nat.le_trans (Nat.sub_le _ _) c.fits },
    ⟨hdr, ((memory c.queue).drop headerSize).take (min hdr.payloadLen bufsz),
      headerSize + hdr.payloadLen⟩)

/-- A message from the socket. One that does not fit the buffer is left there, without its header. -/
def recvDirect (c : Client) (bufsz : Nat) : Client × Option Received :=
  match readHeader c.stream with
  | none => (c, none)
  | some (hdr, rest) =>
    if hdr.payloadLen > bufsz then ({ c with stream := rest }, none)
    else if rest.length < hdr.payloadLen then ({ c with stream := [] }, none)
    else
      ({ c with stream := rest.drop hdr.payloadLen },
        some ⟨hdr, rest.take hdr.payloadLen, headerSize + hdr.payloadLen⟩)

/-- `ps_priv_client_recv`. -/
def recv (c : Client) (poll : RecvPoll) (bufsz : Nat) : Client × Option Received :=
  if c.count > 0 then
    let (c, r) := c.recvQueued bufsz
    (c, some r)
  else
    match poll with
    | .again => (c, none)
    | .failed => (c, none)
    | .ready => c.recvDirect bufsz

def step (c : Client) : ClientEvent → Client × Option Received
  | .arrive m => ({ c with stream := c.stream ++ m.encode }, none)
  | .command written => ((c.sendAndRecv written).1, none)
  | .recv poll bufsz => c.recv poll bufsz

def run : Client → List ClientEvent → List Received
  | _, [] => []
  | c, ev :: evs => (c.step ev).2.toList ++ run (c.step ev).1 evs

end Client

/-! ## The refinement -/

structure Holds (am : AsyncMsg) (m : Msg) : Prop where
  hdr : am.hdr = m.header
  payload : am.payload.take m.payload.length = m.payload

structure Sim (c : Client) (f : Fifo) : Prop where
  sized : ∀ m ∈ f.pending, m.Sized
  stream : c.stream = f.pending.flatMap Msg.encode
  count : c.count = f.queue.length
  queue : List.Forall₂ Holds (c.queue.take c.count) f.queue

theorem sim_init : Sim .init {} := ⟨nofun, rfl, rfl, .nil⟩

/-- The messages that are queued during a wait have room in an entry. -/
def Fifo.FitsWait : List Msg → List Msg → Prop
  | _, [] => True
  | queue, m :: pending => isAsync m.opcode = true →
    (queue.length < asyncQueueSize → m.payload.length ≤ asyncMsgMax) ∧
      FitsWait (if queue.length < asyncQueueSize then queue ++ [m] else queue) pending

/-- The event handles only messages that fit: those that are sent the protocol, those that are queued
an entry, one that is received the caller's buffer. -/
def Fifo.Fits (f : Fifo) : ClientEvent → Prop
  | .arrive m => m.payload.length ≤ maxMsgPayload
  | .command written => written = true → Fifo.FitsWait f.queue f.pending
  | .recv poll bufsz => ∀ m, (f.recv poll).2 = some m → m.payload.length ≤ bufsz

def Fifo.FitsRun : Fifo → List ClientEvent → Prop
  | _, [] => True
  | f, ev :: evs => f.Fits ev ∧ Fifo.FitsRun (f.step ev).1 evs

section Simulation

variable {c : Client} {f : Fifo} {m : Msg} {queue pending : List Msg}

theorem holds_store (am : AsyncMsg) (hm : m.payload.length ≤ asyncMsgMax) :
    Holds (am.store m.header m.payload) m := by
  refine ⟨rfl, ?_⟩
  show (m.payload.take asyncMsgMax ++ _).take m.payload.length = m.payload
  rw [take_of_length_le hm]
  exact take_left

theorem Sim.enqueue (h : Sim c ⟨queue, pending⟩) (room : c.count < asyncQueueSize)
    (hm : m.payload.length ≤ asyncMsgMax) :
    Sim (c.enqueue room m.header m.payload) ⟨queue ++ [m], pending⟩ where
  sized := h.sized
  stream := h.stream
  count := by
    show c.count + 1 = (queue ++ [m]).length
    rw [h.count, length_append]
    rfl
  queue := by
    have hlt : c.count < c.queue.length := by
      rw [c.size]
      exact room
    show List.Forall₂ Holds ((c.queue.set c.count _).take (c.count + 1)) (queue ++ [m])
    rw [take_add_one, take_set, set_eq_of_length_le (by rw [length_take]; omega),
      getElem?_set_self hlt]
    exact rel_append h.queue (.cons (holds_store _ hm) .nil)

theorem payloadLen_header (m : Msg) : m.header.payloadLen = m.payload.length := rfl

theorem opcode_header (m : Msg) : m.header.opcode = m.opcode := rfl

/-- The next message of the socket: its header, its payload, and the rest. -/
theorem Sim.next (h : Sim c ⟨queue, m :: pending⟩) :
    ∃ rest, readHeader c.stream = some (m.header, m.payload ++ rest) ∧
      ¬ (m.payload ++ rest).length < m.payload.length ∧
      Sim { c with stream := rest } ⟨queue, pending⟩ := by
  obtain ⟨hm, hpending⟩ := forall_mem_cons.mp h.sized
  refine ⟨pending.flatMap Msg.encode, ?_, ?_, ⟨hpending, rfl, h.count, h.queue⟩⟩
  · rw [h.stream, flatMap_cons]
    exact readHeader_encode hm _
  · rw [length_append]
    exact Nat.not_lt.mpr (Nat.le_add_right _ _)

/-- The wait for a response. Induction on the messages in the socket. -/
theorem Sim.wait (h : Sim c ⟨queue, pending⟩) (hfits : Fifo.FitsWait queue pending) {fuel : Nat}
    (hfuel : pending.length ≤ fuel) : Sim (c.waitResponse fuel).1 (Fifo.wait queue pending) := by
  induction pending generalizing c queue fuel with
  | nil =>
    have hstream : c.stream = [] := h.stream
    cases fuel with
    | zero => exact h
    | succ fuel =>
      rw [Client.waitResponse, hstream]
      exact ⟨h.sized, rfl, h.count, h.queue⟩
  | cons m pending ih =>
    cases fuel with
    | zero => cases hfuel
    | succ fuel =>
      have hfuel : pending.length ≤ fuel := Nat.le_of_succ_le_succ hfuel
      obtain ⟨rest, hread, hlong, hnext⟩ := h.next
      rw [Client.waitResponse, hread]
      simp only [payloadLen_header, opcode_header, if_neg hlong, drop_left, take_left]
      rw [Fifo.wait]
      by_cases hasync : isAsync m.opcode = true
      · obtain ⟨hroom, hfits⟩ := hfits hasync
        rw [if_pos hasync, if_pos hasync]
        by_cases hlt : queue.length < asyncQueueSize
        · rw [if_pos hlt] at hfits ⊢
          have room : c.count < asyncQueueSize := by
            rw [h.count]
            exact hlt
          rw [dif_pos room]
          exact ih (hnext.enqueue room (hroom hlt)) hfits hfuel
        · rw [if_neg hlt] at hfits ⊢
          have full : ¬ c.count < asyncQueueSize := by
            rw [h.count]
            exact hlt
          rw [dif_neg full]
          exact ih hnext hfits hfuel
      · rw [if_neg hasync, if_neg hasync]
        exact hnext

/-- The first entry of the queue comes out as it went in. -/
theorem Sim.recvQueued (h : Sim c ⟨m :: queue, pending⟩) {bufsz : Nat}
    (hbuf : m.payload.length ≤ bufsz) :
    Sim (c.recvQueued bufsz).1 ⟨queue, pending⟩ ∧
      (c.recvQueued bufsz).2 = ⟨m.header, m.payload, headerSize + m.payload.length⟩ := by
  have hcount : c.count = queue.length + 1 := h.count
  have hqueue := h.queue
  unfold Client.recvQueued
  have hsize := c.size
  obtain ⟨am, ams, hams⟩ : ∃ am ams, c.queue = am :: ams := by
    cases hq : c.queue with
    | nil =>
      rw [hq] at hsize
      cases hsize
    | cons am ams => exact ⟨am, ams, rfl⟩
  rw [hams, hcount, take_succ_cons] at hqueue
  obtain ⟨hholds, hqueue⟩ := forall₂_cons.mp hqueue
  have hlen : m.payload.length ≤ asyncMsgMax := by
    rw [← am.full, ← hholds.payload, length_take]
    omega
  constructor
  · refine ⟨h.sized, h.stream, ?_, ?_⟩
    · show c.count - 1 = queue.length
      omega
    · show List.Forall₂ Holds ((Client.shift c.queue (c.count - 1)).take (c.count - 1)) queue
      have htake : (Client.shift c.queue (c.count - 1)).take (c.count - 1) = ams.take queue.length := by
        unfold Client.shift
        have hroom : (ams.take queue.length).length = queue.length := by
          rw [length_take]
          have := c.fits
          rw [hams, length_cons] at hsize
          omega
        rw [hams, hcount, Nat.add_sub_cancel, drop_succ_cons, drop_zero]
        exact take_left' hroom
      rw [htake]
      exact hqueue
  · have hmemory : (Client.memory c.queue).drop headerSize = am.payload ++ Client.memory ams := by
      unfold Client.memory
      rw [hams, flatMap_cons, append_assoc]
      exact drop_left' (Header.length_bytes _)
    have hhdr : (c.queue.getD 0 zeroed).hdr = m.header := by
      rw [hams]
      exact hholds.hdr
    have hcopy : (am.payload ++ Client.memory ams).take m.payload.length = m.payload := by
      rw [take_append_of_le_length (by rw [am.full]; exact hlen), hholds.payload]
    simp only [hhdr, hmemory, payloadLen_header, Nat.min_eq_left hbuf, hcopy]

/-- A message is read from the socket as it was sent. -/
theorem Sim.recvDirect (h : Sim c ⟨queue, m :: pending⟩) {bufsz : Nat}
    (hbuf : m.payload.length ≤ bufsz) :
    Sim (c.recvDirect bufsz).1 ⟨queue, pending⟩ ∧
      (c.recvDirect bufsz).2 = some ⟨m.header, m.payload, headerSize + m.payload.length⟩ := by
  obtain ⟨rest, hread, hlong, hnext⟩ := h.next
  unfold Client.recvDirect
  rw [hread]
  simp only [payloadLen_header, if_neg (Nat.not_lt.mpr hbuf), if_neg hlong, drop_left,
    take_left, and_true]
  exact hnext

def Msg.received (m : Msg) : Received := ⟨m.header, m.payload, headerSize + m.payload.length⟩

theorem Sim.recv (h : Sim c f) {poll : RecvPoll} {bufsz : Nat}
    (hfits : ∀ m, (f.recv poll).2 = some m → m.payload.length ≤ bufsz) :
    Sim (c.recv poll bufsz).1 (f.recv poll).1 ∧
      (c.recv poll bufsz).2 = (f.recv poll).2.map Msg.received := by
  obtain ⟨queue, pending⟩ := f
  unfold Client.recv
  cases queue with
  | cons m queue =>
    have hpos : c.count > 0 := by
      rw [h.count]
      exact Nat.succ_pos _
    obtain ⟨hsim, hout⟩ := h.recvQueued (hfits m rfl)
    rw [if_pos hpos]
    exact ⟨hsim, congrArg some hout⟩
  | nil =>
    have hzero : ¬ c.count > 0 := by
      rw [h.count]
      exact Nat.lt_irrefl 0
    rw [if_neg hzero]
    cases poll with
    | again => exact ⟨h, rfl⟩
    | failed => exact ⟨h, rfl⟩
    | ready =>
      cases pending with
      | nil =>
        have hstream : c.stream = [] := h.stream
        have hnone : c.recvDirect bufsz = (c, none) := by
          unfold Client.recvDirect
          rw [hstream]
          rfl
        show Sim (c.recvDirect bufsz).1 _ ∧ (c.recvDirect bufsz).2 = _
        rw [hnone]
        exact ⟨h, rfl⟩
      | cons m pending => exact h.recvDirect (hfits m rfl)

theorem Sim.step (h : Sim c f) {ev : ClientEvent} (hfits : f.Fits ev) :
    Sim (c.step ev).1 (f.step ev).1 ∧ (c.step ev).2 = (f.step ev).2.map Msg.received := by
  cases ev with
  | arrive m =>
    refine ⟨⟨?_, ?_, h.count, h.queue⟩, rfl⟩
    · refine forall_mem_append.mpr ⟨h.sized, forall_mem_singleton.mpr ?_⟩
      exact Nat.lt_of_le_of_lt hfits (by decide)
    · show c.stream ++ m.encode = (f.pending ++ [m]).flatMap Msg.encode
      rw [h.stream, flatMap_append, flatMap_singleton]
  | command written =>
    refine ⟨?_, rfl⟩
    show Sim (c.sendAndRecv written).1 (if written = true then _ else f)
    unfold Client.sendAndRecv
    cases written with
    | false => exact h
    | true =>
      refine Sim.wait (show Sim c ⟨f.queue, f.pending⟩ from h) (hfits rfl) ?_
      rw [h.stream]
      exact length_le_flatMap_encode f.pending
  | recv poll bufsz => exact h.recv hfits

end Simulation

/-- In every run in which the messages fit, what `ps_priv_client_recv` returns are the messages of the
queue: header, bytes and length as they were sent, in order, and dropped whole where there was no room. -/
theorem received_as_sent {evs : List ClientEvent} (h : Fifo.FitsRun {} evs) :
    Client.run .init evs = (Fifo.run {} evs).map Msg.received := by
  have hsim := sim_init
  revert h hsim
  generalize Client.init = c
  generalize ({} : Fifo) = f
  intro h hsim
  induction evs generalizing c f with
  | nil => rfl
  | cons ev evs ih =>
    obtain ⟨hnext, hout⟩ := hsim.step h.1
    rw [Client.run, Fifo.run, map_append, ih _ _ h.2 hnext, hout]
    congr 1
    cases (f.step ev).2 with
    | none => rfl
    | some m => rfl

def response : Msg := ⟨opSendRaw, statusOk, 0, []⟩

/-- A packet comes while a command waits, and is received afterwards. -/
def whileWaiting (m : Msg) : List ClientEvent :=
  [.arrive m, .arrive response, .command true, .recv .ready maxMsgPayload]

def smallPacket : Msg := ⟨opPacketData, statusOk, 0, [1, 2, 3]⟩

theorem small_packet_received :
    Client.run .init (whileWaiting smallPacket) =
      (Fifo.run {} (whileWaiting smallPacket)).map Msg.received := by
  have hsmall : smallPacket.payload.length ≤ maxMsgPayload := by decide
  refine received_as_sent ⟨hsmall, Nat.zero_le _, fun _ _ => ⟨fun _ => by decide, nofun⟩, ?_, trivial⟩
  intro m hm
  obtain rfl : smallPacket = m := Option.some.inj hm
  exact hsmall

/-- The client once the command has its response: the packet is in the first entry. -/
theorem wait_stores {m : Msg} (hm : m.Sized) (hasync : isAsync m.opcode = true) {fuel : Nat}
    (hfuel : 2 ≤ fuel) :
    ({ Client.init with stream := m.encode ++ response.encode }.waitResponse fuel).1 =
      { Client.init.enqueue (by decide) m.header m.payload with stream := [] } := by
  obtain ⟨fuel, rfl⟩ : ∃ k, fuel = k + 2 := ⟨fuel - 2, by omega⟩
  have hread := readHeader_encode hm response.encode
  have hlong : ¬ (m.payload ++ response.encode).length < m.payload.length := by
    rw [length_append]
    omega
  rw [Client.waitResponse, hread]
  simp only [payloadLen_header, opcode_header, if_neg hlong, if_pos hasync, drop_left,
    take_left]
  rfl

theorem run_whileWaiting {m : Msg} (hm : m.Sized) (hasync : isAsync m.opcode = true) :
    Client.run .init (whileWaiting m) =
      [((Client.init.enqueue (by decide) m.header m.payload).recvQueued maxMsgPayload).2] := by
  have hfuel : 2 ≤ (m.encode ++ response.encode).length := by
    rw [length_append, Msg.length_encode]
    exact Nat.le_trans (show 2 ≤ headerSize by decide) (by omega)
  have hwait := wait_stores hm hasync hfuel
  have hempty : Client.init.stream = [] := rfl
  simp only [whileWaiting, Client.run, Client.step, Client.sendAndRecv, Option.toList_none,
    nil_append, if_true, hempty, hwait]
  rfl

theorem hdr_recvQueued_first (m : Msg) (bufsz : Nat) :
    ((Client.init.enqueue (by decide) m.header m.payload).recvQueued bufsz).2.hdr = m.header := rfl

/-- What comes out of a fresh queue for a payload that is too long for an entry: the part that was
stored, and the zeroes of the next entry. -/
theorem placed_oversized {m : Msg} (hlong : asyncMsgMax < m.payload.length) {bufsz : Nat}
    (hbuf : m.payload.length ≤ bufsz) :
    ∃ more, ((Client.init.enqueue (by decide) m.header m.payload).recvQueued bufsz).2.placed =
      (m.payload.take asyncMsgMax ++ 0 :: more).take m.payload.length := by
  have hstored : (zeroed.store m.header m.payload).payload = m.payload.take asyncMsgMax := by
    have hlen : (m.payload.take asyncMsgMax).length = asyncMsgMax := by
      rw [length_take]
      omega
    show _ ++ zeroed.payload.drop _ = _
    rw [hlen, drop_of_length_le (Nat.le_of_eq zeroed.full), append_nil]
  have hnext : ∃ more, Client.memory (List.replicate (asyncQueueSize - 1) zeroed) = 0 :: more := by
    rw [show asyncQueueSize - 1 = 62 + 1 from rfl, replicate_succ, Client.memory,
      flatMap_cons, append_assoc]
    exact ⟨_, rfl⟩
  obtain ⟨more, hnext⟩ := hnext
  have hqueue : (Client.init.enqueue (by decide) m.header m.payload).queue =
      zeroed.store m.header m.payload :: List.replicate (asyncQueueSize - 1) zeroed := by
    show (List.replicate asyncQueueSize zeroed).set 0 _ = _
    rw [show asyncQueueSize = asyncQueueSize - 1 + 1 from rfl, replicate_succ, set_cons_zero]
    rfl
  have hmemory : (Client.memory (Client.init.enqueue (by decide) m.header m.payload).queue).drop
      headerSize = (zeroed.store m.header m.payload).payload ++ 0 :: more := by
    rw [hqueue, Client.memory, flatMap_cons, append_assoc, ← Client.memory, hnext]
    exact drop_left' (Header.length_bytes _)
  refine ⟨more, ?_⟩
  show ((Client.memory _).drop headerSize).take (min m.payload.length bufsz) = _
  rw [hmemory, hstored, Nat.min_eq_left hbuf]

/-- A payload of one byte more than an entry has. -/
def jumbo : Msg := ⟨opPacketData, statusOk, 0, List.replicate (asyncMsgMax + 1) 1⟩

/-- It is received with its length, and with a byte of the next entry. -/
theorem queued_message_cut :
    ∃ r, Client.run .init (whileWaiting jumbo) = [r] ∧ r.hdr = jumbo.header ∧
      r.placed ≠ jumbo.payload := by
  have hsize : jumbo.payload.length = asyncMsgMax + 1 := length_replicate
  have hsized : jumbo.Sized := by
    unfold Msg.Sized
    rw [hsize]
    decide
  refine ⟨_, run_whileWaiting hsized (by decide), hdr_recvQueued_first jumbo maxMsgPayload, ?_⟩
  obtain ⟨more, hplaced⟩ := @placed_oversized jumbo (by rw [hsize]; omega) maxMsgPayload
    (by rw [hsize]; decide)
  rw [hplaced, hsize]
  intro heq
  -- the last byte
  have hlast := congrArg (fun bs : Bytes => bs[asyncMsgMax]?) heq
  have htake : (jumbo.payload.take asyncMsgMax).length = asyncMsgMax := by
    rw [length_take, hsize]
    omega
  simp only [getElem?_take_of_lt (Nat.lt_succ_self asyncMsgMax),
    getElem?_append_right (Nat.le_of_eq htake), htake, Nat.sub_self] at hlast
  rw [show jumbo.payload = List.replicate (asyncMsgMax + 1) 1 from rfl,
    getElem?_replicate_of_lt (Nat.lt_succ_self _)] at hlast
  cases hlast

end Packetsonde.Priv
