import Packetsonde.Ipc.Frame
import Packetsonde.Lib.Slots

/-!
# Packetsonde — the poll loop of the IPC server (`ipc_server.c`)

Eight client slots, two listeners, one `poll` per call. What the system calls return is the data of
the event: which connections wait, the flags of each entry, how much a `read` returns, to which clients
a write fails. A broadcast drops every client it cannot write to, and the handlers of frames
broadcast; so a handler can take away any slot, the one being read included.

A TLS client has bytes that are decrypted and not yet returned by `SSL_read` (`SSL_pending`). The
comment in `ps_ipc_server_poll` calls looking at them essential; the early return for a `poll` without
events stands before it (`no_frame_left_pending_iff`).
-/

namespace Packetsonde.Ipc

open Packetsonde.Lib
open List hiding Vector

/-- `PS_IPC_MAX_CLIENTS`. -/
abbrev maxClients : Nat := 8

/-- A connection: whether it came in by the TCP listener, and its number. -/
structure Conn where
  tcp : Bool
  id : Nat
  deriving DecidableEq, Repr

/-- The kernel's side of a connection. `unread` and `records` are what waits in the socket, for a
plaintext and for a TLS connection; `sent` is all the peer ever wrote in plaintext. -/
structure Sock where
  sent : Bytes := []
  unread : Bytes := []
  records : List Bytes := []
  closed : Bool := false
  deriving DecidableEq, Repr

/-- `struct ps_ipc_client`; `ssl` holds the decrypted bytes of a TLS client. -/
structure Client where
  conn : Option Conn := none
  reader : FrameReader := {}
  ssl : Option Bytes := none
  deriving DecidableEq, Repr

/-- `struct ps_ipc_server` with the sockets, the connections that ever got a slot, and the calls of
`on_frame`. -/
structure Server where
  tls : Bool
  clients : Vector Client maxClients
  clientCount : Int
  socks : Conn → Sock
  placed : List Conn
  frames : List (Option Conn × Delivered)

namespace Server

/-- `ps_ipc_server_init`, and `ps_ipc_server_enable_tls` if `tls`. -/
def init (tls : Bool) : Server where
  tls := tls
  clients := Vector.replicate maxClients {}
  clientCount := 0
  socks := fun _ => {}
  placed := []
  frames := []

def client (srv : Server) (i : Fin maxClients) : Client := srv.clients.get i

def setClient (srv : Server) (i : Fin maxClients) (c : Client) : Server :=
  { srv with clients := srv.clients.set i c i.isLt }

def setReader (srv : Server) (i : Fin maxClients) (reader : FrameReader) : Server :=
  srv.setClient i { srv.client i with reader := reader }

def setSock (srv : Server) (c : Conn) (sock : Sock) : Server :=
  { srv with socks := fun d => if d = c then sock else srv.socks d }

/-- The calls of `on_frame` for a connection. -/
def framesOf (srv : Server) (c : Conn) : List Delivered := ofSlot (some c) srv.frames

/-! ## Slots -/

/-- The slot after `ipc_drop_client`: the buffer is freed, the rest of the reader stays. -/
def dropped (c : Client) : Client :=
  { reader := { c.reader with payload := none, payloadCap := 0 } }

/-- `ipc_drop_client`. -/
def dropClient (srv : Server) (i : Fin maxClients) : Server :=
  { srv.setClient i (dropped (srv.client i)) with clientCount := srv.clientCount - 1 }

/-- One turn of the loop in `ps_ipc_server_broadcast`. -/
def broadcastTo (fails : Fin maxClients → Bool) (srv : Server) (i : Fin maxClients) : Server :=
  if (srv.client i).conn.isSome ∧ fails i then srv.dropClient i else srv

/-- `ps_ipc_server_broadcast`, for the clients; `fails` are those it cannot write to. -/
def broadcast (srv : Server) (fails : Fin maxClients → Bool) : Server :=
  if srv.clientCount = 0 then srv
  else (List.finRange maxClients).foldl (broadcastTo fails) srv

/-- The slot of a new connection, with `ps_frame_reader_init`. -/
def occupy (srv : Server) (i : Fin maxClients) (c : Conn) (ssl : Option Bytes) : Server :=
  { srv.setClient i { conn := some c, ssl := ssl } with
    clientCount := srv.clientCount + 1
    placed := c :: srv.placed }

/-- A connection that was accepted takes the first free slot. `accept` returns a connection once. -/
def place (srv : Server) (c : Conn) (ssl : Option Bytes) : Server :=
  if c ∈ srv.placed then srv
  else
    match (List.finRange maxClients).find? fun i => (srv.client i).conn.isNone with
    | none => srv
    | some i => srv.occupy i c ssl

/-- What `ps_at_accept_fd` and `ipc_tls_is_authorized` say; the handshake may have read some of the
client's first bytes. -/
inductive Handshake where
  | failed
  | unauthorized
  | authorized (pending : Bytes)
  deriving DecidableEq, Repr

/-- `ipc_accept_client`. -/
def acceptClient (srv : Server) (id : Nat) : Server :=
  if srv.clientCount ≥ maxClients then srv else srv.place ⟨false, id⟩ none

/-- The same for the TCP listener. -/
def acceptTcp (srv : Server) (id : Nat) (handshake : Handshake) : Server :=
  if srv.clientCount ≥ maxClients then srv
  else if srv.tls then
    match handshake with
    | .failed => srv
    | .unauthorized => srv
    | .authorized pending => srv.place ⟨true, id⟩ (some pending)
  else srv.place ⟨true, id⟩ none

/-! ## Reading -/

/-- What a `read` on the socket does: nothing for now, fail, or return at most `n + 1` bytes. -/
inductive Io where
  | again
  | failed
  | upTo (n : Nat)
  deriving DecidableEq, Repr

inductive ReadResult where
  | bytes (bs : Bytes)
  | eof
  | failed
  | wouldBlock
  deriving DecidableEq, Repr

/-- An empty socket: the end of the stream, or nothing yet. -/
def readEmpty (sock : Sock) : ReadResult := if sock.closed then .eof else .wouldBlock

/-- `sizeof(read_buf)`. -/
def readSize : Nat := 4096

/-- `ipc_client_read` without TLS. -/
def readPlain (srv : Server) (c : Conn) (io : Io) : Server × ReadResult :=
  let sock := srv.socks c
  match io with
  | .again => (srv, .wouldBlock)
  | .failed => (srv, .failed)
  | .upTo n =>
    if sock.unread = [] then (srv, readEmpty sock)
    else
      let size := min (n + 1) readSize
      (srv.setSock c { sock with unread := sock.unread.drop size }, .bytes (sock.unread.take size))

/-- `ipc_client_read` with TLS: decrypted bytes first, then the next record with a byte in it. -/
def readTls (srv : Server) (i : Fin maxClients) (c : Conn) (pending : Bytes) (io : Io) :
    Server × ReadResult :=
  let setPending (srv : Server) (bs : Bytes) :=
    srv.setClient i { srv.client i with ssl := some bs }
  if pending ≠ [] then (setPending srv (pending.drop readSize), .bytes (pending.take readSize))
  else
    let sock := srv.socks c
    match io with
    | .again => (srv, .wouldBlock)
    | .failed => (srv, .failed)
    | .upTo _ =>
      match sock.records.dropWhile (· = []) with
      | [] => (srv, readEmpty sock)
      | record :: records =>
        (setPending (srv.setSock c { sock with records := records }) (record.drop readSize),
          .bytes (record.take readSize))

/-- `ipc_client_read`. -/
def clientRead (srv : Server) (i : Fin maxClients) (io : Io) : Server × ReadResult :=
  match (srv.client i).conn, (srv.client i).ssl with
  | none, _ => (srv, .failed)
  | some c, none => srv.readPlain c io
  | some c, some pending => srv.readTls i c pending io

/-- A complete frame: `on_frame`, whose broadcasts fail for some clients. -/
def onFrame (srv : Server) (i : Fin maxClients) (fails : Nat → Fin maxClients → Bool) : Server :=
  { srv with
    frames := srv.frames ++ [((srv.client i).conn, (srv.client i).reader.delivered)] }.broadcast
      (fails srv.frames.length)

/-- The bytes of one read, fed to the reader; whether that dropped the client. -/
def feedBytes (malloc : Nat → Bool) (fails : Nat → Fin maxClients → Bool) (i : Fin maxClients) :
    Server → Bytes → Server × Bool
  | srv, [] => (srv, false)
  | srv, byte :: bs =>
    let (reader, fed) := (srv.client i).reader.feed malloc byte
    let srv := srv.setReader i reader
    match fed with
    | .more => feedBytes malloc fails i srv bs
    | .ready => feedBytes malloc fails i (srv.onFrame i fails) bs
    | .error => (srv.dropClient i, true)

/-- `SSL_pending`. -/
def pending (srv : Server) (i : Fin maxClients) : Bytes := (srv.client i).ssl.getD []

/-- One turn of the loop that drains a client, and whether there is another. -/
def drainTurn (malloc : Nat → Bool) (fails : Nat → Fin maxClients → Bool) (i : Fin maxClients)
    (io : Io) (srv : Server) : Server × Bool :=
  match srv.clientRead i io with
  | (srv, .wouldBlock) => (srv, false)
  | (srv, .eof) => (srv.dropClient i, false)
  | (srv, .failed) => (srv.dropClient i, false)
  | (srv, .bytes bs) =>
    let (srv, dropped) := feedBytes malloc fails i srv bs
    (srv, !dropped && (srv.client i).conn.isSome && srv.pending i ≠ [])

/-- The loop; `fuel` bounds its turns. -/
def drain (malloc : Nat → Bool) (fails : Nat → Fin maxClients → Bool) (i : Fin maxClients) (io : Io) :
    Nat → Server → Server
  | 0, srv => (drainTurn malloc fails i io srv).1
  | fuel + 1, srv =>
    let (srv, again) := drainTurn malloc fails i io srv
    if again then drain malloc fails i io fuel srv else srv

/-! ## One call -/

/-- What `poll` returns. -/
inductive PollResult where
  | failed
  | interrupted
  | timeout
  | ready
  deriving DecidableEq, Repr

/-- The system calls of one `ps_ipc_server_poll`: the connections the listeners have, the flags
`POLLHUP | POLLERR` and `POLLIN` of each slot's entry, its `read`, and the writes of the handler of each
frame that fail. -/
structure Poll where
  result : PollResult := .ready
  unix : Option Nat := none
  tcp : Option (Nat × Handshake) := none
  hangup : Fin maxClients → Bool := fun _ => false
  readable : Fin maxClients → Bool := fun _ => false
  io : Fin maxClients → Io := fun _ => .upTo readSize
  fails : Nat → Fin maxClients → Bool := fun _ _ => false

/-- Enough turns for what a TLS client can have decrypted in one call. -/
def drainFuel (srv : Server) (i : Fin maxClients) : Nat :=
  match (srv.client i).conn with
  | none => 0
  | some c => (srv.pending i).length + ((srv.socks c).records.map List.length).sum

def serve (malloc : Nat → Bool) (p : Poll) (srv : Server) (i : Fin maxClients) : Server :=
  if (srv.client i).conn.isNone then srv
  else if p.hangup i then srv.dropClient i
  else if ¬ p.readable i ∧ srv.pending i = [] then srv
  else drain malloc p.fails i (p.io i) (srv.drainFuel i) srv

def accepts (srv : Server) (p : Poll) : Server :=
  let srv := p.unix.elim srv srv.acceptClient
  p.tcp.elim srv fun (id, handshake) => srv.acceptTcp id handshake

/-- `slot_map`: the slots in use before the listeners are looked at. -/
def slotMap (srv : Server) : List (Fin maxClients) :=
  (List.finRange maxClients).filter fun i => (srv.client i).conn.isSome

/-- `ps_ipc_server_poll`. -/
def poll (malloc : Nat → Bool) (srv : Server) (p : Poll) : Server × Int32 :=
  match p.result with
  | .failed => (srv, -1)
  | .interrupted => (srv, 0)
  | .timeout => (srv, 0)
  | .ready => (srv.slotMap.foldl (serve malloc p) (srv.accepts p), 0)

section Effects

variable {malloc : Nat → Bool} {fails : Fin maxClients → Bool} {srv srv' srv'' : Server}
  {i j : Fin maxClients}

@[simp] theorem client_setClient (c : Client) :
    (srv.setClient j c).client i = if j = i then c else srv.client i :=
  get_set_slot ..

@[simp] theorem client_setSock (c : Conn) (sock : Sock) : (srv.setSock c sock).client i = srv.client i :=
  rfl

theorem socks_setSock_self (c : Conn) (sock : Sock) : (srv.setSock c sock).socks c = sock := if_pos rfl

theorem client_dropClient :
    (srv.dropClient j).client i = if j = i then dropped (srv.client j) else srv.client i :=
  get_set_slot ..

theorem client_occupy (c : Conn) (ssl : Option Bytes) :
    (srv.occupy j c ssl).client i = if j = i then { conn := some c, ssl := ssl } else srv.client i :=
  get_set_slot ..

theorem client_foldl_broadcastTo (js : List (Fin maxClients)) :
    (js.foldl (broadcastTo fails) srv).client i = srv.client i ∨
      fails i = true ∧ (js.foldl (broadcastTo fails) srv).client i = dropped (srv.client i) := by
  induction js generalizing srv with
  | nil => exact .inl rfl
  | cons j js ih =>
    rw [foldl_cons]
    by_cases hdrop : (srv.client j).conn.isSome ∧ fails j
    · have hstep : broadcastTo fails srv j = srv.dropClient j := if_pos hdrop
      rw [hstep]
      by_cases hij : j = i
      · subst hij
        have hclient : (srv.dropClient j).client j = dropped (srv.client j) := by
          rw [client_dropClient, if_pos rfl]
        refine .inr ⟨hdrop.2, ?_⟩
        -- a slot that is free already is as good as dropped
        rcases @ih (srv.dropClient j) with hsame | ⟨-, hagain⟩
        · rw [hsame, hclient]
        · rw [hagain, hclient]
          rfl
      · have hclient : (srv.dropClient j).client i = srv.client i := by
          rw [client_dropClient, if_neg hij]
        have hrest := @ih (srv.dropClient j)
        rw [hclient] at hrest
        exact hrest
    · have hstep : broadcastTo fails srv j = srv := if_neg hdrop
      rw [hstep]
      exact ih

/-- A broadcast leaves a client as it is, or drops it if the write to it fails. -/
theorem client_broadcast (srv : Server) (fails : Fin maxClients → Bool) (i : Fin maxClients) :
    (srv.broadcast fails).client i = srv.client i ∨
      fails i = true ∧ (srv.broadcast fails).client i = dropped (srv.client i) := by
  unfold broadcast
  by_cases hzero : srv.clientCount = 0
  · rw [if_pos hzero]
    exact .inl rfl
  · rw [if_neg hzero]
    exact client_foldl_broadcastTo _

/-- The sockets and the histories do not change. -/
structure SameWorld (srv srv' : Server) : Prop where
  tls : srv'.tls = srv.tls
  socks : srv'.socks = srv.socks
  placed : srv'.placed = srv.placed

theorem SameWorld.refl (srv : Server) : SameWorld srv srv := ⟨rfl, rfl, rfl⟩

theorem SameWorld.trans (h : SameWorld srv srv') (h' : SameWorld srv' srv'') : SameWorld srv srv'' :=
  ⟨h'.tls.trans h.tls, h'.socks.trans h.socks, h'.placed.trans h.placed⟩

theorem foldl_broadcastTo_world (js : List (Fin maxClients)) :
    SameWorld srv (js.foldl (broadcastTo fails) srv) ∧
      (js.foldl (broadcastTo fails) srv).frames = srv.frames := by
  induction js generalizing srv with
  | nil => exact ⟨.refl srv, rfl⟩
  | cons j js ih =>
    rw [foldl_cons]
    have hstep : SameWorld srv (broadcastTo fails srv j) ∧
        (broadcastTo fails srv j).frames = srv.frames := by
      unfold broadcastTo
      split
      · exact ⟨⟨rfl, rfl, rfl⟩, rfl⟩
      · exact ⟨.refl srv, rfl⟩
    exact ⟨hstep.1.trans ih.1, ih.2.trans hstep.2⟩

theorem broadcast_world (srv : Server) (fails : Fin maxClients → Bool) :
    SameWorld srv (srv.broadcast fails) ∧ (srv.broadcast fails).frames = srv.frames := by
  unfold broadcast
  split
  · exact ⟨.refl srv, rfl⟩
  · exact foldl_broadcastTo_world _

/-- A client that is not being read stays as it is or is dropped. -/
def Fades (c c' : Client) : Prop := c' = c ∨ c'.conn = none

theorem Fades.trans {c c' c'' : Client} (h : Fades c c') (h' : Fades c' c'') : Fades c c'' := by
  rcases h' with rfl | h'
  · exact h
  · exact .inr h'

theorem fades_broadcast (srv : Server) (fails : Fin maxClients → Bool) (i : Fin maxClients) :
    Fades (srv.client i) ((srv.broadcast fails).client i) := by
  rcases client_broadcast srv fails i with h | ⟨-, h⟩
  · exact .inl h
  · rw [h]
    exact .inr rfl

/-- Feeding bytes to the reader of slot `i`. -/
structure Feeds (i : Fin maxClients) (srv srv' : Server) : Prop extends SameWorld srv srv' where
  own : (srv'.client i).conn = none ∨
    (srv'.client i).conn = (srv.client i).conn ∧ (srv'.client i).ssl = (srv.client i).ssl
  others : ∀ j, j ≠ i → Fades (srv.client j) (srv'.client j)

theorem Feeds.refl (i : Fin maxClients) (srv : Server) : Feeds i srv srv :=
  ⟨.refl srv, .inr ⟨rfl, rfl⟩, fun _ _ => .inl rfl⟩

theorem Feeds.trans (h : Feeds i srv srv') (h' : Feeds i srv' srv'') : Feeds i srv srv'' := by
  refine ⟨h.toSameWorld.trans h'.toSameWorld, ?_, fun j hj => (h.others j hj).trans (h'.others j hj)⟩
  rcases h'.own with hnone | ⟨hconn, hssl⟩
  · exact .inl hnone
  · rw [hconn, hssl]
    exact h.own

theorem feeds_setReader (i : Fin maxClients) (srv : Server) (reader : FrameReader) :
    Feeds i srv (srv.setReader i reader) := by
  unfold setReader
  refine ⟨⟨rfl, rfl, rfl⟩, ?_, fun j hj => ?_⟩
  · rw [client_setClient, if_pos rfl]
    exact .inr ⟨rfl, rfl⟩
  · rw [client_setClient, if_neg hj.symm]
    exact .inl rfl

theorem feeds_onFrame (i : Fin maxClients) (srv : Server) (fails : Nat → Fin maxClients → Bool) :
    Feeds i srv (srv.onFrame i fails) := by
  unfold onFrame
  generalize hframes : srv.frames ++ _ = frames
  have hfades := fades_broadcast { srv with frames := frames } (fails srv.frames.length)
  have hworld := (broadcast_world { srv with frames := frames } (fails srv.frames.length)).1
  refine ⟨⟨hworld.tls, hworld.socks, hworld.placed⟩, ?_, fun j _ => hfades j⟩
  rcases hfades i with hsame | hnone
  · rw [hsame]
    exact .inr ⟨rfl, rfl⟩
  · exact .inl hnone

theorem feeds_dropClient (i : Fin maxClients) (srv : Server) : Feeds i srv (srv.dropClient i) := by
  refine ⟨⟨rfl, rfl, rfl⟩, ?_, fun j hj => ?_⟩
  · rw [client_dropClient, if_pos rfl]
    exact .inl rfl
  · rw [client_dropClient, if_neg hj.symm]
    exact .inl rfl

theorem feeds_feedBytes {fails : Nat → Fin maxClients → Bool} (bs : Bytes) :
    Feeds i srv (feedBytes malloc fails i srv bs).1 := by
  induction bs generalizing srv with
  | nil => exact .refl i srv
  | cons byte bs ih =>
    rw [feedBytes]
    rcases (srv.client i).reader.feed malloc byte with ⟨reader, _ | _ | _⟩
    · exact ((feeds_setReader i srv reader).trans (feeds_onFrame i _ fails)).trans ih
    · exact (feeds_setReader i srv reader).trans ih
    · exact (feeds_setReader i srv reader).trans (feeds_dropClient i _)

end Effects

/-! ## What a read can do -/

/-- The outcomes of `ipc_client_read` for slot `i`. -/
inductive ReadCase (srv : Server) (i : Fin maxClients) (io : Io) : Server → ReadResult → Prop where
  | wouldBlock (hempty : srv.pending i = []) : ReadCase srv i io srv .wouldBlock
  | eof
      (hplain : ∀ c, (srv.client i).conn = some c → (srv.client i).ssl = none →
        (srv.socks c).closed = true ∧ (srv.socks c).unread = []) :
      ReadCase srv i io srv .eof
  | failed (hfailed : io = .failed ∨ (srv.client i).conn = none) : ReadCase srv i io srv .failed
  | plain {c : Conn} {size : Nat} (hconn : (srv.client i).conn = some c)
      (hssl : (srv.client i).ssl = none) (hsome : (srv.socks c).unread ≠ []) :
      ReadCase srv i io
        (srv.setSock c { srv.socks c with unread := (srv.socks c).unread.drop size })
        (.bytes ((srv.socks c).unread.take size))
  | buffered {c : Conn} {pending : Bytes} (hconn : (srv.client i).conn = some c)
      (hssl : (srv.client i).ssl = some pending) (hsome : pending ≠ []) :
      ReadCase srv i io
        (srv.setClient i { srv.client i with ssl := some (pending.drop readSize) })
        (.bytes (pending.take readSize))
  | record {c : Conn} {record : Bytes} {records : List Bytes} (hconn : (srv.client i).conn = some c)
      (hssl : (srv.client i).ssl = some [])
      (hrecords : (srv.socks c).records.dropWhile (· = []) = record :: records) :
      ReadCase srv i io
        ((srv.setSock c { srv.socks c with records := records }).setClient i
          { srv.client i with ssl := some (record.drop readSize) })
        (.bytes (record.take readSize))

theorem pending_eq {srv : Server} {i : Fin maxClients} {ssl : Option Bytes}
    (h : (srv.client i).ssl = ssl) : srv.pending i = ssl.getD [] := by
  unfold Server.pending
  rw [h]

theorem readEmpty_cases {srv : Server} {i : Fin maxClients} {io : Io} {c : Conn}
    (hconn : (srv.client i).conn = some c) (hpending : srv.pending i = [])
    (hunread : (srv.client i).ssl = none → (srv.socks c).unread = []) :
    ReadCase srv i io srv (readEmpty (srv.socks c)) := by
  unfold readEmpty
  split
  · rename_i hclosed
    refine .eof fun d hd hplain => ?_
    obtain rfl := Option.some.inj (hconn.symm.trans hd)
    exact ⟨hclosed, hunread hplain⟩
  · exact .wouldBlock hpending

theorem readPlain_cases {srv : Server} {i : Fin maxClients} {c : Conn}
    (hconn : (srv.client i).conn = some c) (hssl : (srv.client i).ssl = none) (io : Io) :
    ReadCase srv i io (srv.readPlain c io).1 (srv.readPlain c io).2 := by
  have hpending : srv.pending i = [] := pending_eq hssl
  cases io with
  | again => exact .wouldBlock hpending
  | failed => exact .failed (.inl rfl)
  | upTo n =>
    unfold readPlain
    dsimp only
    by_cases hempty : (srv.socks c).unread = []
    · rw [if_pos hempty]
      exact readEmpty_cases hconn hpending fun _ => hempty
    · rw [if_neg hempty]
      exact .plain hconn hssl hempty

theorem readTls_cases {srv : Server} {i : Fin maxClients} {c : Conn} {pending : Bytes}
    (hconn : (srv.client i).conn = some c) (hssl : (srv.client i).ssl = some pending) (io : Io) :
    ReadCase srv i io (srv.readTls i c pending io).1 (srv.readTls i c pending io).2 := by
  unfold readTls
  dsimp only
  by_cases hempty : pending = []
  · subst hempty
    have hpending : srv.pending i = [] := pending_eq hssl
    rw [if_neg (not_not_intro rfl)]
    cases io with
    | again => exact .wouldBlock hpending
    | failed => exact .failed (.inl rfl)
    | upTo n =>
      dsimp only
      split
      · refine readEmpty_cases hconn hpending fun hplain => ?_
        rw [hssl] at hplain
        cases hplain
      · rename_i record records hrecords
        exact .record hconn hssl hrecords
  · rw [if_pos hempty]
    exact .buffered hconn hssl hempty

theorem clientRead_cases (srv : Server) (i : Fin maxClients) (io : Io) :
    ReadCase srv i io (srv.clientRead i io).1 (srv.clientRead i io).2 := by
  unfold clientRead
  rcases hconn : (srv.client i).conn with _ | c
  · exact .failed (.inr hconn)
  · rcases hssl : (srv.client i).ssl with _ | pending
    · exact readPlain_cases hconn hssl io
    · exact readTls_cases hconn hssl io

section Pending

variable {malloc : Nat → Bool} {srv srv' : Server} {i j : Fin maxClients} {io : Io} {bs : Bytes}

/-- Another slot does not see a read. -/
theorem ReadCase.others {res : ReadResult} (h : ReadCase srv i io srv' res) (hj : j ≠ i) :
    srv'.client j = srv.client j := by
  cases h with
  | wouldBlock _ => rfl
  | eof _ => rfl
  | failed _ => rfl
  | plain _ _ _ => rfl
  | buffered _ _ _ => rw [client_setClient, if_neg hj.symm]
  | record _ _ _ => rw [client_setClient, if_neg hj.symm, client_setSock]

theorem sum_length_dropWhile_nil (records : List Bytes) :
    ((records.dropWhile (· = [])).map List.length).sum = (records.map List.length).sum := by
  induction records with
  | nil => rfl
  | cons record records ih =>
    by_cases h : record = []
    · subst h
      simpa using ih
    · simp [h]

theorem drainFuel_eq {c : Conn} (hconn : (srv.client i).conn = some c) :
    srv.drainFuel i = (srv.pending i).length + ((srv.socks c).records.map List.length).sum := by
  unfold drainFuel
  rw [hconn]

theorem ReadCase.conn {res : ReadResult} (h : ReadCase srv i io srv' res) :
    (srv'.client i).conn = (srv.client i).conn := by
  cases h with
  | wouldBlock _ => rfl
  | eof _ => rfl
  | failed _ => rfl
  | plain _ _ _ => rfl
  | buffered _ _ _ => rw [client_setClient, if_pos rfl]
  | record _ _ _ => rw [client_setClient, if_pos rfl]

/-- A read uses up bytes of the TLS layer. -/
theorem ReadCase.fuel (h : ReadCase srv i io srv' (.bytes bs)) :
    srv'.pending i = [] ∨ srv'.drainFuel i < srv.drainFuel i := by
  have hsame := h.conn
  cases h with
  | plain hconn hssl hsome => exact .inl (pending_eq hssl)
  | @buffered c pending hconn hssl hsome =>
    refine .inr ?_
    rw [drainFuel_eq (hsame.trans hconn), drainFuel_eq hconn, pending_eq hssl,
      pending_eq (by rw [client_setClient, if_pos rfl])]
    have := length_pos_of_ne_nil hsome
    apply Nat.add_lt_add_right
    simp only [Option.getD_some, length_drop, readSize]
    omega
  | @record c record records hconn hssl hrecords =>
    refine .inr ?_
    have hsum := sum_length_dropWhile_nil (srv.socks c).records
    have hhead : record ≠ [] := by
      have := head?_dropWhile_not (fun r : Bytes => decide (r = [])) (srv.socks c).records
      rw [hrecords] at this
      simpa using this
    have := length_pos_of_ne_nil hhead
    rw [drainFuel_eq (hsame.trans hconn), drainFuel_eq hconn, pending_eq hssl,
      pending_eq (by rw [client_setClient, if_pos rfl]), ← hsum, hrecords]
    simp only [setClient, setSock, if_pos, Option.getD_some, length_drop, readSize,
      map_cons, sum_cons, length_nil]
    omega

/-- Nothing is buffered for a client, or it is gone. -/
def Drained (srv : Server) (i : Fin maxClients) : Prop :=
  (srv.client i).conn = none ∨ srv.pending i = []

theorem Fades.drained (h : Fades (srv.client i) (srv'.client i)) (hd : srv.Drained i) :
    srv'.Drained i := by
  rcases h with hsame | hnone
  · unfold Drained pending at *
    rw [hsame]
    exact hd
  · exact .inl hnone

theorem conn_of_feedBytes_dropped {fails : Nat → Fin maxClients → Bool} {bs : Bytes}
    (h : (feedBytes malloc fails i srv bs).2 = true) :
    ((feedBytes malloc fails i srv bs).1.client i).conn = none := by
  induction bs generalizing srv with
  | nil => cases h
  | cons byte bs ih =>
    rw [feedBytes] at h ⊢
    rcases hfeed : (srv.client i).reader.feed malloc byte with ⟨reader, _ | _ | _⟩ <;>
      rw [hfeed] at h
    · exact ih h
    · exact ih h
    · show ((dropClient _ i).client i).conn = none
      rw [client_dropClient, if_pos rfl]
      rfl

variable {fails : Nat → Fin maxClients → Bool}

/-- A turn ends the loop with nothing buffered, or uses up some of it. -/
theorem drainTurn_pending :
    ((drainTurn malloc fails i io srv).2 = false →
        (drainTurn malloc fails i io srv).1.Drained i) ∧
      ((drainTurn malloc fails i io srv).2 = true →
        (drainTurn malloc fails i io srv).1.drainFuel i < srv.drainFuel i) := by
  have hread := clientRead_cases srv i io
  unfold drainTurn
  rcases hres : srv.clientRead i io with ⟨srv', bs | _ | _ | _⟩ <;> rw [hres] at hread
  case eof | failed =>
    refine ⟨fun _ => .inl ?_, fun h => nomatch h⟩
    show ((dropClient _ i).client i).conn = none
    rw [client_dropClient, if_pos rfl]
    rfl
  case wouldBlock =>
    cases hread with
    | wouldBlock hempty => exact ⟨fun _ => .inr hempty, fun h => nomatch h⟩
  case bytes =>
    have hfeeds : Feeds i srv' (feedBytes malloc fails i srv' bs).1 := feeds_feedBytes bs
    have hdropped := @conn_of_feedBytes_dropped malloc srv' i fails bs
    dsimp only
    generalize feedBytes malloc fails i srv' bs = fed at hfeeds hdropped ⊢
    obtain ⟨srv'', dropped⟩ := fed
    constructor
    · intro hstop
      cases dropped with
      | true => exact .inl (hdropped rfl)
      | false =>
        unfold Drained
        simpa [or_iff_not_imp_left, Option.isSome_iff_ne_none] using hstop
    · intro hagain
      simp only [Bool.and_eq_true, decide_eq_true_eq] at hagain
      obtain ⟨⟨-, hconn⟩, hsome⟩ := hagain
      rcases hfeeds.own with hnone | ⟨hconn', hssl⟩
      · rw [hnone] at hconn
        cases hconn
      · have hpending : srv''.pending i = srv'.pending i := by rw [pending_eq hssl]; rfl
        rcases hread.fuel with hempty | hless
        · exact absurd (hpending.trans hempty) hsome
        · suffices srv''.drainFuel i = srv'.drainFuel i by
            rw [this]
            exact hless
          unfold drainFuel
          rw [hconn', hpending, hfeeds.socks]

/-- The loop leaves nothing buffered. -/
theorem drained_drain {fuel : Nat} (hfuel : srv.drainFuel i ≤ fuel) :
    (drain malloc fails i io fuel srv).Drained i := by
  induction fuel generalizing srv with
  | zero =>
    obtain ⟨hstop, hagain⟩ := @drainTurn_pending malloc srv i io fails
    rw [drain]
    cases h : (drainTurn malloc fails i io srv).2 with
    | false => exact hstop h
    | true =>
      have := hagain h
      omega
  | succ fuel ih =>
    obtain ⟨hstop, hagain⟩ := @drainTurn_pending malloc srv i io fails
    rw [drain]
    rcases h : drainTurn malloc fails i io srv with ⟨srv', again⟩
    rw [h] at hstop hagain
    cases again with
    | false => exact hstop rfl
    | true =>
      exact ih (Nat.le_of_lt_succ (Nat.lt_of_lt_of_le (hagain rfl) hfuel))

/-- Draining one client leaves the others as they are, or drops them. -/
theorem fades_drainTurn (hj : j ≠ i) :
    Fades (srv.client j) ((drainTurn malloc fails i io srv).1.client j) := by
  have hread := clientRead_cases srv i io
  unfold drainTurn
  rcases hres : srv.clientRead i io with ⟨srv', bs | _ | _ | _⟩ <;> rw [hres] at hread <;>
    rw [← hread.others hj]
  case eof | failed => exact (feeds_dropClient i srv').others j hj
  case wouldBlock => exact .inl rfl
  case bytes => exact (feeds_feedBytes bs).others j hj

theorem fades_drain {fuel : Nat} (hj : j ≠ i) :
    Fades (srv.client j) ((drain malloc fails i io fuel srv).client j) := by
  induction fuel generalizing srv with
  | zero => exact fades_drainTurn hj
  | succ fuel ih =>
    have hturn := @fades_drainTurn malloc srv i j io fails hj
    rw [drain]
    rcases h : drainTurn malloc fails i io srv with ⟨srv', again⟩
    rw [h] at hturn
    cases again with
    | false => exact hturn
    | true => exact hturn.trans ih

theorem fades_serve {p : Poll} (hj : j ≠ i) :
    Fades (srv.client j) ((serve malloc p srv i).client j) := by
  unfold serve
  split
  · exact .inl rfl
  split
  · exact (feeds_dropClient i srv).others j hj
  split
  · exact .inl rfl
  · exact fades_drain hj

/-- A client that was looked at has nothing buffered. -/
theorem drained_serve (p : Poll) : (serve malloc p srv i).Drained i := by
  unfold serve
  split
  · rename_i hnone
    exact .inl (Option.isNone_iff_eq_none.mp hnone)
  split
  · refine .inl ?_
    rw [client_dropClient, if_pos rfl]
    rfl
  split
  · rename_i hquiet
    exact .inr hquiet.2
  · exact drained_drain (Nat.le_refl _)

theorem drained_foldl_serve {p : Poll} {js : List (Fin maxClients)} (h : i ∈ js ∨ srv.Drained i) :
    (js.foldl (serve malloc p) srv).Drained i := by
  induction js generalizing srv with
  | nil => exact h.resolve_left not_mem_nil
  | cons j js ih =>
    rw [foldl_cons]
    by_cases hij : i = j
    · subst hij
      exact ih (.inr (drained_serve p))
    · refine ih ?_
      rcases h with hmem | hdrained
      · exact .inl ((mem_cons.mp hmem).resolve_left hij)
      · exact .inr ((fades_serve hij).drained hdrained)

/-- A frame that is decrypted, complete, and not delivered. -/
def HasFrame (malloc : Nat → Bool) (srv : Server) (i : Fin maxClients) : Prop :=
  (srv.client i).conn ≠ none ∧ ((srv.client i).reader.feedAll malloc (srv.pending i)).frames ≠ []

instance (malloc : Nat → Bool) (srv : Server) (i : Fin maxClients) :
    Decidable (srv.HasFrame malloc i) :=
  inferInstanceAs (Decidable (_ ∧ _))

theorem Drained.not_hasFrame (h : srv.Drained i) : ¬ srv.HasFrame malloc i := by
  rintro ⟨hconn, hframes⟩
  rcases h with hnone | hempty
  · exact hconn hnone
  · rw [hempty] at hframes
    exact hframes rfl

end Pending

/-- After a call that returns 0, no client that was connected before it and still is has a frame
waiting in the TLS layer: exactly if `poll` reported something, failed, or there was no such frame to
begin with. -/
theorem no_frame_left_pending_iff (malloc : Nat → Bool) (srv : Server) (p : Poll) :
    ((srv.poll malloc p).2 = 0 → ∀ i, (srv.client i).conn ≠ none →
        ((srv.poll malloc p).1.client i).conn = (srv.client i).conn →
        ¬ (srv.poll malloc p).1.HasFrame malloc i) ↔
      p.result = .ready ∨ p.result = .failed ∨ ∀ i, ¬ srv.HasFrame malloc i := by
  unfold poll
  cases p.result with
  | failed => exact iff_of_true (fun h => absurd (show (-1 : Int32) = 0 from h) (by decide)) (.inr (.inl rfl))
  | ready =>
    refine iff_of_true (fun _ i hconn _ => ?_) (.inl rfl)
    have hmem : i ∈ srv.slotMap :=
      mem_filter.mpr ⟨mem_finRange i, Option.isSome_iff_ne_none.mpr hconn⟩
    exact (drained_foldl_serve (.inl hmem)).not_hasFrame
  | interrupted | timeout =>
    constructor
    · intro h
      refine .inr (.inr fun i hframe => ?_)
      exact h rfl i hframe.1 rfl hframe
    · rintro (h | h | h)
      · cases h
      · cases h
      · exact fun _ i _ _ => h i

/-- One TLS client; the handshake has read its first frame, which is decrypted. -/
def coalesced : Server :=
  (init true).place ⟨true, 0⟩ (some hosts.wire)

/-- Nothing arrives on the socket, so `poll` has nothing to report, and the frame stays. -/
theorem coalesced_frame_left :
    (coalesced.poll (fun _ => true) { result := .timeout }).2 = 0 ∧
      (coalesced.client 0).conn = some ⟨true, 0⟩ ∧
      ((coalesced.poll (fun _ => true) { result := .timeout }).1.client 0).conn = some ⟨true, 0⟩ ∧
      (coalesced.poll (fun _ => true) { result := .timeout }).1.HasFrame (fun _ => true) 0 := by
  decide

end Server

end Packetsonde.Ipc
