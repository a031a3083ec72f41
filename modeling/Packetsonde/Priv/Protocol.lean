import Packetsonde.Lib.Chars

/-!
# Packetsonde — the protocol of the privileged worker (`priv_protocol.h`)

A message is a packed header of eight bytes and a payload of the length it states. Nothing else marks
where one ends, so a reader of the stream that has lost its place does not find it again: a stream is a
row of messages in at most one way (`parseMsgs_flatMap_encode`).
-/

namespace Packetsonde.Priv

open Packetsonde.Lib

/-! ## Codes and limits -/

def opOpenPcap : UInt8 := 0x01
def opClosePcap : UInt8 := 0x02
def opCreateRawSocket : UInt8 := 0x03
def opCloseRawSocket : UInt8 := 0x04
def opSendRaw : UInt8 := 0x05
def opPacketData : UInt8 := 0x81
def opRawResponse : UInt8 := 0x82
def opError : UInt8 := 0x83
def opActivityData : UInt8 := 0x84

def statusOk : UInt8 := 0x00
def statusBadIface : UInt8 := 0x01
def statusBadFilter : UInt8 := 0x02
def statusHandleLimit : UInt8 := 0x03
def statusBadHandle : UInt8 := 0x04
def statusSendFailed : UInt8 := 0x05
def statusInternal : UInt8 := 0xFF

/-- `PS_MAX_PCAP_HANDLES`, `PS_MAX_RAW_HANDLES`, `PS_MAX_MSG_PAYLOAD`. -/
abbrev maxPcapHandles : Nat := 16
abbrev maxRawHandles : Nat := 32
def maxMsgPayload : Nat := 65536

/-! ## Messages -/

/-- `struct ps_priv_msg`. -/
structure Header where
  opcode : UInt8
  status : UInt8
  handleId : UInt16
  payloadLen : Nat
  deriving DecidableEq, Repr

def Header.bytes (h : Header) : Bytes :=
  h.opcode :: h.status :: (putLE 2 h.handleId.toNat ++ putLE 4 h.payloadLen)

structure Msg where
  opcode : UInt8
  status : UInt8
  handleId : UInt16
  payload : Bytes
  deriving DecidableEq, Repr

/-- `sizeof(struct ps_priv_msg)`. -/
def headerSize : Nat := 8

def Msg.header (m : Msg) : Header := ⟨m.opcode, m.status, m.handleId, m.payload.length⟩

def Msg.encode (m : Msg) : Bytes := m.header.bytes ++ m.payload

def Msg.Sized (m : Msg) : Prop := m.payload.length < 2 ^ 32

theorem Header.length_bytes (h : Header) : h.bytes.length = headerSize := rfl

theorem Msg.length_encode (m : Msg) : m.encode.length = headerSize + m.payload.length := by
  rw [Msg.encode, List.length_append, Header.length_bytes]

/-- `ps_priv_encode_response`, for a message with its data. -/
def encodeResponse (bufsz : Nat) (m : Msg) : Option Bytes :=
  if headerSize + m.payload.length > bufsz then none else some m.encode

/-- A captured packet; its length is a `caplen`. -/
structure Packet where
  tsUsec : UInt64
  data : Bytes
  short : data.length + 8 < 2 ^ 32

/-- What `ps_priv_encode_packet_data` puts into the message. -/
def packetMsg (handleId : UInt16) (pkt : Packet) : Msg where
  opcode := opPacketData
  status := 0
  handleId := handleId
  payload := putLE 8 pkt.tsUsec.toNat ++ pkt.data

/-- `ps_priv_encode_packet_data`; `data_len` has 32 bits. -/
def encodePacketData (bufsz : Nat) (handleId : UInt16) (pkt : Packet) : Option Bytes :=
  let dataLen : UInt32 := 8 + UInt32.ofNat pkt.data.length
  if headerSize + dataLen.toNat > bufsz then none else some (packetMsg handleId pkt).encode

theorem packetMsg_sized (handleId : UInt16) (pkt : Packet) : (packetMsg handleId pkt).Sized := by
  have := pkt.short
  unfold Msg.Sized packetMsg
  rw [List.length_append, length_putLE]
  omega

/-! ## Finding the messages of a stream -/

def readHeader : Bytes → Option (Header × Bytes)
  | opcode :: status :: h₀ :: h₁ :: l₀ :: l₁ :: l₂ :: l₃ :: rest =>
    some (⟨opcode, status, UInt16.ofNat (getLE [h₀, h₁]), getLE [l₀, l₁, l₂, l₃]⟩, rest)
  | _ => none

def takeMsg (stream : Bytes) : Option (Msg × Bytes) :=
  match readHeader stream with
  | none => none
  | some (h, rest) =>
    if rest.length < h.payloadLen then none
    else some (⟨h.opcode, h.status, h.handleId, rest.take h.payloadLen⟩, rest.drop h.payloadLen)

/-- A stream as a row of messages, at most `fuel` of them. -/
def parseMsgs : Nat → Bytes → Option (List Msg)
  | _, [] => some []
  | 0, _ :: _ => none
  | fuel + 1, b :: bs => do
    let (m, rest) ← takeMsg (b :: bs)
    let ms ← parseMsgs fuel rest
    return m :: ms

theorem readHeader_bytes {h : Header} (hlen : h.payloadLen < 2 ^ 32) (rest : Bytes) :
    readHeader (h.bytes ++ rest) = some (h, rest) := by
  have hlength : getLE (putLE 4 h.payloadLen) = h.payloadLen := getLE_putLE_of_lt hlen
  have hhandle : getLE (putLE 2 h.handleId.toNat) = h.handleId.toNat :=
    getLE_putLE_of_lt h.handleId.toNat_lt
  have hshape : h.bytes ++ rest = h.opcode :: h.status ::
      (putLE 2 h.handleId.toNat ++ (putLE 4 h.payloadLen ++ rest)) := by
    simp [Header.bytes]
  rw [hshape]
  obtain ⟨h₀, h₁, hh⟩ : ∃ a b, putLE 2 h.handleId.toNat = [a, b] := ⟨_, _, rfl⟩
  obtain ⟨l₀, l₁, l₂, l₃, hl⟩ : ∃ a b c d, putLE 4 h.payloadLen = [a, b, c, d] := ⟨_, _, _, _, rfl⟩
  rw [hh] at hhandle ⊢
  rw [hl] at hlength ⊢
  simp [readHeader, hlength, hhandle]

theorem readHeader_encode {m : Msg} (hm : m.Sized) (rest : Bytes) :
    readHeader (m.encode ++ rest) = some (m.header, m.payload ++ rest) := by
  rw [Msg.encode, List.append_assoc]
  exact readHeader_bytes (show m.header.payloadLen < 2 ^ 32 from hm) _

theorem takeMsg_encode {m : Msg} (hm : m.Sized) (rest : Bytes) :
    takeMsg (m.encode ++ rest) = some (m, rest) := by
  unfold takeMsg
  rw [readHeader_encode hm]
  simp [Msg.header]

/-- The messages of a row are found again. -/
theorem parseMsgs_flatMap_encode {ms : List Msg} (hms : ∀ m ∈ ms, m.Sized) {fuel : Nat}
    (hfuel : ms.length ≤ fuel) : parseMsgs fuel (ms.flatMap Msg.encode) = some ms := by
  induction ms generalizing fuel with
  | nil =>
    cases fuel with
    | zero => rfl
    | succ fuel => rfl
  | cons m ms ih =>
    obtain ⟨hm, hms⟩ := List.forall_mem_cons.mp hms
    cases fuel with
    | zero => cases hfuel
    | succ fuel =>
      rw [List.flatMap_cons]
      have htake := takeMsg_encode hm (ms.flatMap Msg.encode)
      rw [show m.encode = m.opcode :: (m.encode.drop 1) from rfl, List.cons_append] at htake ⊢
      rw [parseMsgs, htake]
      simp only [Option.bind_eq_bind, Option.bind_some, ih hms (Nat.le_of_succ_le_succ hfuel)]
      rfl

/-- A row of messages has at least eight bytes for each. -/
theorem length_le_flatMap_encode (ms : List Msg) : ms.length ≤ (ms.flatMap Msg.encode).length := by
  induction ms with
  | nil => exact Nat.le_refl 0
  | cons m ms ih =>
    rw [List.flatMap_cons, List.length_append, List.length_cons, Msg.length_encode]
    unfold headerSize
    omega

/-- A stream that does not parse is no row of messages. -/
theorem not_row_of_parse {stream : Bytes} (h : parseMsgs stream.length stream = none) :
    ¬ ∃ ms : List Msg, (∀ m ∈ ms, m.Sized) ∧ stream = ms.flatMap Msg.encode := by
  rintro ⟨ms, hms, rfl⟩
  rw [parseMsgs_flatMap_encode hms (length_le_flatMap_encode ms)] at h
  cases h

end Packetsonde.Priv
