import Packetsonde.Lib.Bytes

/-!
# Packetsonde — discovery wire format

The fixed-size probe of `src/lib/discovery.{h,c}`, packed and unpacked field by field, and the
prefix its signature covers. Ed25519 itself is OpenSSL's: it enters as
an `Ed25519` record of functions, so every result below holds for whatever the library does.
-/

namespace Packetsonde.Discovery

open Packetsonde.Lib

def probeSize : Nat := 144
def probeSignLen : Nat := 80
def discoveryVersion : UInt8 := 0x01
def defaultSkewMs : UInt16 := 2000
def hardcapSkewMs : UInt16 := 30000

def magicProbe : Bytes := asc "PSDP"

abbrev Pubkey := Vector UInt8 32
abbrev Seckey := Vector UInt8 32
abbrev Nonce := Vector UInt8 16
abbrev Signature := Vector UInt8 64

/-- OpenSSL's one-shot Ed25519 calls. `sign` is `none` where the library reports a failure. -/
structure Ed25519 where
  sign : Seckey → Bytes → Option Signature
  verify : Pubkey → Bytes → Signature → Bool

structure Probe where
  version : UInt8
  flags : UInt8
  maxSkewMs : UInt16
  timestampMs : UInt64
  nonce : Nonce
  reserved : Vector UInt8 16
  pubkey : Pubkey
  signature : Signature
  deriving DecidableEq, Repr

/-! ## Integers on the wire -/

def putU16 (v : UInt16) : Bytes := putBE 2 v.toNat
def putU64 (v : UInt64) : Bytes := putBE 8 v.toNat
def getU16 (buf : Bytes) (off : Nat) : UInt16 := UInt16.ofNat (getBE (bytesAt buf off 2).toList)
def getU64 (buf : Bytes) (off : Nat) : UInt64 := UInt64.ofNat (getBE (bytesAt buf off 8).toList)

/-! ## Pack and unpack -/

def probePack (p : Probe) : Bytes :=
  magicProbe ++ [p.version, p.flags] ++ putU16 p.maxSkewMs ++ putU64 p.timestampMs
    ++ p.nonce.toList ++ p.reserved.toList ++ p.pubkey.toList ++ p.signature.toList

def probeUnpack (buf : Bytes) : Option Probe :=
  if buf.take 4 ≠ magicProbe then none
  else some
    { version := buf.getD 4 0
      flags := buf.getD 5 0
      maxSkewMs := getU16 buf 6
      timestampMs := getU64 buf 8
      nonce := bytesAt buf 16 16
      reserved := bytesAt buf 32 16
      pubkey := bytesAt buf 48 32
      signature := bytesAt buf 80 64 }

/-! ## Signatures

Both sides sign the packed form with the signature field zeroed, cut before that field. -/

def zeroSignature : Signature := Vector.replicate 64 0

def probeSignedPrefix (p : Probe) : Bytes :=
  (probePack { p with signature := zeroSignature }).take probeSignLen

def probeVerify (ed : Ed25519) (p : Probe) : Bool :=
  ed.verify p.pubkey (probeSignedPrefix p) p.signature

/-! ## Round trips -/

@[simp] theorem magicProbe_length : magicProbe.length = 4 := rfl
@[simp] theorem putU16_length (v : UInt16) : (putU16 v).length = 2 := putBE_length 2 _
@[simp] theorem putU64_length (v : UInt64) : (putU64 v).length = 8 := putBE_length 8 _

theorem getU16_append (pre post : Bytes) (v : UInt16) :
    getU16 (pre ++ putU16 v ++ post) pre.length = v := by
  rw [getU16, putU16, getBE_bytesAt_append pre post (by simpa using v.toNat_lt),
    UInt16.ofNat_toNat]

theorem getU64_append (pre post : Bytes) (v : UInt64) :
    getU64 (pre ++ putU64 v ++ post) pre.length = v := by
  rw [getU64, putU64, getBE_bytesAt_append pre post (by simpa using v.toNat_lt),
    UInt64.ofNat_toNat]

/-- Every probe survives the wire: each field is read from the offset it was packed at. -/
theorem probeUnpack_probePack (p : Probe) : probeUnpack (probePack p) = some p := by
  have hmagic : (probePack p).take 4 = magicProbe := by
    simp only [probePack, List.append_assoc]
    exact List.take_left' magicProbe_length
  -- name the packed prefix in front of each field, so that its offset is the prefix's length
  let pre6 := magicProbe ++ [p.version, p.flags]
  let pre8 := pre6 ++ putU16 p.maxSkewMs
  let pre16 := pre8 ++ putU64 p.timestampMs
  let pre32 := pre16 ++ p.nonce.toList
  let pre48 := pre32 ++ p.reserved.toList
  let pre80 := pre48 ++ p.pubkey.toList
  have hskew : getU16 (probePack p) 6 = p.maxSkewMs := by
    simpa [probePack, pre6] using getU16_append pre6 (putU64 p.timestampMs ++ p.nonce.toList
      ++ p.reserved.toList ++ p.pubkey.toList ++ p.signature.toList) p.maxSkewMs
  have hts : getU64 (probePack p) 8 = p.timestampMs := by
    simpa [probePack, pre6, pre8] using getU64_append pre8 (p.nonce.toList
      ++ p.reserved.toList ++ p.pubkey.toList ++ p.signature.toList) p.timestampMs
  have hnonce : bytesAt (probePack p) 16 16 = p.nonce := by
    simpa [probePack, pre6, pre8, pre16] using bytesAt_append_left pre16 p.nonce
      (p.reserved.toList ++ p.pubkey.toList ++ p.signature.toList)
  have hres : bytesAt (probePack p) 32 16 = p.reserved := by
    simpa [probePack, pre6, pre8, pre16, pre32] using bytesAt_append_left pre32 p.reserved
      (p.pubkey.toList ++ p.signature.toList)
  have hpub : bytesAt (probePack p) 48 32 = p.pubkey := by
    simpa [probePack, pre6, pre8, pre16, pre32, pre48] using bytesAt_append_left pre48 p.pubkey
      p.signature.toList
  have hsig : bytesAt (probePack p) 80 64 = p.signature := by
    simpa [probePack, pre6, pre8, pre16, pre32, pre48, pre80] using
      bytesAt_append_left pre80 p.signature []
  have hver : (probePack p).getD 4 0 = p.version := rfl
  have hflags : (probePack p).getD 5 0 = p.flags := rfl
  rw [probeUnpack, if_neg (not_not_intro hmagic), hver, hflags, hskew, hts, hnonce, hres, hpub,
    hsig]

end Packetsonde.Discovery
