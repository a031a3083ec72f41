import Packetsonde.Central.CollectVerdicts

/-!
# Packetsonde — the relay chain of an envelope (`ps_collect_process`)

A relay adds an entry to the envelope's `relay_path`: from whom it got the envelope, when, and its
signature over both and the envelope's own signature. The collector looks for the three fields in the
text behind the first `"relay_path":` and checks what it finds first, once.

`Checks` is what it checks, and `ChainSigned` what `relay_chain_verified` stands for: every entry is
signed by a trusted key. Whichever keys are trusted and whichever signatures are valid, the verdict can
be relied on exactly for the envelopes whose entries all are the attestation that is checked
(`chain_covered_iff`).
-/

namespace Packetsonde.Central

open Packetsonde.Lib
open Packetsonde.Discovery (Ed25519 Pubkey Signature)
open Packetsonde.Recipe (Evp)

/-! ## Signatures -/

def SignatureText (evp : Evp) (text : Bytes) (sig : Signature) : Prop :=
  ∃ bytes, b64dec evp text 80 = some bytes ∧ bytes.length = 64 ∧ bytesAt bytes 0 64 = sig

theorem verifiedByAny_iff {evp : Evp} {pubkeys : List Pubkey} {msg text : Bytes} :
    verifiedByAny evp pubkeys msg text = true ↔
      ∃ sig, SignatureText evp text sig ∧ ∃ pk ∈ pubkeys, evp.ed25519.verify pk msg sig = true := by
  unfold verifiedByAny SignatureText
  constructor
  · intro h
    split at h
    · cases h
    · next bytes hdec =>
      split at h
      · cases h
      · next hlen =>
        exact ⟨_, ⟨bytes, hdec, not_not.mp hlen, rfl⟩, List.any_eq_true.mp h⟩
  · rintro ⟨sig, ⟨bytes, hdec, hlen, rfl⟩, hany⟩
    rw [hdec]
    dsimp only
    rw [if_neg (not_not.mpr hlen)]
    exact List.any_eq_true.mpr hany

def attestText (envelopeSig receivedFrom ts : Bytes) : Bytes :=
  envelopeSig ++ asc "|" ++ receivedFrom ++ asc "|" ++ ts

/-! ## Entries of an envelope -/

/-- The members of an envelope with any white space around it. -/
def Members (envelope : CString) (ms : List (Bytes × Json Bytes)) : Prop :=
  ∃ w t w', IsWs w ∧ IsWs w' ∧ envelope.bytes = w ++ (t ++ w') ∧ Doc .value t (.obj ms)

/-- The entry attests an envelope with this signature: what it says is signed by `sig`, if that is valid. -/
def Attests (evp : Evp) (envelopeSig : Bytes) (entry : Json Bytes) (msg : Bytes) (sig : Signature) : Prop :=
  ∃ fields receivedFrom ts text, entry = .obj fields ∧ (asc "received_from", .str receivedFrom) ∈ fields ∧
    (asc "ts", .str ts) ∈ fields ∧ (asc "sig", .str text) ∈ fields ∧
    msg = attestText envelopeSig receivedFrom ts ∧ SignatureText evp text sig

/-- Every entry of the envelope attests a message and a signature of which `P` holds. -/
def EveryEntry (evp : Evp) (envelope : CString) (P : Bytes → Signature → Prop) : Prop :=
  ∀ ms entries, Members envelope ms → (asc "relay_path", .arr entries) ∈ ms →
    ∀ entry ∈ entries, ∃ envelopeSig msg sig, (asc "ed25519_sig", .str envelopeSig) ∈ ms ∧
      Attests evp envelopeSig entry msg sig ∧ P msg sig

def ChainSigned (evp : Evp) (pubkeys : List Pubkey) (envelope : CString) : Prop :=
  EveryEntry evp envelope fun msg sig => ∃ pk ∈ pubkeys, evp.ed25519.verify pk msg sig = true

/-! ## What is checked -/

/-- The message and the signature the collector puts together from the first fields it finds. -/
structure Checks (evp : Evp) (envelope : CString) (msg : Bytes) (sig : Signature) : Prop where
  payload : (jsonExtractString envelope.bytes (asc "payload") payloadSize).ok = true
  signed : (jsonExtractString envelope.bytes (asc "ed25519_sig") 128).ok = true
  fields : ∃ i, findSub (asc "\"relay_path\":") envelope.bytes = some i ∧
    msg = attestText (jsonExtractString envelope.bytes (asc "ed25519_sig") 128).str
      (jsonExtractString (envelope.bytes.drop i) (asc "received_from") 256).str
      (jsonExtractString (envelope.bytes.drop i) (asc "ts") 64).str ∧
    SignatureText evp (jsonExtractString (envelope.bytes.drop i) (asc "sig") 128).str sig

/-- The buffer of the message is never too small. -/
theorem relayChainOk_eq (evp : Evp) (pubkeys : List Pubkey) (rp json : Bytes) :
    relayChainOk evp pubkeys rp (jsonExtractString json (asc "ed25519_sig") 128).str =
      verifiedByAny evp pubkeys
        (attestText (jsonExtractString json (asc "ed25519_sig") 128).str
          (jsonExtractString rp (asc "received_from") 256).str (jsonExtractString rp (asc "ts") 64).str)
        (jsonExtractString rp (asc "sig") 128).str := by
  have hsig := length_jsonExtractString_lt json (asc "ed25519_sig") (show 0 < 128 by decide)
  have hfrom := length_jsonExtractString_lt rp (asc "received_from") (show 0 < 256 by decide)
  have hts := length_jsonExtractString_lt rp (asc "ts") (show 0 < 64 by decide)
  have hbar : (asc "|").length = 1 := rfl
  unfold relayChainOk attestText
  dsimp only
  rw [List.take_of_length_le]
  simp only [List.length_append]
  omega

section

variable {evp : Evp} {envelope : CString} {pubkeys : List Pubkey} {receivedTs : Option CString} {cap : Nat}

/-- The result of an envelope that has a payload and a signature, whether or not a line is written. -/
theorem collectProcess_cases (evp : Evp) (envelope : CString) (pubkeys : List Pubkey)
    (receivedTs : Option CString) (cap : Nat) :
    (∃ r line, collectProcess evp envelope pubkeys receivedTs cap = some (r, line) ∧
      (jsonExtractString envelope.bytes (asc "payload") payloadSize).ok = true ∧
      (jsonExtractString envelope.bytes (asc "ed25519_sig") 128).ok = true ∧
      r.hasRelay = (findSub (asc "\"relay_path\":") envelope.bytes).isSome ∧
      r.relayChainVerified = (findSub (asc "\"relay_path\":") envelope.bytes).all fun i =>
        relayChainOk evp pubkeys (envelope.bytes.drop i)
          (jsonExtractString envelope.bytes (asc "ed25519_sig") 128).str) ∨
    collectProcess evp envelope pubkeys receivedTs cap = none ∧
      ((jsonExtractString envelope.bytes (asc "payload") payloadSize).ok = false ∨
        (jsonExtractString envelope.bytes (asc "ed25519_sig") 128).ok = false) := by
  unfold collectProcess
  extract_lets payloadX sigX payload sigB64 outerId innerId signed verified event relay r agentId line
  by_cases hok : payloadX.ok = false ∨ sigX.ok = false
  · exact Or.inr ⟨if_pos hok, hok⟩
  · obtain ⟨hpayload, hsig⟩ := not_or.mp hok
    have hfound (out : Option Bytes) : ∃ r' line, some (r, out) = some (r', line) ∧ payloadX.ok = true ∧
        sigX.ok = true ∧ r'.hasRelay = relay.isSome ∧ r'.relayChainVerified = relay.all fun i =>
          relayChainOk evp pubkeys (envelope.bytes.drop i) sigB64 :=
      ⟨r, out, rfl, Bool.eq_true_of_not_eq_false hpayload, Bool.eq_true_of_not_eq_false hsig, rfl, rfl⟩
    refine Or.inl ?_
    rw [if_neg hok]
    split
    · exact hfound none
    · split
      · exact hfound (some line)
      · exact hfound none

/-- A chain is found to be verified exactly if a key accepts what is checked. -/
theorem reported_iff :
    (∃ r line, collectProcess evp envelope pubkeys receivedTs cap = some (r, line) ∧ r.hasRelay = true ∧
      r.relayChainVerified = true) ↔
    ∃ msg sig, Checks evp envelope msg sig ∧ ∃ pk ∈ pubkeys, evp.ed25519.verify pk msg sig = true := by
  constructor
  · rintro ⟨r, line, hprocess, hrelay, hverified⟩
    rcases collectProcess_cases evp envelope pubkeys receivedTs cap with
      ⟨r', line', hprocess', hpayload, hsig, hhas, hchain⟩ | ⟨hnone, -⟩
    · obtain ⟨rfl, rfl⟩ := Prod.mk.inj (Option.some.inj (hprocess.symm.trans hprocess'))
      obtain ⟨i, hi⟩ := Option.isSome_iff_exists.mp (hhas.symm.trans hrelay)
      rw [hi, Option.all_some, relayChainOk_eq, hverified, eq_comm, verifiedByAny_iff] at hchain
      obtain ⟨sig, htext, hkey⟩ := hchain
      exact ⟨_, sig, ⟨hpayload, hsig, i, hi, rfl, htext⟩, hkey⟩
    · rw [hnone] at hprocess
      exact absurd hprocess nofun
  · rintro ⟨msg, sig, ⟨hpayload, hsig, i, hi, rfl, htext⟩, hkey⟩
    rcases collectProcess_cases evp envelope pubkeys receivedTs cap with
      ⟨r, line, hprocess, -, -, hhas, hchain⟩ | ⟨-, hfail⟩
    · rw [hi, Option.isSome_some] at hhas
      rw [hi, Option.all_some, relayChainOk_eq, verifiedByAny_iff.mpr ⟨sig, htext, hkey⟩] at hchain
      exact ⟨r, line, hprocess, hhas, hchain⟩
    · rw [hpayload, hsig] at hfail
      exact absurd hfail (by decide)

end

/-! ## Every envelope -/

/-- Every entry attests what is checked, if that can be checked at all. -/
def Covered (evp : Evp) (envelope : CString) : Prop :=
  ∀ msg sig, Checks evp envelope msg sig → EveryEntry evp envelope fun m s => m = msg ∧ s = sig

theorem chain_covered_iff (evp : Evp) (envelope : CString) :
    (∀ (ed25519 : Ed25519) (pubkeys : List Pubkey) (receivedTs : Option CString) (cap : Nat)
      (r : CollectResult) (line : Option Bytes),
      collectProcess { evp with ed25519 } envelope pubkeys receivedTs cap = some (r, line) →
        r.hasRelay = true → r.relayChainVerified = true →
        ChainSigned { evp with ed25519 } pubkeys envelope) ↔
      Covered evp envelope := by
  constructor
  · intro h msg sig hchecks ms entries hms hpath entry hentry
    -- The only valid signature is the one that is checked.
    let only : Ed25519 := ⟨fun _ _ => none, fun _ m s => decide (m = msg ∧ s = sig)⟩
    have hreported : ∃ r line, collectProcess { evp with ed25519 := only } envelope
        [Vector.replicate 32 0] none 0 = some (r, line) ∧ r.hasRelay = true ∧ r.relayChainVerified = true :=
      reported_iff.mpr ⟨msg, sig, ⟨hchecks.payload, hchecks.signed, hchecks.fields⟩, _,
        List.mem_singleton_self _, decide_eq_true ⟨rfl, rfl⟩⟩
    obtain ⟨r, line, hprocess, hrelay, hverified⟩ := hreported
    obtain ⟨envelopeSig, m, s, hown, hattests, pk, -, haccepts⟩ :=
      h only _ none 0 r line hprocess hrelay hverified ms entries hms hpath entry hentry
    exact ⟨envelopeSig, m, s, hown, hattests, of_decide_eq_true haccepts⟩
  · intro h ed25519 pubkeys receivedTs cap r line hprocess hrelay hverified ms entries hms hpath entry hentry
    obtain ⟨msg, sig, hchecks, pk, hpk, haccepts⟩ := reported_iff.mp ⟨r, line, hprocess, hrelay, hverified⟩
    obtain ⟨envelopeSig, m, s, hown, hattests, rfl, rfl⟩ :=
      h msg sig ⟨hchecks.payload, hchecks.signed, hchecks.fields⟩ ms entries hms hpath entry hentry
    exact ⟨envelopeSig, m, s, hown, hattests, pk, hpk, haccepts⟩

/-! ## An entry that nobody signed -/

def originSig : Bytes :=
  asc "7hD0SW/iuqZRFsj9lkxddugWhtgMw1pS/4EYJ92BO7JmKVySFdlhdHGhMmXI2Mf3EDYSJsv3Uk4jOTNs6aUCBg=="

def relaySigText : Bytes :=
  asc "hR+VttkVeMD32byGjDIFB+3hgfF0nkmHqR3bACy9rnZ7/svpNwkY8ytufGj3qch+xPtKTLHsGM4Eo1FRT3qbCg=="

def relayFields : Bytes :=
  memberText (asc "received_from") (quoted edgeId.bytes) ++
    44 :: (memberText (asc "ts") (quoted collectTime.bytes) ++
      44 :: memberText (asc "sig") (quoted relaySigText))

/-- The members of the envelope, with an empty entry behind the relay's. -/
def twoHopsMembers : Bytes :=
  memberText (asc "payload") (quoted (asc "\x7b\x7d")) ++
    44 :: (memberText (asc "ed25519_sig") (quoted originSig) ++
      44 :: memberText (asc "relay_path")
        (91 :: (commaJoin [123 :: (relayFields ++ [125]), [123, 125]] ++ [93])))

def twoHops : CString where
  bytes := 123 :: (twoHopsMembers ++ [125])
  noNul := by decide +kernel

/-- OpenSSL as far as that envelope needs it: the relay's signature over its attestation. -/
def relayEvp : Evp :=
  let sig := Recipe.hexBytes 64 ("851f95b6d91578c0f7d9bc868c320507ede181f1749e4987a91ddb002cbdae76" ++
    "7bfecbe9370918f32b6e7c68f7a9c87ec4fb4a4cb1ec18ce04a351514f7a9b0a")
  { evpSigning sig with
    ed25519 :=
      { sign := fun sk msg =>
          if sk = Recipe.authorKeys.seckey ∧ msg = attestText originSig edgeId.bytes collectTime.bytes then
            some sig
          else none
        verify := fun pk msg s => decide (pk = Recipe.authorKeys.pubkey ∧
          msg = attestText originSig edgeId.bytes collectTime.bytes ∧ s = sig) } }

theorem doc_twoHops : ∃ payload sig fields, Doc .value twoHops.bytes (.obj [(asc "payload", payload),
    (asc "ed25519_sig", sig), (asc "relay_path", .arr [.obj fields, .obj []])]) := by
  have hmember {k t : Bytes} (hk : Plain k) (ht : Plain t) :
      Doc .members (memberText k (quoted t)) (.obj [(k, .str t)]) :=
    doc_memberText (strText_self hk) (doc_quoted ht)
  have hfields := doc_members_append (hmember (show Plain (asc "received_from") by decide)
    (show Plain edgeId.bytes by decide))
    (doc_members_append (hmember (show Plain (asc "ts") by decide) (show Plain collectTime.bytes by decide))
      (hmember (show Plain (asc "sig") by decide) (show Plain relaySigText by decide)))
  have hentries := doc_array (.cons (Doc.obj hfields)
    (.cons (Doc.emptyObj (show IsWs [] by simp [IsWs])) .nil))
  exact ⟨_, _, _, Doc.obj (doc_members_append (hmember (show Plain (asc "payload") by decide)
    (show Plain (asc "\x7b\x7d") by decide))
    (doc_members_append (hmember (show Plain (asc "ed25519_sig") by decide) (show Plain originSig by decide))
      (doc_memberText (strText_self (show Plain (asc "relay_path") by decide)) hentries)))⟩

/-- The chain is found to be verified although its second entry has no signature. -/
theorem unsigned_entry_verified :
    ∃ r line, collectProcess relayEvp twoHops [Recipe.authorKeys.pubkey] (some collectTime) 8192 =
        some (r, line) ∧ r.hasRelay = true ∧ r.relayChainVerified = true ∧
      ¬ ChainSigned relayEvp [Recipe.authorKeys.pubkey] twoHops := by
  have hresult : (collectProcess relayEvp twoHops [Recipe.authorKeys.pubkey] (some collectTime) 8192).any
      (fun x => x.1.hasRelay && x.1.relayChainVerified) = true := by
    decide +kernel
  obtain ⟨⟨r, line⟩, hprocess, hr⟩ := (Option.any_eq_true _ _).mp hresult
  obtain ⟨hrelay, hverified⟩ := Bool.and_eq_true_iff.mp hr
  refine ⟨r, line, hprocess, hrelay, hverified, fun hchain => ?_⟩
  obtain ⟨payload, sig, fields, hdoc⟩ := doc_twoHops
  have hnone : IsWs [] := by simp [IsWs]
  have hmembers : Members twoHops _ := ⟨[], _, [], hnone, hnone, (List.append_nil _).symm, hdoc⟩
  obtain ⟨_, _, _, -, ⟨empty, _, _, _, hempty, hmem, -⟩, -⟩ :=
    hchain _ [.obj fields, .obj []] hmembers (by simp) (.obj []) (by simp)
  obtain rfl := Json.obj.inj hempty
  exact absurd hmem List.not_mem_nil

end Packetsonde.Central
