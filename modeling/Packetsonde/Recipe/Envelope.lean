import Packetsonde.Discovery.Wire
import Packetsonde.Lib.Base64
import Packetsonde.Recipe.Build

/-!
# Signed recipe envelopes (`recipe_parse.c`, `recipe_verify.c`)

An envelope is a JSON object around the recipe bytes: the bytes in base64, their SHA-256 in
hexadecimal, the author's public key, a timestamp and an Ed25519 signature over the 72 bytes
`sha256 ‖ author_pub ‖ signed_at_ms`. SHA-256, base64 and Ed25519 are OpenSSL's and enter as the
functions of `Evp`.

`EVP_DecodeBlock` writes three bytes for every four characters it is given, before anybody has
looked at the length. The parser notes each call with the buffer it decodes into and the number of
bytes written (`DecodeCall`); the two buffers on the stack are large enough exactly for the lengths
`decode_writes_in_bounds_iff` names.
-/

namespace Packetsonde.Recipe

open Packetsonde.Lib
open Packetsonde.Discovery (Ed25519 Pubkey Seckey Signature)
open List hiding Vector

abbrev Sha256 := Vector UInt8 32

/-- What the envelope code calls in OpenSSL. The length of a block is a C `int`. `decodeBlock` is
`none` where the call returns -1. -/
structure Evp where
  sha256 : Bytes → Sha256
  encodeBlock : Bytes → Int32 → Bytes
  decodeBlock : Bytes → Int32 → Option Bytes
  ed25519 : Ed25519

/-- `struct ps_recipe_envelope`. -/
structure Envelope where
  schema : Int32
  innerJson : Bytes
  recipeSha256 : Sha256
  authorPub : Pubkey
  signedAtMs : Int64
  signature : Signature
  deriving DecidableEq

/-! ## Decoding base64 -/

inductive DecodeBuf where
  | pubTmp
  | sigTmp
  /-- The arena block allocated for `recipe_b64`. -/
  | inner (size : Nat)
  deriving DecidableEq, Repr

def DecodeBuf.size : DecodeBuf → Nat
  | .pubTmp => 48
  | .sigTmp => 72
  | .inner size => size

/-- A call of `EVP_DecodeBlock`, and how many bytes it wrote. -/
structure DecodeCall where
  buf : DecodeBuf
  written : Nat
  deriving DecidableEq, Repr

/-- What `EVP_DecodeBlock` writes for `n` characters. -/
def decodeWrites (n : Int32) : Nat := 3 * (n.toInt / 4).toNat

/-- The `=` among the last two characters. -/
def padCount (text : Bytes) : Nat :=
  (if text.reverse[0]? = some 61 then 1 else 0) + (if text.reverse[1]? = some 61 then 1 else 0)

/-- `b64_decode`: the bytes it decodes, and the call it makes. -/
def b64Decode (evp : Evp) (buf : DecodeBuf) (text : Bytes) : Option Bytes × List DecodeCall :=
  if text.length / 4 * 3 = 0 ∧ text.length > 0 then (none, [])
  else
    let n := Int32.ofNat text.length
    match evp.decodeBlock text n with
    | none => (none, [⟨buf, decodeWrites n⟩])
    | some out =>
      if out.length < padCount text then (none, [⟨buf, decodeWrites n⟩])
      else (some (out.take (out.length - padCount text)), [⟨buf, decodeWrites n⟩])

/-! ## Parsing -/

/-- What the parser reads off the JSON before it decodes any base64. -/
structure EnvelopeFields where
  schema : Int32
  recipeB64 : Bytes
  recipeSha256 : Sha256
  authorPub : Bytes
  signature : Bytes
  signedAtMs : Int64

/-- The `signed_at_ms` field. -/
def signedAtField (root : Jv) : Except Bytes Int64 :=
  match jvObjGet root (asc "signed_at_ms") with
  | some (.int i) => .ok i
  | _ => .error (asc "envelope: missing or non-integer 'signed_at_ms'")

def shaField (hex : Bytes) : Except Bytes Sha256 :=
  if hex.length ≠ 64 then .error (asc "envelope: bad recipe_sha256 length")
  else match hexDecode hex with
    | none => .error (asc "envelope: non-hex in recipe_sha256")
    | some sha => .ok (bytesAt sha 0 32)

/-- The first half of `ps_recipe_envelope_parse`. -/
def envelopeFields (json : Bytes) : Except Bytes EnvelopeFields :=
  match parseValue json with
  | .error e => .error e.text
  | .ok (.obj ms, _) => do
    let schema ← expectInt (.obj ms) (asc "schema") (asc "envelope")
    if schema ≠ 1 then .error (asc "unsupported envelope schema")
    else do
      let recipeB64 ← expectString (.obj ms) (asc "recipe_b64") (asc "envelope")
      let shaHex ← expectString (.obj ms) (asc "recipe_sha256") (asc "envelope")
      let authorPub ← expectString (.obj ms) (asc "author_pub") (asc "envelope")
      let signature ← expectString (.obj ms) (asc "signature") (asc "envelope")
      let signedAtMs ← signedAtField (.obj ms)
      let recipeSha256 ← shaField shaHex
      .ok { schema, recipeB64, recipeSha256, authorPub, signature, signedAtMs }
  | .ok _ => .error (asc "envelope root must be object")

/-- The second half: the base64 fields in order, then the digest of the recipe bytes. -/
def decodeFields (evp : Evp) (f : EnvelopeFields) : Except Bytes Envelope × List DecodeCall :=
  let pub := b64Decode evp .pubTmp f.authorPub
  match pub.1.filter (·.length = 32) with
  | none => (.error (asc "envelope: bad author_pub base64"), pub.2)
  | some authorPub =>
    let sig := b64Decode evp .sigTmp f.signature
    match sig.1.filter (·.length = 64) with
    | none => (.error (asc "envelope: bad signature base64"), pub.2 ++ sig.2)
    | some signature =>
      let inner := b64Decode evp (.inner f.recipeB64.length) f.recipeB64
      match inner.1 with
      | none => (.error (asc "envelope: bad recipe_b64"), pub.2 ++ sig.2 ++ inner.2)
      | some innerJson =>
        if evp.sha256 innerJson ≠ f.recipeSha256 then
          (.error (asc "envelope: recipe_sha256 mismatch"), pub.2 ++ sig.2 ++ inner.2)
        else
          (.ok
            { schema := f.schema
              innerJson
              recipeSha256 := f.recipeSha256
              authorPub := bytesAt authorPub 0 32
              signedAtMs := f.signedAtMs
              signature := bytesAt signature 0 64 },
            pub.2 ++ sig.2 ++ inner.2)

/-- `ps_recipe_envelope_parse`, with the decoding calls it makes. -/
def psRecipeEnvelopeParse (evp : Evp) (json : Bytes) : Except Bytes Envelope × List DecodeCall :=
  match envelopeFields json with
  | .error e => (.error e, [])
  | .ok f => decodeFields evp f

/-! ## The text of an envelope -/

/-- `struct ps_keypair`. -/
structure Keypair where
  pubkey : Pubkey
  seckey : Seckey

/-- The text `snprintf` produces from the fields. -/
def envelopeText (recipeB64 shaHex pubB64 : Bytes) (signedAtMs : Int64) (sigB64 : Bytes) : Bytes :=
  asc "\x7b\"schema\":1,\"recipe_b64\":\"" ++ recipeB64 ++
  asc "\",\"recipe_sha256\":\"" ++ shaHex ++ asc "\",\"author_pub\":\"" ++ pubB64 ++
  asc "\",\"signed_at_ms\":" ++ decimal signedAtMs.toInt ++
  asc ",\"signature\":\"" ++ sigB64 ++ asc "\"\x7d"

/-! ## Decoding stays inside its buffers -/

/-- The call `b64_decode` makes, unless the text is too short for one group. -/
theorem b64Decode_calls (evp : Evp) (buf : DecodeBuf) (text : Bytes) :
    (b64Decode evp buf text).2 = [⟨buf, decodeWrites (Int32.ofNat text.length)⟩] ∨
      ((b64Decode evp buf text).2 = [] ∧ text.length < 4) := by
  rw [b64Decode]
  split
  · rename_i hshort
    exact .inr ⟨rfl, by omega⟩
  · left
    dsimp only
    split
    · rfl
    · split <;> rfl

theorem decodeWrites_le_iff (n : Int32) (k : Nat) :
    decodeWrites n ≤ 3 * k ↔ n.toInt < 4 * (k + 1) := by
  rw [decodeWrites]
  omega

theorem toInt_ofNat_of_lt_four {k : Nat} (h : k < 4) : (Int32.ofNat k).toInt = k := by
  rw [Int32.toInt_ofNat_of_lt (by omega)]

/-- The calls of `b64_decode` stay inside a buffer of `3 * k` bytes exactly for the texts shorter
than `4 * (k + 1)`. -/
theorem b64Decode_in_bounds_iff (evp : Evp) (buf : DecodeBuf) {k : Nat} (hbuf : buf.size = 3 * k)
    (text : Bytes) :
    (∀ c ∈ (b64Decode evp buf text).2, c.written ≤ c.buf.size) ↔
      (Int32.ofNat text.length).toInt < 4 * (k + 1) := by
  rcases b64Decode_calls evp buf text with hcalls | ⟨hcalls, hshort⟩
  · rw [hcalls, forall_mem_singleton, hbuf, decodeWrites_le_iff]
  · rw [hcalls, toInt_ofNat_of_lt_four hshort]
    simp only [not_mem_nil, false_implies, implies_true, true_iff]
    omega

/-- An `int` is never more than the length it was cast from. -/
theorem toInt_ofNat_le (k : Nat) : (Int32.ofNat k).toInt ≤ k := by
  rw [Int32.toInt_ofNat', Int.bmod, show (Int32.size : Int) = 2 ^ 32 from rfl]
  split <;> omega

/-- A decoded text is never longer than itself, so the arena block is large enough. -/
theorem b64Decode_inner_in_bounds (evp : Evp) (text : Bytes) :
    ∀ c ∈ (b64Decode evp (.inner text.length) text).2, c.written ≤ c.buf.size := by
  rcases b64Decode_calls evp (.inner text.length) text with hcalls | ⟨hcalls, -⟩
  · have hcast := toInt_ofNat_le text.length
    rw [hcalls, forall_mem_singleton]
    change 3 * ((Int32.ofNat text.length).toInt / 4).toNat ≤ text.length
    omega
  · simp [hcalls]

/-- The signature is only decoded if the public key has 32 bytes, the recipe only if the signature
has 64. -/
theorem decodeFields_in_bounds_iff (evp : Evp) (f : EnvelopeFields) :
    (∀ c ∈ (decodeFields evp f).2, c.written ≤ c.buf.size) ↔
      (∀ c ∈ (b64Decode evp .pubTmp f.authorPub).2, c.written ≤ c.buf.size) ∧
      ((∃ pub, (b64Decode evp .pubTmp f.authorPub).1 = some pub ∧ pub.length = 32) →
        ∀ c ∈ (b64Decode evp .sigTmp f.signature).2, c.written ≤ c.buf.size) := by
  have hinner := b64Decode_inner_in_bounds evp f.recipeB64
  rw [decodeFields]
  rcases hpub : (b64Decode evp .pubTmp f.authorPub).1.filter (·.length = 32) with _ | pub
  · have hnot : ¬ ∃ pub, (b64Decode evp .pubTmp f.authorPub).1 = some pub ∧ pub.length = 32 := by
      rintro ⟨pub, hsome, hlen⟩
      simp [hsome, hlen] at hpub
    simp [hpub, hnot]
  · have hyes : ∃ pub, (b64Decode evp .pubTmp f.authorPub).1 = some pub ∧ pub.length = 32 :=
      ⟨pub, by simpa using Option.filter_eq_some_iff.mp hpub⟩
    simp only [hpub, hyes, true_implies]
    rcases hsig : (b64Decode evp .sigTmp f.signature).1.filter (·.length = 64) with _ | sig
    · simp only [hsig, forall_mem_append]
    · simp only [hsig]
      rcases (b64Decode evp (.inner f.recipeB64.length) f.recipeB64).1 with _ | inner
      · simp only [forall_mem_append]
        exact and_iff_left hinner
      · dsimp only
        split <;>
          simp only [forall_mem_append] <;> exact and_iff_left hinner

/-- **Decoding in bounds.** Every write of the parser stays inside its buffer exactly if
`author_pub` has fewer than 68 characters and, where it decodes to a public key, `signature` has
fewer than 100. (A length is what remains of it in a C `int`.) -/
theorem decode_writes_in_bounds_iff (evp : Evp) (json : Bytes) :
    (∀ c ∈ (psRecipeEnvelopeParse evp json).2, c.written ≤ c.buf.size) ↔
      ∀ f, envelopeFields json = .ok f →
        (Int32.ofNat f.authorPub.length).toInt < 68 ∧
        ((∃ pub, (b64Decode evp .pubTmp f.authorPub).1 = some pub ∧ pub.length = 32) →
          (Int32.ofNat f.signature.length).toInt < 100) := by
  rw [psRecipeEnvelopeParse]
  rcases hfields : envelopeFields json with e | f
  · simp
  · have hpub := b64Decode_in_bounds_iff evp .pubTmp (k := 16) rfl f.authorPub
    have hsig := b64Decode_in_bounds_iff evp .sigTmp (k := 24) rfl f.signature
    dsimp only
    rw [decodeFields_in_bounds_iff, hpub, hsig]
    simp

/-- An envelope whose `author_pub` is a given text. -/
def envelopeJson (authorPub : Bytes) : Bytes :=
  envelopeText [] (List.replicate 64 48) authorPub 0 []

/-- 68 characters are decoded to 51 bytes, whatever the library makes of them. -/
theorem overlong_author_pub :
    ¬ ∃ evp : Evp, ∀ c ∈ (psRecipeEnvelopeParse evp (envelopeJson (List.replicate 68 65))).2,
      c.written ≤ c.buf.size := by
  rintro ⟨evp, hall⟩
  have hlength : (envelopeFields (envelopeJson (List.replicate 68 65))).toOption.any
      (fun f => f.authorPub.length = 68) = true := by decide +kernel
  rw [psRecipeEnvelopeParse] at hall
  rcases hfields : envelopeFields (envelopeJson (List.replicate 68 65)) with e | f <;>
    rw [hfields] at hlength hall
  · simp [Except.toOption] at hlength
  · have hlen : f.authorPub.length = 68 := by simpa [Except.toOption] using hlength
    have hpub := ((decodeFields_in_bounds_iff evp f).mp hall).1
    rw [b64Decode_in_bounds_iff evp .pubTmp (k := 16) rfl, hlen] at hpub
    exact absurd hpub (by decide)

/-- OpenSSL's base64. A length that is not positive encodes nothing. -/
structure Evp.CodesBase64 (evp : Evp) : Prop where
  encodes : ∀ (src : Bytes) (n : Int32), n.toInt ≤ src.length →
    evp.encodeBlock src n = Base64.encode (src.take n.toInt.toNat)
  decodes : ∀ (bs : Bytes) (n : Int32), n.toInt = (Base64.encode bs).length →
    evp.decodeBlock (Base64.encode bs) n = Base64.decode (Base64.encode bs)

/-- The halves of the key pair belong together: what the secret key signs the public key accepts. -/
def Evp.KeyPair (evp : Evp) (kp : Keypair) : Prop :=
  ∀ msg sig, evp.ed25519.sign kp.seckey msg = some sig →
    evp.ed25519.verify kp.pubkey msg sig = true

/-! ## Base64 fields -/

theorem padCount_append (pre : Bytes) {text : Bytes} (h : 2 ≤ text.length) :
    padCount (pre ++ text) = padCount text := by
  unfold padCount
  rw [reverse_append,
    getElem?_append_left (by rw [length_reverse]; omega),
    getElem?_append_left (by rw [length_reverse]; omega)]

/-- The `=` that `b64_decode` counts are those of the encoding. -/
theorem padCount_encode (bs : Bytes) : padCount (Base64.encode bs) = Base64.pad bs.length := by
  induction bs using Base64.encode.induct with
  | case1 => rfl
  | case2 a => simp [Base64.encode, padCount, Base64.pad]
  | case3 a b =>
    have hb := b.toNat_lt
    have hne := (Base64.digit_plain (show b.toNat % 16 * 4 < 64 by omega)).2.2.2
    simp [Base64.encode, padCount, Base64.pad, hne]
  | case4 a b c rest ih =>
    have hb := b.toNat_lt
    have hc := c.toNat_lt
    have hpad : Base64.pad (a :: b :: c :: rest).length = Base64.pad rest.length := by
      unfold Base64.pad
      simp only [length_cons]
      omega
    rw [hpad, ← ih, Base64.encode]
    cases rest with
    | nil =>
      have h₃ := (Base64.digit_plain (show b.toNat % 16 * 4 + c.toNat / 64 < 64 by omega)).2.2.2
      have h₄ := (Base64.digit_plain (show c.toNat % 64 < 64 by omega)).2.2.2
      simp [Base64.encode, padCount, h₃, h₄]
    | cons d rest =>
      have hlen := Base64.length_encode (d :: rest)
      simp only [length_cons] at hlen
      exact padCount_append [_, _, _, _] (by omega)

theorem bytesAt_toList {n : Nat} (v : Vector UInt8 n) : bytesAt v.toList 0 n = v := by
  simpa using bytesAt_append_left [] v []

def hexBytes (n : Nat) (hex : String) : Vector UInt8 n :=
  bytesAt ((hexDecode (asc hex)).getD []) 0 n

def authorKeys : Keypair where
  pubkey := hexBytes 32 "d75a980182b10ab7d54bfed3c964073a0ee172f3daa62325af021a68f707511a"
  seckey := hexBytes 32 "9d61b19deffd5a60ba844af492ec2cc44449c5697b326919703bac031cae7f60"

end Packetsonde.Recipe
