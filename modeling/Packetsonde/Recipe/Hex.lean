import Packetsonde.Lib.JsonDoc
import Packetsonde.Recipe.Envelope

/-!
# Hexadecimal fields (`recipe_parse.c`)

The bytes of a `send` step and the digest of an envelope are written in hexadecimal. Both decoders take a
digit apart with `(c <= '9') ? c - '0' : (c | 0x20) - 'a' + 10` and ask whether the result is between 0
and 15. The two characters in front of the letters pass as well: `@` and the backquote count as 9
(`hexNibble_eq`). `hex_exact_iff` says that nothing else does.
-/

namespace Packetsonde.Recipe

open Packetsonde.Lib
open List hiding Vector

/-- `tolower`. -/
def toLower (c : UInt8) : UInt8 := if 65 ≤ c ∧ c ≤ 90 then c + 32 else c

/-- The text is a hexadecimal spelling of the bytes, in either letter case. -/
def Spells (text bytes : Bytes) : Prop :=
  text.map toLower = bytes.flatMap fun b => [hexDigit (b.toNat / 16), hexDigit (b.toNat % 16)]

/-- The text consists of pairs of hexadecimal digits, and the bytes are what they spell. -/
structure DecodedAs (text bytes : Bytes) : Prop where
  even : text.length % 2 = 0
  digits : ∀ c ∈ text, (hexValue c).isSome = true
  spells : Spells text bytes

/-- `@` or the backquote. -/
def beforeLetters (c : UInt8) : Bool := c == 64 || c == 96

def passes (c : UInt8) : Bool := (hexValue c).isSome || beforeLetters c

/-- Every character is taken, in pairs, but one is no digit. -/
def PassesForHex (text : Bytes) : Prop :=
  text.length % 2 = 0 ∧ text.all passes = true ∧ ∃ c ∈ text, beforeLetters c = true

/-! ## One digit -/

theorem hexNibble_eq : ∀ c, hexNibble c = if beforeLetters c then some 9 else hexValue c :=
  forall_byte (by decide +kernel)

theorem isSome_hexNibble : ∀ c, (hexNibble c).isSome = passes c :=
  forall_byte (by decide +kernel)

theorem hexValue_beforeLetters : ∀ c, beforeLetters c = true → (hexValue c).isSome = false :=
  forall_byte (by decide +kernel)

theorem hexValue_spelled : ∀ c, ∀ v ∈ hexValue c, v < 16 ∧ toLower c = hexDigit v :=
  forall_byte (by decide +kernel)

variable {text bytes : Bytes}

theorem spells_cons {hi lo : UInt8} {hv lv : Nat} (hhi : hexValue hi = some hv)
    (hlo : hexValue lo = some lv) (h : Spells text bytes) :
    Spells (hi :: lo :: text) (UInt8.ofNat (hv * 16 + lv) :: bytes) := by
  obtain ⟨hhv, hhigh⟩ := hexValue_spelled hi hv hhi
  obtain ⟨hlv, hlow⟩ := hexValue_spelled lo lv hlo
  have hbyte : (UInt8.ofNat (hv * 16 + lv)).toNat = hv * 16 + lv := by
    rw [UInt8.toNat_ofNat']
    omega
  unfold Spells at h ⊢
  rw [map_cons, map_cons, flatMap_cons, h, hhigh, hlow, hbyte,
    show (hv * 16 + lv) / 16 = hv by omega, show (hv * 16 + lv) % 16 = lv by omega]
  rfl

/-! ## Whole texts

Induction along the decoder, which takes two characters at a time. -/

theorem eq_nil_of_short (hshort : ∀ hi lo rest, text = hi :: lo :: rest → False)
    (heven : text.length % 2 = 0) : text = [] := by
  rcases text with _ | ⟨hi, _ | ⟨lo, rest⟩⟩
  · rfl
  · cases heven
  · exact (hshort hi lo rest rfl).elim

theorem isSome_hexDecode (heven : text.length % 2 = 0) :
    (hexDecode text).isSome = text.all passes := by
  induction text using hexDecode.induct with
  | case1 hi lo rest ih =>
    rw [all_cons, all_cons, ← ih (by rwa [← Nat.add_mod_right rest.length 2]), ← isSome_hexNibble,
      ← isSome_hexNibble, hexDecode]
    cases hexNibble hi <;> cases hexNibble lo <;> cases hexDecode rest <;> rfl
  | case2 text hshort =>
    obtain rfl := eq_nil_of_short hshort heven
    rfl

/-- A text that is taken without one of the two characters is decoded as it should be. -/
theorem decodedAs_of_hexDecode (heven : text.length % 2 = 0)
    (hplain : ∀ c ∈ text, beforeLetters c = false) (h : hexDecode text = some bytes) :
    DecodedAs text bytes := by
  induction text using hexDecode.induct generalizing bytes with
  | case1 hi lo rest ih =>
    simp only [forall_mem_cons] at hplain
    obtain ⟨hhi, hlo, hrest⟩ := hplain
    rw [hexDecode, hexNibble_eq, hexNibble_eq, hhi, hlo] at h
    simp only [Bool.false_eq_true, if_false, Option.bind_eq_bind, Option.bind_eq_some_iff] at h
    obtain ⟨hv, hhv, lv, hlv, tail, htail, hbytes⟩ := h
    obtain rfl := Option.some.inj hbytes
    have hdecoded := ih (by rwa [← Nat.add_mod_right rest.length 2]) hrest htail
    refine ⟨heven, ?_, spells_cons hhv hlv hdecoded.spells⟩
    simp only [forall_mem_cons, hhv, hlv, Option.isSome_some, true_and]
    exact hdecoded.digits
  | case2 text hshort =>
    obtain rfl := eq_nil_of_short hshort heven
    obtain rfl := Option.some.inj h
    exact ⟨rfl, fun c hc => absurd hc not_mem_nil, rfl⟩

theorem length_spells (h : Spells text bytes) : text.length = 2 * bytes.length := by
  have hlen := congrArg List.length h
  simpa [length_flatMap, Nat.mul_comm] using hlen

/-! ## The two fields -/

/-- The `bytes` field of a `send` step that is given in hexadecimal. -/
def sendHex (t : BtTable) (text : Bytes) : Except Bytes SendBytes :=
  sendBytes (.obj [(asc "bytes", .obj [(asc "hex", .str text)])]) t

theorem toList_bytesAt_zero {buf : Bytes} {n : Nat} (h : buf.length = n) :
    (bytesAt buf 0 n).toList = buf := by
  have hslice := bytesAt_append_left [] (⟨buf.toArray, h⟩ : Vector UInt8 n) []
  rw [nil_append, append_nil] at hslice
  exact congrArg Vector.toList hslice

theorem sendHex_eq (t : BtTable) (text : Bytes) :
    sendHex t text =
      if text.length % 2 ≠ 0 then .error (asc "send.bytes.hex: odd length")
      else match hexDecode text with
        | some bytes => .ok (.literal bytes)
        | none => .error (asc "send.bytes.hex: non-hex char") := rfl

/-- A text that does not pass for hexadecimal is refused, or decoded as it should be. -/
theorem decodedAs_of_taken (hpasses : ¬ PassesForHex text)
    (heven : text.length % 2 = 0) (h : hexDecode text = some bytes) : DecodedAs text bytes := by
  have hall : text.all passes = true := by rw [← isSome_hexDecode heven, h, Option.isSome_some]
  refine decodedAs_of_hexDecode heven (fun c hc => ?_) h
  by_contra hbefore
  exact hpasses ⟨heven, hall, c, hc, by simpa using hbefore⟩

/-- The hexadecimal fields are decoded exactly, unless one of the two characters passes for a digit. -/
theorem hex_exact_iff (t : BtTable) (text : Bytes) :
    ((∀ b, sendHex t text = .ok b → ∃ bytes, b = .literal bytes ∧ DecodedAs text bytes) ∧
      ∀ sha, shaField text = .ok sha → text.length = 64 ∧ DecodedAs text sha.toList) ↔
      ¬ PassesForHex text := by
  constructor
  · rintro ⟨hsend, -⟩ ⟨heven, hall, c, hc, hbefore⟩
    rw [← isSome_hexDecode heven] at hall
    obtain ⟨bytes, hdec⟩ := Option.isSome_iff_exists.mp hall
    have hok : sendHex t text = .ok (.literal bytes) := by
      rw [sendHex_eq, if_neg (not_not.mpr heven), hdec]
    obtain ⟨_, -, hdecoded⟩ := hsend _ hok
    have hdigit := hdecoded.digits c hc
    rw [hexValue_beforeLetters c hbefore] at hdigit
    cases hdigit
  · intro hpasses
    constructor
    · intro b hb
      rw [sendHex_eq] at hb
      split at hb
      · cases hb
      · rename_i heven
        split at hb
        · rename_i bytes hdec
          cases hb
          exact ⟨bytes, rfl, decodedAs_of_taken hpasses (not_not.mp heven) hdec⟩
        · cases hb
    · intro sha hsha
      unfold shaField at hsha
      split at hsha
      · cases hsha
      · rename_i hlen
        have hlen : text.length = 64 := not_not.mp hlen
        split at hsha
        · cases hsha
        · rename_i bytes hdec
          obtain rfl := Except.ok.inj hsha
          have hdecoded := decodedAs_of_taken hpasses (by rw [hlen]) hdec
          have hbytes : bytes.length = 32 := by
            have := length_spells hdecoded.spells
            omega
          rw [toList_bytesAt_zero hbytes]
          exact ⟨hlen, hdecoded⟩

/-- Two characters that are no digits are sent as the byte `0x99`, and 64 of them are a digest. -/
theorem at_sign_taken : sendHex btEmpty (asc "@\x60") = .ok (.literal [0x99]) ∧
    (hexValue 64).isSome = false ∧
    shaField (List.replicate 64 64) = .ok (Vector.replicate 32 0x99) := by
  decide +kernel

end Packetsonde.Recipe
