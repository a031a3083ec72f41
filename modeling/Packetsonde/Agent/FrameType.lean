import Packetsonde.Lib.JsonMember
import Packetsonde.Lib.Returns

/-!
# Packetsonde — the type of a frame (`ps_ap_frame_type` of `agent_proto.c`)

Every receiver of frames looks at the payload's `type` before it parses anything else. The scan walks
the members of the top-level object, passes over their values and takes the first key that is spelled
`type`. The model reads the payload through positions: a read at or behind the end is a fault (`none`),
and so is a loop that does not end within as many turns as there are bytes (`frameType_total`).

The loop that skips an object or an array counts one kind of bracket only. Over a whole value the count
comes back to where it was (`doc_passes`), so the walk sees the top-level keys and no others.
-/

namespace Packetsonde.Agent

open Packetsonde.Lib
open List

/-! ## The code -/

/-- `skip_ws`, in at most so many turns. -/
def skipWsLoop (b : Bytes) : Nat → Nat → Option Nat
  | 0, _ => none
  | n + 1, p =>
    if p < b.length then do
      let c ← b[p]?
      if isWs c then skipWsLoop b n (p + 1) else some p
    else some p

def skipWs (b : Bytes) (p : Nat) : Option Nat := skipWsLoop b (b.length + 1) p

/-- The loop of `skip_string`; `some none` is `NULL`. -/
def skipStringLoop (b : Bytes) : Nat → Nat → Option (Option Nat)
  | 0, _ => none
  | n + 1, p =>
    if p < b.length then do
      let c ← b[p]?
      if c = 92 then
        if p + 1 ≥ b.length then some none else skipStringLoop b n (p + 2)
      else if c = 34 then some (some (p + 1))
      else skipStringLoop b n (p + 1)
    else some none

/-- `skip_string`. -/
def skipString (b : Bytes) (p : Nat) : Option (Option Nat) :=
  if p ≥ b.length then some none
  else do
    let c ← b[p]?
    if c ≠ 34 then some none else skipStringLoop b (b.length + 1) (p + 1)

/-- The loop of `skip_value` behind an opening bracket. The depth is at most the number of bytes that
were read. -/
def nestedLoop (b : Bytes) (opn cls : UInt8) : Nat → Nat → Nat → Option (Option Nat)
  | 0, _, _ => none
  | n + 1, p, depth =>
    if p < b.length ∧ depth > 0 then do
      let c ← b[p]?
      if c = 34 then do
        let q ← skipString b p
        match q with
        | none => some none
        | some q => nestedLoop b opn cls n q depth
      else
        nestedLoop b opn cls n (p + 1)
          (if c = opn then depth + 1 else if c = cls then depth - 1 else depth)
    else some (if depth = 0 then some p else none)

/-- The loop of `skip_value` over a number or a literal. -/
def scalarLoop (b : Bytes) : Nat → Nat → Option Nat
  | 0, _ => none
  | n + 1, p =>
    if p < b.length then do
      let c ← b[p]?
      if c ≠ 44 ∧ c ≠ 125 ∧ ¬ isWs c then scalarLoop b n (p + 1) else some p
    else some p

/-- `skip_value`. -/
def skipValue (b : Bytes) (p : Nat) : Option (Option Nat) := do
  let p ← skipWs b p
  if p ≥ b.length then some none
  else do
    let c ← b[p]?
    if c = 34 then skipString b p
    else if c = 123 ∨ c = 91 then
      nestedLoop b c (if c = 123 then 125 else 93) (b.length + 1) (p + 1) 1
    else do
      let q ← scalarLoop b (b.length + 1) p
      some (some q)

/-- A block of bytes, as `memcmp` and `memcpy` read it. -/
def block (b : Bytes) (p len : Nat) : Option Bytes :=
  if p + len ≤ b.length then some ((b.drop p).take len) else none

/-- A key and its colon: the length of its text, and where the value starts. -/
def keyAt (b : Bytes) (p : Nat) : Option (Option (Nat × Nat)) := do
  let q ← skipString b p
  match q with
  | none => some none
  | some keyEndQuote => do
    let p' ← skipWs b keyEndQuote
    if p' ≥ b.length then some none
    else do
      let c ← b[p']?
      if c ≠ 58 then some none
      else do
        let p'' ← skipWs b (p' + 1)
        if p'' ≥ b.length then some none
        else some (some (keyEndQuote - 1 - (p + 1), p''))

/-- The value of `type`: the return value, and what is copied to `out`. -/
def typeAt (b : Bytes) (cap p : Nat) : Option (Int32 × Bytes) := do
  let c ← b[p]?
  if c ≠ 34 then some (-1, [])
  else do
    let vend ← skipString b p
    match vend with
    | none => some (-1, [])
    | some vend => do
      let vlen := vend - 1 - (p + 1)
      let vlen := if vlen ≥ cap then cap - 1 else vlen
      let out ← block b (p + 1) vlen
      some (0, out)

/-- Whether a key is spelled `type`. -/
def isTypeKey (b : Bytes) (keyStart keyLen : Nat) : Option Bool :=
  if keyLen = 4 then (block b keyStart 4).map fun key => decide (key = asc "type") else some false

/-- Past a value that is not wanted, and past a comma behind it; `none` if there is no end of it. -/
def pastValue (b : Bytes) (p : Nat) : Option (Option Nat) := do
  let vend ← skipValue b p
  match vend with
  | none => some none
  | some vend => do
    let p ← skipWs b vend
    if p < b.length then do
      let c ← b[p]?
      some (some (if c = 44 then p + 1 else p))
    else some (some p)

/-- One turn of the loop of `ps_ap_frame_type`: what it returns, or where it goes on. -/
def frameTurn (b : Bytes) (cap p : Nat) : Option ((Int32 × Bytes) ⊕ Nat) := do
  let p ← skipWs b p
  if p ≥ b.length then some (.inl (-1, []))
  else do
    let c ← b[p]?
    if c = 125 then some (.inl (-1, []))
    else if c ≠ 34 then some (.inl (-1, []))
    else do
      let key ← keyAt b p
      match key with
      | none => some (.inl (-1, []))
      | some (keyLen, v) => do
        let isType ← isTypeKey b (p + 1) keyLen
        if isType then (typeAt b cap v).map .inl
        else (pastValue b v).map fun
          | none => .inl (-1, [])
          | some p => .inr p

/-- The loop of `ps_ap_frame_type` over the members. -/
def frameLoop (b : Bytes) (cap : Nat) : Nat → Nat → Option (Int32 × Bytes)
  | 0, _ => none
  | n + 1, p =>
    if p < b.length then do
      let turn ← frameTurn b cap p
      match turn with
      | .inl r => some r
      | .inr p => frameLoop b cap n p
    else some (-1, [])

/-- `ps_ap_frame_type`: the return value and the string left in `out`. -/
def frameType (payload : Bytes) (outCap : Nat) : Option (Int32 × Bytes) :=
  if outCap = 0 then some (-1, [])
  else do
    let p ← skipWs payload 0
    if p ≥ payload.length then some (-1, [])
    else do
      let c ← payload[p]?
      if c ≠ 123 then some (-1, [])
      else frameLoop payload outCap (payload.length + 1) (p + 1)

section Turns

variable {b : Bytes} {p : Nat} {c : UInt8}

variable (hc : b[p]? = some c)

include hc

theorem lt_of_read : p < b.length := (List.getElem?_eq_some_iff.mp hc).1

theorem skipStringLoop_read (n : Nat) :
    skipStringLoop b (n + 1) p =
      if c = 92 then if p + 1 ≥ b.length then some none else skipStringLoop b n (p + 2)
      else if c = 34 then some (some (p + 1)) else skipStringLoop b n (p + 1) := by
  rw [skipStringLoop, if_pos (lt_of_read hc), hc, Option.bind_eq_bind, Option.bind_some]

theorem skipString_read :
    skipString b p = if c ≠ 34 then some none else skipStringLoop b (b.length + 1) (p + 1) := by
  rw [skipString, if_neg (Nat.not_le.mpr (lt_of_read hc)), hc, Option.bind_eq_bind, Option.bind_some]

theorem nestedLoop_read (opn cls : UInt8) (n : Nat) {depth : Nat} (hd : 0 < depth) :
    nestedLoop b opn cls (n + 1) p depth =
      if c = 34 then (skipString b p).bind fun
        | none => some none
        | some q => nestedLoop b opn cls n q depth
      else nestedLoop b opn cls n (p + 1)
        (if c = opn then depth + 1 else if c = cls then depth - 1 else depth) := by
  rw [nestedLoop, if_pos ⟨lt_of_read hc, hd⟩, hc, Option.bind_eq_bind, Option.bind_some]
  rfl

end Turns

section Total

variable {b : Bytes}

/-- A loop that goes on over bytes of one kind. -/
def Walks (b : Bytes) (f : Nat → Nat → Option Nat) (go : UInt8 → Prop) [DecidablePred go] : Prop :=
  ∀ n p, f (n + 1) p = if p < b.length then b[p]?.bind fun c => if go c then f n (p + 1) else some p else some p

theorem walks_skipWs : Walks b (skipWsLoop b) fun c => isWs c := fun _ _ => rfl
theorem walks_scalar : Walks b (scalarLoop b) fun c => c ≠ 44 ∧ c ≠ 125 ∧ ¬ isWs c := fun _ _ => rfl

/-- A loop that goes on byte by byte or stops. -/
theorem walk_total {f : Nat → Nat → Option Nat} {go : UInt8 → Prop} [DecidablePred go]
    (hstep : Walks b f go) {n p : Nat}
    (hp : p ≤ b.length) (hn : b.length - p < n) : Returns (f n p) fun q => p ≤ q ∧ q ≤ b.length := by
  induction n generalizing p with
  | zero => omega
  | succ n ih =>
    rw [hstep]
    split
    · next hlt =>
      refine Returns.bind (.read hlt) fun c _ => ?_
      split
      · exact (ih hlt (by omega)).mono fun q hq => ⟨by omega, hq.2⟩
      · exact .some ⟨Nat.le_refl p, hp⟩
    · exact .some ⟨Nat.le_refl p, hp⟩

theorem skipWs_total {p : Nat} (hp : p ≤ b.length) : Returns (skipWs b p) fun q => p ≤ q ∧ q ≤ b.length :=
  walk_total walks_skipWs hp (by omega)

theorem scalarLoop_total {p : Nat} (hp : p ≤ b.length) :
    Returns (scalarLoop b (b.length + 1) p) fun q => p ≤ q ∧ q ≤ b.length :=
  walk_total walks_scalar hp (by omega)

/-- What a skipper returns: `NULL`, or a position from `p` on and not behind the end. -/
def Moves (b : Bytes) (p : Nat) (r : Option (Option Nat)) : Prop :=
  ∃ q, r = some q ∧ ∀ q' ∈ q, p ≤ q' ∧ q' ≤ b.length

theorem Moves.null {p : Nat} : Moves b p (some none) := ⟨none, rfl, fun _ h => nomatch h⟩

theorem Moves.to {p q : Nat} (hpq : p ≤ q) (hq : q ≤ b.length) : Moves b p (some (some q)) :=
  ⟨some q, rfl, fun _ h => Option.some.inj h ▸ ⟨hpq, hq⟩⟩

theorem Moves.mono {p p' : Nat} {r : Option (Option Nat)} (h : Moves b p' r) (hp : p ≤ p') : Moves b p r :=
  Returns.mono h fun _ hq q' hq' => ⟨Nat.le_trans hp (hq q' hq').1, (hq q' hq').2⟩

theorem skipStringLoop_moves {n p : Nat} (hn : b.length - p < n) : Moves b p (skipStringLoop b n p) := by
  induction n generalizing p with
  | zero => omega
  | succ n ih =>
    rw [skipStringLoop]
    split
    · next hlt =>
      refine Returns.bind (.read hlt) fun c _ => ?_
      split
      · split
        · exact Moves.null
        · exact (ih (by omega)).mono (by omega)
      · split
        · exact Moves.to (by omega) hlt
        · exact (ih (by omega)).mono (by omega)
    · exact Moves.null

theorem skipString_moves (p : Nat) : Moves b (p + 1) (skipString b p) := by
  rw [skipString]
  split
  · exact Moves.null
  · next hlt =>
    refine Returns.bind (.read (Nat.not_le.mp hlt)) fun c _ => ?_
    split
    · exact Moves.null
    · exact skipStringLoop_moves (by omega)

theorem nestedLoop_moves {opn cls : UInt8} {n p depth : Nat} (hp : p ≤ b.length)
    (hn : b.length - p < n) : Moves b p (nestedLoop b opn cls n p depth) := by
  induction n generalizing p depth with
  | zero => omega
  | succ n ih =>
    rw [nestedLoop]
    split
    · next hgo =>
      refine Returns.bind (.read hgo.1) fun c _ => ?_
      split
      · refine Returns.bind (skipString_moves p) fun q hq => ?_
        cases q with
        | none => exact Moves.null
        | some q =>
          have := hq q rfl
          exact (ih this.2 (by omega)).mono (by omega)
      · exact (ih hgo.1 (by omega)).mono (by omega)
    · split
      · exact Moves.to (Nat.le_refl p) hp
      · exact Moves.null

theorem skipValue_moves {p : Nat} (hp : p ≤ b.length) : Moves b p (skipValue b p) := by
  refine Returns.bind (skipWs_total hp) fun q hq => ?_
  split
  · exact Moves.null
  · next hlt =>
    refine Returns.bind (.read (Nat.not_le.mp hlt)) fun c _ => ?_
    split
    · exact (skipString_moves q).mono (by omega)
    · split
      · exact (nestedLoop_moves (by omega) (by omega)).mono (by omega)
      · exact Returns.bind (scalarLoop_total hq.2) fun e he => Moves.to (by omega) he.2

theorem pastValue_moves {p : Nat} (hp : p ≤ b.length) : Moves b p (pastValue b p) := by
  refine Returns.bind (skipValue_moves hp) fun q hq => ?_
  cases q with
  | none => exact Moves.null
  | some q =>
    have hpq := hq q rfl
    refine Returns.bind (skipWs_total hpq.2) fun p' hp' => ?_
    split
    · next hlt => exact Returns.bind (.read hlt) fun c _ => Moves.to (by split <;> omega) (by split <;> omega)
    · exact Moves.to (by omega) hp'.2

/-- A key is read to a value behind it, and its text is a block of the payload. -/
theorem keyAt_total (p : Nat) : Returns (keyAt b p) fun r => ∀ e ∈ r, p + 1 + e.1 < e.2 ∧ e.2 < b.length := by
  have hnull : Returns (some (none : Option (Nat × Nat))) fun r => ∀ e ∈ r, p + 1 + e.1 < e.2 ∧ e.2 < b.length :=
    .some fun _ h => nomatch h
  refine Returns.bind (skipString_moves p) fun q hq => ?_
  cases q with
  | none => exact hnull
  | some q =>
    have hpq := hq q rfl
    refine Returns.bind (skipWs_total hpq.2) fun p' hp' => ?_
    split
    · exact hnull
    · next hlt =>
      refine Returns.bind (.read (Nat.not_le.mp hlt)) fun c _ => ?_
      split
      · exact hnull
      · refine Returns.bind (skipWs_total (by omega)) fun p'' hp'' => ?_
        split
        · exact hnull
        · refine .some fun e he => ?_
          obtain rfl := Option.some.inj he
          exact ⟨by simp only; omega, by simp only; omega⟩

theorem block_total {p len : Nat} (h : p + len ≤ b.length) : Returns (block b p len) fun _ => True :=
  ⟨_, if_pos h, trivial⟩

theorem typeAt_total (cap : Nat) {p : Nat} (hp : p < b.length) : Returns (typeAt b cap p) fun _ => True := by
  refine Returns.bind (.read hp) fun c _ => ?_
  split
  · exact .some trivial
  · refine Returns.bind (skipString_moves p) fun q hq => ?_
    cases q with
    | none => exact .some trivial
    | some q =>
      have hpq := hq q rfl
      exact Returns.bind (block_total (by split <;> omega)) fun _ _ => .some trivial

/-- A turn returns, or it goes on behind where it started. -/
theorem frameTurn_total (cap : Nat) {p : Nat} (hp : p ≤ b.length) :
    Returns (frameTurn b cap p) fun r => ∀ q, r = .inr q → p < q ∧ q ≤ b.length := by
  have hdone : Returns (some (.inl (-1, []) : (Int32 × Bytes) ⊕ Nat))
      fun r => ∀ q, r = .inr q → p < q ∧ q ≤ b.length := .some fun _ h => nomatch h
  refine Returns.bind (skipWs_total hp) fun q hq => ?_
  split
  · exact hdone
  next hlt =>
  refine Returns.bind (.read (Nat.not_le.mp hlt)) fun c _ => ?_
  split
  · exact hdone
  split
  · exact hdone
  refine Returns.bind (keyAt_total q) fun key hkey => ?_
  cases key with
  | none => exact hdone
  | some key =>
    obtain ⟨hk, hv⟩ := hkey key rfl
    have htype : Returns (isTypeKey b (q + 1) key.1) fun _ => True := by
      unfold isTypeKey
      split
      · exact (block_total (by omega)).map fun _ _ => trivial
      · exact .some trivial
    refine Returns.bind htype fun isType _ => ?_
    split
    · exact (typeAt_total cap hv).map fun _ _ _ h => nomatch h
    · refine Returns.map (pastValue_moves (Nat.le_of_lt hv)) fun r hr q' hq' => ?_
      cases r with
      | none => cases hq'
      | some r =>
        obtain rfl := Sum.inr.inj hq'
        have := hr r rfl
        omega

theorem frameLoop_total {cap n p : Nat} (hp : p ≤ b.length) (hn : b.length - p < n) :
    Returns (frameLoop b cap n p) fun _ => True := by
  induction n generalizing p with
  | zero => omega
  | succ n ih =>
    rw [frameLoop]
    split
    · refine Returns.bind (frameTurn_total cap hp) fun r hr => ?_
      cases r with
      | inl r => exact .some trivial
      | inr q =>
        have := hr q rfl
        exact ih this.2 (by omega)
    · exact .some trivial

/-- Whatever the payload is, the scan ends and no read is at or behind the end. -/
theorem frameType_total (payload : Bytes) (outCap : Nat) : Returns (frameType payload outCap) fun _ => True := by
  unfold frameType
  split
  · exact .some trivial
  · refine Returns.bind (skipWs_total (Nat.zero_le _)) fun p hp => ?_
    split
    · exact .some trivial
    · next hlt =>
      refine Returns.bind (.read (Nat.not_le.mp hlt)) fun c _ => ?_
      split
      · exact .some trivial
      · exact frameLoop_total (by omega) (by omega)

end Total

/-! ## Positions in a text -/

/-- The payload from a position on. -/
def At (b : Bytes) (p : Nat) (s : Bytes) : Prop := b.drop p = s

section Positions

variable {b : Bytes} {p : Nat}

variable {s t w raw : Bytes} {n : Nat}

theorem At.read {c : UInt8} (h : At b p (c :: s)) : b[p]? = some c := by
  rw [← head?_drop, h]
  rfl

theorem At.append (h : At b p (t ++ s)) : At b (p + t.length) s := by
  rw [At, ← drop_drop, h, drop_left]

theorem At.next {c : UInt8} (h : At b p (c :: s)) : At b (p + 1) s :=
  h.append (t := [c])

theorem At.length (h : At b p s) : s.length = b.length - p := by
  rw [← h, length_drop]

theorem At.block (h : At b p (t ++ s)) {len : Nat} (hp : p ≤ b.length) (hlen : len ≤ t.length) :
    block b p len = some (t.take len) := by
  have htotal := h.length
  rw [length_append] at htotal
  rw [Agent.block, if_pos (by omega), h, take_append_of_le_length hlen]

/-- It stops at the first byte that is of another kind. -/
theorem walk_at {f : Nat → Nat → Option Nat} {go : UInt8 → Prop} [DecidablePred go] (hstep : Walks b f go)
    {y : UInt8} (h : At b p (t ++ y :: s)) (ht : ∀ c ∈ t, go c) (hy : ¬ go y) (hn : t.length < n) :
    f n p = some (p + t.length) := by
  obtain _ | n := n
  · omega
  induction t generalizing p n with
  | nil => rw [hstep, if_pos (lt_of_read h.read), h.read, Option.bind_some, if_neg hy]; rfl
  | cons c t ih =>
    obtain _ | n := n
    · simp at hn
    have hc := At.read h
    rw [hstep, if_pos (lt_of_read hc), hc, Option.bind_some, if_pos (ht c mem_cons_self),
      ih (At.next h) (fun d hd => ht d (mem_cons_of_mem _ hd)) n (Nat.lt_of_succ_lt_succ hn), length_cons,
      Nat.add_right_comm, Nat.add_assoc]

theorem skipWs_at {c : UInt8} (h : At b p (w ++ c :: s)) (hw : IsWs w)
    (hc : isWs c = false) : skipWs b p = some (p + w.length) := by
  refine walk_at walks_skipWs h hw (by simp [hc]) ?_
  have := h.length
  simp only [length_append, length_cons] at this
  omega

/-- A text without a quote, but for those behind a backslash. -/
inductive Escaped : Bytes → Prop where
  | nil : Escaped []
  | plain {c : UInt8} {raw : Bytes} (hq : c ≠ 34) (hb : c ≠ 92) (h : Escaped raw) : Escaped (c :: raw)
  | esc (e : UInt8) {raw : Bytes} (h : Escaped raw) : Escaped (92 :: e :: raw)

theorem escaped_of_strText {raw x : Bytes} (h : StrText raw x) : Escaped raw := by
  induction h with
  | nil => exact .nil
  | plain hq hb _ _ ih => exact .plain hq hb ih
  | esc _ _ ih => exact .esc _ ih
  | uni hcp _ ih =>
    obtain ⟨ha, hb, hc, hd⟩ := by simpa using fun e he => (hex4_bytes hcp e he).2
    exact .esc _ (.plain ha.1 ha.2 (.plain hb.1 hb.2 (.plain hc.1 hc.2 (.plain hd.1 hd.2 ih))))

/-- The raw text of a string is skipped to the quote behind it. -/
theorem skipStringLoop_at (hraw : Escaped raw) (h : At b p (raw ++ 34 :: s))
    (hn : raw.length < n) : skipStringLoop b n p = some (some (p + raw.length + 1)) := by
  induction hraw generalizing p n with
  | nil =>
    obtain _ | n := n
    · omega
    rw [skipStringLoop_read (At.read h)]
    rfl
  | plain hq hb _ ih =>
    obtain _ | n := n
    · omega
    rw [length_cons] at hn ⊢
    rw [skipStringLoop_read (At.read h), if_neg hb, if_neg hq, ih (At.next h) (by omega)]
    congr 2
    omega
  | esc e _ ih =>
    obtain _ | n := n
    · omega
    simp only [length_cons] at hn ⊢
    have htotal := h.length
    simp only [cons_append, length_cons] at htotal
    rw [skipStringLoop_read (At.read h), if_pos rfl, if_neg (by omega), ih (At.next (At.next h)) (by omega)]
    congr 2
    omega

theorem skipString_at (hraw : Escaped raw) (h : At b p (34 :: (raw ++ 34 :: s))) :
    skipString b p = some (some (p + raw.length + 2)) := by
  have htotal := h.length
  simp only [length_append, length_cons] at htotal
  rw [skipString_read h.read, if_neg (by simp), skipStringLoop_at hraw h.next (by omega)]
  congr 2
  omega

end Positions

section Passing

variable {opn cls : UInt8}

/-- Inside brackets, the loop comes past the text with the depth it had. -/
def Passes (opn cls : UInt8) (t : Bytes) : Prop :=
  ∀ (b : Bytes) (p n depth : Nat) (s : Bytes), At b p (t ++ s) → 0 < depth → t.length ≤ n →
    ∃ m, n - t.length ≤ m ∧ nestedLoop b opn cls n p depth = nestedLoop b opn cls m (p + t.length) depth

theorem Passes.nil : Passes opn cls [] := fun _ _ n _ _ _ _ _ => ⟨n, Nat.le_refl n, rfl⟩

theorem Passes.append {t u : Bytes} (ht : Passes opn cls t) (hu : Passes opn cls u) :
    Passes opn cls (t ++ u) := by
  intro b p n depth s hat hd hn
  rw [length_append] at hn ⊢
  rw [append_assoc] at hat
  obtain ⟨m, hm, heq⟩ := ht b p n depth _ hat hd (by omega)
  obtain ⟨m', hm', heq'⟩ := hu b _ m depth s hat.append hd (by omega)
  exact ⟨m', by omega, by rw [heq, heq', Nat.add_assoc]⟩

/-- A byte that is no quote and none of the brackets that count. -/
theorem Passes.byte {c : UInt8} (hq : c ≠ 34) (ho : c ≠ opn) (hc : c ≠ cls) : Passes opn cls [c] := by
  intro b p n depth s hat hd hn
  obtain _ | n := n
  · exact absurd hn (Nat.not_succ_le_zero _)
  exact ⟨n, Nat.le_refl n, by rw [nestedLoop_read (At.read hat) _ _ _ hd, if_neg hq, if_neg ho, if_neg hc]; rfl⟩

variable {t raw : Bytes}

theorem Passes.bytes (h : ∀ c ∈ t, c ≠ 34 ∧ c ≠ opn ∧ c ≠ cls) : Passes opn cls t := by
  induction t with
  | nil => exact .nil
  | cons c t ih =>
    obtain ⟨hq, ho, hc⟩ := h c mem_cons_self
    exact (Passes.byte hq ho hc).append (u := t) (ih fun d hd => h d (mem_cons_of_mem _ hd))

theorem Passes.string (hraw : Escaped raw) : Passes opn cls (34 :: (raw ++ [34])) := by
  intro b p n depth s hat hd hn
  obtain _ | n := n
  · exact absurd hn (Nat.not_succ_le_zero _)
  have hstr : At b p (34 :: (raw ++ 34 :: s)) := by simpa using hat
  simp only [length_cons, length_append, length_nil] at hn ⊢
  refine ⟨n, by omega, ?_⟩
  rw [nestedLoop_read (At.read hat) _ _ _ hd, if_pos rfl, skipString_at hraw hstr]
  rfl

/-- The brackets that count, around a text that passes: one deeper inside, and back behind. -/
theorem Passes.nested (ho : opn ≠ 34) (hc : cls ≠ 34) (hne : cls ≠ opn)
    (ht : Passes opn cls t) : Passes opn cls (opn :: (t ++ [cls])) := by
  intro b p n depth s hat hd hn
  obtain _ | n := n
  · exact absurd hn (Nat.not_succ_le_zero _)
  have hinner : At b (p + 1) (t ++ cls :: s) := by simpa using At.next hat
  simp only [length_cons, length_append, length_nil] at hn ⊢
  obtain ⟨m, hm, heq⟩ := ht b _ n (depth + 1) _ hinner (Nat.succ_pos depth) (by omega)
  obtain _ | m := m
  · omega
  refine ⟨m, by omega, ?_⟩
  rw [nestedLoop_read (At.read hat) _ _ _ hd, if_neg ho, if_pos rfl, heq,
    nestedLoop_read hinner.append.read _ _ _ (Nat.succ_pos depth), if_neg hc, if_neg hne, if_pos rfl]
  congr 1
  omega

/-- The two kinds of brackets the loop is called with. -/
def Brackets (opn cls : UInt8) : Prop := opn = 123 ∧ cls = 125 ∨ opn = 91 ∧ cls = 93

/-- Brackets of either kind around a text that passes. -/
theorem Passes.bracket {x y : UInt8} (hb : Brackets opn cls) (hxy : Brackets x y)
    (ht : Passes opn cls t) : Passes opn cls (x :: (t ++ [y])) := by
  have hother {c d : UInt8} (hc : c ≠ 34 ∧ c ≠ opn ∧ c ≠ cls) (hd : d ≠ 34 ∧ d ≠ opn ∧ d ≠ cls) :
      Passes opn cls (c :: (t ++ [d])) :=
    (Passes.byte hc.1 hc.2.1 hc.2.2).append (ht.append (.byte hd.1 hd.2.1 hd.2.2))
  obtain ⟨rfl, rfl⟩ | ⟨rfl, rfl⟩ := hb <;> obtain ⟨rfl, rfl⟩ | ⟨rfl, rfl⟩ := hxy
  · exact .nested (by decide) (by decide) (by decide) ht
  · exact hother (by decide) (by decide)
  · exact hother (by decide) (by decide)
  · exact .nested (by decide) (by decide) (by decide) ht

/-- What numbers, literals, white space and separators are written with passes. -/
theorem passes_byte_of_plain : ∀ c : UInt8, isWs c = true ∨ isNumChar c = true ∨ c = 44 ∨ c = 58 →
    c ≠ 34 ∧ c ≠ 123 ∧ c ≠ 125 ∧ c ≠ 91 ∧ c ≠ 93 :=
  forall_byte (by decide +kernel)

variable (hb : Brackets opn cls)

include hb

theorem Passes.plain
    (h : ∀ c ∈ t, isWs c = true ∨ isNumChar c = true ∨ c = 44 ∨ c = 58) : Passes opn cls t := by
  refine .bytes fun c hc => ?_
  obtain ⟨h34, h123, h125, h91, h93⟩ := passes_byte_of_plain c (h c hc)
  obtain ⟨rfl, rfl⟩ | ⟨rfl, rfl⟩ := hb
  · exact ⟨h34, h123, h125⟩
  · exact ⟨h34, h91, h93⟩

theorem Passes.ws {w : Bytes} (hw : IsWs w) : Passes opn cls w :=
  .plain hb fun c hc => .inl (hw c hc)

/-- A key with its colon, and the white space around them. -/
theorem Passes.key {w₁ raw key w₂ w₃ t : Bytes} (h₁ : IsWs w₁) (hk : StrText raw key)
    (h₂ : IsWs w₂) (h₃ : IsWs w₃) (ht : Passes opn cls t) :
    Passes opn cls (w₁ ++ 34 :: (raw ++ 34 :: (w₂ ++ 58 :: (w₃ ++ t)))) := by
  have hcolon : Passes opn cls [58] := .plain hb (by decide +kernel)
  have h := (Passes.ws hb h₁).append ((Passes.string (escaped_of_strText hk)).append
    ((Passes.ws hb h₂).append (hcolon.append ((Passes.ws hb h₃).append ht))))
  simpa using h

/-- Every text of the grammar passes, for either kind of brackets. -/
theorem doc_passes {cat : Cat} {v : Json Bytes} (h : Doc cat t v) :
    Passes opn cls t := by
  have hcomma : Passes opn cls [44] := .plain hb (by decide +kernel)
  induction h with
  | null | true | false =>
    refine .bytes ?_
    obtain ⟨rfl, rfl⟩ | ⟨rfl, rfl⟩ := hb <;> decide +kernel
  | num h => exact .plain hb fun c hc => .inr (.inl (numLit_chars h c hc))
  | str h => exact .string (escaped_of_strText h)
  | emptyArr hw => exact .bracket hb (.inr ⟨rfl, rfl⟩) (.ws hb hw)
  | arr _ ih => exact .bracket hb (.inr ⟨rfl, rfl⟩) ih
  | emptyObj hw => exact .bracket hb (.inl ⟨rfl, rfl⟩) (.ws hb hw)
  | obj _ ih => exact .bracket hb (.inl ⟨rfl, rfl⟩) ih
  | item h₁ _ h₂ ih => exact (Passes.ws hb h₁).append (ih.append (.ws hb h₂))
  | itemCons h₁ _ h₂ _ ih ihs =>
    exact (Passes.ws hb h₁).append (ih.append ((Passes.ws hb h₂).append (hcomma.append ihs)))
  | member h₁ hk h₂ h₃ _ h₄ ih => exact .key hb h₁ hk h₂ h₃ (ih.append (.ws hb h₄))
  | memberCons h₁ hk h₂ h₃ _ h₄ _ ih ihs =>
    exact .key hb h₁ hk h₂ h₃ (ih.append ((Passes.ws hb h₄).append (hcomma.append ihs)))

end Passing

section Values

variable {b : Bytes} {p : Nat}

variable {t s : Bytes} {y : UInt8}

/-- What `skip_value` does with the first byte of a value. -/
theorem skipValue_read {c : UInt8} (h : At b p (c :: s)) (hc : isWs c = false) :
    skipValue b p =
      if c = 34 then skipString b p
      else if c = 123 ∨ c = 91 then
        nestedLoop b c (if c = 123 then 125 else 93) (b.length + 1) (p + 1) 1
      else (scalarLoop b (b.length + 1) p).bind fun q => some (some q) := by
  have hskip : skipWs b p = some p := skipWs_at (w := []) h isWs_nil hc
  rw [skipValue, hskip, Option.bind_eq_bind, Option.bind_some,
    if_neg (Nat.not_le.mpr (lt_of_read h.read)), h.read, Option.bind_eq_bind, Option.bind_some]

theorem skipValue_scalar {c : UInt8} (h : At b p (c :: t ++ y :: s))
    (hfirst : c ≠ 34 ∧ c ≠ 123 ∧ c ≠ 91) (ht : ∀ c' ∈ c :: t, c' ≠ 44 ∧ c' ≠ 125 ∧ isWs c' = false)
    (hy : y = 44 ∨ y = 125 ∨ isWs y = true) : skipValue b p = some (some (p + (c :: t).length)) := by
  have hlen := h.length
  rw [length_append] at hlen
  rw [skipValue_read h (ht c mem_cons_self).2.2, if_neg hfirst.1,
    if_neg (by rintro (hc | hc); exacts [hfirst.2.1 hc, hfirst.2.2 hc]),
    walk_at walks_scalar h (by simpa using ht) (by simpa [or_iff_not_imp_left] using hy) (by omega)]
  rfl

theorem skipValue_nested {opn cls : UInt8} (hb : Brackets opn cls) (ht : Passes opn cls t)
    (h : At b p (opn :: (t ++ [cls]) ++ s)) : skipValue b p = some (some (p + (opn :: (t ++ [cls])).length)) := by
  have hinner : At b (p + 1) (t ++ cls :: s) := by simpa using At.next h
  have hlen := h.length
  simp only [length_append, length_cons, length_nil] at hlen
  obtain ⟨m, hm, heq⟩ := ht b _ (b.length + 1) 1 _ hinner Nat.one_pos (by omega)
  obtain _ | m := m
  · omega
  obtain _ | m := m
  · omega
  have hread := hinner.append.read
  have hend : nestedLoop b opn cls (m + 1) (p + 1 + t.length + 1) 0 = some (some (p + 1 + t.length + 1)) := by
    rw [nestedLoop, if_neg (fun h => Nat.lt_irrefl 0 h.2)]
    rfl
  have hsize : p + (opn :: (t ++ [cls])).length = p + 1 + t.length + 1 := by
    simp only [length_append, length_cons, length_nil]
    omega
  have hclose : (if opn = 123 then (125 : UInt8) else 93) = cls := by
    obtain ⟨rfl, rfl⟩ | ⟨rfl, rfl⟩ := hb <;> rfl
  have hstart := skipValue_read (show At b p (opn :: _) from h) (by obtain ⟨rfl, -⟩ | ⟨rfl, -⟩ := hb <;> decide)
  rw [hclose, heq, nestedLoop_read hread _ _ _ Nat.one_pos] at hstart
  rw [hstart, hsize]
  obtain ⟨rfl, rfl⟩ | ⟨rfl, rfl⟩ := hb <;> exact hend

/-- A value is skipped to its end. -/
theorem skipValue_doc {t w s : Bytes} {x : UInt8} {v : Json Bytes} (hdoc : Doc .value t v)
    (h : At b p (t ++ (w ++ x :: s))) (hw : IsWs w) (hx : x = 44 ∨ x = 125) :
    skipValue b p = some (some (p + t.length)) := by
  -- The byte behind the value ends a number or a literal.
  obtain ⟨y, s', hys, hy⟩ : ∃ y s', w ++ x :: s = y :: s' ∧ (y = 44 ∨ y = 125 ∨ isWs y = true) := by
    cases w with
    | nil => exact ⟨x, s, rfl, hx.imp id .inl⟩
    | cons y w => exact ⟨y, w ++ x :: s, rfl, .inr (.inr (hw y mem_cons_self))⟩
  rw [hys] at h
  cases hdoc with
  | null | true | false => exact skipValue_scalar h (by decide) (by decide +kernel) hy
  | num hl =>
    obtain ⟨c, t, rfl⟩ := exists_cons_of_ne_nil (numLit_ne_nil hl)
    have hbyte := fun c' hc' => isNumChar_byte c' (numLit_chars hl c' hc')
    obtain ⟨-, -, h34, -, h91, -, -, -, -, h123, -⟩ := hbyte c mem_cons_self
    refine skipValue_scalar h ⟨h34, h123, h91⟩ (fun c' hc' => ?_) hy
    obtain ⟨hws, -, -, h44, -, -, -, -, -, -, h125⟩ := hbyte c' hc'
    exact ⟨h44, h125, hws⟩
  | @str raw _ hraw =>
    have hat : At b p (34 :: (raw ++ 34 :: y :: s')) := by simpa using h
    rw [skipValue_read hat (by decide), if_pos rfl, skipString_at (escaped_of_strText hraw) hat]
    simp only [length_cons, length_append, length_nil]
    rfl
  | emptyArr hw => exact skipValue_nested (.inr ⟨rfl, rfl⟩) (.ws (.inr ⟨rfl, rfl⟩) hw) h
  | arr hi => exact skipValue_nested (.inr ⟨rfl, rfl⟩) (doc_passes (.inr ⟨rfl, rfl⟩) hi) h
  | emptyObj hw => exact skipValue_nested (.inl ⟨rfl, rfl⟩) (.ws (.inl ⟨rfl, rfl⟩) hw) h
  | obj hi => exact skipValue_nested (.inl ⟨rfl, rfl⟩) (doc_passes (.inl ⟨rfl, rfl⟩) hi) h

end Values

/-! ## The members of the object -/

/-- The members of an object in their raw spelling: what stands between the quotes of a key, and the
text of its value. -/
inductive RawMembers : Bytes → List (Bytes × Bytes) → Prop where
  | last {w₁ raw key w₂ w₃ t w₄ : Bytes} {v : Json Bytes} (h₁ : IsWs w₁) (hk : StrText raw key)
      (h₂ : IsWs w₂) (h₃ : IsWs w₃) (h : Doc .value t v) (h₄ : IsWs w₄) :
      RawMembers (w₁ ++ 34 :: (raw ++ 34 :: (w₂ ++ 58 :: (w₃ ++ (t ++ w₄))))) [(raw, t)]
  | cons {w₁ raw key w₂ w₃ t w₄ ts : Bytes} {v : Json Bytes} {rs : List (Bytes × Bytes)} (h₁ : IsWs w₁)
      (hk : StrText raw key) (h₂ : IsWs w₂) (h₃ : IsWs w₃) (h : Doc .value t v) (h₄ : IsWs w₄)
      (hs : RawMembers ts rs) :
      RawMembers (w₁ ++ 34 :: (raw ++ 34 :: (w₂ ++ 58 :: (w₃ ++ (t ++ (w₄ ++ 44 :: ts)))))) ((raw, t) :: rs)

/-- The text of an object, white space around it allowed, with its members in their raw spelling. -/
def RawObject (payload : Bytes) (rs : List (Bytes × Bytes)) : Prop :=
  ∃ w inner w', payload = w ++ 123 :: (inner ++ 125 :: w') ∧ IsWs w ∧ IsWs w' ∧
    (rs = [] ∧ IsWs inner ∨ RawMembers inner rs)

variable {t : Bytes} {v : Json Bytes}

theorem rawMembers_of_doc {u : Json Bytes} (h : Doc .members t u) : ∃ rs, RawMembers t rs := by
  generalize hcat : Cat.members = cat at h
  induction h with
  | member h₁ hk h₂ h₃ h h₄ => exact ⟨_, .last h₁ hk h₂ h₃ h h₄⟩
  | memberCons h₁ hk h₂ h₃ h h₄ _ _ ih =>
    obtain ⟨rs, hrs⟩ := ih rfl
    exact ⟨_, .cons h₁ hk h₂ h₃ h h₄ hrs⟩
  | _ => cases hcat

/-- Every object text has its members in their raw spelling. -/
theorem rawObject_of_padded {payload : Bytes} {ms : List (Bytes × Json Bytes)}
    (h : Padded payload (.obj ms)) : ∃ rs, RawObject payload rs := by
  obtain ⟨w, u, w', rfl, hw, hw', hdoc⟩ := h
  cases hdoc with
  | @emptyObj inner hinner => exact ⟨[], w, inner, w', by simp, hw, hw', .inl ⟨rfl, hinner⟩⟩
  | @obj t _ hmembers =>
    obtain ⟨rs, hrs⟩ := rawMembers_of_doc hmembers
    exact ⟨rs, w, t, w', by simp, hw, hw', .inr hrs⟩

/-- A value that starts with a quote is a string. -/
theorem escaped_of_doc {raw : Bytes} (h : Doc .value (34 :: (raw ++ [34])) v) :
    Escaped raw := by
  generalize ht : 34 :: (raw ++ [34]) = t at h
  cases h with
  | num hl => exact absurd (numLit_chars hl 34 (ht ▸ mem_cons_self)) (by decide)
  | str hraw =>
    rw [append_cancel_right (List.cons.inj ht).2]
    exact escaped_of_strText hraw
  | _ => exact absurd (List.cons.inj ht).1 (by decide)

section Members

variable {b : Bytes} {p : Nat}

variable {raw w₂ w₃ s t w : Bytes} {cap n : Nat} {x : UInt8} {v : Json Bytes}

theorem keyAt_at {c : UInt8} (hraw : Escaped raw) (h₂ : IsWs w₂) (h₃ : IsWs w₃)
    (hc : isWs c = false) (h : At b p (34 :: (raw ++ 34 :: (w₂ ++ 58 :: (w₃ ++ c :: s))))) :
    keyAt b p = some (some (raw.length, p + raw.length + 2 + w₂.length + 1 + w₃.length)) := by
  have hquote : At b (p + raw.length + 2) (w₂ ++ 58 :: (w₃ ++ c :: s)) := by
    have := h.next.append.next
    rwa [show p + 1 + raw.length + 1 = p + raw.length + 2 by omega] at this
  have hcolon := hquote.append
  have hvalue := hcolon.next.append
  simp only [keyAt, skipString_at hraw h, Option.bind_eq_bind, Option.bind_some,
    skipWs_at hquote h₂ (by decide), if_neg (Nat.not_le.mpr (lt_of_read hcolon.read)), hcolon.read,
    if_neg (show ¬ (58 : UInt8) ≠ 58 by decide), skipWs_at hcolon.next h₃ hc,
    if_neg (Nat.not_le.mpr (lt_of_read hvalue.read))]
  congr 3
  omega

theorem isTypeKey_at {c : UInt8} (h : At b p (raw ++ c :: s)) :
    isTypeKey b p raw.length = some (decide (raw = asc "type")) := by
  unfold isTypeKey
  split
  · next hlen =>
    rw [h.block (by have := lt_of_read h.append.read; omega) (Nat.le_of_eq hlen.symm), Option.map_some,
      take_of_length_le (Nat.le_of_eq hlen)]
  · next hlen =>
    congr 1
    refine (decide_eq_false fun hraw => hlen ?_).symm
    rw [hraw]
    rfl

theorem typeAt_at (hcap : 0 < cap) (hraw : Escaped raw)
    (h : At b p (34 :: (raw ++ 34 :: s))) : typeAt b cap p = some (0, raw.take (cap - 1)) := by
  have hlen : p + raw.length + 2 - 1 - (p + 1) = raw.length := by omega
  have hbound := lt_of_read h.next.append.read
  simp only [typeAt, h.read, Option.bind_eq_bind, Option.bind_some, if_neg (show ¬ (34 : UInt8) ≠ 34 by decide),
    skipString_at hraw h, hlen]
  split
  · next hcut => rw [h.next.block (by omega) (by omega), Option.bind_some]
  · next hfits =>
    rw [h.next.block (by omega) (Nat.le_refl _), Option.bind_some, take_length,
      take_of_length_le (by omega)]

theorem pastValue_at (hdoc : Doc .value t v)
    (h : At b p (t ++ (w ++ x :: s))) (hw : IsWs w) (hx : x = 44 ∨ x = 125) :
    pastValue b p = some (some (p + t.length + w.length + if x = 44 then 1 else 0)) := by
  have hread := h.append.append.read
  have hws : isWs x = false := by rcases hx with rfl | rfl <;> decide
  simp only [pastValue, skipValue_doc hdoc h hw hx, Option.bind_eq_bind, Option.bind_some,
    skipWs_at h.append hw hws, if_pos (lt_of_read hread), hread]
  congr 2
  split <;> rfl

/-- What the walk must find: the first `type` if its value is a string, and nothing without one. -/
def Finds (rs : List (Bytes × Bytes)) (cap : Nat) (r : Option (Int32 × Bytes)) : Prop :=
  (∀ key out, rs.find? (fun e => e.1 = asc "type") = some (key, 34 :: (out ++ [34])) →
    r = some (0, out.take (cap - 1))) ∧
  ((∀ e ∈ rs, e.1 ≠ asc "type") → r = some (-1, []))

/-- The turn at a member, and the rest of the walk behind it. -/
theorem frameLoop_member {w₁ raw key w₂ w₃ t w₄ s : Bytes} {rs : List (Bytes × Bytes)} (hcap : 0 < cap)
    (h₁ : IsWs w₁) (hk : StrText raw key) (h₂ : IsWs w₂) (h₃ : IsWs w₃) (hdoc : Doc .value t v)
    (h₄ : IsWs w₄) (hx : x = 44 ∨ x = 125)
    (h : At b p (w₁ ++ 34 :: (raw ++ 34 :: (w₂ ++ 58 :: (w₃ ++ (t ++ (w₄ ++ x :: s)))))))
    (hrest : ∀ q, p < q → At b q (if x = 44 then s else x :: s) → Finds rs cap (frameLoop b cap n q)) :
    Finds ((raw, t) :: rs) cap (frameLoop b cap (n + 1) p) := by
  have hkey := h.append
  have hlt := lt_of_read hkey.read
  obtain ⟨c, t', ht, hc⟩ := doc_head hdoc
  have hraw := escaped_of_strText hk
  have hquote : At b (p + w₁.length + 1) (raw ++ 34 :: (w₂ ++ 58 :: (w₃ ++ (t ++ (w₄ ++ x :: s))))) := hkey.next
  obtain ⟨q, hpq, hat, hread⟩ : ∃ q, p < q ∧ At b q (t ++ (w₄ ++ x :: s)) ∧
      keyAt b (p + w₁.length) = some (some (raw.length, q)) := by
    refine ⟨p + w₁.length + raw.length + 2 + w₂.length + 1 + w₃.length, by omega, ?_,
      keyAt_at (s := t' ++ (w₄ ++ x :: s)) hraw h₂ h₃ hc (by rw [ht] at hkey; exact hkey)⟩
    have := hquote.append.next.append.next.append
    rwa [Nat.add_right_comm (p + w₁.length) 1 raw.length] at this
  have hturn : frameTurn b cap p =
      if raw = asc "type" then (typeAt b cap q).map .inl
      else some (.inr (q + t.length + w₄.length + if x = 44 then 1 else 0)) := by
    simp only [frameTurn, skipWs_at h h₁ (by decide), Option.bind_eq_bind, Option.bind_some,
      if_neg (Nat.not_le.mpr hlt), hkey.read, hread, isTypeKey_at hquote,
      if_neg (show ¬ (34 : UInt8) = 125 by decide), if_neg (show ¬ (34 : UInt8) ≠ 34 by decide),
      decide_eq_true_eq, pastValue_at hdoc hat h₄ hx, Option.map_some]
  rw [frameLoop, if_pos (by omega), hturn]
  by_cases htype : raw = asc "type"
  · refine ⟨fun k out hfind => ?_, fun hne => absurd htype (hne _ mem_cons_self)⟩
    rw [find?_cons_of_pos (by simpa using htype)] at hfind
    obtain rfl := (Prod.mk.inj (Option.some.inj hfind)).2
    rw [if_pos htype, typeAt_at hcap (escaped_of_doc hdoc) (s := w₄ ++ x :: s) (by simpa using hat)]
    rfl
  · have hfinds := hrest (q + t.length + w₄.length + if x = 44 then 1 else 0) (by omega)
      (by split; exacts [hat.append.append.next, hat.append.append])
    rw [if_neg htype]
    refine ⟨fun k out hfind => hfinds.1 k out ?_, fun hne => hfinds.2 fun e he => hne e (mem_cons_of_mem _ he)⟩
    rwa [find?_cons_of_neg (by simpa using htype)] at hfind

/-- A turn at the closing brace. -/
theorem frameTurn_close (hw : IsWs w) (h : At b p (w ++ 125 :: s)) :
    frameTurn b cap p = some (.inl (-1, [])) := by
  simp only [frameTurn, skipWs_at h hw (by decide), Option.bind_eq_bind, Option.bind_some,
    if_neg (Nat.not_le.mpr (lt_of_read h.append.read)), h.append.read, ↓reduceIte]

theorem frameLoop_close (hw : IsWs w) (h : At b p (w ++ 125 :: s)) :
    frameLoop b cap (n + 1) p = some (-1, []) := by
  have hlt : p < b.length := by have := lt_of_read h.append.read; omega
  rw [frameLoop, if_pos hlt, frameTurn_close hw h]
  rfl

/-- The walk over the members, from any of them on. -/
theorem frameLoop_members {inner s : Bytes} {rs : List (Bytes × Bytes)} (hcap : 0 < cap)
    (hrs : RawMembers inner rs) (h : At b p (inner ++ 125 :: s)) (hn : b.length - p < n) :
    Finds rs cap (frameLoop b cap n p) := by
  obtain _ | n := n
  · omega
  induction hrs generalizing p n with
  | @last w₁ raw key w₂ w₃ t w₄ v h₁ hk h₂ h₃ hdoc h₄ =>
    refine frameLoop_member (s := s) hcap h₁ hk h₂ h₃ hdoc h₄ (.inr rfl) (by simpa using h) fun q hpq hq => ?_
    have := lt_of_read (At.read hq)
    obtain _ | n := n
    · omega
    exact ⟨fun _ _ h => (nomatch h), fun _ => frameLoop_close isWs_nil hq⟩
  | @cons w₁ raw key w₂ w₃ t w₄ ts v rs h₁ hk h₂ h₃ hdoc h₄ hs ih =>
    refine frameLoop_member (s := ts ++ 125 :: s) hcap h₁ hk h₂ h₃ hdoc h₄ (.inl rfl) (by simpa using h)
      fun q hpq (hq : At b q (ts ++ 125 :: s)) => ?_
    have hlt := lt_of_read hq.append.read
    obtain _ | n := n
    · omega
    exact ih hq n (by omega)

end Members

/-- The type of a frame. Every payload is scanned to an end within its bounds, and of a payload that is
an object the scan finds the first top-level key that is spelled `type`. -/
theorem frameType_exact (payload : Bytes) (outCap : Nat) :
    (∃ r, frameType payload outCap = some r) ∧
    ∀ ms, Padded payload (.obj ms) → 0 < outCap →
      (∃ rs, RawObject payload rs) ∧
      ∀ rs, RawObject payload rs → Finds rs outCap (frameType payload outCap) := by
  refine ⟨(frameType_total payload outCap).imp fun _ h => h.1, fun ms hms hcap => ⟨rawObject_of_padded hms, ?_⟩⟩
  rintro rs ⟨w, inner, w', hpayload, hw, -, hinner⟩
  have hat : At payload 0 (w ++ 123 :: (inner ++ 125 :: w')) := hpayload
  have hbrace := hat.append
  have hstart : frameType payload outCap = frameLoop payload outCap (payload.length + 1) (0 + w.length + 1) := by
    simp only [frameType, if_neg (Nat.ne_of_gt hcap), skipWs_at hat hw (by decide), Option.bind_eq_bind,
      Option.bind_some, if_neg (Nat.not_le.mpr (lt_of_read hbrace.read)), hbrace.read,
      if_neg (show ¬ (123 : UInt8) ≠ 123 by decide)]
  rw [hstart]
  rcases hinner with ⟨rfl, hws⟩ | hrs
  · exact ⟨fun _ _ h => (nomatch h), fun _ => frameLoop_close hws hbrace.next⟩
  · exact frameLoop_members hcap hrs hbrace.next (by omega)

/-- A member `"n":{"type":1}`, and a frame that has it in front of its own `type`. -/
def nestedText : Bytes := 123 :: (memberText (asc "type") (natDecimal 1) ++ [125])

def nestedFrame : Bytes :=
  32 :: 123 :: (memberText (asc "n") nestedText ++
    44 :: memberText (asc "type") (34 :: (asc "ping" ++ [34])) ++ [125])

theorem strText_n : StrText (asc "n") (asc "n") := strText_self (by decide +kernel)
theorem strText_type : StrText (asc "type") (asc "type") := strText_self (by decide +kernel)
theorem strText_ping : StrText (asc "ping") (asc "ping") := strText_self (by decide +kernel)

theorem doc_nestedText : Doc .value nestedText (.obj [(asc "type", .int (natDecimal 1))]) :=
  .obj (doc_memberText strText_type (.num (numLit_natDecimal 1)))

theorem padded_nestedFrame :
    Padded nestedFrame
      (.obj [(asc "n", .obj [(asc "type", .int (natDecimal 1))]), (asc "type", .str (asc "ping"))]) :=
  ⟨[32], nestedFrame.tail, [], by rw [append_nil]; rfl, by decide, isWs_nil,
    .obj (doc_memberText_cons strText_n doc_nestedText (doc_memberText strText_type (.str strText_ping)))⟩

theorem rawObject_nestedFrame :
    RawObject nestedFrame [(asc "n", nestedText), (asc "type", 34 :: (asc "ping" ++ [34]))] := by
  have hlast := RawMembers.last isWs_nil strText_type isWs_nil isWs_nil (.str strText_ping) isWs_nil
  have hboth := RawMembers.cons isWs_nil strText_n isWs_nil isWs_nil doc_nestedText isWs_nil hlast
  exact ⟨[32], _, [], by simp [nestedFrame, memberText], by decide, isWs_nil, .inr hboth⟩

theorem nestedFrame_type : frameType nestedFrame 32 = some (0, asc "ping") :=
  (((frameType_exact nestedFrame 32).2 _ padded_nestedFrame (by decide)).2 _ rawObject_nestedFrame).1 _
    (asc "ping") rfl

end Packetsonde.Agent
