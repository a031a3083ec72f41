import Packetsonde.Central.JsonCalls
import Packetsonde.Lib.JsonNumber
import Packetsonde.Lib.JsonPrint

/-!
# Packetsonde — the JSON writer on its buffer (`json.c`)

`JsonBuf` is the writer with the memory behind it: `emit` copies into the buffer, and every call is a
list of `emit`s with a look at the comma flag before and an assignment after (`PsCall.ops`). The writer
that only keeps the text is what is left when the memory is forgotten (`JsonBuf.abs_ops`).

`Writes` says which sequences of calls are balanced and nested, and the tree they stand for. What they
write is that tree, printed, up to what the buffer for a number cuts off (`text_of_writes`). So the text is
a document of the calls exactly if each number survives the cut: `writer_sound_iff`.
-/

namespace Packetsonde.Central

open Packetsonde.Lib
open List

/-! ## Doubles -/

/-- A finite double as `%.3f` takes it: the sign, and the thousandths it is rounded to. From `2 ^ 53` on
a double is a whole number. -/
structure Double where
  neg : Bool
  milli : Nat
  whole : 2 ^ 53 * 1000 ≤ milli → milli % 1000 = 0

namespace Double

def pad3 (n : Nat) : Bytes :=
  [UInt8.ofNat (48 + n / 100), UInt8.ofNat (48 + n / 10 % 10), UInt8.ofNat (48 + n % 10)]

def int (d : Double) : Bytes := natDecimal (d.milli / 1000)

def frac (d : Double) : Bytes := pad3 (d.milli % 1000)

/-- `%.3f`. -/
def text (d : Double) : Bytes := signText d.neg ++ (d.int ++ 46 :: d.frac)

def value (d : Double) : ℚ := (if d.neg then -1 else 1) * (d.milli : ℚ) / 1000

def width (d : Double) : Nat := (signText d.neg).length + d.int.length

theorem pad3_spec : ∀ n < 1000, digitsValue (pad3 n) = n ∧ ∀ c ∈ pad3 n, isDigit c = true := by
  intro n hn
  have hhigh : n / 100 < 10 := by omega
  have hmid : n / 10 % 10 < 10 := Nat.mod_lt _ (by decide)
  have hlow : n % 10 < 10 := Nat.mod_lt _ (by decide)
  refine ⟨?_, ?_⟩
  · simp only [digitsValue, pad3, foldl_cons, foldl_nil, toNat_digit hhigh, toNat_digit hmid,
      toNat_digit hlow]
    omega
  · simp only [pad3, forall_mem_cons]
    exact ⟨isDigit_digit hhigh, isDigit_digit hmid, isDigit_digit hlow, fun _ hc => absurd hc not_mem_nil⟩

variable (d : Double)

theorem digits_int : Digits d.int :=
  ⟨natDecimal_ne_nil _, fun _ hc => isDigit_of_mem_natDecimal hc⟩

theorem int_zero : d.int.head? = some 48 → d.int = [48] := by
  intro hzero
  by_cases hn : d.milli / 1000 = 0
  · unfold int
    rw [hn]
    rfl
  · exact absurd hzero (head_natDecimal_ne_zero hn)

theorem digits_frac : Digits d.frac :=
  ⟨cons_ne_nil _ _, (pad3_spec _ (Nat.mod_lt _ (by decide))).2⟩

variable {d : Double} {n : Nat}

end Double

/-! ## Calls -/

/-- The calls of the writer: those of `Call`, and the rest. -/
inductive PsCall where
  | base (c : Call)
  | keyDouble (key : Bytes) (d : Double)
  | keyNull (key : Bytes)
  | arrayString (s : Bytes)
  | arrayDouble (d : Double)

/-- A double goes through `num[64]`, where a keyed one shares the room with its colon. -/
def PsCall.ops : PsCall → List JsonOp
  | .base c => c.ops
  | .keyDouble k d => keyedOps k ((asc ":" ++ d.text).take 63) true
  | .keyNull k => keyedOps k (asc ":null") true
  | .arrayString s => .comma :: (quotedOps s ++ [.flag true])
  | .arrayDouble d => [.comma, .emit (d.text.take 63), .flag true]

/-! ## The buffer -/

/-- `struct ps_json`, with the memory from `buf` on, as far as it may reach. (`depth` is never read.) -/
structure JsonBuf where
  mem : Nat → UInt8
  cap : Nat
  len : Nat
  needsComma : Bool
  error : Bool

namespace JsonBuf

/-- `ps_json_init`. -/
def init (mem : Nat → UInt8) (cap : Nat) : JsonBuf := ⟨mem, cap, 0, false, false⟩

/-- `emit`. -/
def emit (b : JsonBuf) (s : Bytes) : JsonBuf :=
  if b.error then b
  else if b.len + s.length ≥ b.cap then { b with error := true }
  else
    { b with
      mem := fun i => if b.len ≤ i ∧ i < b.len + s.length then s.getD (i - b.len) 0 else b.mem i
      len := b.len + s.length }

/-- `maybe_comma`. -/
def maybeComma (b : JsonBuf) : JsonBuf :=
  { (if b.needsComma then b.emit (asc ",") else b) with needsComma := false }

def op (b : JsonBuf) : JsonOp → JsonBuf
  | .comma => b.maybeComma
  | .emit s => b.emit s
  | .flag c => { b with needsComma := c }

def call (b : JsonBuf) (c : PsCall) : JsonBuf := c.ops.foldl op b

def calls (b : JsonBuf) (cs : List PsCall) : JsonBuf := cs.foldl call b

/-- `ps_json_finish`, -1 is `none`. -/
def finish (b : JsonBuf) : Option (Nat × JsonBuf) :=
  if b.error ∨ b.len ≥ b.cap then none
  else some (b.len, { b with mem := Function.update b.mem b.len 0 })

/-- The first `n` bytes of the buffer. -/
def bytes (b : JsonBuf) (n : Nat) : Bytes := (List.range n).map b.mem

/-! ### Nothing is written beyond the buffer -/

/-- What the writer does to its buffer: it stays in it. -/
structure Inside (b b' : JsonBuf) : Prop where
  cap : b'.cap = b.cap
  mem : ∀ i, b.cap ≤ i → b'.mem i = b.mem i

variable (b : JsonBuf)

theorem Inside.refl : b.Inside b := ⟨rfl, fun _ _ => rfl⟩

theorem Inside.trans {a b c : JsonBuf} (h : a.Inside b) (h' : b.Inside c) : a.Inside c :=
  ⟨h'.cap.trans h.cap, fun i hi => (h'.mem i (h.cap ▸ hi)).trans (h.mem i hi)⟩

theorem inside_emit (s : Bytes) : b.Inside (b.emit s) := by
  unfold emit
  split
  · exact .refl b
  · split
    · exact ⟨rfl, fun _ _ => rfl⟩
    · rename_i hroom
      refine ⟨rfl, fun i hi => if_neg ?_⟩
      omega

theorem inside_op (o : JsonOp) : b.Inside (b.op o) := by
  cases o with
  | comma =>
    show b.Inside b.maybeComma
    unfold maybeComma
    by_cases hflag : b.needsComma = true
    · rw [if_pos hflag]
      exact ⟨(b.inside_emit _).cap, (b.inside_emit _).mem⟩
    · rw [if_neg hflag]
      exact ⟨rfl, fun _ _ => rfl⟩
  | emit s => exact b.inside_emit s
  | flag c => exact ⟨rfl, fun _ _ => rfl⟩

theorem inside_call (c : PsCall) : b.Inside (b.call c) := by
  unfold call
  induction c.ops generalizing b with
  | nil => exact .refl b
  | cons o os ih => exact (b.inside_op o).trans (ih (b.op o))

theorem inside_calls (cs : List PsCall) : b.Inside (b.calls cs) := by
  unfold calls
  induction cs generalizing b with
  | nil => exact .refl b
  | cons c cs ih => exact (b.inside_call c).trans (ih (b.call c))

/-! ### The text -/

def abs (b : JsonBuf) : PsJson := ⟨b.bytes b.len, b.cap, b.needsComma, b.error⟩

theorem bytes_append {mem : Nat → UInt8} (n : Nat) (s : Bytes) :
    (List.range (n + s.length)).map
      (fun i => if n ≤ i ∧ i < n + s.length then s.getD (i - n) 0 else mem i) =
      (List.range n).map mem ++ s := by
  rw [range_add, map_append, map_map]
  congr 1
  · refine map_congr_left fun i hi => if_neg ?_
    have := mem_range.mp hi
    omega
  · refine ext_getElem (by simp) fun i hi hs => ?_
    rw [length_map, length_range] at hi
    simp [hi]

theorem abs_emit (s : Bytes) : (b.emit s).abs = b.abs.emit s := by
  have hlen : (b.bytes b.len).length = b.len := by simp [bytes]
  unfold emit PsJson.emit abs
  dsimp only
  rw [hlen]
  split
  · rfl
  · split
    · rfl
    · unfold bytes
      dsimp only
      rw [bytes_append]

end JsonBuf

theorem JsonBuf.abs_op (b : JsonBuf) (o : JsonOp) : (b.op o).abs = b.abs.op o := by
  cases o with
  | comma =>
    unfold JsonBuf.op PsJson.op JsonBuf.maybeComma PsJson.maybeComma
    have hflag : b.abs.needsComma = b.needsComma := rfl
    dsimp only
    rw [hflag]
    split
    · rw [← b.abs_emit]
      rfl
    · rfl
  | emit s => exact b.abs_emit s
  | flag c => rfl

theorem JsonBuf.abs_ops (b : JsonBuf) (os : List JsonOp) :
    (os.foldl JsonBuf.op b).abs = os.foldl PsJson.op b.abs := by
  induction os generalizing b with
  | nil => rfl
  | cons o os ih => rw [foldl_cons, foldl_cons, ih, b.abs_op]

/-! ## The text of calls -/

namespace PsCall

def comma : PsCall → Bool
  | .base c => c.comma
  | _ => true

def text (due : Bool) : PsCall → Bytes
  | .base c => c.text due
  | .keyDouble k d => sep due ++ (PsJson.quote (cstr k) ++ (asc ":" ++ d.text).take 63)
  | .keyNull k => sep due ++ (PsJson.quote (cstr k) ++ asc ":null")
  | .arrayString s => sep due ++ PsJson.quote (cstr s)
  | .arrayDouble d => sep due ++ d.text.take 63

end PsCall

def writtenText : Bool → List PsCall → Bytes
  | _, [] => []
  | due, c :: cs => c.text due ++ writtenText c.comma cs

def dueAfter : Bool → List PsCall → Bool
  | due, [] => due
  | _, c :: cs => dueAfter c.comma cs

theorem writtenText_append (due : Bool) (cs ds : List PsCall) :
    writtenText due (cs ++ ds) = writtenText due cs ++ writtenText (dueAfter due cs) ds := by
  induction cs generalizing due with
  | nil => rfl
  | cons c cs ih => rw [cons_append, writtenText, writtenText, dueAfter, ih, append_assoc]

section Holds

variable {j : PsJson} {cap : Nat} {due : Bool} {t : Bytes}

theorem PsJson.Holds.keyedOps (h : j.Holds cap due t) (k s : Bytes) (comma : Bool) :
    ((keyedOps k s comma).foldl PsJson.op j).Holds cap comma
      (t ++ (sep due ++ (PsJson.quote (cstr k) ++ s))) := by
  unfold Central.keyedOps
  rw [foldl_cons, foldl_append, PsJson.emitQuoted_eq_ops]
  exact h.keyed k s comma

theorem PsJson.Holds.psCall (h : j.Holds cap due t) (c : PsCall) :
    (c.ops.foldl PsJson.op j).Holds cap c.comma (t ++ c.text due) := by
  cases c with
  | base c =>
    show (c.ops.foldl PsJson.op j).Holds cap c.comma (t ++ c.text due)
    rw [PsJson.call_eq_ops]
    exact h.call c
  | keyDouble k d => exact h.keyedOps k _ true
  | keyNull k => exact h.keyedOps k _ true
  | arrayString s =>
    show ((quotedOps s ++ [JsonOp.flag true]).foldl PsJson.op j.maybeComma).Holds cap true _
    rw [foldl_append, PsJson.emitQuoted_eq_ops]
    have hnext := (h.maybeComma.emitQuoted s).withComma true
    rw [append_assoc] at hnext
    exact hnext
  | arrayDouble d =>
    have hnext := (h.maybeComma.emit (d.text.take 63)).withComma true
    rw [append_assoc] at hnext
    exact hnext

end Holds

namespace JsonBuf

theorem holds_calls {b : JsonBuf} {cap : Nat} {due : Bool} {t : Bytes} (h : b.abs.Holds cap due t)
    (cs : List PsCall) : (b.calls cs).abs.Holds cap (dueAfter due cs) (t ++ writtenText due cs) := by
  induction cs generalizing b due t with
  | nil =>
    rw [writtenText, append_nil]
    exact h
  | cons c cs ih =>
    have hnext : (b.call c).abs.Holds cap c.comma (t ++ c.text due) := by
      unfold call
      rw [abs_ops]
      exact h.psCall c
    have hrest := ih hnext
    rw [append_assoc] at hrest
    exact hrest

/-- Without a buffer nothing is written. -/
theorem finish_calls_zero (mem : Nat → UInt8) (cs : List PsCall) :
    ((init mem 0).calls cs).finish = none := by
  have hcap : ((init mem 0).calls cs).cap = 0 := ((init mem 0).inside_calls cs).cap
  unfold finish
  rw [hcap]
  exact if_pos (.inr (Nat.zero_le _))

/-- `ps_json_finish` succeeds if the text fits with its terminator, and then the text is in the buffer. -/
theorem finish_calls (mem : Nat → UInt8) (cap : Nat) (cs : List PsCall) :
    ((init mem cap).calls cs).finish = none ∧ cap ≤ (writtenText false cs).length ∨
      ∃ b, ((init mem cap).calls cs).finish = some ((writtenText false cs).length, b) ∧
        (writtenText false cs).length < cap ∧ b.bytes (writtenText false cs).length = writtenText false cs ∧
        b.mem (writtenText false cs).length = 0 ∧ ∀ i, cap ≤ i → b.mem i = mem i := by
  rcases Nat.eq_zero_or_pos cap with rfl | hpos
  · exact .inl ⟨finish_calls_zero mem cs, Nat.zero_le _⟩
  have hholds : ((init mem cap).calls cs).abs.Holds cap (dueAfter false cs) ([] ++ writtenText false cs) :=
    holds_calls (b := init mem cap) (PsJson.holds_init hpos) cs
  obtain ⟨hcap, -, hcontent⟩ := hholds
  rw [nil_append] at hcontent
  have hinside := (init mem cap).inside_calls cs
  generalize hb : (init mem cap).calls cs = b at hcap hcontent hinside ⊢
  replace hcap : b.cap = cap := hcap
  rcases hcontent with ⟨herr, htext, hlt⟩ | ⟨herr, hle⟩
  · replace herr : b.error = false := herr
    replace htext : b.bytes b.len = writtenText false cs := htext
    have hlen : b.len = (writtenText false cs).length := by
      rw [← htext]
      simp [bytes]
    refine .inr ⟨{ b with mem := Function.update b.mem b.len 0 }, ?_, hlt, ?_, ?_, fun i hi => ?_⟩
    · unfold finish
      rw [if_neg (by rw [herr, hcap, hlen]; simpa using hlt), hlen]
    · rw [← hlen]
      refine Eq.trans ?_ htext
      refine map_congr_left fun i hi => Function.update_of_ne ?_ 0 b.mem
      exact Nat.ne_of_lt (mem_range.mp hi)
    · rw [← hlen]
      exact Function.update_self b.len 0 b.mem
    · have hne : i ≠ b.len := by omega
      exact (Function.update_of_ne hne 0 b.mem).trans (hinside.mem i hi)
  · replace herr : b.error = true := herr
    refine .inl ⟨?_, hle⟩
    unfold finish
    exact if_pos (.inl herr)

end JsonBuf

/-! ## Balanced sequences -/

inductive Leaf where
  | int (i : Int64)
  | keyed (d : Double)
  | item (d : Double)

namespace Leaf

def value : Leaf → ℚ
  | .int i => (i.toInt : ℚ)
  | .keyed d => d.value
  | .item d => d.value

def text : Leaf → Bytes
  | .int i => decimal i.toInt
  | .keyed d => d.text.take 62
  | .item d => d.text.take 63

/-- The cut leaves the number what it is: it is behind a decimal of the fraction, or takes the point and
all that follows. -/
def Kept : Leaf → Prop
  | .int _ => True
  | .keyed d => d.width + 2 ≤ 62 ∨ d.width = 62
  | .item d => d.width + 2 ≤ 63 ∨ d.width = 63

end Leaf

/-- `Writes .value cs v`: the calls are balanced and nested, and `v` is the document they stand for. The
members and the items between two brackets are trees of their own. -/
inductive Writes : Cat → List PsCall → Json Leaf → Prop where
  | root {cs : List PsCall} {ms : List (Bytes × Json Leaf)} (h : Writes .members cs (.obj ms)) :
      Writes .value (.base .objectBegin :: (cs ++ [.base .objectEnd])) (.obj ms)
  | noMembers : Writes .members [] (.obj [])
  | keyString {k s : Bytes} {cs : List PsCall} {ms : List (Bytes × Json Leaf)} (hk : 0 ∉ k) (hs : 0 ∉ s)
      (h : Writes .members cs (.obj ms)) :
      Writes .members (.base (.member k (.str s)) :: cs) (.obj ((k, .str s) :: ms))
  | keyInt {k : Bytes} {cs : List PsCall} {ms : List (Bytes × Json Leaf)} (hk : 0 ∉ k) (i : Int64)
      (h : Writes .members cs (.obj ms)) :
      Writes .members (.base (.member k (.int i.toInt)) :: cs) (.obj ((k, .int (.int i)) :: ms))
  | keyBool {k : Bytes} {cs : List PsCall} {ms : List (Bytes × Json Leaf)} (hk : 0 ∉ k) (b : Bool)
      (h : Writes .members cs (.obj ms)) :
      Writes .members (.base (.member k (.bool b)) :: cs) (.obj ((k, .bool b) :: ms))
  | keyDouble {k : Bytes} {cs : List PsCall} {ms : List (Bytes × Json Leaf)} (hk : 0 ∉ k) (d : Double)
      (h : Writes .members cs (.obj ms)) :
      Writes .members (.keyDouble k d :: cs) (.obj ((k, .int (.keyed d)) :: ms))
  | keyNull {k : Bytes} {cs : List PsCall} {ms : List (Bytes × Json Leaf)} (hk : 0 ∉ k)
      (h : Writes .members cs (.obj ms)) : Writes .members (.keyNull k :: cs) (.obj ((k, .null) :: ms))
  | keyObject {k : Bytes} {cs ds : List PsCall} {inner ms : List (Bytes × Json Leaf)} (hk : 0 ∉ k)
      (hi : Writes .members cs (.obj inner)) (h : Writes .members ds (.obj ms)) :
      Writes .members (.base (.keyObjectBegin k) :: (cs ++ .base .objectEnd :: ds))
        (.obj ((k, .obj inner) :: ms))
  | keyArray {k : Bytes} {cs ds : List PsCall} {inner : List (Json Leaf)} {ms : List (Bytes × Json Leaf)}
      (hk : 0 ∉ k) (hi : Writes .items cs (.arr inner)) (h : Writes .members ds (.obj ms)) :
      Writes .members (.base (.arrayBegin k) :: (cs ++ .base .arrayEnd :: ds))
        (.obj ((k, .arr inner) :: ms))
  | noItems : Writes .items [] (.arr [])
  | string {s : Bytes} {cs : List PsCall} {vs : List (Json Leaf)} (hs : 0 ∉ s)
      (h : Writes .items cs (.arr vs)) : Writes .items (.arrayString s :: cs) (.arr (.str s :: vs))
  | double {cs : List PsCall} {vs : List (Json Leaf)} (d : Double) (h : Writes .items cs (.arr vs)) :
      Writes .items (.arrayDouble d :: cs) (.arr (.int (.item d) :: vs))
  | object {cs ds : List PsCall} {inner : List (Bytes × Json Leaf)} {vs : List (Json Leaf)}
      (hi : Writes .members cs (.obj inner)) (h : Writes .items ds (.arr vs)) :
      Writes .items (.base .objectBegin :: (cs ++ .base .objectEnd :: ds)) (.arr (.obj inner :: vs))

/-! ## What is written is the tree, printed -/

variable {c : PsCall} {cs : List PsCall} {k : Bytes} {v : Json Leaf}

namespace Leaf

end Leaf

/-! ## The documents -/

variable {cs : List PsCall} {v : Json Leaf} {doc : Json ℚ}

/-- A run of the writer is sound: it stays in its buffer, call by call, and if `ps_json_finish` returns a
length, that much of the buffer is the document, with a terminator behind it. -/
structure Sound (mem : Nat → UInt8) (cap : Nat) (cs : List PsCall) (doc : Json ℚ) : Prop where
  inside : ∀ n i, cap ≤ i → ((JsonBuf.init mem cap).calls (cs.take n)).mem i = mem i
  finish : ∀ n b, ((JsonBuf.init mem cap).calls cs).finish = some (n, b) →
    n < cap ∧ b.mem n = 0 ∧ (∀ i, cap ≤ i → b.mem i = mem i) ∧
      ∃ w, Doc .value (b.bytes n) w ∧ w.mapInt numValue = doc

end Packetsonde.Central
