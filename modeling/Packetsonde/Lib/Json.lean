import Packetsonde.Lib.Chars

/-!
# JSON values and JSON texts

The part of JSON without fractions, exponents and `\u` escapes: objects, arrays, strings with the
eight simple escapes, integers, booleans and `null`. A value is generic in what stands at an
integer leaf: a text is first related to the tree whose leaves are the digit strings themselves, and
what those strings mean is a function mapped over the leaves (`Json.mapInt`).
-/

namespace Packetsonde.Lib

/-- A JSON value with integers from `ι`. Members keep their order and duplicate keys stay. -/
inductive Json (ι : Type) where
  | null
  | bool (b : Bool)
  | int (i : ι)
  | str (s : Bytes)
  | arr (items : List (Json ι))
  | obj (members : List (Bytes × Json ι))

namespace Json

variable {ι κ : Type}

mutual

def mapInt (f : ι → κ) : Json ι → Json κ
  | .null => .null
  | .bool b => .bool b
  | .int i => .int (f i)
  | .str s => .str s
  | .arr items => .arr (mapItems f items)
  | .obj members => .obj (mapMembers f members)

/-- `mapInt` on the items of an array. -/
def mapItems (f : ι → κ) : List (Json ι) → List (Json κ)
  | [] => []
  | v :: vs => mapInt f v :: mapItems f vs

/-- `mapInt` on the members of an object. -/
def mapMembers (f : ι → κ) : List (Bytes × Json ι) → List (Bytes × Json κ)
  | [] => []
  | (k, v) :: ms => (k, mapInt f v) :: mapMembers f ms

end

mutual

def ints : Json ι → List ι
  | .int i => [i]
  | .arr items => itemsInts items
  | .obj members => membersInts members
  | .null | .bool _ | .str _ => []

/-- `ints` over the items of an array. -/
def itemsInts : List (Json ι) → List ι
  | [] => []
  | v :: vs => ints v ++ itemsInts vs

/-- `ints` over the members of an object. -/
def membersInts : List (Bytes × Json ι) → List ι
  | [] => []
  | (_, v) :: ms => ints v ++ membersInts ms

end

/-- Induction over a value together with the items and the members in it. -/
theorem induction {P : Json ι → Prop} {Q : List (Json ι) → Prop}
    {R : List (Bytes × Json ι) → Prop} (null : P .null) (bool : ∀ b, P (.bool b))
    (int : ∀ i, P (.int i)) (str : ∀ s, P (.str s)) (arr : ∀ vs, Q vs → P (.arr vs))
    (obj : ∀ ms, R ms → P (.obj ms)) (nil : Q []) (cons : ∀ v vs, P v → Q vs → Q (v :: vs))
    (mnil : R []) (mcons : ∀ k v ms, P v → R ms → R ((k, v) :: ms)) (v : Json ι) : P v :=
  Json.rec (motive_1 := P) (motive_2 := Q) (motive_3 := R) (motive_4 := fun m => P m.2)
    null bool int str arr obj nil cons mnil (fun m ms => mcons m.1 m.2 ms) (fun _ _ h => h) v

end Json

/-! ## Tokens -/

def isWs (c : UInt8) : Bool := c == 32 || c == 9 || c == 10 || c == 13

def IsWs (w : Bytes) : Prop := ∀ c ∈ w, isWs c = true

instance (w : Bytes) : Decidable (IsWs w) := List.decidableBAll _ w

/-- The byte a simple escape stands for. -/
def escape (e : UInt8) : Option UInt8 :=
  if e = 34 then some 34 else if e = 92 then some 92 else if e = 47 then some 47
  else if e = 98 then some 8 else if e = 102 then some 12 else if e = 110 then some 10
  else if e = 114 then some 13 else if e = 116 then some 9 else none

def unsignedPart : Bytes → Bytes
  | [] => []
  | c :: ds => if c = 45 then ds else c :: ds

/-! ## The grammar -/

inductive Cat where
  | value
  | items
  | members

end Packetsonde.Lib
