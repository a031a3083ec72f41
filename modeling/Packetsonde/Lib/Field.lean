import Packetsonde.Lib.Chars

/-!
# Strings in fixed fields

A `char` array of a record holds a C string: shorter than the array, and without a NUL. `Field n` is such
a string, so that nothing else can be stored; `Field.copy` is the copy that cuts.
-/

namespace Packetsonde.Lib

/-- An argument's text; `NULL` is no text. -/
def argText : Option CString → Bytes
  | none => []
  | some s => s.bytes

theorem nul_not_mem_argText (s : Option CString) : (0 : UInt8) ∉ argText s := by
  cases s with
  | none => exact List.not_mem_nil
  | some s => exact s.noNul

/-- The string in a `char` array of `n` bytes. -/
structure Field (n : Nat) where
  bytes : Bytes
  length_lt : bytes.length < n
  noNul : (0 : UInt8) ∉ bytes

namespace Field

variable {n : Nat}

@[ext] theorem ext {f g : Field n} (h : f.bytes = g.bytes) : f = g := by
  cases f
  cases g
  cases h
  rfl

instance : DecidableEq (Field n) := fun f g => decidable_of_iff (f.bytes = g.bytes) ⟨ext, congrArg bytes⟩

/-- What fits of a text without NULs. -/
def cut [NeZero n] (s : Bytes) (h : (0 : UInt8) ∉ s) : Field n where
  bytes := s.take (n - 1)
  length_lt := by
    have hpos := Nat.pos_of_neZero n
    rw [List.length_take]
    omega
  noNul := fun h0 => h (List.mem_of_mem_take h0)

def copy [NeZero n] (s : Option CString) : Field n := cut (argText s) (nul_not_mem_argText s)

theorem cstr_bytes (f : Field n) : cstr f.bytes = f.bytes := cstr_eq_self_iff.mpr f.noNul

end Field

end Packetsonde.Lib
