/-!
# Hash functions of keys

A hash only selects where a search begins, so any function of the key would do. These fold the parts
of a key into one number of 32 bits by an odd factor, and bring its high bits down after every part,
so that a change in any part reaches the low bits, which select the slot.
-/

set_option autoImplicit false

namespace PhraseTable.Hash

/-- The hash with one more part folded in. -/
def mix (hash part : Nat) : Nat :=
  let product := (hash * 2654435761 + part) % 4294967296
  product ^^^ (product >>> 15)

/-- A natural number of its own for every integer. -/
def ofInt (n : Int) : Nat :=
  if n < 0 then 2 * n.natAbs - 1 else 2 * n.natAbs

/-- The hash of an integer. -/
def int (n : Int) : Nat :=
  mix 0 (ofInt n)

/-- The hash of a row of integers. -/
def ints (ns : List Int) : Nat :=
  ns.foldl (fun hash n => mix hash (ofInt n)) 17

/-- The hash of a pair of integers. -/
def intPair (p : Int × Int) : Nat :=
  mix (mix 17 (ofInt p.1)) (ofInt p.2)

/-- The hash of a text. -/
def text (s : String) : Nat :=
  s.toList.foldl (fun hash c => mix hash c.toNat) 17

end PhraseTable.Hash
