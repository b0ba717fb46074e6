/-!
# Vectors of counts

A count vector holds one count for each number from 0 up to the largest one that was ever counted.
Counting past the end fills the slots between with zeros, and negative numbers are not counted.

Numbers and counts are integers of any size here. In 32 bits the largest number has none behind it,
so no vector can have a slot for it. What is said of vectors of 32 bits is said of smaller numbers.
-/

set_option autoImplicit false

namespace PhraseTable

/-- Counts by number. -/
structure CountVector where
  /-- The counts in the order of their numbers. -/
  counts : Array Int
deriving DecidableEq, Repr

namespace CountVector

/-- The vector without slots. -/
def empty : CountVector := ⟨#[]⟩

instance : Inhabited CountVector := ⟨empty⟩

/-- The counts in the order of their numbers. -/
def toList (vector : CountVector) : List Int :=
  vector.counts.toList

/-- The number of slots. -/
def size (vector : CountVector) : Nat :=
  vector.counts.size

/-- Has the number a slot? -/
def contains (vector : CountVector) (id : Int) : Bool :=
  decide (0 ≤ id ∧ id < vector.size)

/-- The count of a number, zero if it has no slot. -/
def get (vector : CountVector) (id : Int) : Int :=
  if id < 0 then 0 else vector.counts[id.toNat]?.getD 0

/-- The counts with zeros behind them, so that there are at least `size` slots. -/
def extend (counts : Array Int) (size : Nat) : Array Int :=
  counts ++ Array.replicate (size - counts.size) 0

/-- Adds an amount to the count of a number. -/
def increment (vector : CountVector) (id amount : Int) : CountVector :=
  if id < 0 then vector
  else ⟨(extend vector.counts (id.toNat + 1)).modify id.toNat (· + amount)⟩

/-- Adds amounts to the counts of numbers, one after the other. -/
def incrementAll (vector : CountVector) (amounts : List (Int × Int)) : CountVector :=
  amounts.foldl (fun vector (id, amount) => vector.increment id amount) vector

/-- The sum of all counts. -/
def total (vector : CountVector) : Int :=
  vector.toList.foldl (· + ·) 0

end CountVector

end PhraseTable
