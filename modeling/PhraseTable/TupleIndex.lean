import PhraseTable.DenseIndex.Basic

/-!
# Indexes of tuples

A tuple index numbers integer tuples that all have the same length, its arity. A tuple of another
length is refused and leaves the index as it was. `WordIndex` is the index of single words.
-/

set_option autoImplicit false

namespace PhraseTable

/-- Why an index of tuples gives no answer. -/
inductive TupleError where
  /-- Tuples without elements cannot be indexed. -/
  | arityNotPositive (arity : Int)
  | wrongSize (arity actual : Nat)
  | unknownId (id : Int)
deriving DecidableEq, Repr

/-- The wording of the errors of tuple indexes. -/
def TupleError.message : TupleError → String
  | .arityNotPositive arity => "Tuple arity must be positive, got " ++ toString arity
  | .wrongSize arity actual =>
    "Expected tuple of size " ++ toString arity ++ ", got " ++ toString actual
  | .unknownId id => "No tuple with id " ++ toString id

/-- The key with the given number, where any integer may be asked for. -/
def DenseIndex.lookup {α : Type} [DecidableEq α] (index : DenseIndex α) (id : Int) :
    Except TupleError α :=
  match id with
  | .ofNat n => (index.get? n).elim (.error (.unknownId id)) .ok
  | .negSucc _ => .error (.unknownId id)

/-- Numbered tuples of one length. -/
structure TupleIndex where
  /-- The length of every tuple. -/
  arity : Nat
  arity_pos : 0 < arity
  /-- The tuples and their numbers. -/
  index : DenseIndex (List Int)

namespace TupleIndex

/-- The index without tuples. -/
def create (hash : List Int → Nat) (arity : Int) (capacity : Nat) : Except TupleError TupleIndex :=
  if h : 0 < arity then
    .ok { arity := arity.toNat, arity_pos := by omega, index := .empty hash capacity }
  else .error (.arityNotPositive arity)

/-- Refuses a tuple of the wrong length. -/
def checkSize (tuples : TupleIndex) (tuple : List Int) : Except TupleError Unit :=
  if tuple.length = tuples.arity then .ok () else .error (.wrongSize tuples.arity tuple.length)

/-- The number of a tuple. -/
def find (tuples : TupleIndex) (tuple : List Int) : Except TupleError (Option Nat) := do
  tuples.checkSize tuple
  return tuples.index.find? tuple

/-- The number of a tuple. A missing tuple is entered if `create` is set, and has no number if
not. -/
def indexOf (tuples : TupleIndex) (tuple : List Int) (create : Bool) :
    Except TupleError (TupleIndex × Option Nat) := do
  tuples.checkSize tuple
  let (index, id) := tuples.index.indexOf tuple create
  return ({ tuples with index }, id)

/-- The numbers of tuples, which are looked up one after the other. A tuple of the wrong length ends
this; those before it have been entered. -/
def indexAll (tuples : TupleIndex) (create : Bool) :
    List (List Int) → TupleIndex × Except TupleError (List (Option Nat))
  | [] => (tuples, .ok [])
  | tuple :: rest =>
    match tuples.indexOf tuple create with
    | .error error => (tuples, .error error)
    | .ok (tuples, id) =>
      let (tuples, ids) := tuples.indexAll create rest
      (tuples, ids.map (id :: ·))

/-- The tuple with the given number. -/
def get (tuples : TupleIndex) (id : Int) : Except TupleError (List Int) :=
  tuples.index.lookup id

/-- The number of tuples. -/
def size (tuples : TupleIndex) : Nat :=
  tuples.index.size

end TupleIndex

/-- Numbered words. -/
abbrev WordIndex := DenseIndex Int

/-- The length of the tuples that a word index stands for. -/
def WordIndex.arity : Nat := 1

end PhraseTable
