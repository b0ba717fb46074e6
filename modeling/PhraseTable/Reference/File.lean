import PhraseTable.Reference.Check

/-!
# Checking a reference file

A file of a reference table may be missing or locked, and its name may be that of a directory,
which can be opened but not read. None of this stops a run: the check is logged as not done and
gives no summary. So it is with a faulty line.
-/

set_option autoImplicit false

namespace PhraseTable

/-- What stands under a file name. -/
inductive FileEntry where
  | text (content : String)
  | directory
  | locked
deriving DecidableEq, Repr

/-- What the system says about reading a directory. -/
def directoryMessage : String :=
  "basic_filebuf::underflow error reading the file: Is a directory"

/-- The line that tells that a reference table cannot be opened. -/
def unopenableLine (name : String) : String :=
  "Can't open reference phrase table: " ++ name

/-- The line that tells why a check was given up. -/
def abortedLine (name reason : String) : String :=
  "Checking against " ++ name ++ " aborted: " ++ reason

/-- Checks the reference table under a file name. There is a summary only if all of it was read. -/
def checkEntry {σ : Type} (scorer : Scorer σ) (debugLevel : Int) (vocabulary : Vocabulary)
    (index : PhraseIndex) (state : σ) (name : String) :
    Option FileEntry → Logged (CheckState σ × Option Summary)
  | none => do
    Logged.write [unopenableLine name]
    return (⟨vocabulary, index, state, .empty⟩, none)
  | some .locked => do
    Logged.write [unopenableLine name]
    return (⟨vocabulary, index, state, .empty⟩, none)
  | some .directory => do
    Logged.write
      [ "Error reading reference phrase table after line 0: " ++ directoryMessage
      , abortedLine name directoryMessage ]
    return (⟨vocabulary, index, state, .empty⟩, none)
  | some (.text content) => do
    match ← checkText scorer debugLevel vocabulary index state content with
    | (state, .ok summary) => return (state, some summary)
    | (state, .error error) =>
      Logged.write [abortedLine name error.message]
      return (state, none)

end PhraseTable
