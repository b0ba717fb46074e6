import PhraseTable.Number.Notation

/-!
# Settings

The settings of counting and scoring, with their defaults, their names on a command line and the
text that reports them.
-/

set_option autoImplicit false

namespace PhraseTable

/-- The settings of counting and scoring. -/
structure Config where
  /-- Phrases are counted on a pass of their own. -/
  exact : Bool := true
  /-- Lexical weights take the largest probability of a word instead of averaging over its links. -/
  maxLexical : Bool := false
  /-- Only the phrase translation probabilities are given. -/
  onlyPhi : Bool := false
  /-- The least `phi(e|f)` of an accepted pair. -/
  phiFilter : Float := 1e-4
  /-- The least `lex(e|f)` of an accepted pair. -/
  lexFilter : Float := 0
  /-- The lexical weight of a word without any translation probability. -/
  minLexProb : Float := 1e-5
  /-- From 1 on lexical weights are logged, from 2 on phrase pairs, from 3 on word counts. -/
  debugLevel : Int := 0
  /-- The counts of the phrases are given behind their features. -/
  printCounts : Bool := false

namespace Config

instance : Inhabited Config := ⟨{}⟩

/-- The number of passes over the corpus. -/
def passes (config : Config) : Nat :=
  if config.exact then 2 else 1

/-- The number of decimal places of the filters in the report. -/
def reportPlaces : Nat := 5

/-- The lines that report the settings. -/
def report (config : Config) : List String :=
  [ "Exact denominator counts for phi(f|e): " ++ toString config.exact
  , "Max based lexical weights: " ++ toString config.maxLexical
  , "Cut-off value for phi(e|f): " ++ Number.fixed reportPlaces config.phiFilter
  , "Cut-off value for lex(e|f): " ++ Number.fixed reportPlaces config.lexFilter ]

end Config

/-- A setting as it is offered on a command line. -/
structure ConfigOption where
  name : String
  description : String
deriving DecidableEq, Repr

/-- The settings that a command line offers. -/
def configOptions : List ConfigOption :=
  [ ⟨"exact", "Collect phrase counts on a dedicated pass (exact phi denominators)"⟩
  , ⟨"ibm_lex_model", "Max based lexical weights (no phrase internal alignment needed)"⟩
  , ⟨"only_phi", "Output only the phrase translation probabilities"⟩
  , ⟨"phi_filter", "Minimum phi(e|f) of a phrase pair"⟩
  , ⟨"lex_filter", "Minimum lex(e|f) of a phrase pair"⟩
  , ⟨"min_lex_prob", "Lexical weight used for words without any translation probability"⟩
  , ⟨"debug", "Debug level (0-3)"⟩
  , ⟨"print_counts", "Append the raw phrase counts to the features"⟩ ]

end PhraseTable
