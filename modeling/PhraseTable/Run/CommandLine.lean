import PhraseTable.Run.Options
import PhraseTable.Text.Tokens

/-!
# The command line of a run

Options are given on the command line, or in a settings file with one `name = value` on a line. An
option that is given twice counts as it was given first, and the command line goes before the file.
-/

set_option autoImplicit false

namespace PhraseTable.Run

/-- An option of the command line. -/
structure OptionInfo where
  /-- The name behind two dashes. -/
  name : String
  /-- The letter behind one dash. -/
  letter : Option Char
  description : String
deriving DecidableEq, Repr

/-- The name of the option that shows all options. -/
def helpName : String := "help"

/-- The name of the option for a settings file. -/
def settingsName : String := "config"

/-- All options. -/
def optionInfos : List OptionInfo :=
  [ ⟨helpName, some 'h', "Show available options"⟩
  , ⟨settingsName, some 'c', "Configuration file (key = value)"⟩
  , ⟨"source", some 'f', "Source language corpus"⟩
  , ⟨"target", some 'e', "Target language corpus"⟩
  , ⟨"bitext", some 'b', "Parallel text (source ||| target)"⟩
  , ⟨"alignment", some 'a', "Bitext word alignment"⟩
  , ⟨"phrases", some 'p', "Phrase pair occurrences (source ||| target ||| alignment)"⟩
  , ⟨"threads", some 't', "Number of parallel threads for counting and scoring (max=1)"⟩
  , ⟨"check", none, "Compare the features with the ones of a reference phrase table"⟩ ] ++
  configOptions.map fun option => ⟨option.name, none, option.description⟩

/-- Why options cannot be used. -/
inductive OptionError where
  | unknown (text : String)
  | missingValue (name : String)
  | badValue (name value : String)
  | required (name : String)
deriving DecidableEq, Repr

/-- The wording of the errors of options. -/
def OptionError.message : OptionError → String
  | .unknown text => "unrecognised option '" ++ text ++ "'"
  | .missingValue name => "the required argument for option '--" ++ name ++ "' is missing"
  | .badValue name value =>
    "the argument ('" ++ value ++ "') for option '--" ++ name ++ "' is invalid"
  | .required name => "the option '--" ++ name ++ "' is required but missing"

/-- The text that shows all options. -/
def helpText : String :=
  let line (info : OptionInfo) : String :=
    let letter := match info.letter with
      | some c => "-" ++ c.toString ++ " [ --" ++ info.name ++ " ]"
      | none => "--" ++ info.name
    "  " ++ letter ++ "  " ++ info.description
  "\n".intercalate ("Command line options:" :: optionInfos.map line)

/-- Names of options with their values. -/
abbrev Settings := List (String × String)

/-- An option, and the value that stands behind its name after a sign of equality. -/
structure NamedOption where
  info : OptionInfo
  value : Option String

/-- The value that stands behind a sign of equality. -/
def valueBehind? : List Char → Option String
  | '=' :: value => some (String.ofList value)
  | _ => none

/-- The option that an argument names. -/
def optionOf? (argument : String) : Option NamedOption :=
  match argument.toList with
  | '-' :: '-' :: cs =>
    let name := String.ofList (cs.takeWhile (· != '='))
    (optionInfos.find? fun info => info.name == name).map fun info =>
      ⟨info, valueBehind? (cs.dropWhile (· != '='))⟩
  | '-' :: c :: rest =>
    (optionInfos.find? fun info => info.letter == some c).map fun info =>
      ⟨info, if rest.isEmpty then none else some (String.ofList rest)⟩
  | _ => none

/-- The settings that arguments give. -/
def readArguments : List String → Except OptionError Settings
  | [] => .ok []
  | argument :: rest =>
    match optionOf? argument, rest with
    | none, _ => .error (.unknown argument)
    | some ⟨info, some value⟩, rest => (readArguments rest).map ((info.name, value) :: ·)
    | some ⟨info, none⟩, rest =>
      if info.name = helpName then (readArguments rest).map ((info.name, "") :: ·)
      else
        match rest with
        | [] => .error (.missingValue info.name)
        | value :: rest => (readArguments rest).map ((info.name, value) :: ·)

/-- The setting on a line of a settings file, if it has one. A number sign begins a remark. -/
def settingOf? (line : String) : Option (String × String) :=
  let cs := line.toList.takeWhile (· != '#')
  (valueBehind? (cs.dropWhile (· != '='))).map fun value =>
    (Text.trim (String.ofList (cs.takeWhile (· != '='))), Text.trim value)

/-- The settings of a settings file. -/
def readSettings (text : String) : Except OptionError Settings :=
  ((Text.lines text).filterMap settingOf?).mapM fun (name, value) =>
    if optionInfos.any fun info => info.name == name then .ok (name, value)
    else .error (.unknown name)

namespace Settings

/-- The value of an option. -/
def value? (settings : Settings) (name : String) : Option String :=
  settings.lookup name

/-- The value of an option that has to be given. -/
def require (settings : Settings) (name : String) : Except OptionError String :=
  (settings.value? name).elim (.error (.required name)) .ok

/-- The value of an option that is read in some way, or its default. -/
def readOr {α : Type} (settings : Settings) (name : String) (default : α)
    (read? : String → Option α) : Except OptionError α :=
  match settings.value? name with
  | none => .ok default
  | some value => (read? value).elim (.error (.badValue name value)) .ok

/-- Reads yes or no. -/
def readBool? (value : String) : Option Bool :=
  if ["1", "true", "yes", "on"].contains value then some true
  else if ["0", "false", "no", "off"].contains value then some false
  else none

/-- Reads an integer. -/
def readInteger? (value : String) : Option Int :=
  match Number.readInt? value.toList with
  | some (n, []) => some n
  | _ => none

/-- Reads a number. -/
def readNumber? (value : String) : Option Float :=
  (Number.read value).toOption.map Number.Reading.value

/-- The settings of counting and scoring. -/
def config (settings : Settings) : Except OptionError Config := do
  let base : Config := {}
  return {
    exact := ← settings.readOr "exact" base.exact readBool?
    maxLexical := ← settings.readOr "ibm_lex_model" base.maxLexical readBool?
    onlyPhi := ← settings.readOr "only_phi" base.onlyPhi readBool?
    phiFilter := ← settings.readOr "phi_filter" base.phiFilter readNumber?
    lexFilter := ← settings.readOr "lex_filter" base.lexFilter readNumber?
    minLexProb := ← settings.readOr "min_lex_prob" base.minLexProb readNumber?
    debugLevel := ← settings.readOr "debug" base.debugLevel readInteger?
    printCounts := ← settings.readOr "print_counts" base.printCounts readBool? }

/-- What the settings ask a run to do. -/
def options (settings : Settings) : Except OptionError Options := do
  return {
    alignment := ← settings.require "alignment"
    phrases := ← settings.require "phrases"
    source := settings.value? "source"
    target := settings.value? "target"
    bitext := settings.value? "bitext"
    check := settings.value? "check"
    threads := ← settings.readOr "threads" 1 readInteger?
    config := ← settings.config }

end Settings

end PhraseTable.Run
