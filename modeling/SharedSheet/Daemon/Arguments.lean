/-
The command line of the daemon. Options have a long name, and some a short one; a value follows its
option, either as the next argument or attached to it. Arguments are read from the left, and reading
stops at the first that is wrong or asks for information.
-/
import SharedSheet.Number.Literal
import SharedSheet.Settings.Basic

namespace SharedSheet

/-- What a command line asks for, as far as it differs from the settings in the configuration file. -/
structure Arguments where
  config : Option String
  bind : Option String
  portNumber : Option Nat
  directory : Option String
  backend : Option Backend
  verbose : Bool
  deriving DecidableEq, Repr

namespace Arguments

/-- The empty command line. -/
def empty : Arguments := ⟨none, none, none, none, none, false⟩

/-- Why a command line does not start the daemon. -/
inductive Stop where
  | help
  | version
  | misuse
  deriving DecidableEq, Repr

/-- The options with values. -/
inductive Valued where
  | config
  | bind
  | portNumber
  | directory
  | backend
  deriving DecidableEq, Repr

/-- The options without values. -/
inductive Flag where
  | verbose
  | help
  | version
  deriving DecidableEq, Repr

/-- The option with a long name. -/
def ofLong? : String → Option (Valued ⊕ Flag)
  | "config" => some (.inl .config)
  | "bind" => some (.inl .bind)
  | "port" => some (.inl .portNumber)
  | "data-dir" => some (.inl .directory)
  | "storage" => some (.inl .backend)
  | "verbose" => some (.inr .verbose)
  | "help" => some (.inr .help)
  | "version" => some (.inr .version)
  | _ => none

/-- The option with a short name. -/
def ofShort? : Char → Option (Valued ⊕ Flag)
  | 'c' => some (.inl .config)
  | 'p' => some (.inl .portNumber)
  | 'v' => some (.inr .verbose)
  | 'h' => some (.inr .help)
  | 'V' => some (.inr .version)
  | _ => none

/-- An integer with an optional sign that fits 16 bits. -/
def portNumber? (s : List Char) : Option Nat :=
  let (negative, digits) := Number.splitSign s
  (Number.readDigits? digits).filter fun n => if negative then n = 0 else n < UInt16.size

/-- Gives an option its value. No option can have two, and names of files are not empty. -/
def set (a : Arguments) (o : Valued) (value : String) : Except Stop Arguments :=
  match o with
  | .config => if a.config.isSome || value.isEmpty then .error .misuse else .ok { a with config := some value }
  | .bind => if a.bind.isSome then .error .misuse else .ok { a with bind := some value }
  | .portNumber =>
    match portNumber? value.toList with
    | some n => if a.portNumber.isSome then .error .misuse else .ok { a with portNumber := some n }
    | none => .error .misuse
  | .directory =>
    if a.directory.isSome || value.isEmpty then .error .misuse else .ok { a with directory := some value }
  | .backend =>
    match Backend.ofArgument value with
    | .ok b => if a.backend.isSome then .error .misuse else .ok { a with backend := some b }
    | .error _ => .error .misuse

/-- Raises a flag, which can be raised once. -/
def raise (a : Arguments) : Flag → Except Stop Arguments
  | .verbose => if a.verbose then .error .misuse else .ok { a with verbose := true }
  | .help => .error .help
  | .version => .error .version

/-- Reads the short options of one argument: the arguments so far, and the option whose value is to
follow, if there is one. A value can be attached with or without an equals sign. -/
def readShort (a : Arguments) : List Char → Except Stop (Arguments × Option Valued)
  | [] => .ok (a, none)
  | c :: s =>
    match ofShort? c with
    | some (.inr f) =>
      match a.raise f with
      | .ok a => readShort a s
      | .error e => .error e
    | some (.inl o) =>
      match s with
      | [] => .ok (a, some o)
      | '=' :: s => (a.set o (String.ofList s)).map (·, none)
      | s => (a.set o (String.ofList s)).map (·, none)
    | none => .error .misuse

/-- Reads a long option without its dashes; a value can be attached with an equals sign. -/
def readLong (a : Arguments) (s : List Char) : Except Stop (Arguments × Option Valued) :=
  match ofLong? (String.ofList (s.takeWhile (· != '='))), s.dropWhile (· != '=') with
  | some (.inl o), [] => .ok (a, some o)
  | some (.inl o), _ :: value => (a.set o (String.ofList value)).map (·, none)
  | some (.inr f), [] => (a.raise f).map (·, none)
  | _, _ => .error .misuse

/-- Whether an argument can be the value of the option before it. -/
def isValue (arg : String) : Bool := arg == "-" || arg.toList.head? != some '-'

/-- Reads a command line. Nothing may stand outside of options, not even behind two dashes. -/
def read (a : Arguments) : List String → Except Stop Arguments
  | [] => .ok a
  | arg :: rest =>
    let found : Except Stop (Arguments × Option Valued) :=
      match arg.toList with
      | ['-', '-'] => if rest.isEmpty then .ok (a, none) else .error .misuse
      | '-' :: '-' :: s => readLong a s
      | '-' :: c :: s => readShort a (c :: s)
      | _ => .error .misuse
    match found with
    | .error e => .error e
    | .ok (a, none) => read a rest
    | .ok (a, some o) =>
      match rest with
      | [] => .error .misuse
      | value :: rest =>
        if isValue value then
          match a.set o value with
          | .ok a => read a rest
          | .error e => .error e
        else .error .misuse

/-- The settings with what the command line says in their place. -/
def override (a : Arguments) (s : Settings) : Settings :=
  { s with
    bind := a.bind.getD s.bind
    portNumber := a.portNumber.getD s.portNumber
    directory := a.directory <|> s.directory
    backend := a.backend.getD s.backend }

end Arguments

end SharedSheet
