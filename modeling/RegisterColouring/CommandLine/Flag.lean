/-
**Flags of a command line.**

A flag is a switch, a count or a text.  It is given as `--name=value`, or as `--name value` unless it
is a switch, which needs no value; a switch may also have a letter, and letters can be given together
after a single dash.  Everything else is an argument, and after a bare `--` everything is.

Main definitions:

* `RegisterColouring.Flag`, `RegisterColouring.Setting` — flags and their values;
* `RegisterColouring.FlagError` — what can be wrong with the flags of a command line;
* `RegisterColouring.Flag.parse` — the settings and arguments of a command line.
-/

import RegisterColouring.Text.Numeral
import RegisterColouring.Text.Quoted

set_option autoImplicit false

namespace RegisterColouring

/-- The value of a flag. -/
inductive Setting where
  | switch (on : Bool)
  | count (n : Nat)
  | text (value : String)
  deriving DecidableEq, Repr

/-- A flag: its name, its letter, what it is for, and the value it has if it is not given. -/
structure Flag where
  name : String
  letter : Option Char
  purpose : String
  initial : Setting
  deriving DecidableEq, Repr

/-- What can be wrong with flags: a name or letter nobody knows, a name that is none, a value that is
missing, or one that does not fit. -/
inductive FlagError where
  | unknownName (name : String)
  | unknownLetter (letter : Char) (rest : List Char)
  | noName (argument : String)
  | missingValue (argument : String)
  | badSwitch (flag : Flag) (value : String)
  | badCount (flag : Flag) (value : String) (tooLarge : Bool)
  deriving DecidableEq, Repr

namespace Flag

/-- Whether a flag is a switch. -/
def isSwitch (flag : Flag) : Bool :=
  match flag.initial with
  | .switch _ => true
  | _ => false

/-- A flag as an error message names it. -/
def display (flag : Flag) : String :=
  match flag.letter with
  | some letter => "-" ++ String.singleton letter ++ ", --" ++ flag.name
  | none => "--" ++ flag.name

/-- The first byte of a character's encoding, as a character. -/
def firstByte (c : Char) : Char :=
  ((String.singleton c).toUTF8.data[0]?.map fun b => Char.ofNat b.toNat).getD c

end Flag

/-- The complaint about a value of a flag. -/
def FlagError.badValue (flag : Flag) (value kind reason : String) : String :=
  "invalid argument " ++ Quoted.text value ++ " for " ++ Quoted.text flag.display ++ " flag: strconv." ++
    kind ++ ": parsing " ++ Quoted.text value ++ ": " ++ reason

/-- The text of a flag error. -/
def FlagError.message : FlagError → String
  | unknownName name => "unknown flag: --" ++ name
  | unknownLetter letter rest =>
    "unknown shorthand flag: " ++ Quoted.character (Flag.firstByte letter) ++ " in -" ++
      String.ofList (letter :: rest)
  | noName argument => "bad flag syntax: " ++ argument
  | missingValue argument => "flag needs an argument: " ++ argument
  | badSwitch flag value => badValue flag value "ParseBool" "invalid syntax"
  | badCount flag value tooLarge =>
    badValue flag value "ParseUint" (if tooLarge then "value out of range" else "invalid syntax")

namespace Flag

/-- The words for the two positions of a switch. -/
def truth? (word : String) : Option Bool :=
  if ["1", "t", "T", "true", "TRUE", "True"].contains word then some true
  else if ["0", "f", "F", "false", "FALSE", "False"].contains word then some false
  else none

/-- The setting that a value means for a flag. -/
def setting (flag : Flag) (value : String) : Except FlagError Setting :=
  match flag.initial with
  | .switch _ =>
    match truth? value with
    | some on => .ok (.switch on)
    | none => .error (.badSwitch flag value)
  | .count _ =>
    match Numeral.literal value.toList with
    | .ok n => .ok (.count n)
    | .error .malformed => .error (.badCount flag value false)
    | .error (.outOfRange _) => .error (.badCount flag value true)
  | .text _ => .ok (.text value)

/-- What has been read of a command line: the settings, latest first, and the arguments. -/
structure Parsed where
  settings : List (String × Setting)
  arguments : List String
  deriving DecidableEq, Repr

namespace Parsed

/-- Nothing has been read. -/
def empty : Parsed := ⟨[], []⟩

/-- One more argument. -/
def addArgument (parsed : Parsed) (argument : String) : Parsed :=
  { parsed with arguments := parsed.arguments ++ [argument] }

/-- A flag set to a value. -/
def set (parsed : Parsed) (flag : Flag) (value : String) : Except FlagError Parsed :=
  match flag.setting value with
  | .ok setting => .ok { parsed with settings := (flag.name, setting) :: parsed.settings }
  | .error e => .error e

/-- Whether a switch is on. -/
def isOn (parsed : Parsed) (flag : Flag) : Bool :=
  match (parsed.settings.lookup flag.name).getD flag.initial with
  | .switch on => on
  | _ => false

/-- The value of a count. -/
def count (parsed : Parsed) (flag : Flag) : Nat :=
  match (parsed.settings.lookup flag.name).getD flag.initial with
  | .count n => n
  | _ => 0

/-- The value of a text. -/
def text (parsed : Parsed) (flag : Flag) : String :=
  match (parsed.settings.lookup flag.name).getD flag.initial with
  | .text value => value
  | _ => ""

end Parsed

/-- The flag with a given name. -/
def named? (flags : List Flag) (name : String) : Option Flag := flags.find? (·.name == name)

/-- The switch with a given letter. -/
def lettered? (flags : List Flag) (letter : Char) : Option Flag :=
  flags.find? fun flag => flag.isSwitch && flag.letter == some letter

/-- A form of argument. -/
inductive Form where
  | argument
  | stop
  | name (characters : List Char)
  | letters (characters : List Char)
  deriving DecidableEq, Repr

/-- The form of an argument. -/
def formOf (argument : String) : Form :=
  match argument.toList with
  | ['-', '-'] => .stop
  | '-' :: '-' :: characters => .name characters
  | '-' :: c :: characters => .letters (c :: characters)
  | _ => .argument

/-- Switches given by their letters; only the last may have a value.  Letters that start with `test.`
are left alone. -/
def parseLetters (flags : List Flag) (parsed : Parsed) : List Char → Except FlagError Parsed
  | [] => .ok parsed
  | letter :: rest =>
    match lettered? flags letter with
    | none =>
      if "test.".toList.isPrefixOf (letter :: rest) then .ok parsed
      else .error (.unknownLetter letter rest)
    | some flag =>
      match rest with
      | '=' :: c :: value => parsed.set flag (String.ofList (c :: value))
      | rest =>
        match parsed.set flag "true" with
        | .ok parsed => parseLetters flags parsed rest
        | .error e => .error e

/-- The flag that a name with an optional value denotes, and the value. -/
def parseName (flags : List Flag) (argument : String) (characters : List Char) :
    Except FlagError (Flag × Option String) :=
  match characters with
  | [] => .error (.noName argument)
  | c :: _ =>
    if c = '-' || c = '=' then .error (.noName argument)
    else
      let name := String.ofList (characters.takeWhile (· != '='))
      match named? flags name with
      | none => .error (.unknownName name)
      | some flag =>
        match characters.dropWhile (· != '=') with
        | [] => .ok (flag, if flag.isSwitch then some "true" else none)
        | _ :: value => .ok (flag, some (String.ofList value))

/-- The rest of a command line, after what has been read. -/
def parseFrom (flags : List Flag) : Parsed → List String → Except FlagError Parsed
  | parsed, [] => .ok parsed
  | parsed, argument :: rest =>
    match formOf argument with
    | .argument => parseFrom flags (parsed.addArgument argument) rest
    | .stop => .ok { parsed with arguments := parsed.arguments ++ rest }
    | .letters characters =>
      match parseLetters flags parsed characters with
      | .ok parsed => parseFrom flags parsed rest
      | .error e => .error e
    | .name characters =>
      match parseName flags argument characters with
      | .error e => .error e
      | .ok (flag, some value) =>
        match parsed.set flag value with
        | .ok parsed => parseFrom flags parsed rest
        | .error e => .error e
      | .ok (flag, none) =>
        match rest with
        | [] => .error (.missingValue argument)
        | value :: rest =>
          match parsed.set flag value with
          | .ok parsed => parseFrom flags parsed rest
          | .error e => .error e

@[simp]
theorem parseFrom_nil (flags : List Flag) (parsed : Parsed) :
    parseFrom flags parsed [] = .ok parsed := rfl

/-- After a bare `--` everything is an argument. -/
@[simp]
theorem parseFrom_stop (flags : List Flag) (parsed : Parsed) (rest : List String) :
    parseFrom flags parsed ("--" :: rest) =
      .ok { parsed with arguments := parsed.arguments ++ rest } := by
  have h : formOf "--" = .stop := by decide
  rw [parseFrom, h]

/-- **The settings and arguments of a command line.** -/
def parse (flags : List Flag) (arguments : List String) : Except FlagError Parsed :=
  parseFrom flags Parsed.empty arguments

end Flag

end RegisterColouring
