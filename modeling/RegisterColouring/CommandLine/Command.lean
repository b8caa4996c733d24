/-
**Commands.**

The program is one executable with several commands.  This module knows the commands and their flags,
finds the command that a command line means, and writes the usage texts.  Some flags take the value
they have when not given from the environment.

Main definitions:

* `RegisterColouring.Command` — the commands;
* `RegisterColouring.Environment` — environment variables;
* `RegisterColouring.Command.flags` — the flags of a command;
* `RegisterColouring.Command.usage` — the usage text of a command;
* `RegisterColouring.Command.resolve` — the command that a command line means.
-/

import RegisterColouring.Allocation.Basic
import RegisterColouring.CommandLine.Flag
import RegisterColouring.Text.SmallLetter

set_option autoImplicit false

namespace RegisterColouring

/-- The commands: the program without one, and the four that work on a file. -/
inductive Command where
  | root
  | allocate
  | interference
  | liveness
  | spill
  deriving DecidableEq, Repr

/-! ### The environment -/

/-- Environment variables with their values. -/
structure Environment where
  entries : List (String × String)
  deriving DecidableEq, Repr

namespace Environment

/-- The value of a variable; the empty text if it is not set. -/
def get (environment : Environment) (name : String) : String :=
  (environment.entries.lookup name).getD ""

/-- The words that switch something on. -/
def affirmatives : List String :=
  ["1", "t", "true", "y", "yes", "enable", "enabled", "positive", "affirmative", "absolutely"]

/-- A word as it is, in capitals, and with a capital. -/
def spellings (word : String) : List String := [word, word.toUpper, word.capitalize]

/-- Whether messages about progress are wanted. -/
def verbose (environment : Environment) : Bool :=
  (affirmatives.flatMap spellings).contains (environment.get "L2C_VERBOSE")

/-- The most rounds for a function: zero unless a positive number is given. -/
def maxRounds (environment : Environment) : Nat :=
  match Numeral.int64? (environment.get "L2C_MAX_ROUNDS").toList with
  | some n => n.toInt.toNat
  | none => 0

/-- The stem for temporaries. -/
def stem (environment : Environment) : String :=
  let value := environment.get "L2C_SPILL_PREFIX"
  if value.isEmpty then AllocationConfig.defaultStem else value

end Environment

namespace Command

/-! ### Names and flags -/

/-- The name of the program. -/
def programName : String := "l2c"

/-- The version of the program. -/
def version : String := "0.0.0-test"

/-- The word for a command; none for the program without a command. -/
def word : Command → String
  | root => ""
  | allocate => "allocate"
  | interference => "interference"
  | liveness => "liveness"
  | spill => "spill"

/-- The words of a command line that lead to a command. -/
def path : Command → String
  | root => programName
  | command => programName ++ " " ++ command.word

/-- What a command works on. -/
def operand : Command → String
  | root => ""
  | spill => " spill_file"
  | _ => " l2_file"

/-- What a command does. -/
def summary : Command → String
  | root => "A register allocator for the L2 language."
  | allocate => "allocate registers for every function in a program."
  | interference => "print the interference graph of a function."
  | liveness => "print the in and out sets of every instruction."
  | spill => "spill a single variable of a function."

/-- Help for a command. -/
def helpFlag (command : Command) : Flag :=
  ⟨"help", some 'h',
    "help for " ++ (if command = root then programName else command.word), .switch false⟩

/-- Messages about progress. -/
def verboseFlag (environment : Environment) : Flag :=
  ⟨"verbose", some 'v', "increase logging verbosity", .switch environment.verbose⟩

/-- The version of the program. -/
def versionFlag : Flag := ⟨"version", none, "Report version of this executable", .switch false⟩

/-- A table of registers in place of the program. -/
def colouringFlag : Flag :=
  ⟨"colouring", none, "print the register assigned to each variable", .switch false⟩

/-- The choice of the variable to set aside. -/
def firstSeenFlag : Flag :=
  ⟨"first-seen", none, "spill variables in order of occurrence, rather than by degree",
    .switch false⟩

/-- The most rounds. -/
def maxRoundsFlag (environment : Environment) : Flag :=
  ⟨"max-rounds", none, "maximum colouring rounds per function (0 is unbounded)",
    .count environment.maxRounds⟩

/-- The stem for temporaries. -/
def stemFlag (environment : Environment) : Flag :=
  ⟨"prefix", none, "prefix for temporaries introduced by spilling", .text environment.stem⟩

/-- A program as input. -/
def programFlag : Flag :=
  ⟨"program", none, "input is an entire program, rather than a single function", .switch false⟩

/-- The flags that a command alone has, in alphabetical order. -/
def localFlags (environment : Environment) (command : Command) : List Flag :=
  match command with
  | root => [command.helpFlag, verboseFlag environment, versionFlag]
  | allocate =>
    [colouringFlag, firstSeenFlag, command.helpFlag, maxRoundsFlag environment,
      stemFlag environment]
  | spill => [command.helpFlag]
  | _ => [command.helpFlag, programFlag]

/-- The flags that a command shares with all others. -/
def globalFlags (environment : Environment) : Command → List Flag
  | root => []
  | _ => [verboseFlag environment]

/-- The flags of a command. -/
def flags (environment : Environment) (command : Command) : List Flag :=
  command.localFlags environment ++ command.globalFlags environment

/-! ### Usage -/

/-- The name of a flag as usage texts show it, with the kind of its value. -/
def flagHead (flag : Flag) : String :=
  let letter := match flag.letter with
    | some letter => "  -" ++ String.singleton letter ++ ", "
    | none => "      "
  let kind := match flag.initial with
    | .switch _ => ""
    | .count _ => " uint"
    | .text _ => " string"
  letter ++ "--" ++ flag.name ++ kind

/-- The value of a flag that is not given, if it is worth mentioning. -/
def flagDefault (flag : Flag) : String :=
  match flag.initial with
  | .switch on => if on then " (default true)" else ""
  | .count n => if n = 0 then "" else " (default " ++ Numeral.natural n ++ ")"
  | .text value => if value.isEmpty then "" else " (default " ++ Quoted.text value ++ ")"

/-- Spaces. -/
def blanks (n : Nat) : String := String.ofList (List.replicate n ' ')

/-- The lines about flags, with their purposes in one column. -/
def flagLines (flags : List Flag) : String :=
  let width := (flags.map fun flag => (flagHead flag).length).foldl max 0
  String.join (flags.map fun flag =>
    let head := flagHead flag
    head ++ blanks (width - head.length + 3) ++ flag.purpose ++ flagDefault flag ++ "\n")

/-- The commands and what they do, in alphabetical order. -/
def catalogue : List (String × String) :=
  [(allocate.word, allocate.summary),
    ("completion", "Generate the autocompletion script for the specified shell"),
    ("help", "Help about any command"),
    (interference.word, interference.summary),
    (liveness.word, liveness.summary),
    (spill.word, spill.summary)]

/-- The lines about commands, with what they do in one column. -/
def catalogueLines : String :=
  let width := (catalogue.map fun entry => entry.1.length).foldl max 0
  String.join (catalogue.map fun (name, summary) =>
    "  " ++ name ++ blanks (width - name.length) ++ " " ++ summary ++ "\n")

/-- **The usage text of a command.** -/
def usage (environment : Environment) (command : Command) : String :=
  let own := flagLines (command.localFlags environment)
  let shared := flagLines (command.globalFlags environment)
  "Usage:\n  " ++ command.path ++ " [flags]" ++ command.operand ++ "\n" ++
    (if command = root then
      "  " ++ programName ++ " [command]\n\nAvailable Commands:\n" ++ catalogueLines
    else "") ++
    "\nFlags:\n" ++ own ++
    (if command = root then
      "\nUse \"" ++ programName ++ " [command] --help\" for more information about a command.\n"
    else "\nGlobal Flags:\n" ++ shared)

/-! ### Finding the command -/

/-- The command with a given word.  Help and completion are answered like the program without a
command. -/
def ofWord? (word : String) : Option Command :=
  if word = "help" || word = "completion" then some root
  else [allocate, interference, liveness, spill].find? (·.word == word)

/-- Whether an argument is a flag whose value is the argument after it, as far as can be told before
the command is known. -/
def takesValue (argument : String) : Bool :=
  match Flag.formOf argument with
  | .name characters =>
    !characters.contains '=' && !(["verbose", "version"].contains (String.ofList characters))
  | .letters [c] => c != '=' && c != 'v' && c.utf8Size == 1
  | _ => false

/-- The arguments before a bare `--` that are neither flags nor their values. -/
def words : List String → List String
  | [] => []
  | argument :: rest =>
    if argument = "--" then []
    else if takesValue argument then
      match rest with
      | [] => []
      | _ :: rest => if rest.isEmpty then [] else words rest
    else if argument.isEmpty || argument.startsWith "-" then words rest
    else argument :: words rest

/-- A command line without the first argument that is a given word. -/
def without (word : String) : List String → List String
  | [] => []
  | argument :: rest =>
    if argument = "--" then argument :: rest
    else if takesValue argument then
      match rest with
      | [] => [argument]
      | value :: rest => argument :: value :: without word rest
    else if argument = word then rest
    else argument :: without word rest

/-- **The command that a command line means**, and the rest of the line; or the word that is no
command. -/
def resolve (arguments : List String) : Except String (Command × List String) :=
  match words arguments with
  | [] => .ok (root, arguments)
  | word :: _ =>
    match ofWord? word with
    | some command => .ok (command, without word arguments)
    | none => .error word

/-! ### Unknown commands -/

/-- One more row of the table of edit distances between two words: `left` is the distance in the new
row so far, `diagonal` the one to its upper right. -/
def distanceRow (c : UInt8) : (left diagonal : Nat) → List Nat → List UInt8 → List Nat
  | left, diagonal, above :: row, d :: word =>
    let here := min (min (left + 1) (above + 1)) (diagonal + if c = d then 0 else 1)
    here :: distanceRow c here above row word
  | _, _, _, _ => []

/-- How many bytes have to be inserted, deleted or replaced to get from one word to another. -/
def distance (a b : List UInt8) : Nat :=
  let first := List.range (b.length + 1)
  let last := a.foldl (fun (row : List Nat) c =>
    match row with
    | [] => []
    | head :: tail => (head + 1) :: distanceRow c (head + 1) head tail b) first
  last.getLast?.getD 0

/-- The commands that a word may have been meant for: those with at most two different letters, and
those that start with it. -/
def suggestions (word : String) : List String :=
  let typed := smallLetters word
  let candidates := [allocate.word, interference.word, liveness.word, spill.word, "completion"]
  candidates.filter fun name =>
    distance typed.toUTF8.data.toList name.toUTF8.data.toList ≤ 2 || name.startsWith typed

/-- The message about a word that is no command. -/
def unknownCommand (word : String) : String :=
  let similar := suggestions word
  "Error: unknown command " ++ Quoted.text word ++ " for " ++ Quoted.text programName ++
    (if similar.isEmpty then ""
    else "\n\nDid you mean this?\n" ++ String.join (similar.map fun name => "\t" ++ name ++ "\n")) ++
    "\nRun '" ++ programName ++ " --help' for usage.\n"

end Command

end RegisterColouring
