/-
**Running a command line.**

A command line is a list of arguments.  What it leads to depends only on the arguments, the
environment and the files, so running it is a function of these three.

Main definitions:

* `RegisterColouring.CommandLine.request` — what a command line asks for;
* `RegisterColouring.CommandLine.run` — **the report of a command line**.
-/

import RegisterColouring.Allocation.Rounds
import RegisterColouring.Code.Reading
import RegisterColouring.CommandLine.Command
import RegisterColouring.CommandLine.Folder
import RegisterColouring.CommandLine.Report

set_option autoImplicit false

namespace RegisterColouring

namespace CommandLine

/-! ### Results of the commands -/

/-- The widest that the column of variables is printed: half of a line. -/
def variableWidth : Nat := 80 / 2

/-- How the registers are highlighted that a function has to save before it uses them. -/
def calleeSavedHighlight : Escape := Escape.plain.foreground Escape.yellow

/-- A table of registers with one more variable. -/
def addRegister (table : Table) (name : Name) (register : String) : Except Table.Fault Table := do
  let table ← table.addRow [name, register]
  if Register.calleeSaved.contains register then
    table.setEscape 1 (table.height - 1) calleeSavedHighlight
  else .ok table

/-- The table of a function's variables and their registers, in alphabetical order. -/
def registerTable (allocation : FunctionAllocation) : Except Table.Fault Table := do
  let names := alphabetical (allocation.registers.map Prod.fst)
  let table ← names.foldlM (fun table name =>
    addRegister table name ((allocation.registers.lookup name).getD "")) (Table.ofColumns 2)
  let table ← table.limitWidth 0 variableWidth
  .ok (table.enableEscapes Report.onTerminal)

/-- A function's rounds, frame and spilled variables, and the registers of its variables. -/
def describe (allocation : FunctionAllocation) : List UInt8 :=
  bytesOf ((Item.function allocation.function.name).render ++ " (" ++
    Numeral.natural allocation.rounds ++ " round(s), " ++
    Numeral.natural allocation.function.locals.toNat ++ " local(s), spilled " ++
    bracketed allocation.spilled ++ ")\n") ++
    match registerTable allocation with
    | .ok table => table.print
    | .error _ => [] -- every row has two cells, so there is no fault

/-- The report of an allocated program. -/
def allocate (config : AllocationConfig) (colouring verbose : Bool) (program : Program) : Report :=
  let run := program.allocate config
  let log := progressLog verbose (run.log.map Event.message)
  match run.result with
  | .error e => ⟨.failure, [], log ++ logLine "error" e.message⟩
  | .ok allocation =>
    if colouring then ⟨.success, allocation.functions.flatMap describe, log⟩
    else ⟨.success, bytesOf (allocation.program.render ++ "\n"), log⟩

/-- The report about functions one after the other, up to the first that cannot be analysed. -/
def analyseAll (print : Liveness → String) : List Function → Report
  | [] => ⟨.success, [], ""⟩
  | function :: functions =>
    match Liveness.analyse function with
    | .error e => ⟨.failure, [], logLine "error" e.message⟩
    | .ok result =>
      let rest := analyseAll print functions
      { rest with output := bytesOf (print result) ++ rest.output }

/-! ### Requests -/

/-- What a command line asks for: an answer that needs no file, or a report on a file. -/
inductive Request where
  | answer (report : Report)
  | file (path : String) (verbose : Bool) (onText : Source → Report)

/-- A report on what is read from a source text, or on its issues. -/
def onRead {α : Type} (read : List Char → Read α) (report : α → Report) (source : Source) :
    Report :=
  match read source.text with
  | .ok value => report value
  | .error issues => Report.ofIssues source issues

/-- The functions of a text that holds a program, or a single function. -/
def readFunctions (whole : Bool) (text : List Char) : Read (List Function) :=
  if whole then (Program.read text).map Program.functions
  else (Function.read text).map fun function => [function]

/-- What a command does with the text of its file. -/
def onText (environment : Environment) (command : Command) (parsed : Flag.Parsed) :
    Source → Report :=
  let verbose := parsed.isOn (Command.verboseFlag environment)
  let functions := readFunctions (parsed.isOn Command.programFlag)
  match command with
  | .allocate =>
    let config : AllocationConfig :=
      { maxRounds := parsed.count (Command.maxRoundsFlag environment)
        stem := parsed.text (Command.stemFlag environment)
        heuristic := if parsed.isOn Command.firstSeenFlag then .firstSeen else .highestDegree }
    onRead Program.read (allocate config (parsed.isOn Command.colouringFlag) verbose)
  | .interference =>
    onRead functions (analyseAll fun result => (Graph.ofLiveness result).render)
  | .liveness => onRead functions (analyseAll Liveness.render)
  | _ =>
    onRead SpillRequest.read fun request =>
      Report.ofText .success (request.run.function.render ++ "\n")

/-- The usage text of a command, with an empty line after it. -/
def usageText (environment : Environment) (command : Command) : String :=
  command.usage environment ++ "\n"

/-- What a command asks for, given its settings and arguments. -/
def requestOf (environment : Environment) (command : Command) (parsed : Flag.Parsed) : Request :=
  let usage := usageText environment command
  if parsed.isOn command.helpFlag then .answer (Report.ofText .success usage)
  else if command = .root then
    if parsed.isOn Command.versionFlag then
      .answer (Report.ofText .success (Command.programName ++ " " ++ Command.version ++ "\n"))
    else .answer (Report.ofText .success usage)
  else match parsed.arguments with
    | [path] =>
      .file path (parsed.isOn (Command.verboseFlag environment)) (onText environment command parsed)
    | _ => .answer (Report.ofText .usage usage)

/-- **What a command line asks for.** -/
def request (environment : Environment) (arguments : List String) : Request :=
  match Command.resolve arguments with
  | .error word => .answer ⟨.usage, [], Command.unknownCommand word⟩
  | .ok (command, rest) =>
    match Flag.parse (command.flags environment) rest with
    | .error e =>
      .answer ⟨.usage, [], "Error: " ++ e.message ++ "\n" ++ usageText environment command⟩
    | .ok parsed => requestOf environment command parsed

/-- The report on a request, given what reading its file came to. -/
def Request.report (read : FileReader) : Request → Report
  | answer report => report
  | file path verbose onText =>
    let report := match read path with
      | .ok bytes => onText ⟨path, Utf8.decode bytes⟩
      | .error fault => Report.ofText .unreadable (fault.message path ++ "\n")
    report.after (progressLog verbose ["reading source file " ++ path])

/-- **The report of a command line.** -/
def run (environment : Environment) (read : FileReader) (arguments : List String) : Report :=
  (request environment arguments).report read

end CommandLine

end RegisterColouring
