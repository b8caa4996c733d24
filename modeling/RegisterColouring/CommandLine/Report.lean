/-
**What a command leaves behind.**

A command writes to two channels and ends with a code.  The first channel holds its results and its
complaints about the input, the second a log.

Main definitions:

* `RegisterColouring.ExitCode` — how a command can end;
* `RegisterColouring.Report` — the two channels and the end;
* `RegisterColouring.Issue.excerpt` — an issue shown in its line.
-/

import RegisterColouring.Layout.Table
import RegisterColouring.Term.Complaint
import RegisterColouring.Text.Quoted

set_option autoImplicit false

namespace RegisterColouring

/-- How a command can end. -/
inductive ExitCode where
  | success
  | usage
  | unreadable
  | syntaxErrors
  | failure
  deriving DecidableEq, Repr

/-- The number of an end. -/
def ExitCode.number : ExitCode → Nat
  | success => 0
  | usage => 1
  | unreadable => 3
  | syntaxErrors => 4
  | failure => 5

/-- What a command has written, and how it ended. -/
structure Report where
  code : ExitCode
  output : List UInt8
  log : String
  deriving DecidableEq, Repr

namespace Report

/-- Whether reports are shown on a terminal.  They are not, so what they highlight stays plain. -/
def onTerminal : Bool := false

/-- The report of a command that has written some text and nothing else. -/
def ofText (code : ExitCode) (text : String) : Report := ⟨code, bytesOf text, ""⟩

/-- Log entries before everything else. -/
def after (report : Report) (log : String) : Report := { report with log := log ++ report.log }

@[simp]
theorem output_after (report : Report) (log : String) : (report.after log).output = report.output :=
  rfl

@[simp]
theorem code_after (report : Report) (log : String) : (report.after log).code = report.code := rfl

end Report

/-! ### The log -/

/-- A character that needs no quotation marks around a log entry. -/
def isPlainInLog (c : Char) : Bool :=
  c.isAlphanum || ['-', '.', '_', '/', '@', '^', '+'].contains c

/-- A line of the log. -/
def logLine (level message : String) : String :=
  "level=" ++ level ++ " msg=" ++
    (if message.toList.all isPlainInLog then message else Quoted.text message) ++ "\n"

/-- Messages about progress, if they are wanted. -/
def progressLog (verbose : Bool) (messages : List String) : String :=
  if verbose then String.join (messages.map (logLine "debug")) else ""

/-! ### Issues -/

/-- How the marks below an issue are highlighted. -/
def Issue.highlight : Escape := Escape.plain.bold.foreground Escape.red

/-- **An issue shown in its line**: where it is, what it is, the line, and marks below the span as far
as it lies in the line, at least one. -/
def Issue.excerpt (source : Source) (issue : Issue) : String :=
  let line := source.lineAt issue.span.start
  let indent := (issue.span.start - line.start).toNat
  let marks := max 1 (min (line.length - indent) issue.span.length.toNat)
  source.file ++ ":" ++ Numeral.natural line.number ++ ":" ++ Numeral.natural (1 + indent) ++ "-" ++
    Numeral.natural (1 + indent + marks) ++ " " ++ issue.complaint.message ++ "\n\n" ++
    String.ofList line.text ++ "\n" ++ String.ofList (List.replicate indent ' ') ++
    highlight.wrap (String.ofList (List.replicate marks '^')) Report.onTerminal ++ "\n"

/-- The report about issues of a source text. -/
def Report.ofIssues (source : Source) (issues : List Issue) : Report :=
  Report.ofText .syntaxErrors (String.join (issues.map (Issue.excerpt source)))

end RegisterColouring
