import Hollow.Report
import Hollow.Style

/-!
# Reports for people

The pretty layout of a scan: a header, one block per unit, and a summary.  Unless everything is
asked for, a unit's block lists only empty declarations and the classes that lead to them;
failures and diagnostics are always listed, and a unit with nothing to list has no block.
-/

namespace Hollow

/-- The program's name in its output. -/
def programName : String := "emptycheck"

/-- The program's version in its output. -/
def programVersion : String := "0.1.0"

/-- The verdict or one nested in it is empty. -/
def Verdict.hasEmpty (v : Verdict) : Bool := v.walk.any (·.isEmpty)

/-- The mark in front of a verdict. -/
def Verdict.mark (v : Verdict) : Piece :=
  if !v.isApplicable then dimmed "N/A  "
  else if v.isEmpty then { text := "EMPTY", style := { bold := true, colour := some .yellow } }
  else coloured .green "ok   "

/-- Place, kind and name of a declaration, in columns. -/
def DeclarationRef.columns (r : DeclarationRef) : String :=
  " " ++ padRight 8 r.span.text ++ " " ++ padRight 11 r.kind.name ++ " "

/-- A reason in parentheses. -/
def Reason.remark (r : Reason) : Piece := dimmed ("(" ++ r.description ++ ")")

/-- The line of one verdict, indented by two spaces per level. -/
def Verdict.line (level : Nat) (v : Verdict) : Line :=
  [plain (String.ofList (List.replicate (2 * level) ' ')), v.mark, plain v.declaration.columns,
    if v.isEmpty then bold v.declaration.displayName else plain v.declaration.displayName,
    plain "  ", v.reason.remark]

namespace Verdict

mutual

/-- The lines of a verdict and of those nested in it; parts without an empty verdict are left
out unless everything is shown. -/
def lines (showAll : Bool) (level : Nat) : Verdict → List Line
  | ⟨declaration, isEmpty, reason, children⟩ =>
    if showAll || hasEmpty ⟨declaration, isEmpty, reason, children⟩ then
      line level ⟨declaration, isEmpty, reason, children⟩ :: linesAll showAll (level + 1) children
    else
      []

/-- The lines of several verdicts. -/
def linesAll (showAll : Bool) (level : Nat) : List Verdict → List Line
  | [] => []
  | v :: vs => lines showAll level v ++ linesAll showAll level vs

end

end Verdict

/-- The line of a declaration that could not be judged. -/
def failureLine : DeclarationRef × Fault → Line
  | (declaration, fault) =>
    [plain "    ", coloured .red "FAIL ", plain (declaration.columns ++ declaration.displayName ++ "  "),
      coloured .red fault.message]

/-- The line of a construct that was left out. -/
def diagnosticLine (fault : Fault) : Line :=
  [plain "    ", coloured .red "SKIP ", plain " ", coloured .red fault.message]

namespace UnitReport

/-- The first line of a unit's block. -/
def titleLine (u : UnitReport) : Line :=
  [plain "  ", coloured .blue u.path, plain " ", dimmed ("[" ++ u.language ++ "]")] ++
    if u.hasParseErrors then [plain " ", coloured .yellow "(syntax errors)"] else []

/-- The verdict lines of a unit's block. -/
def verdictLines (showAll : Bool) (u : UnitReport) : List Line :=
  Verdict.linesAll showAll 2 u.report.verdicts

/-- Whether a unit has something to list. -/
def isListed (showAll : Bool) (u : UnitReport) : Bool :=
  u.report.verdicts.any (fun v => showAll || v.hasEmpty) || !u.report.failures.isEmpty ||
    !u.diagnostics.isEmpty

/-- The block of a unit. -/
def lines (showAll : Bool) (u : UnitReport) : List Line :=
  if u.isListed showAll then
    [u.titleLine] ++ u.verdictLines showAll ++ u.report.failures.map failureLine ++
      u.diagnostics.map diagnosticLine ++ [[]]
  else if showAll then
    [[plain "  ", coloured .blue u.path, plain " ", dimmed "(no declarations)"]]
  else
    []

end UnitReport

/-- The lines above the units. -/
def headerLines (path : String) (config : Option String) : List Line :=
  [[], [plain "  ", { text := programName, style := { bold := true, colour := some .cyan } },
      plain (" v" ++ programVersion)], [],
    [plain "  ", dimmed "Scanning: ", plain path]] ++
    (config.map fun c => [plain "  ", dimmed "Config:   ", plain c]).toList ++ [[]]

/-- The lines below the units. -/
def summaryLines (files : Nat) (s : Summary) : List Line :=
  [[plain "  ", bold "Summary",
      plain ("  Files: " ++ toString files ++ "  Empty: " ++ toString s.empty ++ "  Non-empty: " ++
        toString s.nonEmpty ++ "  Not applicable: " ++ toString s.notApplicable ++ "  Failed: " ++
        toString s.failed)],
    [plain "  ",
      if s.empty = 0 then coloured .green "✓ no empty declarations"
      else coloured .yellow
        ("✗ " ++ toString s.empty ++ " empty declaration" ++ if s.empty = 1 then "" else "s")]]

/-- The lines of a whole scan. -/
def reportLines (path : String) (config : Option String) (units : List UnitReport)
    (showAll : Bool) : List Line :=
  headerLines path config ++ units.flatMap (UnitReport.lines showAll) ++
    summaryLines units.length (totalSummary units) ++ [[]]

/-- The text of a whole scan. -/
def prettyReport (path : String) (config : Option String) (units : List UnitReport)
    (showAll colour : Bool) : String :=
  paintLines colour (reportLines path config units showAll)

/-- The line that answers which empty declaration stands at a position. -/
def locatedLine (path : String) (v : Verdict) : Line :=
  [coloured .blue path, plain (":" ++ v.declaration.span.text ++ " " ++ v.declaration.kind.name ++ " "),
    bold v.declaration.displayName, plain " ", v.reason.remark]

/-- The text that answers which empty declaration stands at a position. -/
def locatedText (path : String) (v : Verdict) (colour : Bool) : String :=
  paintLines colour [locatedLine path v]

end Hollow
