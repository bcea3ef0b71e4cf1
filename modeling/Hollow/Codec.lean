import Hollow.Report
import Hollow.Json.Printer
import Hollow.Json.Reader

/-!
# Data files

How units and reports are written as JSON and read back.  What is absent is left out: names,
bodies, member lists and body spans; a list of diagnostics is left out when it is empty.  Every
writer `toJson` stands beside the reader of the same type, and the order of the fields of a
record is the order in which they are written.
-/

namespace Hollow

open Json (Value Reader required orElse)

/-- A field that is left out when its value is absent. -/
def optionalField {α : Type} (name : String) (write : α → Value) : Option α → List (String × Value)
  | none => []
  | some a => [(name, write a)]

/-! ## Spans and faults -/

/-- A span as a record of six numbers. -/
def Span.toJson (s : Span) : Value :=
  .object [("start_byte", .natural s.startByte), ("end_byte", .natural s.endByte),
    ("start_line", .natural s.startLine), ("start_col", .natural s.startCol),
    ("end_line", .natural s.endLine), ("end_col", .natural s.endCol)]

/-- Read a span. -/
def Span.read : Reader Span :=
  Json.record ["start_byte", "end_byte", "start_line", "start_col", "end_line", "end_col"]
    fun source room fields => do
      let number := fun name => required fields name (Json.size source room)
      pure ⟨← number "start_byte", ← number "end_byte", ← number "start_line",
        ← number "start_col", ← number "end_line", ← number "end_col"⟩

/-- A fault as an object with its code in `error`. -/
def Fault.toJson (f : Fault) : Value :=
  .object (("error", .string f.code) :: match f with
    | .unsupported nodeKind span => [("node_kind", .string nodeKind), ("span", span.toJson)]
    | .malformed id detail => [("id", .natural id), ("detail", .string detail)]
    | .emptyInput => [])

/-- Read a fault. -/
def Fault.read : Reader Fault :=
  Json.tagged "error" ["unsupported_construct", "malformed_declaration", "empty_input"] fun
    | "unsupported_construct" => Json.record ["node_kind", "span"] fun source room fields => do
      pure (.unsupported (← required fields "node_kind" (Json.text source room))
        (← required fields "span" (Span.read source room)))
    | "malformed_declaration" => Json.record ["id", "detail"] fun source room fields => do
      pure (.malformed (← required fields "id" (Json.identifier source room))
        (← required fields "detail" (Json.text source room)))
    | "empty_input" => fun _ _ _ => .ok .emptyInput
    | _ => fun _ _ _ => .error .mistyped

/-! ## Units -/

/-- Read a kind by its name. -/
def Kind.read : Reader Kind := Json.alternative (Kind.all.map fun k => (k.name, k))

/-- Read a category by its name. -/
def Category.read : Reader Category := Json.alternative (Category.all.map fun c => (c.name, c))

/-- A statement as a record. -/
def Statement.toJson (s : Statement) : Value :=
  .object [("category", .string s.category.name), ("node_kind", .string s.nodeKind),
    ("span", s.span.toJson)]

/-- Read a statement; its node kind may be missing. -/
def Statement.read : Reader Statement :=
  Json.record ["category", "node_kind", "span"] fun source room fields => do
    pure ⟨← required fields "category" (Category.read source room),
      ← orElse fields "node_kind" "" (Json.text source room),
      ← required fields "span" (Span.read source room)⟩

/-- A body as a record. -/
def Body.toJson (b : Body) : Value :=
  .object (optionalField "span" Span.toJson b.span ++
    [("statements", .array (b.statements.map Statement.toJson))])

/-- Read a body; both parts may be missing. -/
def Body.read : Reader Body :=
  Json.record ["span", "statements"] fun source room fields => do
    pure ⟨← orElse fields "span" none (Json.optional Span.read source room),
      ← orElse fields "statements" [] (Json.listOf Statement.read source room)⟩

namespace Declaration

mutual

/-- A declaration as a record, its members inside it. -/
def toJson : Declaration → Value
  | ⟨id, kind, name, span, body, members⟩ =>
    .object ([("id", .natural id), ("kind", .string kind.name)] ++
      optionalField "name" .string name ++ [("span", span.toJson)] ++
      optionalField "body" Body.toJson body ++ membersField members)

/-- The field with the members, left out when there is no member list. -/
def membersField : Option (List Declaration) → List (String × Value)
  | none => []
  | some ds => [("members", .array (listToJson ds))]

/-- Several declarations. -/
def listToJson : List Declaration → List Value
  | [] => []
  | d :: ds => toJson d :: listToJson ds

end

/-- Read a declaration in which classes stand inside each other at most so many times. -/
def readWithin : Nat → Reader Declaration
  | 0 => fun _ _ _ => .error .illFormed
  | depth + 1 =>
    Json.record ["id", "kind", "name", "span", "body", "members"] fun source room fields => do
      pure ⟨← required fields "id" (Json.identifier source room),
        ← required fields "kind" (Kind.read source room),
        ← orElse fields "name" none (Json.optional Json.text source room),
        ← required fields "span" (Span.read source room),
        ← orElse fields "body" none (Json.optional Body.read source room),
        ← orElse fields "members" none
          (Json.optional (Json.listOf (readWithin depth)) source room)⟩

/-- Read a declaration.  A class inside another opens a list and a record, so the limit on
nesting is reached before the bound here is. -/
def read : Reader Declaration := readWithin Json.nestingLimit

end Declaration

/-- Diagnostics are left out when there are none. -/
def diagnosticsField (faults : List Fault) : List (String × Value) :=
  if faults.isEmpty then [] else [("diagnostics", .array (faults.map Fault.toJson))]

/-- A unit as a record. -/
def SourceUnit.toJson (u : SourceUnit) : Value :=
  .object ([("path", .string u.path), ("language", .string u.language),
    ("declarations", .array (Declaration.listToJson u.declarations))] ++
    diagnosticsField u.diagnostics ++ [("has_parse_errors", .bool u.hasParseErrors)])

/-- Read a unit; only its path and language must be given. -/
def SourceUnit.read : Reader SourceUnit :=
  Json.record ["path", "language", "declarations", "diagnostics", "has_parse_errors"]
    fun source room fields => do
      pure ⟨← required fields "path" (Json.text source room),
        ← required fields "language" (Json.text source room),
        ← orElse fields "declarations" [] (Json.listOf Declaration.read source room),
        ← orElse fields "diagnostics" [] (Json.listOf Fault.read source room),
        ← orElse fields "has_parse_errors" false (Json.flag source room)⟩

/-- The unit that a JSON text describes. -/
def SourceUnit.ofJson (text : String) : Except Json.Problem SourceUnit :=
  Json.decode SourceUnit.read text

/-! ## Verdicts and reports -/

/-- Read a reason by its name. -/
def Reason.read : Reader Reason := Json.alternative (Reason.all.map fun r => (r.name, r))

/-- A reference as a record. -/
def DeclarationRef.toJson (r : DeclarationRef) : Value :=
  .object ([("id", .natural r.id), ("kind", .string r.kind.name)] ++
    optionalField "name" .string r.name ++ [("span", r.span.toJson)] ++
    optionalField "body_span" Span.toJson r.bodySpan)

/-- Read a reference. -/
def DeclarationRef.read : Reader DeclarationRef :=
  Json.record ["id", "kind", "name", "span", "body_span"] fun source room fields => do
    pure ⟨← required fields "id" (Json.identifier source room),
      ← required fields "kind" (Kind.read source room),
      ← orElse fields "name" none (Json.optional Json.text source room),
      ← required fields "span" (Span.read source room),
      ← orElse fields "body_span" none (Json.optional Span.read source room)⟩

namespace Verdict

mutual

/-- The fields of a verdict. -/
def fields : Verdict → List (String × Value)
  | ⟨declaration, isEmpty, reason, children⟩ =>
    [("declaration", declaration.toJson), ("is_empty", .bool isEmpty),
      ("reason", .string reason.name), ("children", .array (listToJson children))]

/-- Several verdicts as records. -/
def listToJson : List Verdict → List Value
  | [] => []
  | v :: vs => .object (fields v) :: listToJson vs

end

/-- A verdict as a record. -/
def toJson (v : Verdict) : Value := .object v.fields

/-- Read a verdict in which verdicts stand inside each other at most so many times. -/
def readWithin : Nat → Reader Verdict
  | 0 => fun _ _ _ => .error .illFormed
  | depth + 1 =>
    Json.record ["declaration", "is_empty", "reason", "children"] fun source room fields => do
      pure ⟨← required fields "declaration" (DeclarationRef.read source room),
        ← required fields "is_empty" (Json.flag source room),
        ← required fields "reason" (Reason.read source room),
        ← orElse fields "children" [] (Json.listOf (readWithin depth) source room)⟩

/-- Read a verdict.  A verdict inside another opens a list and a record, so the limit on
nesting is reached before the bound here is. -/
def read : Reader Verdict := readWithin Json.nestingLimit

end Verdict

/-- An entry as an object with its outcome in `status`. -/
def Entry.toJson : Entry → Value
  | .classified v => .object (("status", .string "classified") :: v.fields)
  | .failed declaration fault =>
    .object [("status", .string "failed"), ("declaration", declaration.toJson),
      ("error", fault.toJson)]

/-- Read an entry. -/
def Entry.read : Reader Entry :=
  Json.tagged "status" ["classified", "failed"] fun
    | "classified" => fun source room v => (Verdict.read source room v).map .classified
    | "failed" => Json.record ["declaration", "error"] fun source room fields => do
      pure (.failed (← required fields "declaration" (DeclarationRef.read source room))
        (← required fields "error" (Fault.read source room)))
    | _ => fun _ _ _ => .error .mistyped

/-- A report as a record. -/
def Report.toJson (r : Report) : Value := .object [("entries", .array (r.entries.map Entry.toJson))]

/-- Read a report. -/
def Report.read : Reader Report :=
  Json.record ["entries"] fun source room fields => do
    pure ⟨← required fields "entries" (Json.listOf Entry.read source room)⟩

/-- The report that a JSON text describes. -/
def Report.ofJson (text : String) : Except Json.Problem Report := Json.decode Report.read text

/-- A summary as a record. -/
def Summary.toJson (s : Summary) : Value :=
  .object [("empty", .natural s.empty), ("non_empty", .natural s.nonEmpty),
    ("not_applicable", .natural s.notApplicable), ("failed", .natural s.failed)]

/-- Read a summary. -/
def Summary.read : Reader Summary :=
  Json.record ["empty", "non_empty", "not_applicable", "failed"] fun source room fields => do
    let number := fun name => required fields name (Json.size source room)
    pure ⟨← number "empty", ← number "non_empty", ← number "not_applicable", ← number "failed"⟩

/-- The report on a unit as a record. -/
def UnitReport.toJson (u : UnitReport) : Value :=
  .object ([("path", .string u.path), ("language", .string u.language),
    ("report", u.report.toJson)] ++
    diagnosticsField u.diagnostics ++ [("has_parse_errors", .bool u.hasParseErrors)])

/-- Read the report on a unit. -/
def UnitReport.read : Reader UnitReport :=
  Json.record ["path", "language", "report", "diagnostics", "has_parse_errors"]
    fun source room fields => do
      pure ⟨← required fields "path" (Json.text source room),
        ← required fields "language" (Json.text source room),
        ← required fields "report" (Report.read source room),
        ← orElse fields "diagnostics" [] (Json.listOf Fault.read source room),
        ← orElse fields "has_parse_errors" false (Json.flag source room)⟩

/-- The reports on units that a JSON text lists. -/
def UnitReport.listOfJson (text : String) : Except Json.Problem (List UnitReport) :=
  Json.decode (Json.listOf UnitReport.read) text

end Hollow
