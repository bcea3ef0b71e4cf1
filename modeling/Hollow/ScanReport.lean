import Hollow.Codec
import Hollow.Render

/-!
# Reports for programs

The JSON document of a scan: where it looked, what it found, and the counts.  Its written form is
the indented layout, followed by a line break.
-/

namespace Hollow

open Json (Value Reader required orElse)

/-- The document of a scan. -/
structure ScanReport where
  version : String
  path : String
  config : Option String
  filesScanned : Nat
  summary : Summary
  units : List UnitReport
  deriving Repr

namespace ScanReport

/-- The document for the units of a scan. -/
def ofUnits (path : String) (config : Option String) (units : List UnitReport) : ScanReport :=
  ⟨programVersion, path, config, units.length, totalSummary units, units⟩

/-- The document as a record. -/
def toJson (r : ScanReport) : Value :=
  .object ([("version", .string r.version), ("path", .string r.path)] ++
    optionalField "config" .string r.config ++
    [("files_scanned", .natural r.filesScanned), ("summary", r.summary.toJson),
      ("units", .array (r.units.map UnitReport.toJson))])

/-- Read a document. -/
def read : Reader ScanReport :=
  Json.record ["version", "path", "config", "files_scanned", "summary", "units"]
    fun source room fields => do
      pure ⟨← required fields "version" (Json.text source room),
        ← required fields "path" (Json.text source room),
        ← orElse fields "config" none (Json.optional Json.text source room),
        ← required fields "files_scanned" (Json.size source room),
        ← required fields "summary" (Summary.read source room),
        ← required fields "units" (Json.listOf UnitReport.read source room)⟩

/-- The document that a JSON text holds. -/
def ofJson (text : String) : Except Json.Problem ScanReport := Json.decode read text

end ScanReport

/-- The JSON text of a whole scan. -/
def jsonReport (path : String) (config : Option String) (units : List UnitReport) : String :=
  (ScanReport.ofUnits path config units).toJson.pretty ++ "\n"

end Hollow
