/-!
# Paths

Names of files, separated by slashes, as bytes: the system keeps names that are no well-formed text
too.  Repeated and trailing slashes and single dots inside a path do not count.  The file name is
the last component, unless that is `..`; the extension is what follows the last dot of the file
name, unless the dot comes first.
-/

namespace Hollow

/-- A name or a path as the system keeps it. -/
abbrev RawText := List UInt8

namespace PathName

/-- The byte of a slash. -/
def slash : UInt8 := 0x2F

/-- The byte of a dot. -/
def dot : UInt8 := 0x2E

/-- Whether a path begins at the root. -/
def isAbsolute (path : RawText) : Bool := path.head? == some slash

/-- Whether a segment does not count. -/
def isIdle (segment : RawText) : Bool := segment == [] || segment == [dot]

/-- The segments that count: neither empty nor a single dot.  A leading dot counts for telling an
empty path from the current directory only, and is left out too. -/
def components (path : RawText) : List RawText := (path.splitOn slash).filter fun s => !isIdle s

/-- The last component, unless it leads upwards. -/
def fileName (path : RawText) : Option RawText :=
  (components path).getLast?.filter (· != [dot, dot])

/-- What stands in front of the last dot, and what stands behind it. -/
def splitAtLastDot (name : RawText) : Option (RawText × RawText) :=
  let after := name.reverse.takeWhile (· != dot)
  match name.reverse.drop after.length with
  | [] => none
  | _ :: before => some (before.reverse, after.reverse)

/-- What follows the last dot of the file name, unless the dot comes first. -/
def extension (path : RawText) : Option RawText :=
  (fileName path).bind fun name =>
    match splitAtLastDot name with
    | some ([], _) => none
    | some (_, after) => some after
    | none => none

/-- A directory with the slash that stands in front of what is below it. -/
def withSlash (directory : RawText) : RawText :=
  if directory.getLast? = some slash then directory else directory ++ [slash]

/-- A path below a directory. -/
def join (directory path : RawText) : RawText :=
  if isAbsolute path || directory.isEmpty then path else withSlash directory ++ path

/-- What is left of segments after given components. -/
def afterComponents : List RawText → List RawText → Option (List RawText)
  | [], segments => some segments
  | _ :: _, [] => none
  | c :: cs, segment :: segments =>
    if isIdle segment then afterComponents (c :: cs) segments
    else if segment = c then afterComponents cs segments
    else none

/-- The path from a directory to a path below it, without idle segments at either end.  The empty
directory leaves a path as it is. -/
def relativeTo (directory path : RawText) : Option RawText :=
  if directory = [] then some path
  else if isAbsolute directory != isAbsolute path then none
  else (afterComponents (components directory) (path.splitOn slash)).map fun segments =>
    let inner := ((segments.dropWhile isIdle).reverse.dropWhile isIdle).reverse
    List.intercalate [slash] inner

/-- The order of paths, component by component. -/
def compareComponents : List RawText → List RawText → Ordering
  | [], [] => .eq
  | [], _ :: _ => .lt
  | _ :: _, [] => .gt
  | a :: as, b :: bs => (compare a b).then (compareComponents as bs)

end PathName

end Hollow
