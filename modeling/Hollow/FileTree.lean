import Hollow.Failure
import Hollow.PathName
import Hollow.Tree

/-!
# Files and directories

The files that the program can see, as a tree.  A source file carries its syntax tree beside its
bytes, because reading source text is a parser's business and not this library's.

* `FileTree.resolve` follows the segments of a path, upwards too.
* `FileTree.files` lists the files below a directory, leaving out directories by name.
-/

namespace Hollow

/-- The content of a file. -/
structure FileContent where
  bytes : Source
  /-- The syntax tree, for a file in a supported language. -/
  tree : Option Node := none
  deriving Repr

/-- The syntax tree of a text without content. -/
def emptyTree : Node := ⟨"", none, 0, 0, true, false, false, []⟩

/-- A file or a directory. -/
inductive FileTree where
  | file (content : FileContent)
  | directory (entries : List (RawText × FileTree))
  deriving Repr

namespace FileTree

/-- Whether a tree is a directory. -/
def isDirectory : FileTree → Bool
  | .file _ => false
  | .directory _ => true

/-- Follow segments from a place in the tree.  `above` holds the directories on the way from the
root, nearest first, each with the name of what was entered from it.  Empty segments and dots stay
where they are, which only a directory allows. -/
def resolveFrom (above : List (RawText × FileTree)) (current : FileTree) :
    List RawText → Except FileProblem (List RawText × FileTree)
  | [] => .ok ((above.map (·.1)).reverse, current)
  | segment :: rest =>
    match current with
    | .file _ => .error .notDirectory
    | .directory entries =>
      if PathName.isIdle segment then resolveFrom above current rest
      else if segment = [PathName.dot, PathName.dot] then
        match above with
        | [] => .error .notFound
        | (_, up) :: above' => resolveFrom above' up rest
      else match entries.lookup segment with
        | none => .error .notFound
        | some next => resolveFrom ((segment, current) :: above) next rest

/-- Follow segments from the root; gives the names on the direct way there, and what is there. -/
def resolve (root : FileTree) (segments : List RawText) :
    Except FileProblem (List RawText × FileTree) :=
  resolveFrom [] root segments

/-- Put a tree at a place, making directories on the way. -/
def insert (item : FileTree) : List RawText → FileTree → FileTree
  | [], _ => item
  | name :: rest, tree =>
    let entries := match tree with
      | .directory entries => entries
      | .file _ => []
    let inner := insert item rest ((entries.lookup name).getD (.directory []))
    .directory (if entries.any (·.1 == name) then
        entries.map fun e => if e.1 == name then (name, inner) else e
      else entries ++ [(name, inner)])

mutual

/-- The files of a tree with the names on the way to each, without those in directories that are
to be skipped. -/
def files (skips : RawText → Bool) : FileTree → List (List RawText × FileContent)
  | .file content => [([], content)]
  | .directory entries => filesIn skips entries

/-- The files in the entries of a directory. -/
def filesIn (skips : RawText → Bool) :
    List (RawText × FileTree) → List (List RawText × FileContent)
  | [] => []
  | (name, tree) :: rest =>
    (if tree.isDirectory && skips name then []
      else (files skips tree).map fun f => (name :: f.1, f.2)) ++ filesIn skips rest

end

end FileTree

/-- What the program can see: the working directory and the user's own configuration file. -/
structure Workspace where
  /-- The absolute path of the working directory. -/
  location : RawText
  root : FileTree
  /-- Path and content of the user's configuration file; the path is only shown. -/
  userConfig : Option (String × Source) := none
  deriving Repr

namespace Workspace

/-- The segments of a path below the working directory; an absolute path outside has none. -/
def segments (w : Workspace) (path : RawText) : Option (List RawText) :=
  let inside := PathName.withSlash w.location
  if path = w.location then some []
  else if inside.isPrefixOf path then some ((path.drop inside.length).splitOn PathName.slash)
  else if PathName.isAbsolute path then none
  else some (path.splitOn PathName.slash)

/-- What is at a path. -/
def resolve (w : Workspace) (path : RawText) : Except FileProblem (List RawText × FileTree) :=
  match w.segments path with
  | none => .error .notFound
  | some segments => w.root.resolve segments

/-- The content of a file. -/
def read (w : Workspace) (path : RawText) : Except FileProblem FileContent :=
  match w.resolve path with
  | .error problem => .error problem
  | .ok (_, .directory _) => .error .isDirectory
  | .ok (_, .file content) => .ok content

/-- The text of a file. -/
def readText (w : Workspace) (path : RawText) : Except FileProblem String :=
  match w.read path with
  | .error problem => .error problem
  | .ok content =>
    match Utf8.decode content.bytes with
    | none => .error .notText
    | some text => .ok text

/-- Whether there is a file at a path. -/
def isFile (w : Workspace) (path : RawText) : Bool :=
  match w.resolve path with
  | .ok (_, .file _) => true
  | _ => false

end Workspace

end Hollow
