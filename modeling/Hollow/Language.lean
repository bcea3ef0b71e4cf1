import Hollow.Language.CFamily
import Hollow.Language.Jvm
import Hollow.Language.Python
import Hollow.Language.Systems
import Hollow.Language.Web
import Hollow.PathName

/-!
# Languages

The languages that come with the program, and sets of them.  A file's extension, in any letter
case, selects a language through one table; a set can be restricted to named languages and keeps
its order.
-/

namespace Hollow

/-- A language: its identifier, the file extensions it is written for, and its table. -/
structure Language where
  id : String
  extensions : List String
  grammar : Grammar
  deriving Repr

/-- Whether the language is written for an extension, letter by letter. -/
def Language.handlesExtension (l : Language) (ext : String) : Bool := l.extensions.contains ext

/-- Every language that comes with the program. -/
def builtinLanguages : List Language :=
  [⟨"c", ["c", "h"], .c⟩,
    ⟨"cpp", ["cpp", "cc", "cxx", "hpp", "hh", "hxx"], .cpp⟩,
    ⟨"go", ["go"], .go⟩,
    ⟨"java", ["java"], .java⟩,
    ⟨"javascript", ["js", "jsx", "mjs", "cjs"], .javaScript⟩,
    ⟨"python", ["py", "pyi"], .python⟩,
    ⟨"rust", ["rs"], .rust⟩,
    ⟨"scala", ["scala", "sc"], .scala⟩,
    ⟨"typescript", ["ts", "mts", "cts"], .typeScript⟩,
    ⟨"tsx", ["tsx"], .typeScript⟩]

/-- The language that each file extension selects. -/
def extensionTable : List (String × String) :=
  [("java", "java"), ("js", "javascript"), ("jsx", "javascript"), ("mjs", "javascript"),
    ("cjs", "javascript"), ("ts", "typescript"), ("mts", "typescript"), ("cts", "typescript"),
    ("tsx", "tsx"), ("py", "python"), ("pyi", "python"), ("go", "go"), ("rs", "rust"),
    ("scala", "scala"), ("sc", "scala"), ("c", "c"), ("h", "c"), ("cpp", "cpp"), ("cc", "cpp"),
    ("cxx", "cpp"), ("hpp", "cpp"), ("hh", "cpp"), ("hxx", "cpp")]

/-- The text with the ASCII letters in lower case. -/
def asciiLower (s : String) : String := String.ofList (s.toList.map Char.toLower)

/-- A set of languages, in order. -/
structure LanguageSet where
  languages : List Language
  deriving Repr

namespace LanguageSet

/-- The set of all languages. -/
def builtin : LanguageSet := ⟨builtinLanguages⟩

/-- Identifiers in order. -/
def ids (s : LanguageSet) : List String := s.languages.map (·.id)

/-- The language with an identifier. -/
def byId? (s : LanguageSet) (id : String) : Option Language := s.languages.find? (·.id == id)

/-- The language that a file extension selects, if it is in the set. -/
def forExtension? (s : LanguageSet) (ext : String) : Option Language :=
  (extensionTable.lookup (asciiLower ext)).bind s.byId?

/-- The language that a path selects, if it is in the set.  An extension that is no text selects
none. -/
def forPath? (s : LanguageSet) (path : RawText) : Option Language :=
  ((PathName.extension path).bind Utf8.decode).bind s.forExtension?

/-- The extensions of the set's languages, sorted. -/
def extensions (s : LanguageSet) : List String :=
  ((extensionTable.filter fun e => (s.byId? e.2).isSome).map (·.1)).mergeSort
    fun a b => decide (a ≤ b)

/-- Keep only the named languages; no names keep all.  The first name that is not in the set is
the error. -/
def restrict (s : LanguageSet) (names : List String) : Except String LanguageSet :=
  if names.isEmpty then .ok s
  else match names.find? fun id => !s.ids.contains id with
    | some id => .error id
    | none => .ok ⟨s.languages.filter fun l => names.contains l.id⟩

end LanguageSet

end Hollow
