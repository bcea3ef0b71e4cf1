import Hollow.Language
import Mathlib.Data.List.Induction

/-!
# Members with qualified names

A member that is defined outside of its class has the class in front of its name, and in front of
that the scopes around the class, with a pair of colons behind each of them.  The segments of such
a name are read from its end.  Whatever the scopes are, the last two segments are the class and the
member, and so the definition gets the kind that it has inside of the class.

* `splitQualified_append` — a colon-free segment in front of a pair of colons is cut off.
* `qualifier` — scopes in front of a name.
* `backwardSegments_qualifier` — the segments of a qualified name.
* `refineKind_qualified`, `refineKind_in_class` — the kind outside and inside of a class.
* `same_kind_outside_class` — both agree.
-/

namespace Hollow.Grammar

/-! ## Segments -/

theorem splitQualified_cons_of_ne {c : Char} (hc : c ≠ ':') {cs segment : List Char}
    {segments : List (List Char)} (h : splitQualified cs = segment :: segments) :
    splitQualified (c :: cs) = (c :: segment) :: segments := by
  rw [splitQualified, h]
  rintro cs rfl
  exact absurd rfl hc

theorem splitQualified_of_not_mem {segment : List Char} (h : ':' ∉ segment) :
    splitQualified segment = [segment] := by
  induction segment with
  | nil => rfl
  | cons c segment ih =>
    rw [List.mem_cons, not_or] at h
    exact splitQualified_cons_of_ne (Ne.symm h.1) (ih h.2)

/-- A colon-free segment in front of a pair of colons is cut off. -/
theorem splitQualified_append {segment : List Char} (h : ':' ∉ segment) (rest : List Char) :
    splitQualified (segment ++ ':' :: ':' :: rest) = segment :: splitQualified rest := by
  induction segment with
  | nil => rw [List.nil_append, splitQualified]
  | cons c segment ih =>
    rw [List.mem_cons, not_or] at h
    exact splitQualified_cons_of_ne (Ne.symm h.1) (ih h.2)

/-- Scopes in front of a name, with a pair of colons behind each of them. -/
def qualifier (scopes : List String) : String := String.join (scopes.map (· ++ "::"))

theorem qualifier_concat (scopes : List String) (scope : String) :
    qualifier (scopes ++ [scope]) = qualifier scopes ++ scope ++ "::" := by
  simp [qualifier, String.append_assoc]

/-- **The segments of a qualified name** are the name itself and the scopes, the innermost one
first. -/
theorem backwardSegments_qualifier {scopes : List String} {name : String}
    (hscopes : ∀ scope ∈ scopes, ':' ∉ scope.toList) (hname : ':' ∉ name.toList) :
    backwardSegments (qualifier scopes ++ name) =
      (name :: scopes.reverse).map (·.toList.reverse) := by
  -- The innermost scope is the last one, so that the induction goes from the end of the scopes.
  induction scopes using List.reverseRec generalizing name with
  | nil => exact splitQualified_of_not_mem (by simpa [qualifier] using hname)
  | append_singleton scopes scope ih =>
    rw [List.forall_mem_append, List.forall_mem_singleton] at hscopes
    have hreverse : (qualifier (scopes ++ [scope]) ++ name).toList.reverse =
        name.toList.reverse ++ ':' :: ':' :: (qualifier scopes ++ scope).toList.reverse := by
      simp [qualifier_concat]
    rw [backwardSegments, hreverse, splitQualified_append (by simpa using hname),
      ← backwardSegments, ih hscopes.1 hscopes.2]
    simp

/-! ## Kinds -/

variable {g : Grammar}

/-- Outside of classes the last two segments decide. -/
theorem refineKind_qualified (hq : g.qualifiedMembers = true) {scopes : List String}
    {className member : String} (hscopes : ∀ scope ∈ scopes, ':' ∉ scope.toList)
    (hclass : ':' ∉ className.toList) (hmember : ':' ∉ member.toList) :
    g.refineKind .function (some (qualifier scopes ++ className ++ "::" ++ member)) none =
      if className ≠ "" ∧ member = className then .constructor else .method := by
  have hsegments : backwardSegments (qualifier scopes ++ className ++ "::" ++ member) =
      member.toList.reverse :: className.toList.reverse ::
        scopes.reverse.map (·.toList.reverse) := by
    rw [← qualifier_concat, backwardSegments_qualifier _ hmember]
    · simp
    · exact List.forall_mem_append.mpr ⟨hscopes, List.forall_mem_singleton.mpr hclass⟩
  simp [refineKind, hq, hsegments, String.toList_inj]

/-- Inside of a class its name decides, where constructors are named after their class. -/
theorem refineKind_in_class (hnamed : g.classNamedConstructors = true)
    (hnames : g.constructorNames = []) (className member : String) :
    g.refineKind .function (some member) (some className) =
      if member = className then .constructor else .method := by
  simp [refineKind, memberKind, hnamed, hnames]

/-- **A member has the same kind inside and outside of its class.**  Let a class have a name, and
let no name of a scope around it, of the class or of a member have a colon.  Then the function with
the qualified name is of the kind that the function has directly inside of the class: a constructor
if it has the name of the class, and a method otherwise. -/
theorem same_kind_outside_class (scopes : List String) (className member : String)
    (hscopes : ∀ scope ∈ scopes, ':' ∉ scope.toList) (hne : className ≠ "")
    (hclass : ':' ∉ className.toList) (hmember : ':' ∉ member.toList) :
    cpp.refineKind .function (some (qualifier scopes ++ className ++ "::" ++ member)) none =
        cpp.refineKind .function (some member) (some className) ∧
      cpp.refineKind .function (some member) (some className) =
        if member = className then .constructor else .method := by
  have hinside := refineKind_in_class (g := cpp) rfl rfl className member
  have houtside := refineKind_qualified (g := cpp) rfl hscopes hclass hmember
  refine ⟨?_, hinside⟩
  rw [houtside, hinside]
  simp [hne]

theorem nestedWidget_same_kind :
    cpp.refineKind .function (some (qualifier ["ui", "Widget"] ++ "Widget" ++ "::" ++ "Widget"))
        none = .constructor ∧
      cpp.refineKind .function (some (qualifier ["ui", "draw"] ++ "Widget" ++ "::" ++ "draw"))
        none = .method := by
  have hconstructor := same_kind_outside_class ["ui", "Widget"] "Widget" "Widget"
    (by decide) (by decide) (by decide) (by decide)
  have hmethod := same_kind_outside_class ["ui", "draw"] "Widget" "draw"
    (by decide) (by decide) (by decide) (by decide)
  exact ⟨hconstructor.1.trans hconstructor.2, hmethod.1.trans hmethod.2⟩

/-- A class without a name has no members outside of it. -/
example : cpp.refineKind .function (some "::") none ≠
    cpp.refineKind .function (some "") (some "") := by decide

end Hollow.Grammar
