import Hollow.Grammar

/-!
# Python

A bare string is documentation and counts as a comment; a bare ellipsis is filler.
-/

namespace Hollow.Grammar

/-- The table of Python. -/
def python : Grammar where
  rules := Rule.named .classLike ["class_definition"] ++ Rule.named .function ["function_definition"] ++
    Rule.lambdas ["lambda"]
  declarations := [.kind "class_definition", .kind "function_definition", .kind "lambda"]
  blockKinds := ["block"]
  delimiters := []
  commentKinds := ["comment"]
  controlFlowKinds :=
    ["if_statement", "for_statement", "while_statement", "try_statement", "with_statement",
      "match_statement", "return_statement", "raise_statement", "break_statement",
      "continue_statement"]
  localDeclarationKinds :=
    ["function_definition", "class_definition", "decorated_definition", "import_statement",
      "import_from_statement", "global_statement", "nonlocal_statement", "type_alias_statement"]
  expressionKinds := ["assert_statement", "delete_statement", "print_statement", "exec_statement"]
  noOpKinds := ["pass_statement"]
  soleExpressions :=
    [("string", .comment), ("concatenated_string", .comment), ("ellipsis", .noOp)]
  lambdaBindings := [("assignment", "left"), ("keyword_argument", "name")]
  constructorNames := ["__init__"]

end Hollow.Grammar
