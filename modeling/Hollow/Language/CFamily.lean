import Hollow.Grammar

/-!
# C and C++

Names are found at the end of declarator chains.  C++ adds classes, prototypes inside them,
lambdas, constructors named after their class, and members defined outside of it.
-/

namespace Hollow.Grammar

/-- Statements of both languages that direct control. -/
def cControlFlow : List String :=
  ["if_statement", "for_statement", "while_statement", "do_statement", "switch_statement",
    "return_statement", "break_statement", "continue_statement", "goto_statement",
    "labeled_statement"]

/-- The table of C. -/
def c : Grammar where
  rules := [⟨"function_definition", .function, .declarator⟩]
  declarations := [.kind "function_definition"]
  blockKinds := ["compound_statement"]
  delimiters := ["\x7b", "\x7d"]
  commentKinds := ["comment"]
  controlFlowKinds := cControlFlow
  localDeclarationKinds := ["declaration", "type_definition"]

/-- The table of C++. -/
def cpp : Grammar where
  rules := Rule.named .classLike ["class_specifier", "struct_specifier"] ++
    [⟨"function_definition", .function, .declarator⟩, ⟨"field_declaration", .method, .declarator⟩] ++
    Rule.lambdas ["lambda_expression"]
  declarations :=
    [.withField "class_specifier" "body" "field_declaration_list",
      .withField "struct_specifier" "body" "field_declaration_list", .kind "function_definition",
      .withField "field_declaration" "declarator" "function_declarator", .kind "lambda_expression"]
  blockKinds := ["compound_statement"]
  delimiters := ["\x7b", "\x7d"]
  commentKinds := ["comment"]
  controlFlowKinds := cControlFlow ++
    ["for_range_loop", "try_statement", "throw_statement", "co_return_statement"]
  localDeclarationKinds :=
    ["declaration", "type_definition", "alias_declaration", "using_declaration",
      "static_assert_declaration"]
  lambdaBindings := [("init_declarator", "declarator"), ("assignment_expression", "left")]
  classNamedConstructors := true
  qualifiedMembers := true

end Hollow.Grammar
