import Hollow.Grammar

/-!
# JavaScript and TypeScript

TypeScript adds interfaces, abstract classes and signatures, which have no body.  Its namespaces
hold arbitrary statements rather than members, and are not supported.  The dialect with embedded
markup has the same table.
-/

namespace Hollow.Grammar

/-- Functions and lambdas of both languages. -/
def ecmaCallables : List Rule :=
  Rule.named .function ["function_declaration", "generator_function_declaration"] ++
    Rule.lambdas ["function_expression", "generator_function", "arrow_function"] ++
    Rule.named .method ["method_definition"]

/-- Statements of both languages that direct control. -/
def ecmaControlFlow : List String :=
  ["if_statement", "for_statement", "for_in_statement", "while_statement", "do_statement",
    "switch_statement", "try_statement", "return_statement", "throw_statement", "break_statement",
    "continue_statement", "labeled_statement", "yield_expression"]

/-- Local declarations of both languages. -/
def ecmaLocalDeclarations : List String :=
  ["lexical_declaration", "variable_declaration", "function_declaration",
    "generator_function_declaration", "class_declaration"]

/-- The table of JavaScript. -/
def javaScript : Grammar where
  rules := Rule.named .classLike ["class_declaration", "class"] ++ ecmaCallables
  declarations :=
    [.kind "class_declaration", .kind "class", .kind "function_declaration",
      .kind "generator_function_declaration", .kind "function_expression",
      .kind "generator_function", .kind "arrow_function", .kind "method_definition"]
  blockKinds := ["statement_block"]
  delimiters := ["\x7b", "\x7d"]
  commentKinds := ["comment", "html_comment"]
  controlFlowKinds := ecmaControlFlow ++ ["with_statement"]
  localDeclarationKinds := ecmaLocalDeclarations
  noOpKinds := ["empty_statement"]
  lambdaBindings :=
    [("variable_declarator", "name"), ("assignment_expression", "left"), ("pair", "key"),
      ("field_definition", "property")]
  constructorNames := ["constructor"]

/-- The table of TypeScript. -/
def typeScript : Grammar where
  rules :=
    Rule.named .classLike
      ["class_declaration", "abstract_class_declaration", "class", "interface_declaration"] ++
    ecmaCallables ++ Rule.named .function ["function_signature"] ++
    Rule.named .method ["method_signature", "abstract_method_signature"]
  declarations :=
    [.kind "class_declaration", .kind "abstract_class_declaration", .kind "class",
      .kind "interface_declaration", .kind "function_declaration",
      .kind "generator_function_declaration", .kind "function_signature",
      .kind "function_expression", .kind "generator_function", .kind "arrow_function",
      .kind "method_definition", .kind "method_signature", .kind "abstract_method_signature"]
  unsupported := [.kind "module", .kind "internal_module"]
  blockKinds := ["statement_block"]
  delimiters := ["\x7b", "\x7d"]
  commentKinds := ["comment", "html_comment"]
  controlFlowKinds := ecmaControlFlow
  localDeclarationKinds := ecmaLocalDeclarations ++
    ["type_alias_declaration", "interface_declaration", "enum_declaration"]
  noOpKinds := ["empty_statement"]
  lambdaBindings :=
    [("variable_declarator", "name"), ("assignment_expression", "left"), ("pair", "key"),
      ("public_field_definition", "name")]
  constructorNames := ["constructor"]

end Hollow.Grammar
