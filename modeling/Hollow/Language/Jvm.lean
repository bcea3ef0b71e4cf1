import Hollow.Grammar

/-!
# Java and Scala

In Java initializer blocks run as part of construction, so they count as constructors without a
name; annotation types have elements instead of methods and are not supported.  In Scala classes,
objects and traits all act as classes, and the body of a lambda is its last expression.
-/

namespace Hollow.Grammar

/-- The table of Java. -/
def java : Grammar where
  rules :=
    Rule.named .classLike
      ["class_declaration", "interface_declaration", "enum_declaration", "record_declaration"] ++
    -- A class without a name is called after the type that it makes an instance of.
    [⟨"object_creation_expression", .classLike, .field "type"⟩] ++
    Rule.named .method ["method_declaration"] ++
    Rule.named .constructor ["constructor_declaration", "compact_constructor_declaration"] ++
    [⟨"static_initializer", .constructor, .anonymous⟩, ⟨"block", .constructor, .anonymous⟩] ++
    Rule.lambdas ["lambda_expression"]
  declarations :=
    [.kind "class_declaration", .kind "interface_declaration", .kind "enum_declaration",
      .kind "record_declaration", .withChild "object_creation_expression" "class_body",
      .kind "method_declaration", .kind "constructor_declaration",
      .kind "compact_constructor_declaration", .kind "lambda_expression",
      .kind "static_initializer", .under "class_body" "block",
      .under "enum_body_declarations" "block"]
  unsupported := [.kind "annotation_type_declaration"]
  bodySources :=
    [("block", .itself), ("static_initializer", .child "block"),
      ("object_creation_expression", .child "class_body")]
  blockKinds := ["block", "constructor_body"]
  delimiters := ["\x7b", "\x7d"]
  commentKinds := ["line_comment", "block_comment"]
  controlFlowKinds :=
    ["if_statement", "for_statement", "enhanced_for_statement", "while_statement", "do_statement",
      "switch_expression", "try_statement", "try_with_resources_statement", "return_statement",
      "throw_statement", "break_statement", "continue_statement", "yield_statement",
      "labeled_statement", "synchronized_statement"]
  localDeclarationKinds :=
    ["local_variable_declaration", "class_declaration", "interface_declaration",
      "enum_declaration", "record_declaration"]
  expressionKinds := ["explicit_constructor_invocation", "assert_statement"]
  noOpKinds := [";"]
  lambdaBindings := [("variable_declarator", "name"), ("assignment_expression", "left")]

/-- The table of Scala. -/
def scala : Grammar where
  rules :=
    Rule.named .classLike ["class_definition", "object_definition", "trait_definition"] ++
    Rule.named .function ["function_definition", "function_declaration"] ++
    Rule.lambdas ["lambda_expression"]
  declarations :=
    [.kind "class_definition", .kind "object_definition", .kind "trait_definition",
      .kind "function_definition", .kind "function_declaration", .kind "lambda_expression"]
  bodySources := [("lambda_expression", .fieldOrLast)]
  blockKinds := ["block", "indented_block"]
  delimiters := ["\x7b", "\x7d", ";"]
  commentKinds := ["comment", "block_comment"]
  controlFlowKinds :=
    ["if_expression", "match_expression", "try_expression", "while_expression",
      "do_while_expression", "for_expression", "return_expression", "throw_expression"]
  localDeclarationKinds :=
    ["val_definition", "var_definition", "function_definition", "class_definition",
      "object_definition", "trait_definition", "import_declaration", "given_definition"]
  expressionKinds :=
    ["call_expression", "infix_expression", "postfix_expression", "assignment_expression",
      "field_expression", "generic_function", "instance_expression", "identifier"]
  lambdaBindings :=
    [("val_definition", "pattern"), ("var_definition", "pattern"),
      ("assignment_expression", "left")]

end Hollow.Grammar
