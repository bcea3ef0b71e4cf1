import Hollow.Grammar

/-!
# Go and Rust

Go has no classes; its methods are top-level declarations, and blocks group their statements in
lists.  In Rust `impl` and `trait` blocks act as classes and signatures have no body; a macro
definition holds tokens and is not supported.
-/

namespace Hollow.Grammar

/-- The table of Go. -/
def go : Grammar where
  rules := Rule.named .function ["function_declaration"] ++
    Rule.named .method ["method_declaration"] ++ Rule.lambdas ["func_literal"]
  declarations := [.kind "function_declaration", .kind "method_declaration", .kind "func_literal"]
  blockKinds := ["block"]
  containers := ["statement_list"]
  delimiters := ["\x7b", "\x7d"]
  commentKinds := ["comment"]
  controlFlowKinds :=
    ["if_statement", "for_statement", "expression_switch_statement", "type_switch_statement",
      "select_statement", "return_statement", "break_statement", "continue_statement",
      "goto_statement", "fallthrough_statement", "labeled_statement"]
  localDeclarationKinds :=
    ["short_var_declaration", "var_declaration", "const_declaration", "type_declaration"]
  expressionKinds :=
    ["assignment_statement", "inc_statement", "dec_statement", "send_statement", "go_statement",
      "defer_statement"]
  noOpKinds := ["empty_statement"]
  lambdaBindings :=
    [("short_var_declaration", "left"), ("assignment_statement", "left"), ("var_spec", "name")]

/-- The table of Rust. -/
def rust : Grammar where
  rules := [⟨"impl_item", .classLike, .field "type"⟩] ++ Rule.named .classLike ["trait_item"] ++
    Rule.named .function ["function_item", "function_signature_item"] ++
    Rule.lambdas ["closure_expression"]
  declarations :=
    [.kind "impl_item", .kind "trait_item", .kind "function_item",
      .kind "function_signature_item", .kind "closure_expression"]
  unsupported := [.kind "macro_definition"]
  blockKinds := ["block"]
  delimiters := ["\x7b", "\x7d"]
  commentKinds := ["line_comment", "block_comment"]
  controlFlowKinds :=
    ["if_expression", "match_expression", "loop_expression", "while_expression", "for_expression",
      "return_expression", "break_expression", "continue_expression"]
  localDeclarationKinds :=
    ["let_declaration", "function_item", "struct_item", "enum_item", "impl_item", "trait_item",
      "use_declaration", "const_item", "static_item", "type_item", "mod_item"]
  expressionKinds := ["macro_invocation", "call_expression", "identifier"]
  noOpKinds := ["empty_statement"]
  lambdaBindings := [("let_declaration", "pattern"), ("assignment_expression", "left")]

end Hollow.Grammar
