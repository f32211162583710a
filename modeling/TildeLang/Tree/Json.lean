import TildeLang.Token.Json
import TildeLang.Tree

/-!
# Syntax trees as JSON

Every node is written as a record whose first field, `type`, names the node.
A part that is missing, such as the alternate of a conditional statement, is
written as `null`.
-/

namespace TildeLang

/-- The record of a node. -/
def Json.node (name : String) (fields : List (String × Json)) : Json :=
  .object (("type", .string name) :: fields)

/-- The node of an identifier. -/
def identifierJson (name : String) : Json :=
  .node "Identifier" [("name", .string name)]

/-- The node of an expression. -/
def Expr.toJson : Expr → Json
  | literal l => .node "Literal" [("kind", .string l.kind.token.name), ("value", l.value.toJson)]
  | identifier name => identifierJson name
  | binary op left right =>
      .node "BinaryExpression"
        [("operator", .string op.symbol), ("left", left.toJson), ("right", right.toJson)]
  | assign target value =>
      .node "AssignmentExpression"
        [("operator", .string "="), ("left", identifierJson target), ("right", value.toJson)]

/-- The node of a declared name. -/
def Declarator.toJson (d : Declarator) : Json :=
  .node "VariableDeclarator"
    [("id", identifierJson d.name), ("init", (d.init.map Expr.toJson).getD .null)]

namespace Stmt

mutual

/-- The node of a statement. -/
def toJson : Stmt → Json
  | ifThen test consequent =>
      .node "IfStatement"
        [("test", test.toJson), ("consequent", consequent.toJson), ("alternate", .null)]
  | ifThenElse test consequent alternate =>
      .node "IfStatement"
        [("test", test.toJson), ("consequent", consequent.toJson),
         ("alternate", alternate.toJson)]
  | block body => .node "BlockStatement" [("body", .array (listToJson body))]
  | declare binding declarators =>
      .node "VariableDeclaration"
        [("kind", .string binding.kind.name),
         ("declarations", .array (declarators.map Declarator.toJson))]
  | expression e => .node "ExpressionStatement" [("expression", e.toJson)]

/-- The nodes of statements. -/
def listToJson : List Stmt → List Json
  | [] => []
  | s :: more => s.toJson :: listToJson more

end

end Stmt

/-- The node of a program. -/
def Program.toJson (p : Program) : Json :=
  .node "Program" [("body", .array (Stmt.listToJson p.body))]

end TildeLang
