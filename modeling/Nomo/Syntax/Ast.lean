import Nomo.Syntax.TypeRef
import Nomo.Lib.AssocList

/-!
# Syntax trees

`nomo_syntax/src/ast.rs`.
-/

namespace Nomo.Syntax

/-- `UnaryOp`. -/
inductive UnaryOp
  | not | negate
deriving DecidableEq

/-- `BinaryOp`. -/
inductive BinaryOp
  | logicalOr | logicalAnd
  | add | subtract | bitOr | bitXor
  | multiply | divide | remainder | shiftLeft | shiftRight | bitAnd | bitAndNot
  | equal | notEqual
  | less | lessEqual | greater | greaterEqual
deriving DecidableEq

/-- `AssignOp`. -/
inductive AssignOp
  | assign | add | subtract | multiply | divide | remainder
  | shiftLeft | shiftRight | bitAnd | bitXor | bitOr | bitAndNot
deriving DecidableEq

/-- `PostfixOp`. -/
inductive PostfixOp
  | increment | decrement
deriving DecidableEq

/-- `Expr`; an arm of `match` (`MatchArm`) is a pattern, a binding and a value. -/
inductive Expr
  | arrayLiteral (elements : List Expr)
  | index (base index : Expr)
  | call (callee : List String) (typeArgs : List TypeRef) (args : List Expr)
  | structLiteral (typeName : List String) (fields : List (String × Expr))
  | «match» (value : Expr) (arms : List (List String × Option String × Expr))
  | ifElse (condition thenBranch elseBranch : Expr)
  | panicWith (message : Expr)
  | question (expr : Expr)
  | mutArg (name : List String)
  | cast (expr : Expr) (target : TypeRef)
  | unary (op : UnaryOp) (expr : Expr)
  | binary (left : Expr) (op : BinaryOp) (right : Expr)
  | name (path : List String)
  | string (value : String)
  | int (value : ℕ)
  | float (value : String)
  | char (value : Char)
  | bool (value : Bool)
  | void

mutual

/-- `Stmt`; an arm of `match` (`MatchStmtArm`) is a pattern, a binding and a body, one of `task.select`
(`TaskSelectArm`) an operation, a binding, a body and its place. -/
inductive Stmt
  | letVar (name : String) (mutable : Bool) ( typeAnnotation : Option TypeRef) (value : Expr) (span : Span)
  | letElse (pattern : List String) (binding : String) (value : Expr) (elseBody : List Stmt) (span : Span)
  | ifLet (pattern : List String) (binding : Option String) (value : Expr) (body : List Stmt)
      (elseBody : Option (List Stmt)) (span : Span)
  | assign (target : List String) (op : AssignOp) (value : Expr) (span : Span)
  | indexAssign (root : String) (indices : List Expr) (value : Expr) (span : Span)
  | postfixOp (target : List String) (op : PostfixOp) (span : Span)
  | returnValue (value : Option Expr) (span : Span)
  | «match» (value : Expr) (arms : List (List String × Option String × List Stmt)) (span : Span)
  | expr (expr : Expr) (span : Span)
  | forLoop (variant : ForVariant) (span : Span)
  | breakLoop (span : Span)
  | continueLoop (span : Span)
  | defer (stmt : Stmt) (span : Span)
  | taskScope (body : List Stmt) (span : Span)
  | taskDeadline (duration : Expr) (body : List Stmt) (span : Span)
  | taskSelect (arms : List (Expr × String × List Stmt × Span)) (span : Span)
  | unsafeBlock (body : List Stmt) (span : Span)

/-- `ForVariant`. -/
inductive ForVariant
  | infinite (body : List Stmt)
  | whileTrue (condition : Expr) (body : List Stmt)
  | cStyle (binding : String) ( typeAnnotation : Option TypeRef) (initializer condition : Expr)
      (update : Stmt) (body : List Stmt)
  | iterate (binding : String) (iterable : Expr) (body : List Stmt)

end

/-- `TypeParamBound`. -/
structure TypeParamBound where
  parameter : String
  interface : TypeRef

/-- `Param`. -/
structure Param where
  name : String
  mutable : Bool
  typeRef : TypeRef

/-- `Field`. -/
structure Field where
  isPublic : Bool
  name : String
  typeRef : TypeRef
  span : Span

/-- `StructDef`. -/
structure StructDef where
  isPublic : Bool
  reprC : Bool
  package : List String
  name : String
  typeParams : List String
  fields : List Field
  span : Span

/-- `EnumVariant`. -/
structure EnumVariant where
  name : String
  payload : Option TypeRef
  span : Span

/-- `EnumDef`. -/
structure EnumDef where
  isPublic : Bool
  package : List String
  name : String
  typeParams : List String
  variants : List EnumVariant
  span : Span

/-- `FunctionSignature`. -/
structure FunctionSignature where
  isSuspend : Bool
  name : String
  typeParams : List String
  typeParamBounds : List TypeParamBound
  params : List Param
  returnType : TypeRef
  span : Span

/-- `InterfaceDef`. -/
structure InterfaceDef where
  isPublic : Bool
  name : String
  methods : List FunctionSignature
  span : Span

/-- `ExternBlock`. -/
structure ExternBlock where
  abi : String
  functions : List FunctionSignature
  span : Span

/-- `ExternOpaqueType`. -/
structure ExternOpaqueType where
  name : String
  releaseFunction : Option String
  span : Span

/-- `Function`. -/
structure Function where
  isPublic : Bool
  isTest : Bool
  isSuspend : Bool
  package : List String
  name : String
  typeParams : List String
  typeParamBounds : List TypeParamBound
  params : List Param
  returnType : TypeRef
  body : List Stmt
  span : Span

/-- `ImplBlock`. -/
structure ImplBlock where
  interfaceName : Option TypeRef
  typeName : TypeRef
  methods : List Function

/-- `ConstDef`. -/
structure ConstDef where
  isPublic : Bool
  name : String
  typeRef : TypeRef
  value : Expr
  span : Span

/-- `SourceFile`. -/
structure SourceFile where
  package : List String
  imports : List (List String)
  structs : List StructDef
  enums : List EnumDef
  interfaces : List InterfaceDef
  externOpaqueTypes : List ExternOpaqueType
  externBlocks : List ExternBlock
  impls : List ImplBlock
  consts : List ConstDef
  functions : List Function
  scriptBody : List Stmt

end Nomo.Syntax

/-!
## The type arguments of a tree

The parser asks for type arguments at each name that is no struct literal. They stay in the tree: those
of a call, and none at a name alone.
-/

namespace Nomo.Syntax

open Nomo.Lib

mutual

/-- The type arguments of the names and calls of an expression, in their order. -/
def Expr.asked : Expr → List (List TypeRef)
  | .arrayLiteral elements => askedAll elements
  | .index base position => base.asked ++ position.asked
  | .call _ typeArgs args => typeArgs :: askedAll args
  | .structLiteral _ fields => askedFields fields
  | .«match» value arms => value.asked ++ askedArms arms
  | .ifElse condition thenBranch elseBranch => condition.asked ++ thenBranch.asked ++ elseBranch.asked
  | .panicWith message => message.asked
  | .question expr => expr.asked
  | .mutArg _ => []
  | .cast expr _ => expr.asked
  | .unary _ expr => expr.asked
  | .binary left _ right => left.asked ++ right.asked
  | .name _ => [[]]
  | .string _ | .int _ | .float _ | .char _ | .bool _ | .void => []

def Expr.askedAll : List Expr → List (List TypeRef)
  | [] => []
  | expr :: exprs => expr.asked ++ askedAll exprs

def Expr.askedFields : List (String × Expr) → List (List TypeRef)
  | [] => []
  | (_, value) :: fields => value.asked ++ askedFields fields

def Expr.askedArms : List (List String × Option String × Expr) → List (List TypeRef)
  | [] => []
  | (_, _, value) :: arms => value.asked ++ askedArms arms

end

mutual

/-- The type arguments of the names and calls of a statement, in their order. -/
def Stmt.asked : Stmt → List (List TypeRef)
  | .letVar _ _ _ value _ => value.asked
  | .letElse _ _ value elseBody _ => value.asked ++ Stmt.askedAll elseBody
  | .ifLet _ _ value body none _ => value.asked ++ Stmt.askedAll body
  | .ifLet _ _ value body (some elseBody) _ =>
    value.asked ++ Stmt.askedAll body ++ Stmt.askedAll elseBody
  | .assign _ _ value _ => value.asked
  | .indexAssign _ indices value _ => Expr.askedAll indices ++ value.asked
  | .returnValue none _ => []
  | .returnValue (some value) _ => value.asked
  | .«match» value arms _ => value.asked ++ Stmt.askedArms arms
  | .expr expr _ => expr.asked
  | .forLoop variant _ => variant.asked
  | .defer stmt _ => stmt.asked
  | .taskScope body _ => Stmt.askedAll body
  | .taskDeadline duration body _ => duration.asked ++ Stmt.askedAll body
  | .taskSelect arms _ => Stmt.askedSelect arms
  | .unsafeBlock body _ => Stmt.askedAll body
  | .postfixOp .. | .breakLoop _ | .continueLoop _ => []

def ForVariant.asked : ForVariant → List (List TypeRef)
  | .infinite body => Stmt.askedAll body
  | .whileTrue condition body => condition.asked ++ Stmt.askedAll body
  | .cStyle _ _ initializer condition update body =>
    initializer.asked ++ condition.asked ++ update.asked ++ Stmt.askedAll body
  | .iterate _ iterable body => iterable.asked ++ Stmt.askedAll body

def Stmt.askedAll : List Stmt → List (List TypeRef)
  | [] => []
  | stmt :: stmts => stmt.asked ++ Stmt.askedAll stmts

def Stmt.askedArms : List (List String × Option String × List Stmt) → List (List TypeRef)
  | [] => []
  | (_, _, body) :: arms => Stmt.askedAll body ++ Stmt.askedArms arms

def Stmt.askedSelect : List (Expr × String × List Stmt × Span) → List (List TypeRef)
  | [] => []
  | (operation, _, body, _) :: arms =>
    operation.asked ++ Stmt.askedAll body ++ Stmt.askedSelect arms

end

/-! ## Lists -/

section

-- The equations of these definitions are generated once, before the proofs that need them.
attribute [local simp] Expr.asked Expr.askedAll Expr.askedFields Expr.askedArms Stmt.asked
  ForVariant.asked Stmt.askedAll Stmt.askedArms Stmt.askedSelect

end

theorem Expr.askedAll_eq (exprs : List Expr) : askedAll exprs = exprs.flatMap asked :=
  flatMap_of_cons rfl (fun _ _ => rfl) exprs

theorem Expr.askedFields_eq (fields : List (String × Expr)) :
    askedFields fields = fields.flatMap fun field => field.2.asked :=
  flatMap_of_cons rfl (fun _ _ => rfl) fields

theorem Expr.askedArms_eq (arms : List (List String × Option String × Expr)) :
    askedArms arms = arms.flatMap fun arm => arm.2.2.asked :=
  flatMap_of_cons rfl (fun _ _ => rfl) arms

theorem Stmt.askedAll_eq (stmts : List Stmt) : askedAll stmts = stmts.flatMap asked :=
  flatMap_of_cons rfl (fun _ _ => rfl) stmts

theorem Stmt.askedArms_eq (arms : List (List String × Option String × List Stmt)) :
    askedArms arms = arms.flatMap fun arm => askedAll arm.2.2 :=
  flatMap_of_cons rfl (fun _ _ => rfl) arms

theorem Stmt.askedSelect_eq (arms : List (Expr × String × List Stmt × Span)) :
    askedSelect arms = arms.flatMap fun arm => arm.1.asked ++ askedAll arm.2.2.1 :=
  flatMap_of_cons rfl (fun _ _ => rfl) arms

end Nomo.Syntax
