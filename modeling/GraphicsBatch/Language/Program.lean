import GraphicsBatch.Language.Value
import GraphicsBatch.Language.Fault

/-! # Programs

A program is a row of statements. The statements of one source line are a group: a condition that
fails skips the rest of its group. Labels name the statement that follows them, in any case.
-/

namespace GraphicsBatch

/-! ## Statements -/

inductive Action where
  | label (name : String)
  | call (command : Command) (args : List Argument)
  | plain (command : Command)
  | goto (label : String)
  | gosub (label : String)
  | back
  | finish
  /-- Goes on if the comparison holds, and to the statement `skipTo` if not. -/
  | cond (lhs : Operand) (op : Comparison) (rhs : Operand) (skipTo : Nat)
  | assign (var : String) (value : Expr)
deriving DecidableEq, Inhabited

structure Statement where
  action : Action
  pos : Position
deriving DecidableEq, Inhabited

/-- A statement as it is written in source. -/
def Action.render : Action → String
  | label name => name ++ ":"
  | call c args =>
    c.name ++ "(" ++ String.intercalate "," (args.map fun a => a.value.render) ++ ")"
  | plain c => c.name
  | goto l => "Goto " ++ l
  | gosub l => "Gosub " ++ l
  | back => "Return"
  | finish => "End"
  | cond lhs op rhs _ => "If " ++ lhs.toValue.render ++ op.sign ++ rhs.toValue.render ++ " Then"
  | assign v e => "Set " ++ v ++ "=" ++ e.render

def Statement.render (s : Statement) : String := s.action.render

/-- Sets where a condition goes when it fails. -/
def Statement.skippingTo (s : Statement) (target : Nat) : Statement :=
  match s.action with
  | .cond lhs op rhs _ => { s with action := .cond lhs op rhs target }
  | _ => s

/-! ## Programs -/

structure Program where
  statements : Array Statement
  /-- Upper-case names of labels, each with the index of the statement behind it. -/
  labels : List (String × Nat)
  /-- The first statement of each group and the one behind its last. -/
  groups : List (Nat × Nat)
deriving Inhabited

namespace Program

/-! ### Building a program from its lines -/

/-- The statements of some lines, the first of which starts at index `start`. -/
def statementsFrom (start : Nat) : List (List Statement) → List Statement
  | [] => []
  | line :: lines =>
    let stop := start + line.length
    line.map (·.skippingTo stop) ++ statementsFrom stop lines

/-- The groups of some lines; a line without statements is none. -/
def groupsFrom (start : Nat) : List (List Statement) → List (Nat × Nat)
  | [] => []
  | line :: lines =>
    let stop := start + line.length
    if line.isEmpty then groupsFrom stop lines else (start, stop) :: groupsFrom stop lines

/-- The label table of some statements, the first of which has index `start`. -/
def labelsFrom (start : Nat) : List Statement → List (String × Nat)
  | [] => []
  | ⟨.label name, _⟩ :: rest => (Text.upper name, start + 1) :: labelsFrom (start + 1) rest
  | _ :: rest => labelsFrom (start + 1) rest

def ofLines (lines : List (List Statement)) : Program where
  statements := (statementsFrom 0 lines).toArray
  labels := labelsFrom 0 lines.flatten
  groups := groupsFrom 0 lines

/-! ### Looking things up -/

def size (p : Program) : Nat := p.statements.size

def hasLabel (p : Program) (name : String) : Bool := (p.labels.lookup (Text.upper name)).isSome

/-- The statement that a label names. -/
def target (p : Program) (name : String) (pos : Option Position) : Except ProgramError Nat :=
  match p.labels.lookup (Text.upper name) with
  | some i => .ok i
  | none => .error { kind := .undefinedLabel, detail := name, pos }

/-- The group that holds a statement. -/
def groupOf (p : Program) (index : Int) : Option (Nat × Nat) :=
  p.groups.find? fun g => (g.1 : Int) ≤ index && index < g.2

/-- One line per group: the index of its first statement and the statements. -/
def listing (p : Program) : String :=
  String.intercalate "\n" (p.groups.map fun (first, stop) =>
    "[" ++ toString first ++ "] " ++
      String.intercalate " " ((p.statements.extract first stop).toList.map Statement.render))

end Program

end GraphicsBatch
