import SqlTree.Operator
import SqlTree.Value

/-!
Finished queries, the faults that stand in their way, and the events that are logged while one
is made.
-/

namespace SqlTree

/-! ### Faults

What can be wrong with a tree: an operator that the dialect lacks, or a defect that no dialect
could mend.
-/

/-- What an identifier names. -/
inductive NameRole where
  | table | column | aliasName | property | function
  deriving DecidableEq

def NameRole.text : NameRole → String
  | table => "table"
  | column => "column"
  | aliasName => "alias"
  | property => "property"
  | function => "function"

inductive Defect where
  | emptyName (role : NameRole)
  | emptyInList
  | emptySelect
  deriving DecidableEq

def Defect.message : Defect → String
  | emptyName role => "empty " ++ role.text ++ " name"
  | emptyInList => "IN list is empty"
  | emptySelect => "SELECT has neither a select list nor a source"

inductive Fault where
  | unsupported (op : BinaryOp) (dialect : String)
  | malformed (defect : Defect)
  deriving DecidableEq

def Fault.message : Fault → String
  | unsupported op dialect =>
    "operator '" ++ op.name ++ "' is not supported by the " ++ dialect ++ " dialect"
  | malformed defect => "malformed tree: " ++ defect.message

@[simp] theorem Fault.message_unsupported (op : BinaryOp) (dialect : String) :
    (unsupported op dialect).message =
      "operator '" ++ op.name ++ "' is not supported by the " ++ dialect ++ " dialect" := rfl

@[simp] theorem Fault.message_malformed (defect : Defect) :
    (malformed defect).message = "malformed tree: " ++ defect.message := rfl

/-! ### Queries and events -/

/-- A statement or expression of one dialect. -/
structure Query where
  /-- With marks for the parameters. This is what a database executes. -/
  text : String
  /-- With the parameters written inline, for people to read. -/
  display : String
  /-- In the order of the marks. -/
  params : Array Value

inductive Level where
  | trace | debug
  deriving DecidableEq

inductive Event where
  | compiling (dialect : String)
  | rejected (op : BinaryOp) (dialect : String)
  | compiled (dialect : String) (params : Nat)
  deriving DecidableEq

namespace Event

def level : Event → Level
  | compiling _ => .trace
  | rejected .. | compiled .. => .debug

def message : Event → String
  | compiling _ => "compiling query"
  | rejected .. => "operator rejected by dialect"
  | compiled .. => "compiled query"

end Event

end SqlTree
