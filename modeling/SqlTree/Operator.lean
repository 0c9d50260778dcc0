/-!
The operators of an expression. A binary operator has a logical name, by which faults and
events refer to it, and a token in standard SQL if the standard has one. Dialects start from
the standard tokens.
-/

namespace SqlTree

inductive BinaryOp where
  | add | sub | mul | div | mod
  | eq | notEq | lt | ltEq | gt | gtEq
  | and | or
  | concat
  | like | notLike | ilike | notIlike
  | regex | iregex | notRegex | notIregex
  deriving DecidableEq

namespace BinaryOp

def all : List BinaryOp :=
  [add, sub, mul, div, mod, eq, notEq, lt, ltEq, gt, gtEq, and, or, concat,
    like, notLike, ilike, notIlike, regex, iregex, notRegex, notIregex]

theorem mem_all (op : BinaryOp) : op ∈ all := by
  cases op <;> simp [all]

/-- The logical name, the same in every dialect. -/
def name : BinaryOp → String
  | add => "plus"
  | sub => "minus"
  | mul => "multiply"
  | div => "divide"
  | mod => "modulo"
  | eq => "equals"
  | notEq => "notEquals"
  | lt => "lt"
  | ltEq => "lte"
  | gt => "gt"
  | gtEq => "gte"
  | and => "and"
  | or => "or"
  | concat => "concat"
  | like => "like"
  | notLike => "notLike"
  | ilike => "ilike"
  | notIlike => "notIlike"
  | regex => "regex"
  | iregex => "iregex"
  | notRegex => "notRegex"
  | notIregex => "notIregex"

/-- Pattern matching that ignores case, and regular expressions, have no standard token. -/
def standardToken? : BinaryOp → Option String
  | add => some "+"
  | sub => some "-"
  | mul => some "*"
  | div => some "/"
  | mod => some "%"
  | eq => some "="
  | notEq => some "<>"
  | lt => some "<"
  | ltEq => some "<="
  | gt => some ">"
  | gtEq => some ">="
  | and => some "AND"
  | or => some "OR"
  | concat => some "||"
  | like => some "LIKE"
  | notLike => some "NOT LIKE"
  | ilike | notIlike | regex | iregex | notRegex | notIregex => none

end BinaryOp

inductive UnaryOp where
  | not | neg | distinct | isNull | isNotNull
  deriving DecidableEq

namespace UnaryOp

def all : List UnaryOp := [not, neg, distinct, isNull, isNotNull]

theorem mem_all (op : UnaryOp) : op ∈ all := by
  cases op <;> simp [all]

def token : UnaryOp → String
  | not => "NOT"
  | neg => "-"
  | distinct => "DISTINCT"
  | isNull => "IS NULL"
  | isNotNull => "IS NOT NULL"

end UnaryOp

/-- The direction of an ordering; ascending unless said otherwise. -/
inductive Direction where
  | asc | desc
  deriving DecidableEq

namespace Direction

instance : Inhabited Direction := ⟨asc⟩

def token : Direction → String
  | asc => "ASC"
  | desc => "DESC"

end Direction

end SqlTree
