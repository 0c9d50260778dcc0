import SqlTree.Proofs.Marks

/-!
A reader of queries.

It takes the lexemes of a text from left to right together with the parameters, one for each
mark, and builds the tree that they stand for. What comes next always shows in the characters at
the front: after an opening parenthesis a sign, a `NOT` or a `SELECT` with its space, and
otherwise an operand; after an operand what follows it. Only the names of an expression stand
behind it without parentheses, so these are collected last.
-/

namespace SqlTree

/-- What is left to read. -/
structure Tape where
  lexemes : List Lexeme
  values : List Value

/-- Takes something off the front of a tape, or fails. -/
abbrev Read := StateT Tape Option

namespace Read

open Lexeme (spanWhile number?)

def next : Read Lexeme := fun t =>
  match t.lexemes with
  | [] => none
  | l :: ls => some (l, ⟨ls, t.values⟩)

def nextValue : Read Value := fun t =>
  match t.values with
  | [] => none
  | v :: vs => some (v, ⟨t.lexemes, vs⟩)

def span (p : Char → Bool) : Read (List Char) := fun t =>
  some ((spanWhile p t.lexemes).1, ⟨(spanWhile p t.lexemes).2, t.values⟩)

/-- What comes after the given characters, if these are at the front. -/
def strip : List Char → List Lexeme → Option (List Lexeme)
  | [], ls => some ls
  | c :: cs, .plain x :: ls => if c = x then strip cs ls else none
  | _ :: _, _ => none

def skip (s : String) : Read Unit := fun t =>
  match strip s.toList t.lexemes with
  | none => none
  | some ls => some ((), ⟨ls, t.values⟩)

def quoted : Read String := do
  match ← next with
  | .quoted _ s => pure (String.ofList s)
  | _ => failure

def number : Read Nat := do
  match number? (← span Char.isDigit) with
  | some n => pure n
  | none => failure

section

variable {α : Type}

def opt (p : Read α) : Read (Option α) := (do return some (← p)) <|> pure none

/-- At most `n` more elements, each after a comma. -/
def more (p : Read α) : Nat → Read (List α)
  | 0 => pure []
  | n + 1 => (do skip ", "; return (← p) :: (← more p n)) <|> pure []

def list (p : Read α) (n : Nat) : Read (List α) := do return (← p) :: (← more p n)

/-- A list that may be empty, up to the closing parenthesis. -/
def closed (close : String) (p : Read α) (n : Nat) : Read (List α) :=
  (do skip close; return []) <|> (do let as ← list p n; skip close; return as)

def clause (lead : String) (p : Read α) : Read (Option α) := opt (do skip lead; p)

/-- A clause that is absent if its list is empty. -/
def listClause (lead : String) (p : Read α) (n : Nat) : Read (List α) :=
  (do skip lead; list p n) <|> pure []

end

/-- The further names of an expression. -/
def names (e : Expr) : List Lexeme → Expr × List Lexeme
  | .plain ' ' :: .plain 'A' :: .plain 'S' :: .plain ' ' :: .quoted _ a :: ls =>
    names (.aliased e (String.ofList a)) ls
  | ls => (e, ls)

def aliases (e : Expr) : Read Expr := fun t =>
  some ((names e t.lexemes).1, ⟨(names e t.lexemes).2, t.values⟩)

end Read

/-- What can follow the first operand of a group. -/
inductive Suffix where
  | isNull | isNotNull
  | member (negated : Bool)
  | op (o : BinaryOp)
  deriving DecidableEq

namespace Suffix

def all : List Suffix :=
  [isNull, isNotNull, member false, member true] ++ BinaryOp.all.map op

def text? (d : Dialect) : Suffix → Option String
  | isNull => some " IS NULL)"
  | isNotNull => some " IS NOT NULL)"
  | member negated => some (if negated then " NOT IN (" else " IN (")
  | op o => (d.token? o).map fun s => " " ++ s ++ " "

end Suffix

namespace Read

def suffix (d : Dialect) : Read Suffix := fun t =>
  Suffix.all.findSome? fun s =>
    match s.text? d with
    | none => none
    | some text => (skip text t).map fun x => (s, x.2)

/-- The characters of function names. -/
def isWordChar (c : Char) : Bool := c.isAlphanum || c == '_'

/-- The form of a function name: letters, digits and underscores, and no digit first. -/
def isWord (f : String) : Bool :=
  match f.toList with
  | [] => false
  | c :: cs => (c.isAlpha || c == '_') && cs.all isWordChar

/-- A column or a wildcard, after its first name. -/
def afterName (s : String) : Read Expr :=
  (do
    skip "."
    (do skip "*"; return .wildcard (some s)) <|>
      (do return .column { name := ← quoted, table? := some s })) <|>
  pure (.column { name := s })

/-! What contains expressions and statements is read with readers `E` and `S` for these, and at
most `n` elements of each list. -/

variable (b : Builtin) (E : Read Expr) (S : Read Select) (n : Nat)

/-- The members of an `IN`. A sub-select that is the only one has no parentheses of its own. -/
def members : Read (List Expr) :=
  (do let s ← S; skip "))"; return [.subquery s]) <|> closed "))" E n

/-- After the first operand of a group. -/
def afterOperand (l : Expr) : Suffix → Read Expr
  | .isNull => return .unary .isNull l
  | .isNotNull => return .unary .isNotNull l
  | .member negated => return .member l (← members E S n) negated
  | .op o => do
    let r ← E
    skip ")"
    return .binary o l r

/-- After an opening parenthesis. -/
def group : Read Expr :=
  (do skip "-"; let e ← E; skip ")"; return .unary .neg e) <|>
  (do skip "NOT "; let e ← E; skip ")"; return .unary .not e) <|>
  (do let s ← S; skip ")"; return .subquery s) <|>
  (do let l ← E; afterOperand E S n l (← suffix b.dialect))

/-- An expression without the names behind it. -/
def primary : Read Expr := do
  match ← next with
  | .quoted _ s => afterName (String.ofList s)
  | .plain c =>
    if c = '*' then return .wildcard none
    else if c = '(' then group b E S n
    else if c = b.sigil then do
      let _ ← span Char.isDigit
      return .literal (← nextValue)
    else do
      let cs ← span isWordChar
      skip "("
      return .call (String.ofList (c :: cs)) (← closed ")" E n)
  | .unclosed .. => failure

def source : Read Source :=
  (do skip "("; let s ← S; skip ") AS "; return .subquery s (← quoted)) <|>
  (do return .table ⟨← quoted, ← clause " AS " quoted⟩)

def direction : Read Direction :=
  (do skip " ASC"; return .asc) <|> (do skip " DESC"; return .desc)

def orderItem : Read OrderItem := do return ⟨← E, ← opt direction⟩

/-- What follows a select list. -/
def clauses (distinct : Bool) (items : List Expr) : Read Select := do
  let source? ← clause " FROM " (source S)
  let filter? ← clause " WHERE " E
  let groups ← listClause " GROUP BY " E n
  let having? ← clause " HAVING " E
  let orders ← listClause " ORDER BY " (orderItem E) n
  let limit? ← clause " LIMIT " number
  let offset? ← clause " OFFSET " number
  return ⟨distinct, items, source?, filter?, groups, having?, orders, limit?, offset?⟩

def statement : Read Select := do
  skip "SELECT "
  let distinct? ← opt (skip "DISTINCT ")
  let items ← list E n
  clauses E S n distinct?.isSome items

mutual

/-- Expressions that are nested less than `n` deep. -/
def expr : Nat → Read Expr
  | 0 => failure
  | n + 1 => do aliases (← primary b (expr n) (select n) n)

def select : Nat → Read Select
  | 0 => failure
  | n + 1 => statement (expr n) (select n) n

end

def root : Read Root := (do return .select (← select b n)) <|> (do return .expr (← expr b n))

end Read

end SqlTree
