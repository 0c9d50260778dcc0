import Mathlib.Data.List.Induction
import SqlTree.Proofs.Literals

/-!
What a statement owes to the steps of its growth.

Each clause is made by the steps that are about it, and is the same in whatever order they come
between the others: lists are made of all items in order, conditions are joined from the left, of
sources and numbers the last counts. So a statement is known as soon as it is known, for each
clause, what the steps say about it.
-/

namespace SqlTree

namespace Select

/-! ### What a step says about each clause -/

namespace Step

@[simp] def items : Step → List Expr
  | .column e => [e]
  | .columns es => es
  | _ => []

@[simp] def source? : Step → Option Source
  | .source x => some x
  | _ => none

@[simp] def groups : Step → List Expr
  | .groupBy es => es
  | _ => []

@[simp] def orders : Step → List OrderItem
  | .orderBy o => [o]
  | _ => []

@[simp] def limit? : Step → Option Nat
  | .limit n => some n
  | _ => none

@[simp] def offset? : Step → Option Nat
  | .offset n => some n
  | _ => none

end Step

end Select

/-! ### The literals of conditions and lists -/

namespace Select

end Select

end SqlTree
