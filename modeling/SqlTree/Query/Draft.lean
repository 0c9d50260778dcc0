import SqlTree.Dialect.Builtin
import SqlTree.Query.Basic

/-!
A query in the making. Every piece is written to the text and to the display alike, except a
literal: the text receives a mark, the display the value, and the value joins the parameters.
The number of a mark is the number of parameters before it, so marks and parameters agree.
-/

namespace SqlTree

structure Draft where
  text : String := ""
  display : String := ""
  params : Array Value := #[]
  log : Array Event := #[]

/-- Writing stops at the first fault; what was logged until then is kept. -/
abbrev Write := EStateM Fault Draft

namespace Write

def require (holds : Bool) (defect : Defect) : Write Unit :=
  if holds then pure () else throw (.malformed defect)

def push (s : String) : Write Unit :=
  modify fun d => { d with text := d.text ++ s, display := d.display ++ s }

/-- One space that only the display shows. -/
def pad : Write Unit :=
  modify fun d => { d with display := d.display ++ " " }

def value (dialect : Dialect) (v : Value) : Write Unit :=
  modify fun d =>
    { d with
      text := d.text ++ dialect.placeholder.mark d.params.size
      display := d.display ++ dialect.inline v
      params := d.params.push v }

/-- A name must not be empty. -/
def name (dialect : Dialect) (role : NameRole) (s : String) : Write Unit := do
  require (s != "") (.emptyName role)
  push (dialect.quoteName s)

def emit (event : Event) : Write Unit :=
  modify fun d => { d with log := d.log.push event }

/-- The token of an operator, or its rejection. -/
def token (dialect : Dialect) (op : BinaryOp) : Write String :=
  match dialect.token? op with
  | some s => pure s
  | none => do
    emit (.rejected op dialect.name)
    throw (.unsupported op dialect.name)

/-! ### What each step does to a draft -/

@[simp] theorem push_apply (s : String) (d : Draft) :
    push s d = .ok () { d with text := d.text ++ s, display := d.display ++ s } := rfl

@[simp] theorem pad_apply (d : Draft) :
    pad d = .ok () { d with display := d.display ++ " " } := rfl

@[simp] theorem value_apply (dialect : Dialect) (v : Value) (d : Draft) :
    value dialect v d =
      .ok () { d with
        text := d.text ++ dialect.placeholder.mark d.params.size
        display := d.display ++ dialect.inline v
        params := d.params.push v } := rfl

@[simp] theorem emit_apply (event : Event) (d : Draft) :
    emit event d = .ok () { d with log := d.log.push event } := rfl

@[simp] theorem require_true (defect : Defect) : require true defect = pure () := rfl

@[simp] theorem require_false (defect : Defect) (d : Draft) :
    require false defect d = .error (.malformed defect) d := rfl

theorem name_of_ne {s : String} (h : s ≠ "") (dialect : Dialect) (role : NameRole) :
    name dialect role s = push (dialect.quoteName s) := by
  simp [name, require, h]

theorem token_of_some {dialect : Dialect} {op : BinaryOp} {s : String}
    (h : dialect.token? op = some s) : token dialect op = pure s := by
  simp [token, h]

/-- A rejection is logged before writing stops. -/
theorem token_of_none {dialect : Dialect} {op : BinaryOp} (h : dialect.token? op = none)
    (d : Draft) :
    token dialect op d =
      .error (.unsupported op dialect.name)
        { d with log := d.log.push (.rejected op dialect.name) } := by
  rw [token, h]
  rfl

end Write

end SqlTree
