import SqlTree.Text
import SqlTree.Tree.Basic

/-!
SQL functions. A function is its name, so one from the catalog and one declared under the same
name are the same function, and calls of the two are the same expression.
-/

namespace SqlTree

structure SqlFunction where
  name : String
  deriving DecidableEq

namespace SqlFunction

/-- A function outside the catalog. -/
def declare (name : String) : SqlFunction := ⟨name⟩

/-- Arguments are not counted: a function may be called with any number of them. -/
def call (f : SqlFunction) (args : List Expr) : Expr := .call f.name args

def avg : SqlFunction := ⟨"AVG"⟩
def count : SqlFunction := ⟨"COUNT"⟩
def distinct : SqlFunction := ⟨"DISTINCT"⟩
def max : SqlFunction := ⟨"MAX"⟩
def min : SqlFunction := ⟨"MIN"⟩
def sum : SqlFunction := ⟨"SUM"⟩

def aggregates : List SqlFunction := [avg, count, distinct, max, min, sum]

def abs : SqlFunction := ⟨"ABS"⟩
def coalesce : SqlFunction := ⟨"COALESCE"⟩
def left : SqlFunction := ⟨"LEFT"⟩
def length : SqlFunction := ⟨"LENGTH"⟩
def lower : SqlFunction := ⟨"LOWER"⟩
def ltrim : SqlFunction := ⟨"LTRIM"⟩
def random : SqlFunction := ⟨"RANDOM"⟩
def right : SqlFunction := ⟨"RIGHT"⟩
def round : SqlFunction := ⟨"ROUND"⟩
def rtrim : SqlFunction := ⟨"RTRIM"⟩
def substr : SqlFunction := ⟨"SUBSTR"⟩
def trim : SqlFunction := ⟨"TRIM"⟩
def upper : SqlFunction := ⟨"UPPER"⟩

def scalars : List SqlFunction :=
  [abs, coalesce, left, length, lower, ltrim, random, right, round, rtrim, substr, trim, upper]

def currentTimestamp : SqlFunction := ⟨"CURRENT_TIMESTAMP"⟩
def day : SqlFunction := ⟨"DAY"⟩
def hour : SqlFunction := ⟨"HOUR"⟩
def month : SqlFunction := ⟨"MONTH"⟩
def now : SqlFunction := ⟨"NOW"⟩
def year : SqlFunction := ⟨"YEAR"⟩

def temporal : List SqlFunction := [currentTimestamp, day, hour, month, now, year]

def catalog : List SqlFunction := aggregates ++ scalars ++ temporal

/-- The catalog's function of a name, however its ASCII letters are written. -/
def lookup? (name : String) : Option SqlFunction :=
  catalog.find? fun f => Text.sameIgnoringCase f.name name

theorem call_declare (name : String) (args : List Expr) :
    (declare name).call args = .call name args := rfl

end SqlFunction

end SqlTree
