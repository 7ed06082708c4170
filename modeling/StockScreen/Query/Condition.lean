import StockScreen.Binary64.Layout
import StockScreen.Stock

namespace StockScreen

inductive Operator where
  | atLeast
  | atMost
  | above
  | below
  | equal
  deriving DecidableEq, Repr

structure InvalidOperator where
  text : Text
  deriving DecidableEq, Repr

namespace Operator

def symbol : Operator → Text
  | atLeast => ['>', '=']
  | atMost => ['<', '=']
  | above => ['>']
  | below => ['<']
  | equal => ['=']

def priority : List Operator := [atLeast, atMost, above, below, equal]

def upTo : Operator → List Operator
  | atLeast => [atLeast]
  | atMost => [atLeast, atMost]
  | above => [atLeast, atMost, above]
  | below => [atLeast, atMost, above, below]
  | equal => [atLeast, atMost, above, below, equal]

def detect? (segment : Text) : Option Operator :=
  priority.find? fun op => occursIn op.symbol segment

def read (text : Text) : Except InvalidOperator Operator :=
  match priority.find? fun op => op.symbol == text.trim with
  | some op => .ok op
  | none => .error ⟨text.trim⟩

/-- The bounds hold unless the opposite comparison does, so a value that is not a number passes every
bound and equals nothing. -/
def compare (op : Operator) (actual threshold : Binary64) : Bool :=
  match op with
  | atLeast => !actual.lt threshold
  | atMost => !threshold.lt actual
  | above => !actual.le threshold
  | below => !threshold.le actual
  | equal => actual.eq threshold

theorem mem_priority (op : Operator) : op ∈ priority := by cases op <;> decide

theorem symbol_injective {p q : Operator} (h : p.symbol = q.symbol) : p = q := by
  cases p <;> cases q <;> first | rfl | exact absurd h (by decide)

end Operator

def InvalidOperator.message (e : InvalidOperator) : Text :=
  "invalid operator '".toList ++ e.text ++ "', expected one of >=, <=, >, <, =".toList

/-- The field is kept as text, so that a condition on an unknown field can be reported. -/
structure Condition where
  field : Text
  operator : Operator
  threshold : Binary64
  deriving DecidableEq

abbrev Query := List Condition

namespace Condition

def known? (c : Condition) : Option Field := Field.named? c.field

def test? (c : Condition) (s : Stock) : Option Bool :=
  c.known?.map fun field => c.operator.compare (s.value field) c.threshold

def text (c : Condition) : Text :=
  c.field ++ ' ' :: c.operator.symbol ++ ' ' :: c.threshold.plain

end Condition

namespace Query

def conjunction : Text := ['A', 'N', 'D']

def text (q : Query) : Text := Text.join (' ' :: conjunction ++ [' ']) (q.map Condition.text)

/-- A condition on an unknown field fails. -/
def accepts (q : Query) (s : Stock) : Bool := q.all fun c => (c.test? s).getD false

def screen (q : Query) (stocks : List Stock) : List Stock := stocks.filter q.accepts

theorem accepts_append (p q : Query) (s : Stock) :
    Query.accepts (p ++ q) s = (p.accepts s && q.accepts s) := List.all_append

theorem screen_append (p q : Query) (stocks : List Stock) :
    Query.screen (p ++ q) stocks = q.screen (p.screen stocks) := by
  simp only [screen, List.filter_filter]
  congr 1
  funext s
  rw [accepts_append, Bool.and_comm]

end Query

end StockScreen
