import StockScreen.Binary64.Basic
import StockScreen.Text.Basic

namespace StockScreen

inductive Field where
  | marketCap
  | priceEarnings
  | returnOnEquity
  | debtEquity
  | dividendYield
  | revenueGrowth
  | earningsGrowth
  | currentRatio
  | grossMargin
  deriving DecidableEq, Repr

structure UnknownField where
  text : Text
  deriving DecidableEq, Repr

namespace Field

def all : List Field :=
  [marketCap, priceEarnings, returnOnEquity, debtEquity, dividendYield, revenueGrowth,
    earningsGrowth, currentRatio, grossMargin]

def name : Field → Text
  | marketCap => "Market Capitalization".toList
  | priceEarnings => "P/E Ratio".toList
  | returnOnEquity => "ROE".toList
  | debtEquity => "Debt/Equity Ratio".toList
  | dividendYield => "Dividend Yield".toList
  | revenueGrowth => "Revenue Growth".toList
  | earningsGrowth => "EPS Growth".toList
  | currentRatio => "Current Ratio".toList
  | grossMargin => "Gross Margin".toList

def index : Field → Fin 9
  | marketCap => 0
  | priceEarnings => 1
  | returnOnEquity => 2
  | debtEquity => 3
  | dividendYield => 4
  | revenueGrowth => 5
  | earningsGrowth => 6
  | currentRatio => 7
  | grossMargin => 8

def named? (text : Text) : Option Field := all.find? fun field => field.name == text

def read (text : Text) : Except UnknownField Field :=
  match named? text with
  | some field => .ok field
  | none => .error ⟨text⟩

theorem mem_all (field : Field) : field ∈ all := by cases field <;> decide

theorem index_injective {f g : Field} (h : f.index = g.index) : f = g := by
  cases f <;> cases g <;> first | rfl | cases h

theorem named?_name (field : Field) : named? field.name = some field := by
  cases field <;> decide

theorem name_injective {f g : Field} (h : f.name = g.name) : f = g := by
  have hf := named?_name f
  rw [h, named?_name g] at hf
  exact (Option.some.inj hf).symm

theorem named?_eq_some_iff {text : Text} {field : Field} :
    named? text = some field ↔ field.name = text := by
  constructor
  · intro h
    simpa using List.find?_some h
  · rintro rfl
    exact named?_name field

end Field

def UnknownField.message (e : UnknownField) : Text :=
  "unknown field '".toList ++ e.text ++ "', expected one of: ".toList ++
    Text.join ", ".toList (Field.all.map Field.name)

structure Stock where
  name : Text
  metrics : Vector Binary64 9
  deriving DecidableEq

namespace Stock

def nameKey : Text := "Stock Name".toList

def ofValues (name : Text) (value : Field → Binary64) : Stock :=
  ⟨name, #v[value .marketCap, value .priceEarnings, value .returnOnEquity, value .debtEquity,
    value .dividendYield, value .revenueGrowth, value .earningsGrowth, value .currentRatio,
    value .grossMargin]⟩

def value (s : Stock) (field : Field) : Binary64 := s.metrics[field.index]

def set (s : Stock) (field : Field) (x : Binary64) : Stock :=
  ⟨s.name, s.metrics.set field.index x⟩

def values (s : Stock) : List Binary64 := Field.all.map s.value

theorem value_ofValues (name : Text) (value : Field → Binary64) (field : Field) :
    (ofValues name value).value field = value field := by cases field <;> rfl

theorem value_set (s : Stock) (f g : Field) (x : Binary64) :
    (s.set f x).value g = if f = g then x else s.value g := by
  by_cases h : f = g
  · subst h
    simp [set, value]
  · have hi : f.index.val ≠ g.index.val := fun e => h (Field.index_injective (Fin.ext e))
    simp [set, value, h, hi]

end Stock

end StockScreen
