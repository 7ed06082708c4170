import Mathlib.Data.List.Basic
import StockScreen.Proofs.Binary64.Values
import StockScreen.Proofs.Query.Pasting

namespace StockScreen

namespace Operator

def Relates : Operator → ℚ → ℚ → Prop
  | atLeast, a, b => b ≤ a
  | atMost, a, b => a ≤ b
  | above, a, b => b < a
  | below, a, b => a < b
  | equal, a, b => a = b

inductive Opposite : Operator → Operator → Prop where
  | below : Opposite .below .atLeast
  | above : Opposite .above .atMost

def IsUpper (op : Operator) : Prop := op = .below ∨ op = .atMost

def IsLower (op : Operator) : Prop := op = .above ∨ op = .atLeast

section Comparing

variable {p q op : Operator} {x t u : Binary64} {a b : ℚ}

theorem compare_numbers (hx : x.toRat? = some a) (ht : t.toRat? = some b) (op : Operator) :
    op.compare x t = true ↔ op.Relates a b := by
  have hlt := Binary64.lt_iff (x := x) (y := t)
  have hgt := Binary64.lt_iff (x := t) (y := x)
  have hle := Binary64.le_iff (x := x) (y := t)
  have hge := Binary64.le_iff (x := t) (y := x)
  have heq := Binary64.eq_iff_toRat (x := x) (y := t)
  simp only [hx, ht, Option.mem_some_iff, exists_eq_left'] at hlt hgt hle hge heq
  cases op <;> simp only [compare, Relates, Bool.not_eq_true', ← Bool.not_eq_true]
  case atLeast => rw [hlt, not_lt]
  case atMost => rw [hgt, not_lt]
  case above => rw [hle, not_le]
  case below => rw [hge, not_le]
  case equal => rw [heq, eq_comm]

theorem compare_nan (h : x = .nan ∨ t = .nan) (op : Operator) :
    op.compare x t = true ↔ op ≠ .equal := by
  rcases h with rfl | rfl
  · cases op <;> simp [compare, Binary64.lt, Binary64.le, Binary64.eq]
  · cases x <;> cases op <;> simp [compare, Binary64.lt, Binary64.le, Binary64.eq]

theorem nan_or_numbers (x t : Binary64) :
    (x = .nan ∨ t = .nan) ∨ ∃ a b, x.toRat? = some a ∧ t.toRat? = some b := by
  cases x with
  | nan => exact .inl (.inl rfl)
  | signed =>
    cases t with
    | nan => exact .inl (.inr rfl)
    | signed => exact .inr ⟨_, _, rfl, rfl⟩

theorem not_nan_of_numbers (hx : x.toRat? = some a) (ht : t.toRat? = some b) :
    ¬(x = .nan ∨ t = .nan) := by
  rintro (rfl | rfl) <;> contradiction

theorem Opposite.ne_equal (h : Opposite p q) : p ≠ .equal ∧ q ≠ .equal := by
  cases h <;> decide

theorem Opposite.relates_iff (h : Opposite p q) : q.Relates a b ↔ ¬p.Relates a b := by
  cases h
  · exact not_lt.symm
  · exact not_lt.symm

theorem Opposite.compare_or (h : Opposite p q) (x t : Binary64) :
    p.compare x t = true ∨ q.compare x t = true := by
  rcases nan_or_numbers x t with hnan | ⟨a, b, hx, ht⟩
  · exact .inl ((compare_nan hnan p).mpr h.ne_equal.1)
  · rw [compare_numbers hx ht, compare_numbers hx ht, h.relates_iff]
    exact em _

theorem Opposite.compare_and_iff (h : Opposite p q) (x t : Binary64) :
    p.compare x t = true ∧ q.compare x t = true ↔ x = .nan ∨ t = .nan := by
  rcases nan_or_numbers x t with hnan | ⟨a, b, hx, ht⟩
  · rw [compare_nan hnan, compare_nan hnan]
    exact iff_of_true h.ne_equal hnan
  · rw [compare_numbers hx ht, compare_numbers hx ht, h.relates_iff]
    exact iff_of_false (fun hboth => hboth.2 hboth.1) (not_nan_of_numbers hx ht)

theorem compare_equal_iff (x t : Binary64) :
    equal.compare x t = true ↔ atLeast.compare x t = true ∧ atMost.compare x t = true ∧
      x ≠ .nan ∧ t ≠ .nan := by
  rcases nan_or_numbers x t with hnan | ⟨a, b, hx, ht⟩
  · rw [compare_nan hnan]
    exact iff_of_false (fun h => h rfl) fun h => hnan.elim h.2.2.1 h.2.2.2
  · have hne := not_or.mp (not_nan_of_numbers hx ht)
    rw [compare_numbers hx ht, compare_numbers hx ht, compare_numbers hx ht,
      and_iff_left (show x ≠ .nan ∧ t ≠ .nan from hne)]
    exact le_antisymm_iff.trans and_comm

theorem IsUpper.compare_of_le (hop : op.IsUpper) (h : t.le u = true) (hx : op.compare x t = true) :
    op.compare x u = true := by
  obtain ⟨b, ht, c, hu, hbc⟩ := Binary64.le_iff.mp h
  have hne : op ≠ .equal := by rcases hop with rfl | rfl <;> decide
  cases ha : x.toRat? with
  | none => exact (compare_nan (.inl (Binary64.toRat?_eq_none_iff.mp ha)) op).mpr hne
  | some a =>
    rw [compare_numbers ha hu]
    rw [compare_numbers ha ht] at hx
    rcases hop with rfl | rfl
    · exact lt_of_lt_of_le hx hbc
    · exact le_trans hx hbc

theorem IsLower.compare_of_le (hop : op.IsLower) (h : t.le u = true) (hx : op.compare x u = true) :
    op.compare x t = true := by
  obtain ⟨b, ht, c, hu, hbc⟩ := Binary64.le_iff.mp h
  have hne : op ≠ .equal := by rcases hop with rfl | rfl <;> decide
  cases ha : x.toRat? with
  | none => exact (compare_nan (.inl (Binary64.toRat?_eq_none_iff.mp ha)) op).mpr hne
  | some a =>
    rw [compare_numbers ha ht]
    rw [compare_numbers ha hu] at hx
    rcases hop with rfl | rfl
    · exact lt_of_le_of_lt hbc hx
    · exact le_trans hbc hx

end Comparing

end Operator

namespace Field

variable {field : Field} {op : Operator} {t : Binary64} {stocks : List Stock} {s : Stock}

def select (field : Field) (op : Operator) (t : Binary64) (stocks : List Stock) : List Stock :=
  Query.screen [⟨field.name, op, t⟩] stocks

theorem mem_select_iff (hs : s ∈ stocks) :
    s ∈ field.select op t stocks ↔ op.compare (s.value field) t = true := by
  rw [select, Query.screen_singleton, List.mem_filter, and_iff_right hs]

theorem select_sublist {t u : Binary64}
    (h : ∀ x, op.compare x t = true → op.compare x u = true) :
    (field.select op t stocks).Sublist (field.select op u stocks) := by
  rw [select, select, Query.screen_singleton, Query.screen_singleton]
  exact List.monotone_filter_right stocks fun s => h (s.value field)

/-- Every stock lies on one side of a threshold at least, and on both exactly when there is no
number to compare. Equality is where both inclusive bounds meet, without such stocks. A larger
threshold takes no stock from what an upper bound selects and adds none to what a lower bound
does. -/
theorem select_cuts (field : Field) (stocks : List Stock) (t : Binary64) :
    (∀ s ∈ stocks, ∀ p q, Operator.Opposite p q →
      (s ∈ field.select p t stocks ∨ s ∈ field.select q t stocks) ∧
      (s ∈ field.select p t stocks ∧ s ∈ field.select q t stocks ↔
        s.value field = .nan ∨ t = .nan)) ∧
    (∀ s ∈ stocks, s ∈ field.select .equal t stocks ↔
      s ∈ field.select .atLeast t stocks ∧ s ∈ field.select .atMost t stocks ∧
        s.value field ≠ .nan ∧ t ≠ .nan) ∧
    ∀ u : Binary64, t.le u = true →
      (∀ op : Operator, op.IsUpper →
        (field.select op t stocks).Sublist (field.select op u stocks)) ∧
      (∀ op : Operator, op.IsLower →
        (field.select op u stocks).Sublist (field.select op t stocks)) := by
  refine ⟨fun s hs p q hopposite => ?_, fun s hs => ?_, fun u hle => ⟨fun op hop => ?_,
    fun op hop => ?_⟩⟩
  · rw [mem_select_iff hs, mem_select_iff hs]
    exact ⟨hopposite.compare_or _ t, hopposite.compare_and_iff _ t⟩
  · rw [mem_select_iff hs, mem_select_iff hs, mem_select_iff hs]
    exact Operator.compare_equal_iff _ t
  · exact select_sublist fun x => hop.compare_of_le hle
  · exact select_sublist fun x => hop.compare_of_le hle

def graded : List Stock :=
  [.ofValues ['A'] fun _ => .nan, .ofValues ['B'] fun _ => .signed true .zero,
    .ofValues ['C'] fun _ => .zero, .ofValues ['D'] fun _ => .signed false ⟨1, by decide⟩,
    .ofValues ['E'] fun _ => .signed false .infinity]

theorem select_cuts_at_zero :
    Stock.ofValues ['A'] (fun _ => .nan) ∈ graded ∧ Operator.Opposite .below .atLeast ∧
      (Stock.ofValues ['A'] (fun _ => .nan) ∈ returnOnEquity.select .below .zero graded ∧
        Stock.ofValues ['A'] (fun _ => .nan) ∈ returnOnEquity.select .atLeast .zero graded) ∧
      Stock.ofValues ['B'] (fun _ => .signed true .zero) ∈
        returnOnEquity.select .equal .zero graded ∧
      Binary64.zero.le (.signed true .zero) = true ∧
      (returnOnEquity.select .below .zero graded).Sublist
        (returnOnEquity.select .below (.signed true .zero) graded) ∧
      (returnOnEquity.select .atLeast (.signed true .zero) graded).Sublist
        (returnOnEquity.select .atLeast .zero graded) := by
  have hmem : Stock.ofValues ['A'] (fun _ => .nan) ∈ graded := by decide
  have hzero : Stock.ofValues ['B'] (fun _ => .signed true .zero) ∈ graded := by decide
  have hle : Binary64.zero.le (.signed true .zero) = true := by decide
  obtain ⟨hsides, hequal, hgrown⟩ := select_cuts returnOnEquity graded .zero
  obtain ⟨hupper, hlower⟩ := hgrown _ hle
  refine ⟨hmem, .below, ((hsides _ hmem _ _ .below).2).mpr (.inl (by decide)),
    (hequal _ hzero).mpr (by decide), hle, hupper _ (.inl rfl), hlower _ (.inr rfl)⟩

end Field

end StockScreen
