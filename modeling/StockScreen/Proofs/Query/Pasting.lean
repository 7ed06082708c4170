import StockScreen.Dataset.Load
import StockScreen.Json.Value
import StockScreen.Proofs.Binary64.Tokens
import StockScreen.Proofs.Query.Spacing

namespace StockScreen

open Literal

namespace Binary64

inductive Shown (x : Binary64) : Text → Prop where
  | plain : Shown x x.plain
  | document (hfinite : x.isFinite = true) : Shown x (Json.numberText x)

theorem Shown.exists_spelled {x : Binary64} {number : Text} (h : x.Shown number) :
    ∃ l, Spelled number l ∧ l.value = x ∧
      (x.isFinite = true ∨ l.body = .infinity ∨ l.body = .nan) := by
  cases h with
  | plain => exact x.spelled_plain
  | document hfinite =>
    cases x with
    | nan => contradiction
    | signed negative m =>
      have hm : m.isInfinite = false := by simpa [isFinite] using hfinite
      have hrank : m.rank < infinityRank := lt_of_le_of_ne m.rank_le (beq_eq_false_iff_ne.mp hm)
      obtain ⟨whole, fraction, exponent, hs, hv⟩ := spelled_document negative hrank
      rw [Json.numberText, if_neg (ne_true_of_eq_false hm)]
      exact ⟨_, hs, hv, .inl hfinite⟩

theorem eq_signed_iff {s t : Bool} {m n : Magnitude} :
    (signed s m).eq (signed t n) = true ↔ m = .zero ∧ n = .zero ∨ signed s m = signed t n := by
  have hrank {k : Magnitude} : k = .zero ↔ k.rank = 0 :=
    ⟨congrArg Magnitude.rank, fun h => Magnitude.eq_of_rank h⟩
  have heq : m = n ↔ m.rank = n.rank := ⟨congrArg Magnitude.rank, Magnitude.eq_of_rank⟩
  rw [eq, decide_eq_true_iff, hrank, hrank, signed.injEq, heq, position, position]
  cases s <;> cases t <;> simp <;> omega

theorem eq_iff {x y : Binary64} :
    x.eq y = true ↔ x ≠ .nan ∧ x = y ∨ ∃ s t, x = .signed s .zero ∧ y = .signed t .zero := by
  cases x with
  | nan => simp [eq]
  | signed s m =>
    cases y with
    | nan => simp [eq]
    | signed t n =>
      rw [eq_signed_iff]
      simp
      tauto

end Binary64

def Operator.IsReflexive (op : Operator) : Prop := op = .equal ∨ op = .atLeast ∨ op = .atMost

theorem Operator.compare_self {x : Binary64} (hx : x ≠ .nan) (op : Operator) :
    op.compare x x = true ↔ op.IsReflexive := by
  cases x with
  | nan => exact absurd rfl hx
  | signed s m => cases op <;> simp [compare, Binary64.lt, Binary64.le, Binary64.eq, IsReflexive]

theorem Condition.Canonical.ofText_number {c : Condition} (hc : c.Canonical) {number : Text}
    (h : c.threshold.Shown number) :
    Report.ofText (c.field ++ ' ' :: c.operator.symbol ++ ' ' :: number) = ⟨[c], []⟩ := by
  obtain ⟨l, hs, hv, hr⟩ := h.exists_spelled
  exact Report.ofText_spelled hc hs hv hr

theorem Field.canonical (field : Field) (op : Operator) (x : Binary64) :
    Condition.Canonical ⟨field.name, op, x⟩ := by
  have hname : ∀ field ∈ all, ∀ op ∈ Operator.priority,
      field.name.trim = field.name ∧ ¬Query.conjunction <:+: field.name ∧
        op.FreeUpTo field.name := by decide
  exact hname field field.mem_all op op.mem_priority

theorem Query.screen_singleton (field : Field) (op : Operator) (x : Binary64)
    (stocks : List Stock) :
    Query.screen [⟨field.name, op, x⟩] stocks =
      stocks.filter fun s => op.compare (s.value field) x := by
  have hknown : Condition.known? ⟨field.name, op, x⟩ = some field := field.named?_name
  refine List.filter_congr fun s _ => ?_
  simp [Query.accepts, Condition.test?, hknown]

namespace Dataset

variable {d : Dataset} {s : Stock} {field : Field} {number : Text}

/-- A metric of a stock as it is shown, pasted after its field and an operator, is a query of one
condition. Equality selects exactly the stocks with that number there, the stock itself among them;
so do both bounds with it, and the strict comparisons leave it out. The two zeros are the same number
for this purpose. -/
theorem screen_shown (hs : s ∈ d.stocks) (hnan : s.value field ≠ .nan)
    (hshown : (s.value field).Shown number) :
    (∀ op : Operator,
      (Report.ofText (field.name ++ ' ' :: op.symbol ++ ' ' :: number)).dropped = [] ∧
      (s ∈ d.screen (field.name ++ ' ' :: op.symbol ++ ' ' :: number) ↔ op.IsReflexive)) ∧
    d.screen (field.name ++ ' ' :: Operator.equal.symbol ++ ' ' :: number) =
      d.stocks.filter (fun t => (t.value field).eq (s.value field)) ∧
    ∀ t : Stock, (t.value field).eq (s.value field) = true ↔ t.value field = s.value field ∨
      ∃ a b, t.value field = .signed a .zero ∧ s.value field = .signed b .zero := by
  have hread (op : Operator) :
      Report.ofText (field.name ++ ' ' :: op.symbol ++ ' ' :: number) =
        ⟨[⟨field.name, op, s.value field⟩], []⟩ :=
    (field.canonical op (s.value field)).ofText_number hshown
  have hscreen (op : Operator) :
      d.screen (field.name ++ ' ' :: op.symbol ++ ' ' :: number) =
        d.stocks.filter fun t => op.compare (t.value field) (s.value field) := by
    rw [screen, Query.ofText, hread, Query.screen_singleton]
  refine ⟨fun op => ⟨?_, ?_⟩, hscreen .equal, fun t => ?_⟩
  · rw [hread]
  · rw [hscreen, List.mem_filter, Operator.compare_self hnan]
    exact and_iff_right hs
  · rw [Binary64.eq_iff]
    exact or_congr_left (and_iff_right_of_imp fun h => h.symm ▸ hnan)

def growing (name : Text) (growth : Binary64) : Stock :=
  .ofValues name fun field => if field = .revenueGrowth then growth else .nan

def millionth : Binary64 := .signed false ⟨0x3EB0C6F7A0B5ED8D, by decide⟩

def small : Dataset :=
  ofStocks [growing ['A'] (.signed true .zero), growing ['B'] .zero, growing ['C'] millionth]

theorem screen_shown_small :
    small.screen "Revenue Growth = -0.0".toList =
        [growing ['A'] (.signed true .zero), growing ['B'] .zero] ∧
      (Report.ofText "Revenue Growth <= 1e-6".toList).dropped = [] ∧
      growing ['C'] millionth ∈ small.screen "Revenue Growth <= 1e-6".toList := by
  have hzero : "Revenue Growth = -0.0".toList = Field.revenueGrowth.name ++
      ' ' :: Operator.equal.symbol ++ ' ' :: Json.numberText (.signed true .zero) := by
    decide +kernel
  have hsmall : "Revenue Growth <= 1e-6".toList = Field.revenueGrowth.name ++
      ' ' :: Operator.atMost.symbol ++ ' ' :: Json.numberText millionth := by decide +kernel
  have hshown {x : Binary64} (hx : x.isFinite = true) (name : Text) :
      ((growing name x).value .revenueGrowth).Shown (Json.numberText x) := .document hx
  obtain ⟨-, hequal, -⟩ := screen_shown (d := small) (by decide) (by decide)
    (hshown (x := .signed true .zero) rfl ['A'])
  obtain ⟨hread, -⟩ := screen_shown (d := small) (by decide) (by decide)
    (hshown (x := millionth) rfl ['C'])
  obtain ⟨hdropped, hmem⟩ := hread .atMost
  have hselected : small.stocks.filter (fun t => (t.value .revenueGrowth).eq
      ((growing ['A'] (.signed true .zero)).value .revenueGrowth)) =
      [growing ['A'] (.signed true .zero), growing ['B'] .zero] := by decide
  rw [hzero, hsmall]
  exact ⟨hequal.trans hselected, hdropped, hmem.mpr (.inr (.inr rfl))⟩

end Dataset

end StockScreen
