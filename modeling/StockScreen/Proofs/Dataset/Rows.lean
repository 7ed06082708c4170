import Mathlib.Data.List.Forall2
import StockScreen.Binary64.Layout
import StockScreen.Dataset.Load

namespace StockScreen

theorem forall₂_map {α β : Type} {R : α → β → Prop} {f : α → β} {l : List α}
    (h : ∀ x ∈ l, R x (f x)) : List.Forall₂ R l (l.map f) :=
  List.forall₂_map_right_iff.mpr (List.forall₂_same.mpr h)

theorem Field.exists_index (k : Fin 9) : ∃ field ∈ Field.all, field.index = k := by
  revert k
  decide

def Stock.headings : List Text := nameKey :: Field.all.map Field.name

def Stock.texts (s : Stock) : List Text :=
  s.name :: Field.all.map fun field => (s.value field).plain

theorem Stock.eq_of_values {s t : Stock} (hname : s.name = t.name)
    (hvalue : ∀ field, s.value field = t.value field) : s = t := by
  obtain ⟨name, metrics⟩ := s
  obtain ⟨name', metrics'⟩ := t
  obtain rfl : name = name' := hname
  have hmetrics : metrics = metrics' := by
    apply Vector.ext
    intro k hk
    obtain ⟨field, -, hf⟩ := Field.exists_index ⟨k, hk⟩
    have h := hvalue field
    simp only [Stock.value, hf] at h
    exact h
  rw [hmetrics]

namespace Row

inductive Means (cells : List Text) : Except SkipReason Stock → Prop where
  | tooFewColumns (h : cells.length < 10) : Means cells (.error (.tooFewColumns cells.length))
  | invalidMarketCap {cap : Text} (h : 10 ≤ cells.length) (hcap : cells[1]? = some cap)
    (hnone : Binary64.ofText? cap.trim = none) :
    Means cells (.error (.invalidMarketCap cap.trim))
  | stock {cap : Text} {s : Stock} (h : 10 ≤ cells.length) (hcap : cells[1]? = some cap)
    (hnumber : Binary64.ofText? cap.trim ≠ none) (hname : cells[0]? = some s.name)
    (hvalue : ∀ field : Field, ∃ t, cells[field.index.val + 1]? = some t ∧
      s.value field = (Binary64.ofText? t.trim).getD .zero) : Means cells (.ok s)

variable {cells : List Text} {outcome : Except SkipReason Stock}

theorem cell_eq {field : Field} {t : Text} (h : cells[field.index.val + 1]? = some t) :
    cell cells field = t.trim := by
  rw [cell, List.getD_eq_getElem?_getD, h, Option.getD_some]

theorem exists_cell (h : 10 ≤ cells.length) (field : Field) :
    ∃ t, cells[field.index.val + 1]? = some t := by
  have hk : field.index.val + 1 < cells.length := by omega
  exact ⟨_, List.getElem?_eq_getElem hk⟩

theorem means_read (cells : List Text) : Means cells (read cells) := by
  rw [read]
  split
  · next h => exact .tooFewColumns h
  · next h =>
    have hlen : 10 ≤ cells.length := Nat.le_of_not_lt h
    obtain ⟨cap, hcap⟩ := exists_cell hlen .marketCap
    rw [cell_eq hcap]
    split
    · next hnone => exact .invalidMarketCap hlen hcap (Option.isNone_iff_eq_none.mp hnone)
    · next hsome =>
      refine .stock hlen hcap (by simpa using hsome) ?_ fun field => ?_
      · rw [Stock.ofValues, List.headD_eq_head?_getD, List.head?_eq_getElem?]
        have hk : 0 < cells.length := by omega
        rw [List.getElem?_eq_getElem hk, Option.getD_some]
      · obtain ⟨t, ht⟩ := exists_cell hlen field
        refine ⟨t, ht, ?_⟩
        rw [Stock.value_ofValues, metric, cell_eq ht]

theorem read_of_means (h : Means cells outcome) : read cells = outcome := by
  cases h with
  | tooFewColumns h => rw [read, if_pos h]
  | invalidMarketCap h hcap hnone =>
    have hcell : cell cells .marketCap = _ := cell_eq hcap
    rw [read, if_neg (Nat.not_lt.mpr h), hcell, if_pos (by simp [hnone])]
  | @stock cap s h hcap hnumber hname hvalue =>
    have hcell : cell cells .marketCap = _ := cell_eq hcap
    rw [read, if_neg (Nat.not_lt.mpr h), hcell, if_neg (by simpa using hnumber)]
    congr 1
    refine Stock.eq_of_values ?_ fun field => ?_
    · rw [Stock.ofValues, List.headD_eq_head?_getD, List.head?_eq_getElem?, hname, Option.getD_some]
    · obtain ⟨t, ht, hx⟩ := hvalue field
      rw [Stock.value_ofValues, metric, cell_eq ht, hx]

theorem means_iff : Means cells outcome ↔ read cells = outcome :=
  ⟨read_of_means, fun h => h ▸ means_read cells⟩

end Row

end StockScreen
