import Mathlib.Order.Bounds.Defs
import StockScreen.Listing.Output
import StockScreen.Proofs.Listing.Columns

namespace StockScreen

namespace Text

theorem StandsAt.exists_around {t line : Text} {offset : Nat} (h : StandsAt t line offset) :
    ∃ before after, line = before ++ (t ++ after) ∧ before.length = offset := by
  obtain @⟨before, after, -, -⟩ := h
  exact ⟨before, after, rfl, rfl⟩

end Text

namespace Table

open Text

section Lines

variable {ws : List Nat} {cells : List Text} {cell next line : Text} {k : Nat}

def Apart (ws : List Nat) (line : Text) (k : Nat) (cell next : Text) : Prop :=
  ∃ before gap after, line = before ++ (cell ++ (List.replicate gap ' ' ++ (next ++ after))) ∧
    before.length = start ws k ∧ 2 ≤ gap ∧ before.length + cell.length + gap = start ws (k + 1)

/-- The line goes on to the end of the last cell, and what filled up its column is gone. -/
def Trims (ws : List Nat) (cells : List Text) (line : Text) : Prop :=
  ∃ padding, join [' ', ' '] (List.zipWith padRight ws cells) = line ++ List.replicate padding ' ' ∧
    ∀ last ∈ cells.getLast?, ∀ w ∈ ws.getLast?, last <:+ line ∧ last.length + padding = w

structure Aligned (ws : List Nat) (cells : List Text) (line : Text) : Prop where
  starts : ∀ k cell, cells[k]? = some cell →
    ∃ before after, line = before ++ (cell ++ after) ∧ before.length = start ws k
  apart : ∀ k cell next, cells[k]? = some cell → cells[k + 1]? = some next →
    Apart ws line k cell next
  trimmed : trimEnd (join [' ', ' '] (List.zipWith padRight ws cells)) = line ∧ Trims ws cells line

theorem start_succ (w : Nat) (ws : List Nat) (k : Nat) :
    start (w :: ws) (k + 1) = w + 2 + start ws k := by
  rw [start, List.take_succ_cons, List.map_cons, List.sum_cons, start]

theorem Laid.prefix_line (h : Laid ws cells line) (hcell : cells[0]? = some cell) :
    cell <+: line := by
  obtain ⟨before, after, rfl, hbefore⟩ := (h.standsAt hcell).exists_around
  obtain rfl : before = [] := List.length_eq_zero_iff.mp hbefore
  exact List.prefix_append cell after

theorem Laid.apart (h : Laid ws cells line) (hcell : cells[k]? = some cell)
    (hnext : cells[k + 1]? = some next) : Apart ws line k cell next := by
  induction h generalizing k with
  | last => simp at hnext
  | @next w n ws cells t line hw hrest ih =>
    cases k with
    | zero =>
      obtain rfl : t = cell := by simpa using hcell
      obtain ⟨after, rfl⟩ := hrest.prefix_line (by simpa using hnext)
      refine ⟨[], n + 2, after, rfl, rfl, Nat.le_add_left 2 n, ?_⟩
      rw [start_succ, start, List.length_nil]
      simp only [List.take_zero, List.map_nil, List.sum_nil]
      omega
    | succ k =>
      obtain ⟨before, gap, after, rfl, hbefore, hgap, hlength⟩ :=
        ih (by simpa using hcell) (by simpa using hnext)
      refine ⟨t ++ (List.replicate (n + 2) ' ' ++ before), gap, after, ?_, ?_, hgap, ?_⟩
      · simp only [List.append_assoc]
      · rw [start_succ, List.length_append, List.length_append, List.length_replicate]
        omega
      · rw [start_succ, List.length_append, List.length_append, List.length_replicate]
        omega

theorem Laid.zipWith_ne_nil (h : Laid ws cells line) : List.zipWith padRight ws cells ≠ [] := by
  cases h <;> simp

theorem Laid.trims (h : Laid ws cells line) : Trims ws cells line := by
  induction h with
  | @last w t hw =>
    refine ⟨w - t.length, join_singleton _ _, ?_⟩
    rintro last ⟨⟩ w ⟨⟩
    exact ⟨List.suffix_refl t, Nat.add_sub_cancel' hw⟩
  | @next w n ws cells t line hw hrest ih =>
    obtain ⟨padding, hjoin, hlast⟩ := ih
    refine ⟨padding, ?_, ?_⟩
    · have hn : w - t.length = n := by omega
      rw [List.zipWith_cons_cons, join_cons _ _ hrest.zipWith_ne_nil, hjoin, padRight_gap, hn]
      simp only [List.append_assoc]
    · intro last hl v hv
      have hne : cells ≠ [] ∧ ws ≠ [] := by cases hrest <;> simp
      rw [List.getLast?_cons_of_ne_nil hne.1] at hl
      rw [List.getLast?_cons_of_ne_nil hne.2] at hv
      obtain ⟨hsuffix, hlength⟩ := hlast last hl v hv
      exact ⟨hsuffix.trans ((List.suffix_append _ line).trans (List.suffix_append t _)), hlength⟩

theorem aligned_row (h : Laid ws cells (row ws cells)) : Aligned ws cells (row ws cells) where
  starts _ _ hcell := (h.standsAt hcell).exists_around
  apart _ _ _ hcell hnext := h.apart hcell hnext
  trimmed := ⟨rfl, h.trims⟩

end Lines

section Widths

variable {column : List Text} {rows : List (List Text)} {k w : Nat}

def IsWidth (rows : List (List Text)) (k w : Nat) : Prop :=
  IsGreatest {n | ∃ row ∈ rows, ∃ cell, row[k]? = some cell ∧ cell.length = n} w

theorem exists_length_eq_width (hne : column ≠ []) : ∃ t ∈ column, List.length t = width column := by
  have hlengths : column.map List.length ≠ [] := by simpa using hne
  obtain ⟨m, hm⟩ := Option.ne_none_iff_exists'.mp (mt List.max?_eq_none_iff.mp hlengths)
  have hwidth : width column = m := by
    rw [width, List.foldl_max, hm, Option.getD_some, Nat.zero_max]
  rw [hwidth]
  exact List.mem_map.mp (List.max?_mem hm)

theorem isWidth_widths (hne : rows ≠ []) (hrows : ∀ row ∈ rows, row.length = headings.length)
    (hw : (widths rows)[k]? = some w) : IsWidth rows k w := by
  obtain ⟨hk, rfl⟩ : k < headings.length ∧ width (rows.map fun row => row.getD k []) = w := by
    simpa [widths, List.getElem?_eq_some_iff] using hw
  have hcell : ∀ row ∈ rows, row[k]? = some (row.getD k []) := by
    intro row hrow
    rw [List.getD_eq_getElem?_getD, List.getElem?_eq_getElem ((hrows row hrow).symm ▸ hk),
      Option.getD_some]
  constructor
  · obtain ⟨t, ht, hlength⟩ := exists_length_eq_width (mt List.map_eq_nil_iff.mp hne)
    obtain ⟨row, hrow, rfl⟩ := List.mem_map.mp ht
    exact ⟨row, hrow, _, hcell row hrow, hlength⟩
  · rintro n ⟨row, hrow, cell, hget, rfl⟩
    obtain rfl : row.getD k [] = cell := Option.some.inj ((hcell row hrow).symm.trans hget)
    exact width_le_iff.mp (Nat.le_refl _) _ (List.mem_map_of_mem hrow)

end Widths

section Stocks

variable {listed : List Stock}

theorem stocks_eq_some (h : ∀ s ∈ listed, s.name.length ≤ widthLimit) :
    stocks listed = some ((headings :: listed.map cells).map
      (row (widths (headings :: listed.map cells)))) := by
  have hsome : stocks listed ≠ none := by
    rw [ne_eq, stocks_eq_none_iff]
    rintro ⟨s, hs, hwide⟩
    exact absurd (h s hs) (Nat.not_le_of_lt hwide)
  obtain ⟨lines, hlines⟩ := Option.ne_none_iff_exists'.mp hsome
  rw [hlines, (stocks_eq_some_iff.mp hlines).2]

theorem widthLimit_lt_length (c : Char) : widthLimit < (List.replicate 65536 c).length := by
  rw [List.length_replicate, widthLimit]
  decide

theorem exists_aligned (h : ∀ s ∈ listed, s.name.length ≤ widthLimit) :
    ∃ ws lines, stocks listed = some lines ∧ ws.length = Stock.headings.length ∧
      (∀ k w, ws[k]? = some w → IsWidth (Stock.headings :: listed.map Stock.texts) k w) ∧
      List.Forall₂ (Aligned ws) (Stock.headings :: listed.map Stock.texts) lines := by
  rw [← rows_eq]
  have hlength : ∀ row ∈ headings :: listed.map cells, row.length = headings.length :=
    fun row hrow => (rows_complete listed row hrow).1
  refine ⟨widths (headings :: listed.map cells), _, stocks_eq_some h, ?_,
    fun k w hw => isWidth_widths (List.cons_ne_nil _ _) hlength hw, ?_⟩
  · rw [widths, List.length_map, List.length_range]
    rfl
  · exact forall₂_map fun row hrow => aligned_row (rows_laid listed row hrow)

end Stocks

end Table

namespace Content

theorem text?_table (listed : List Stock) (pretty : Bool) :
    (stocks listed).text? .table pretty = (Table.stocks listed).map Text.ofLines := rfl

def TooWide (content : Content) (format : Format) : Prop :=
  format = .table ∧ ∃ listed, content = .stocks listed ∧
    ∃ s ∈ listed, Table.widthLimit < s.name.length

theorem text?_eq_none_iff {content : Content} {format : Format} (pretty : Bool) :
    content.text? format pretty = none ↔ content.TooWide format := by
  cases format with
  | json => simp [text?, textLines, TooWide]
  | lines => simp [text?, textLines, TooWide]
  | table =>
    cases content with
    | stocks listed => simp [text?_table, Table.stocks_eq_none_iff, TooWide]
    | report r => simp [text?, textLines, Table.lines, TooWide]
    | fields names => simp [text?, textLines, Table.lines, TooWide]

/-- There is a table unless a name is too long for one. Its lines are one of headings and one a stock
in their order, with their cells in the same columns. -/
theorem stocks_aligned (listed : List Stock) (pretty : Bool) :
    ((stocks listed).text? .table pretty = none ↔
      ∃ s ∈ listed, Table.widthLimit < s.name.length) ∧
    ((∀ s ∈ listed, s.name.length ≤ Table.widthLimit) → ∃ ws lines,
      (stocks listed).text? .table pretty = some (lines.flatMap fun line => line ++ ['\n']) ∧
      ws.length = Stock.headings.length ∧
      (∀ k w, ws[k]? = some w → Table.IsWidth (Stock.headings :: listed.map Stock.texts) k w) ∧
      List.Forall₂ (Table.Aligned ws) (Stock.headings :: listed.map Stock.texts) lines) := by
  rw [text?_table]
  constructor
  · rw [Option.map_eq_none_iff, Table.stocks_eq_none_iff]
  · intro h
    obtain ⟨ws, lines, hlines, hlength, hwidths, haligned⟩ := Table.exists_aligned h
    refine ⟨ws, lines, ?_, hlength, hwidths, haligned⟩
    rw [hlines, Option.map_some]
    rfl

def oddNames : List Stock :=
  [.ofValues "\u682ae\u0301  ".toList fun _ => .nan, .ofValues [] fun _ => .signed true .infinity]

theorem stocks_aligned_of_odd_names :
    (∀ s ∈ oddNames, s.name.length ≤ Table.widthLimit) ∧
      ∃ ws lines, (stocks oddNames).text? .table false =
          some (lines.flatMap fun line => line ++ ['\n']) ∧
        (∀ k w, ws[k]? = some w → Table.IsWidth (Stock.headings :: oddNames.map Stock.texts) k w) ∧
        List.Forall₂ (Table.Aligned ws) (Stock.headings :: oddNames.map Stock.texts) lines := by
  have h : ∀ s ∈ oddNames, s.name.length ≤ Table.widthLimit := by decide
  obtain ⟨ws, lines, htext, -, hwidths, haligned⟩ := (stocks_aligned oddNames false).2 h
  exact ⟨h, ws, lines, htext, hwidths, haligned⟩

theorem no_table_of_wide_name :
    (stocks [.ofValues (List.replicate 65536 'n') fun _ => .zero]).text? .table false = none := by
  rw [text?_table, Option.map_eq_none_iff, Table.stocks_eq_none_iff]
  exact ⟨_, List.mem_singleton_self _, Table.widthLimit_lt_length 'n'⟩

end Content

end StockScreen
