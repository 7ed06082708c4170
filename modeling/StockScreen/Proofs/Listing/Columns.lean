import Mathlib.Data.List.Forall2
import StockScreen.Listing.Output
import StockScreen.Proofs.Binary64.Tokens
import StockScreen.Proofs.Dataset.Rows
import StockScreen.Proofs.Text.Pieces
import StockScreen.Proofs.Text.Trimming

namespace StockScreen

namespace Text

inductive StandsAt (t : Text) : Text → Nat → Prop where
  | mk {before after : Text} (hbefore : before = [] ∨ [' ', ' '] <:+ before)
    (hafter : after = [] ∨ [' ', ' '] <+: after) : StandsAt t (before ++ (t ++ after)) before.length

def Solid (t : Text) : Prop := t ≠ [] ∧ trimEnd t = t

instance (t : Text) : Decidable (Solid t) := inferInstanceAs (Decidable (_ ∧ _))

variable {t : Text}

theorem solid_of_not_blank (hne : t ≠ []) (h : ∀ c ∈ t, isBlank c = false) : Solid t :=
  ⟨hne, trimEnd_of_not_blank h⟩

theorem suffix_gap (n : Nat) : [' ', ' '] <:+ List.replicate (n + 2) ' ' := by
  rw [← List.replicate_append_replicate]
  exact List.suffix_append _ _

theorem StandsAt.after {line : Text} {offset : Nat} (h : StandsAt t line offset) (p : Text)
    (n : Nat) :
    StandsAt t (p ++ (List.replicate (n + 2) ' ' ++ line)) (p.length + (n + 2) + offset) := by
  obtain @⟨before, after, hbefore, hafter⟩ := h
  have hgap : [' ', ' '] <:+ p ++ (List.replicate (n + 2) ' ' ++ before) := by
    rcases hbefore with rfl | hbefore
    · rw [List.append_nil]
      exact (suffix_gap n).trans (List.suffix_append p _)
    · exact hbefore.trans ((List.suffix_append _ before).trans (List.suffix_append p _))
  have hplace : StandsAt t (p ++ (List.replicate (n + 2) ' ' ++ before) ++ (t ++ after)) _ :=
    .mk (.inr hgap) hafter
  simpa [Nat.add_assoc] using hplace

end Text

namespace Binary64

theorem length_positional_le {d : Decimal} (hd : d.Brief) : (positional d).length ≤ 328 := by
  obtain ⟨hs, hmin, hmax⟩ := hd
  have hlen := length_ofNat_le (k := 20) (by decide) (Nat.lt_of_le_of_lt hs (by decide))
  rw [positional]
  generalize Text.ofNat d.significand = digits at hlen
  split
  · rw [List.length_append, zeros, List.length_replicate]
    omega
  · split
    · rw [List.length_append, List.length_take, List.length_cons, List.length_drop]
      omega
    · rw [List.length_append, List.length_append, zeros, List.length_replicate, List.length_cons,
        List.length_cons, List.length_nil]
      omega

theorem length_plain_le (x : Binary64) : x.plain.length ≤ 329 := by
  cases x with
  | nan => decide
  | signed negative m =>
    have hsign : (signText negative).length ≤ 1 := by cases negative <;> decide
    rw [plain, List.length_append]
    split
    · have hinf : ['i', 'n', 'f'].length = 3 := rfl
      omega
    · next hi =>
      have hfinite : m.rank < infinityRank :=
        Nat.lt_of_le_of_ne m.rank_le fun he => hi (beq_iff_eq.mpr he)
      have hle := length_positional_le (Magnitude.shortest_brief .upward hfinite)
      omega

theorem mem_alphabet_of_mem_plain {x : Binary64} {c : Char} (hc : c ∈ x.plain) :
    c ∈ Literal.alphabet := by
  obtain ⟨l, hl, -⟩ := x.spelled_plain
  exact hl.mem_alphabet c hc

theorem solid_plain (x : Binary64) : Text.Solid x.plain := by
  have halphabet : ∀ c ∈ Literal.alphabet, Text.isBlank c = false := by decide
  have hread := x.ofText?_plain
  refine Text.solid_of_not_blank (fun he => ?_) fun c hc =>
    halphabet c (mem_alphabet_of_mem_plain hc)
  rw [he] at hread
  cases hread

end Binary64

namespace Table

open Text

section Rows

variable {ws : List Nat} {cells : List Text} {cell line : Text} {k : Nat}

def Fits (ws : List Nat) (cells : List Text) : Prop :=
  List.Forall₂ (fun w cell => List.length cell ≤ w) ws cells

def start (ws : List Nat) (k : Nat) : Nat := ((ws.take k).map (· + 2)).sum

/-- A line with each cell in its column. All but the last are filled up to the column's width, and
two spaces more set them off. -/
inductive Laid : List Nat → List Text → Text → Prop where
  | last {w : Nat} {cell : Text} (hw : List.length cell ≤ w) : Laid [w] [cell] cell
  | next {w n : Nat} {ws : List Nat} {cells : List Text} {cell line : Text}
      (hw : List.length cell + n = w) (hrest : Laid ws cells line) :
      Laid (w :: ws) (cell :: cells) (cell ++ (List.replicate (n + 2) ' ' ++ line))

theorem Laid.ne_nil (h : Laid ws cells line) (hlast : ∀ last ∈ cells.getLast?, last ≠ []) :
    line ≠ [] := by
  cases h with
  | last => exact hlast _ rfl
  | next => simp

theorem Laid.standsAt (h : Laid ws cells line) (hk : cells[k]? = some cell) :
    StandsAt cell line (start ws k) := by
  induction h generalizing k with
  | @last w t hw =>
    obtain ⟨rfl, rfl⟩ : k = 0 ∧ t = cell := by cases k <;> simp_all
    have hplace : StandsAt t ([] ++ (t ++ [])) 0 := .mk (.inl rfl) (.inl rfl)
    simpa [start] using hplace
  | @next w n ws cells t line hw hrest ih =>
    cases k with
    | zero =>
      obtain rfl : t = cell := by simpa using hk
      have hplace : StandsAt t ([] ++ (t ++ (List.replicate (n + 2) ' ' ++ line))) 0 :=
        .mk (.inl rfl) (.inr (List.prefix_append [' ', ' '] (List.replicate n ' ' ++ line)))
      simpa [start] using hplace
    | succ k =>
      have hplace := (ih (by simpa using hk)).after t n
      rw [← Nat.add_assoc, hw] at hplace
      simpa [start] using hplace

theorem padRight_gap (w : Nat) (t rest : Text) :
    padRight w t ++ ([' ', ' '] ++ rest) =
      t ++ (List.replicate (w - List.length t + 2) ' ' ++ rest) := by
  rw [padRight, List.append_assoc, ← List.replicate_append_replicate, List.append_assoc]
  rfl

theorem row_singleton (w : Nat) (hcell : Solid cell) : row [w] [cell] = cell := by
  have hblanks : Blanks (List.replicate (w - cell.length) ' ') :=
    fun _ hc => List.eq_of_mem_replicate hc ▸ rfl
  rw [row, List.zipWith_cons_cons, List.zipWith_nil_left, join_singleton, padRight,
    trimEnd_append_right hblanks, hcell.2]

theorem row_cons (w : Nat) (t : Text) (hrest : row ws cells ≠ []) :
    row (w :: ws) (t :: cells) = padRight w t ++ ([' ', ' '] ++ row ws cells) := by
  have hne : List.zipWith padRight ws cells ≠ [] := by
    intro he
    rw [row, he] at hrest
    exact hrest rfl
  -- What follows the gap is not blank, so trimming does not reach the gap.
  have hsolid : ¬Blanks (join [' ', ' '] (List.zipWith padRight ws cells)) :=
    fun hb => hrest (trimEnd_of_blanks hb)
  rw [row, List.zipWith_cons_cons, join_cons _ _ hne, ← List.append_assoc,
    trimEnd_append_of_not_blanks hsolid, List.append_assoc, row]

theorem row_laid (hfits : Fits ws cells) (hne : cells ≠ [])
    (hlast : ∀ last ∈ cells.getLast?, Solid last) : Laid ws cells (row ws cells) := by
  induction hfits with
  | nil => exact absurd rfl hne
  | @cons w t ws cells hw hrest ih =>
    rcases cells with _ | ⟨next, cells⟩
    · rw [List.forall₂_nil_right_iff.mp hrest, row_singleton w (hlast t rfl)]
      exact .last hw
    · have hlast' : ∀ last ∈ (next :: cells).getLast?, Solid last := by simpa using hlast
      have hlaid := ih (List.cons_ne_nil _ _) hlast'
      rw [row_cons w t (hlaid.ne_nil fun last h => (hlast' last h).1), padRight_gap]
      exact .next (Nat.add_sub_cancel' hw) hlaid

end Rows

section Widths

variable {column : List Text} {rows : List (List Text)} {cells : List Text}

theorem foldl_max_le_iff {lengths : List Nat} {least n : Nat} :
    lengths.foldl max least ≤ n ↔ least ≤ n ∧ ∀ length ∈ lengths, length ≤ n := by
  induction lengths generalizing least with
  | nil => simp
  | cons length lengths ih =>
    rw [List.foldl_cons, ih, Nat.max_le, List.forall_mem_cons, and_assoc]

theorem width_le_iff {n : Nat} : width column ≤ n ↔ ∀ t ∈ column, List.length t ≤ n := by
  rw [width, foldl_max_le_iff, List.forall_mem_map]
  exact and_iff_right (Nat.zero_le n)

theorem fits_widths (hmem : cells ∈ rows) (hlength : cells.length = headings.length) :
    Fits (widths rows) cells := by
  refine List.forall₂_iff_get.mpr ⟨by simp [widths, hlength], fun k hk hk' => ?_⟩
  have hcell : cells[k] ∈ rows.map fun row => row.getD k [] :=
    List.mem_map.mpr ⟨cells, hmem, by simp [hk']⟩
  simpa [widths] using width_le_iff.mp (Nat.le_refl _) _ hcell

theorem widths_le_iff {n : Nat} : (∀ w ∈ widths rows, w ≤ n) ↔
    ∀ row ∈ rows, ∀ k < headings.length, (row.getD k []).length ≤ n := by
  rw [widths, List.forall_mem_map]
  simp only [List.mem_range, width_le_iff, List.forall_mem_map]
  exact ⟨fun h row hrow k hk => h k hk row hrow, fun h k hk row hrow => h row hrow k hk⟩

end Widths

section Stocks

variable {s : Stock} {listed : List Stock} {lines : List Text} {heading cell : Text} {i k : Nat}

theorem rows_eq (listed : List Stock) :
    headings :: listed.map cells = Stock.headings :: listed.map Stock.texts := rfl

theorem length_cells (s : Stock) : (cells s).length = headings.length := rfl

theorem solid_last_cell (s : Stock) : ∀ last ∈ (cells s).getLast?, Solid last := by
  rintro last ⟨⟩
  exact (s.value .grossMargin).solid_plain

theorem solid_last_heading : ∀ last ∈ headings.getLast?, Solid last := by decide

theorem stocks_eq_some_iff : stocks listed = some lines ↔
    (∀ w ∈ widths (headings :: listed.map cells), w ≤ widthLimit) ∧
      lines = (headings :: listed.map cells).map (row (widths (headings :: listed.map cells))) := by
  simp only [stocks, List.all_eq_true, decide_eq_true_eq, Option.ite_none_right_eq_some,
    Option.some.injEq]
  exact and_congr_right fun _ => eq_comm

theorem rows_complete (listed : List Stock) : ∀ row ∈ headings :: listed.map cells,
    row.length = headings.length ∧ ∀ last ∈ row.getLast?, Solid last := by
  rw [List.forall_mem_cons, List.forall_mem_map]
  exact ⟨⟨rfl, solid_last_heading⟩, fun s _ => ⟨length_cells s, solid_last_cell s⟩⟩

theorem rows_laid (listed : List Stock) : ∀ row ∈ headings :: listed.map cells,
    Laid (widths (headings :: listed.map cells)) row
      (Table.row (widths (headings :: listed.map cells)) row) := by
  intro row hrow
  obtain ⟨hlength, hlast⟩ := rows_complete listed row hrow
  have hne : row ≠ [] := List.ne_nil_of_length_pos (hlength ▸ Nat.succ_pos _)
  exact row_laid (fits_widths hrow hlength) hne hlast

theorem stocks_shows (h : stocks listed = some lines) (hi : listed[i]? = some s)
    (hheading : Stock.headings[k]? = some heading) (hcell : s.texts[k]? = some cell) :
    ∃ top line offset, lines[0]? = some top ∧ lines[i + 1]? = some line ∧
      StandsAt heading top offset ∧ StandsAt cell line offset := by
  obtain ⟨-, rfl⟩ := stocks_eq_some_iff.mp h
  have hrows := rows_laid listed
  have hline : s.texts ∈ listed.map Stock.texts := List.mem_map_of_mem (List.mem_of_getElem? hi)
  simp only [rows_eq] at hrows ⊢
  exact ⟨_, _, _, rfl, by simp [hi], (hrows _ List.mem_cons_self).standsAt hheading,
    (hrows _ (List.mem_cons_of_mem _ hline)).standsAt hcell⟩

theorem length_heading_le : ∀ k < headings.length, (headings.getD k []).length ≤ widthLimit := by
  decide

theorem length_metric_le (s : Stock) (k : Nat) : ((cells s).getD (k + 1) []).length ≤ widthLimit := by
  have hlimit : 329 ≤ widthLimit := by decide
  rw [cells, List.getD_cons_succ, List.getD_eq_getElem?_getD, List.getElem?_map]
  cases s.values[k]? with
  | none => exact Nat.zero_le _
  | some x => exact x.length_plain_le.trans hlimit

theorem stocks_eq_none_iff : stocks listed = none ↔ ∃ s ∈ listed, widthLimit < s.name.length := by
  -- All columns but the first have a bound of their own.
  have hfit : (∀ w ∈ widths (headings :: listed.map cells), w ≤ widthLimit) ↔
      ∀ s ∈ listed, s.name.length ≤ widthLimit := by
    rw [widths_le_iff, List.forall_mem_cons, List.forall_mem_map, and_iff_right length_heading_le]
    refine ⟨fun h s hs => h s hs 0 (by decide), fun h s hs k _ => ?_⟩
    cases k with
    | zero => exact h s hs
    | succ k => exact length_metric_le s k
  rw [← not_iff_not, ← ne_eq, Option.ne_none_iff_exists']
  simp [stocks_eq_some_iff, hfit]

end Stocks

end Table

end StockScreen
