import StockScreen.Csv.Record

namespace StockScreen.Csv

open Utf8 (Bytes)

def Phase.Opens (p : Phase) : Prop := p = .betweenRecords ∨ p = .cellStart

def Phase.Closes (p : Phase) : Prop := p = .cellStart ∨ p = .bare ∨ p = .afterQuote

def Ordinary (b : UInt8) : Prop := b ≠ quote ∧ b ≠ comma ∧ endsLine b = false

namespace Scan

/-- What a scan has read, wherever in the input it stands: part of a cell, the cells before it in
the record, and the records before that. -/
structure Has (s : Scan) (phase : Phase) (cell : Bytes) (cells : List Bytes)
    (rows : List (List Bytes)) : Prop where
  phase : s.phase = phase
  cell : s.cell.reverse = cell
  cells : s.cells.reverse = cells
  rows : s.records.reverse.map Record.cells = rows

variable {s : Scan} {p : Phase} {cell : Bytes} {cells : List Bytes} {rows : List (List Bytes)}
  {b : UInt8} {bs : Bytes}

theorem has_begin (here : Position) : (begin here).Has .betweenRecords [] [] [] :=
  ⟨rfl, rfl, rfl, rfl⟩

section Step

theorem Has.push {p q : Phase} (h : s.Has p cell cells rows) (here : Position) :
    ({ s with here := here }.push q b).Has q (cell ++ [b]) cells rows :=
  ⟨rfl, by simp [Scan.push, h.cell], h.cells, h.rows⟩

theorem Has.step_ordinary (h : s.Has p cell cells rows) (hp : p.Opens ∨ p = .bare)
    (hb : Ordinary b) : (s.step b).Has .bare (cell ++ [b]) cells rows := by
  obtain ⟨hq, hc, he⟩ := hb
  have hphase := h.phase
  rcases hp with (rfl | rfl) | rfl <;>
    simp only [step, hphase, first, plain, hq, hc, he, if_false, Bool.false_eq_true] <;>
    exact h.push _

theorem Has.step_quoted (h : s.Has .quoted cell cells rows) (hb : b ≠ quote) :
    (s.step b).Has .quoted (cell ++ [b]) cells rows := by
  have hphase := h.phase
  simp only [step, hphase, hb, if_false]
  exact h.push _

theorem Has.step_open_quote (h : s.Has p cell cells rows) (hp : p.Opens) :
    (s.step quote).Has .quoted cell cells rows := by
  have hphase := h.phase
  have hend : endsLine quote = false := by decide
  rcases hp with rfl | rfl <;>
    simp only [step, hphase, first, hend, if_true, if_false, Bool.false_eq_true] <;>
    exact ⟨rfl, h.cell, h.cells, h.rows⟩

theorem Has.step_close_quote (h : s.Has .quoted cell cells rows) :
    (s.step quote).Has .afterQuote cell cells rows := by
  have hphase := h.phase
  simp only [step, hphase, if_true]
  exact ⟨rfl, h.cell, h.cells, h.rows⟩

theorem Has.step_second_quote (h : s.Has .afterQuote cell cells rows) :
    (s.step quote).Has .quoted (cell ++ [quote]) cells rows := by
  have hphase := h.phase
  simp only [step, hphase, if_true]
  exact h.push _

theorem Has.step_comma (h : s.Has p cell cells rows) (hp : p.Opens ∨ p.Closes) :
    (s.step comma).Has .cellStart [] (cells ++ [cell]) rows := by
  have hphase := h.phase
  have hend : endsLine comma = false := by decide
  have hquote : comma ≠ quote := by decide
  have hcells : (s.cell.reverse :: s.cells).reverse = cells ++ [cell] := by
    rw [List.reverse_cons, h.cells, h.cell]
  rcases hp with (rfl | rfl) | (rfl | rfl | rfl) <;>
    simp only [step, hphase, first, plain, hend, hquote, if_true, if_false, Bool.false_eq_true] <;>
    exact ⟨rfl, rfl, hcells, h.rows⟩

theorem Has.endRecord (h : s.Has p cell cells rows) :
    s.endRecord.Has .betweenRecords [] [] (rows ++ [cells ++ [cell]]) := by
  refine ⟨rfl, rfl, rfl, ?_⟩
  simp [Scan.endRecord, h.cell, h.cells, ← h.rows]

theorem Has.step_end (h : s.Has p cell cells rows) (hp : p.Closes) (hb : endsLine b = true) :
    (s.step b).Has .betweenRecords [] [] (rows ++ [cells ++ [cell]]) := by
  have hphase := h.phase
  have hcomma : b ≠ comma := by
    rintro rfl
    exact absurd hb (by decide)
  have hquote : b ≠ quote := by
    rintro rfl
    exact absurd hb (by decide)
  have hmoved : Has { s with here := advance s.here b } p cell cells rows :=
    ⟨h.phase, h.cell, h.cells, h.rows⟩
  rcases hp with rfl | rfl | rfl <;>
    simp only [step, hphase, first, plain, hb, hcomma, hquote, if_true, if_false] <;>
    exact hmoved.endRecord

theorem Has.step_blank (h : s.Has .betweenRecords cell cells rows) (hb : endsLine b = true) :
    (s.step b).Has .betweenRecords cell cells rows := by
  have hphase := h.phase
  simp only [step, hphase, hb, if_true]
  exact ⟨rfl, h.cell, h.cells, h.rows⟩

end Step

section Run

theorem Has.run_bare (h : s.Has .bare cell cells rows) (hbs : ∀ b ∈ bs, Ordinary b) :
    (bs.foldl step s).Has .bare (cell ++ bs) cells rows := by
  induction bs generalizing s cell with
  | nil => simpa using h
  | cons b bs ih =>
    obtain ⟨hb, hbs⟩ := List.forall_mem_cons.mp hbs
    simpa using ih (h.step_ordinary (.inr rfl) hb) hbs

theorem Has.run_ordinary (h : s.Has p cell cells rows) (hp : p.Opens) (hne : bs ≠ [])
    (hbs : ∀ b ∈ bs, Ordinary b) : (bs.foldl step s).Has .bare (cell ++ bs) cells rows := by
  obtain ⟨b, bs, rfl⟩ := List.exists_cons_of_ne_nil hne
  obtain ⟨hb, hbs⟩ := List.forall_mem_cons.mp hbs
  simpa using (h.step_ordinary (.inl hp) hb).run_bare hbs

theorem Has.run_quoted (h : s.Has .quoted cell cells rows) (hbs : ∀ b ∈ bs, b ≠ quote) :
    (bs.foldl step s).Has .quoted (cell ++ bs) cells rows := by
  induction bs generalizing s cell with
  | nil => simpa using h
  | cons b bs ih =>
    obtain ⟨hb, hbs⟩ := List.forall_mem_cons.mp hbs
    simpa using ih (h.step_quoted hb) hbs

theorem Has.run_blank (h : s.Has .betweenRecords cell cells rows)
    (hbs : ∀ b ∈ bs, endsLine b = true) :
    (bs.foldl step s).Has .betweenRecords cell cells rows := by
  induction bs generalizing s with
  | nil => exact h
  | cons b bs ih =>
    obtain ⟨hb, hbs⟩ := List.forall_mem_cons.mp hbs
    exact ih (h.step_blank hb) hbs

end Run

section Finish

theorem Has.finish_blank (h : s.Has .betweenRecords cell cells rows) :
    s.finish.map Record.cells = rows := by
  rw [finish, h.phase]
  exact h.rows

theorem Has.finish_open (h : s.Has p cell cells rows) (hp : p.Closes) :
    s.finish.map Record.cells = rows ++ [cells ++ [cell]] := by
  have hphase := h.phase
  have hrows := h.endRecord.rows
  rcases hp with rfl | rfl | rfl <;>
    · simp only [finish, hphase]
      exact hrows

end Finish

end Scan

end StockScreen.Csv
