import StockScreen.Proofs.Csv.Writing
import StockScreen.Proofs.Text.Decoding

namespace StockScreen.Csv

open Utf8

section Blank

def unmarked (bytes : Bytes) : Bytes :=
  if byteOrderMark.isPrefixOf bytes then bytes.drop byteOrderMark.length else bytes

namespace Scan

def Begun (s : Scan) : Prop := s.phase ≠ .betweenRecords ∨ s.records ≠ []

variable {s : Scan} {b : UInt8} {bs : Bytes}

theorem begun_plain (s : Scan) (b : UInt8) : (s.plain b).Begun := by
  rw [plain]
  split
  · exact .inl Phase.noConfusion
  · split
    · exact .inr (List.cons_ne_nil _ _)
    · exact .inl Phase.noConfusion

theorem begun_first (s : Scan) (b : UInt8) : (s.first b).Begun := by
  rw [first]
  split
  · exact .inl Phase.noConfusion
  · exact begun_plain s b

theorem begun_step_iff : (s.step b).Begun ↔ s.Begun ∨ endsLine b = false := by
  cases hp : s.phase with
  | betweenRecords =>
    cases hb : endsLine b with
    | true => simp [step, hp, hb, Begun]
    | false =>
      simp only [step, hp, hb, Bool.false_eq_true, if_false, or_true, iff_true]
      exact begun_first _ b
  | cellStart =>
    simp only [step, hp, Begun, ne_eq, reduceCtorEq, not_false_eq_true, true_or, iff_true]
    exact begun_first _ b
  | bare =>
    simp only [step, hp, Begun, ne_eq, reduceCtorEq, not_false_eq_true, true_or, iff_true]
    exact begun_plain _ b
  | quoted =>
    simp only [step, hp]
    split <;> simp [Begun, hp, push]
  | afterQuote =>
    have hs : s.Begun := .inl (by simp [hp])
    simp only [step, hp, hs, true_or, iff_true]
    split
    · exact .inl Phase.noConfusion
    · exact begun_plain _ b

theorem begun_run_iff : (bs.foldl step s).Begun ↔ s.Begun ∨ ∃ b ∈ bs, endsLine b = false := by
  induction bs generalizing s with
  | nil => simp
  | cons b bs ih => rw [List.foldl_cons, ih, begun_step_iff, or_assoc, List.exists_mem_cons_iff]

theorem finish_eq_nil_iff : s.finish = [] ↔ ¬s.Begun := by
  rw [finish]
  split
  · next hp => simp [Begun, hp]
  · next hp =>
    have hs : s.Begun := .inl hp
    simp [hs, endRecord]

end Scan

theorem records_eq_unmarked (bytes : Bytes) :
    ∃ here, records bytes = ((unmarked bytes).foldl Scan.step (.begin here)).finish := by
  rw [records, unmarked]
  split
  · exact ⟨_, rfl⟩
  · exact ⟨_, rfl⟩

theorem records_eq_nil_iff {bytes : Bytes} :
    records bytes = [] ↔ ∀ b ∈ unmarked bytes, endsLine b = true := by
  obtain ⟨here, hr⟩ := records_eq_unmarked bytes
  have hbegin : ¬(Scan.begin here).Begun := by simp [Scan.Begun, Scan.begin]
  rw [hr, Scan.finish_eq_nil_iff, Scan.begun_run_iff, or_iff_right hbegin]
  simp

end Blank

section Faults

def Record.IsText (r : Record) : Prop := ∀ cell ∈ r.cells, Utf8.IsText cell

def BreaksFirst (cells : List Bytes) (field index : Nat) : Prop :=
  ∃ front cell back, cells = front ++ cell :: back ∧ (∀ c ∈ front, Utf8.IsText c) ∧
    field = front.length ∧ BreaksAt cell index

def Fault.IsFirst (f : Fault) (records : List Record) : Prop :=
  ∃ before r after, records = before ++ r :: after ∧ (∀ r ∈ before, r.IsText) ∧
    f.record = before.length ∧ f.start = r.start ∧ BreaksFirst r.cells f.field f.index

variable {cells : List Bytes} {field index : Nat} {r : Record} {rs : List Record} {f : Fault}

theorem exists_first {α : Type} {has : α → Prop} {xs : List α} (h : ∃ x ∈ xs, ¬has x) :
    ∃ front x back, xs = front ++ x :: back ∧ (∀ y ∈ front, has y) ∧ ¬has x := by
  induction xs with
  | nil => simp at h
  | cons x xs ih =>
    by_cases hx : has x
    · rw [List.exists_mem_cons_iff, or_iff_right (not_not.mpr hx)] at h
      obtain ⟨front, y, back, rfl, hfront, hy⟩ := ih h
      exact ⟨x :: front, y, back, rfl, List.forall_mem_cons.mpr ⟨hx, hfront⟩, hy⟩
    · exact ⟨[], x, xs, rfl, List.forall_mem_nil _, hx⟩

theorem exists_texts (h : ∀ c ∈ cells, Utf8.IsText c) :
    ∃ texts : List Text, cells = texts.map encode := by
  induction cells with
  | nil => exact ⟨[], rfl⟩
  | cons c cells ih =>
    obtain ⟨⟨t, rfl⟩, hcells⟩ := List.forall_mem_cons.mp h
    obtain ⟨texts, rfl⟩ := ih hcells
    exact ⟨t :: texts, rfl⟩

theorem exists_tables (h : ∀ r ∈ rs, r.IsText) :
    ∃ tables : List (List Text), rs.map Record.cells = tables.map (List.map encode) := by
  induction rs with
  | nil => exact ⟨[], rfl⟩
  | cons r rs ih =>
    obtain ⟨hr, hrs⟩ := List.forall_mem_cons.mp h
    obtain ⟨texts, hcells⟩ := exists_texts hr
    obtain ⟨tables, htables⟩ := ih hrs
    exact ⟨texts :: tables, by rw [List.map_cons, List.map_cons, hcells, htables]⟩

theorem exists_breaksFirst (h : ∃ c ∈ cells, ¬Utf8.IsText c) :
    ∃ field index, BreaksFirst cells field index := by
  obtain ⟨front, cell, back, hcells, hfront, hcell⟩ := exists_first h
  obtain ⟨index, hindex⟩ := (text_or_break cell).resolve_left hcell
  exact ⟨_, index, front, cell, back, hcells, hfront, rfl, hindex⟩

theorem exists_fault (h : ∃ r ∈ rs, ¬r.IsText) : ∃ f : Fault, f.IsFirst rs := by
  obtain ⟨before, r, after, hrs, hbefore, hr⟩ := exists_first h
  have hcell : ∃ c ∈ r.cells, ¬Utf8.IsText c := by simpa [Record.IsText] using hr
  obtain ⟨field, index, hbreak⟩ := exists_breaksFirst hcell
  exact ⟨⟨_, _, field, index⟩, before, r, after, hrs, hbefore, rfl, rfl, hbreak⟩

theorem Fault.IsFirst.exists_cell (h : f.IsFirst rs) :
    ∃ r ∈ rs, ∃ cell ∈ r.cells, ¬Utf8.IsText cell := by
  obtain ⟨before, r, after, rfl, -, -, -, front, cell, back, hcells, -, -, hbreak⟩ := h
  have hcell : cell ∈ r.cells := hcells ▸ List.mem_append_right front List.mem_cons_self
  exact ⟨r, List.mem_append_right before List.mem_cons_self, cell, hcell,
    not_isText_iff.mpr ⟨_, decode_of_break hbreak⟩⟩

theorem exists_fault_iff :
    (∃ f : Fault, f.IsFirst rs) ↔ ∃ r ∈ rs, ∃ cell ∈ r.cells, ¬Utf8.IsText cell := by
  refine ⟨fun ⟨f, hf⟩ => hf.exists_cell, ?_⟩
  rintro ⟨r, hr, cell, hcell, hbad⟩
  exact exists_fault ⟨r, hr, fun htext => hbad (htext cell hcell)⟩

theorem decodeCells_of_break (h : BreaksFirst cells field index) (start : Nat) :
    decodeCells start cells = .error (start + field, index) := by
  obtain ⟨front, cell, back, rfl, hfront, rfl, hcell⟩ := h
  induction front generalizing start with
  | nil =>
    rw [List.nil_append, decodeCells, decode_of_break hcell]
    rfl
  | cons c front ih =>
    obtain ⟨⟨t, rfl⟩, hrest⟩ := List.forall_mem_cons.mp hfront
    rw [List.cons_append, decodeCells, decode_encode, List.length_cons, Nat.add_comm front.length,
      ← Nat.add_assoc]
    simp only [ih (start + 1) hrest]
    rfl

theorem Record.texts_of_break (h : BreaksFirst r.cells field index) (number : Nat) :
    r.texts number = .error ⟨number, r.start, field, index⟩ := by
  rw [Record.texts, decodeCells_of_break h, Nat.zero_add]

theorem Record.texts_of_isText (h : r.IsText) :
    ∃ texts : List Text, ∀ number, r.texts number = .ok texts := by
  obtain ⟨texts, hcells⟩ := exists_texts h
  exact ⟨texts, r.texts_of_cells hcells⟩

end Faults

end StockScreen.Csv
