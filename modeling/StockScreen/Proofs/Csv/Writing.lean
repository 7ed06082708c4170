import StockScreen.Proofs.Csv.Scanning
import StockScreen.Proofs.Text.Encoding
import StockScreen.Proofs.Text.Pieces

namespace StockScreen.Csv

open Utf8 Text

inductive LineEnd where
  | lineFeed
  | carriageReturn
  | both
  deriving DecidableEq, Repr

def LineEnd.text : LineEnd → Text
  | lineFeed => ['\n']
  | carriageReturn => ['\r']
  | both => ['\r', '\n']

structure LineBreak where
  ending : LineEnd
  blankLines : List LineEnd
  deriving DecidableEq, Repr

def blankText (ends : List LineEnd) : Text := ends.flatMap LineEnd.text

def LineBreak.text (b : LineBreak) : Text := b.ending.text ++ blankText b.blankLines

def special : Text := ['"', ',', '\r', '\n']

def doubled (c : Char) : Text := if c = '"' then ['"', '"'] else [c]

structure WrittenCell where
  content : Text
  quoted : Bool
  plain : quoted = false → ∀ c ∈ content, c ∉ special

def WrittenCell.text (w : WrittenCell) : Text :=
  if w.quoted then ['"'] ++ w.content.flatMap doubled ++ ['"'] else w.content

structure WrittenRow where
  cells : List WrittenCell
  nonempty : cells ≠ []
  visible : ∀ w, cells = [w] → w.content = [] → w.quoted = true

namespace WrittenRow

def text (r : WrittenRow) : Text := join [','] (r.cells.map WrittenCell.text)

def contents (r : WrittenRow) : List Text := r.cells.map WrittenCell.content

end WrittenRow

/-- Each row comes with the line break before it. -/
structure WrittenTable where
  mark : Bool
  blankLines : List LineEnd
  header : WrittenRow
  wide : 2 ≤ header.cells.length
  rows : List (LineBreak × WrittenRow)
  closing : List LineEnd

namespace WrittenTable

def body (w : WrittenTable) : Text :=
  blankText w.blankLines ++ w.header.text ++ w.rows.flatMap (fun (b, r) => b.text ++ r.text) ++
    blankText w.closing

def text (w : WrittenTable) : Text := if w.mark then '\uFEFF' :: w.body else w.body

def contents (w : WrittenTable) : List (List Text) := w.rows.map fun (_, r) => r.contents

end WrittenTable

theorem WrittenRow.text_ne_nil (r : WrittenRow) : r.text ≠ [] := by
  obtain ⟨w, ws, hcells⟩ := List.exists_cons_of_ne_nil r.nonempty
  rw [WrittenRow.text, hcells]
  by_cases hws : ws = []
  · subst hws
    rw [List.map_singleton, join_singleton, WrittenCell.text]
    split
    · simp
    · next hq =>
      intro hempty
      exact hq (r.visible w hcells hempty)
  · have hmap : ws.map WrittenCell.text ≠ [] := by simpa using hws
    rw [List.map_cons, join_cons _ _ hmap]
    simp

section Characters

theorem ordinary_encode {t : Text} (ht : ∀ c ∈ t, c ∉ special) : ∀ b ∈ encode t, Ordinary b := by
  have absent {b : UInt8} (hb : b ∈ encode t) (hu : b.toNat < 0x80)
      (hs : Char.ofNat b.toNat ∈ special) : False := ht _ (mem_encode hb hu) hs
  intro b hb
  refine ⟨?_, ?_, ?_⟩
  · rintro rfl
    exact absent hb (by decide) (by decide)
  · rintro rfl
    exact absent hb (by decide) (by decide)
  · rw [endsLine, Bool.or_eq_false_iff, beq_eq_false_iff_ne, beq_eq_false_iff_ne]
    constructor
    · rintro rfl
      exact absent hb (by decide) (by decide)
    · rintro rfl
      exact absent hb (by decide) (by decide)

theorem ne_quote_of_mem_encode {t : Text} (ht : '"' ∉ t) : ∀ b ∈ encode t, b ≠ quote := by
  rintro b hb rfl
  exact ht (mem_encode hb (by decide))

theorem endsLine_of_mem_blankText {ends : List LineEnd} :
    ∀ b ∈ encode (blankText ends), endsLine b = true := by
  induction ends with
  | nil => simp [blankText, encode]
  | cons e ends ih =>
    rw [blankText, List.flatMap_cons, encode_append]
    have he : (encode e.text).all endsLine = true := by cases e <;> decide
    exact List.forall_mem_append.mpr ⟨List.all_eq_true.mp he, ih⟩

end Characters

namespace Scan

def readText (s : Scan) (t : Text) : Scan := (encode t).foldl step s

variable {s : Scan} {p : Phase} {cell : Bytes} {cells : List Bytes} {rows : List (List Bytes)}

theorem readText_append (s : Scan) (t u : Text) :
    s.readText (t ++ u) = (s.readText t).readText u := by
  rw [readText, encode_append, List.foldl_append]
  rfl

theorem Has.read_doubled (h : s.Has .quoted cell cells rows) (t : Text) :
    (s.readText (t.flatMap doubled)).Has .quoted (cell ++ encode t) cells rows := by
  induction t generalizing s cell with
  | nil => simpa [readText, encode] using h
  | cons c t ih =>
    rw [List.flatMap_cons, readText_append]
    have hc : (s.readText (doubled c)).Has .quoted (cell ++ encode [c]) cells rows := by
      by_cases hq : c = '"'
      · subst hq
        exact h.step_close_quote.step_second_quote
      · rw [doubled, if_neg hq]
        exact h.run_quoted (ne_quote_of_mem_encode (by simpa using Ne.symm hq))
    have hcons : encode (c :: t) = encode [c] ++ encode t := encode_append [c] t
    rw [hcons, ← List.append_assoc]
    exact ih hc

theorem Has.read_cell (h : s.Has p [] cells rows) (hp : p.Opens) (w : WrittenCell) :
    ∃ q, (q.Closes ∨ q = p ∧ w.text = []) ∧
      (s.readText w.text).Has q (encode w.content) cells rows := by
  cases hq : w.quoted with
  | true =>
    have hopen := (h.step_open_quote hp).read_doubled w.content
    refine ⟨.afterQuote, .inl (.inr (.inr rfl)), ?_⟩
    rw [WrittenCell.text, hq, if_pos rfl, readText_append, readText_append]
    exact hopen.step_close_quote
  | false =>
    have htext : w.text = w.content := by rw [WrittenCell.text, hq, if_neg Bool.false_ne_true]
    rw [htext]
    by_cases hne : w.content = []
    · -- A cell that is written as nothing leaves the scan where it was.
      refine ⟨p, .inr ⟨rfl, hne⟩, ?_⟩
      rw [hne]
      exact h
    · have hbare := h.run_ordinary hp (encode_ne_nil hne) (ordinary_encode (w.plain hq))
      exact ⟨.bare, .inl (.inr (.inl rfl)), hbare⟩

/-- The scan stands where a record may end, and with that one these are the records. -/
def Ends (s : Scan) (rows : List (List Bytes)) : Prop :=
  ∃ p cell cells before, p.Closes ∧ s.Has p cell cells before ∧ rows = before ++ [cells ++ [cell]]

theorem Has.read_cells {ws : List WrittenCell} (h : s.Has p [] cells rows) (hp : p.Opens)
    (hne : ws ≠ []) (hw : p = .cellStart ∨ join [','] (ws.map WrittenCell.text) ≠ []) :
    (s.readText (join [','] (ws.map WrittenCell.text))).Ends
      (rows ++ [cells ++ ws.map fun w => encode w.content]) := by
  induction ws generalizing s p cells with
  | nil => exact absurd rfl hne
  | cons w ws ih =>
    obtain ⟨q, hq, hcell⟩ := h.read_cell hp w
    by_cases hws : ws = []
    · -- The last cell may be empty unless it is the only one, since a comma stands before it.
      subst hws
      rw [List.map_singleton, join_singleton] at hw ⊢
      have hcloses : q.Closes := by
        rcases hq with hq | ⟨rfl, htext⟩
        · exact hq
        · exact .inl (hw.resolve_right (not_not_intro htext))
      exact ⟨q, _, _, _, hcloses, hcell, rfl⟩
    · have hq : q.Opens ∨ q.Closes := by
        rcases hq with hq | ⟨rfl, -⟩
        · exact .inr hq
        · exact .inl hp
      have hcomma := hcell.step_comma hq
      have hmap : ws.map WrittenCell.text ≠ [] := by simpa using hws
      rw [List.map_cons, join_cons _ _ hmap, readText_append, readText_append]
      have hrest := ih hcomma (.inr rfl) hws (.inl rfl)
      rw [List.append_assoc] at hrest
      exact hrest

theorem Has.read_row (h : s.Has .betweenRecords [] [] rows) (r : WrittenRow) :
    (s.readText r.text).Ends (rows ++ [r.contents.map encode]) := by
  have hrow := h.read_cells (.inl rfl) r.nonempty (.inr r.text_ne_nil)
  rw [WrittenRow.contents, List.map_map]
  exact hrow

theorem Ends.read_break (h : s.Ends rows) (b : LineBreak) :
    (s.readText b.text).Has .betweenRecords [] [] rows := by
  obtain ⟨p, cell, cells, before, hp, hs, rfl⟩ := h
  rw [LineBreak.text, readText_append]
  refine Has.run_blank ?_ endsLine_of_mem_blankText
  cases b.ending with
  | lineFeed => exact hs.step_end hp (by decide)
  | carriageReturn => exact hs.step_end hp (by decide)
  | both => exact (hs.step_end hp (by decide)).step_blank (by decide)

theorem Ends.read_rows (h : s.Ends rows) (lines : List (LineBreak × WrittenRow)) :
    (s.readText (lines.flatMap fun (b, r) => b.text ++ r.text)).Ends
      (rows ++ lines.map fun (_, r) => r.contents.map encode) := by
  induction lines generalizing s rows with
  | nil => simpa [readText, encode] using h
  | cons line lines ih =>
    rw [List.flatMap_cons, readText_append, readText_append]
    have hrest := ih ((h.read_break line.1).read_row line.2)
    rw [List.append_assoc] at hrest
    exact hrest

theorem Ends.finish (h : s.Ends rows) (closing : List LineEnd) :
    (s.readText (blankText closing)).finish.map Record.cells = rows := by
  cases closing with
  | nil =>
    obtain ⟨p, cell, cells, before, hp, hs, rfl⟩ := h
    exact hs.finish_open hp
  | cons e closing => exact (h.read_break ⟨e, closing⟩).finish_blank

theorem read_body (here : Position) (w : WrittenTable) :
    ((begin here).readText w.body).finish.map Record.cells =
      (w.header.contents :: w.contents).map (List.map encode) := by
  have hblank : ((begin here).readText (blankText w.blankLines)).Has .betweenRecords [] [] [] :=
    (has_begin here).run_blank endsLine_of_mem_blankText
  have hrows := (hblank.read_row w.header).read_rows w.rows
  rw [WrittenTable.body, readText_append, readText_append, readText_append, hrows.finish,
    WrittenTable.contents, List.map_cons, List.map_map]
  rfl

end Scan

section Mark

theorem records_of_mark (t : Text) :
    records (encode ('\uFEFF' :: t)) = ((Scan.begin ⟨3, 1⟩).readText t).finish := by
  have hmark : encode ('\uFEFF' :: t) = byteOrderMark ++ encode t := rfl
  have hprefix : byteOrderMark.isPrefixOf (byteOrderMark ++ encode t) = true :=
    List.isPrefixOf_iff_prefix.mpr (List.prefix_append _ _)
  rw [hmark, records, if_pos hprefix]
  rfl

theorem mark_of_prefix {t : Text} (h : byteOrderMark <+: encode t) : ∃ u, t = '\uFEFF' :: u := by
  cases t with
  | nil => exact absurd h (by decide)
  | cons x u => exact ⟨u, by rw [(encoded x).eq_mark h]⟩

/-- A table whose text begins like a mark is read without that character, which can only stand in
front of a bare cell of the header. -/
theorem WrittenTable.exists_marked (w : WrittenTable) {t : Text} (h : w.body = '\uFEFF' :: t) :
    ∃ v : WrittenTable, v.body = t ∧ v.contents = w.contents := by
  obtain ⟨mark, blankLines, ⟨cells, nonempty, visible⟩, wide, rows, closing⟩ := w
  cases blankLines with
  | cons e blankLines => cases e <;> simp [body, blankText, LineEnd.text] at h
  | nil =>
    obtain ⟨⟨content, quoted, plain⟩, others, rfl⟩ := List.exists_cons_of_ne_nil nonempty
    have hothers : others ≠ [] := by
      rintro rfl
      exact absurd wide (by simp)
    have hmap : others.map WrittenCell.text ≠ [] := by simpa using hothers
    cases quoted with
    | true => simp [body, blankText, WrittenRow.text, join_cons _ _ hmap, WrittenCell.text] at h
    | false =>
      cases content with
      | nil => simp [body, blankText, WrittenRow.text, join_cons _ _ hmap, WrittenCell.text] at h
      | cons x content =>
        have hplain : false = false → ∀ c ∈ content, c ∉ special := by
          intro hq c hc
          exact plain hq c (List.mem_cons_of_mem x hc)
        have hvisible : ∀ w, ⟨content, false, hplain⟩ :: others = [w] → w.content = [] →
            w.quoted = true := by
          intro w hw
          exact absurd (List.cons.inj hw).2 hothers
        refine ⟨⟨mark, [], ⟨⟨content, false, hplain⟩ :: others, List.cons_ne_nil _ _, hvisible⟩,
          wide, rows, closing⟩, ?_, rfl⟩
        simp only [body, blankText, WrittenRow.text, List.map_cons, join_cons _ _ hmap,
          WrittenCell.text, List.flatMap_nil, Bool.false_eq_true, if_false, List.nil_append,
          List.cons_append, List.cons.injEq] at h ⊢
        exact h.2

end Mark

theorem records_text (w : WrittenTable) :
    ∃ names : List Text, (records (encode w.text)).map Record.cells =
      (names :: w.contents).map (List.map encode) := by
  rw [WrittenTable.text]
  cases w.mark with
  | true =>
    rw [if_pos rfl, records_of_mark]
    exact ⟨_, Scan.read_body _ w⟩
  | false =>
    rw [if_neg Bool.false_ne_true]
    by_cases hp : byteOrderMark <+: encode w.body
    · obtain ⟨t, ht⟩ := mark_of_prefix hp
      obtain ⟨v, hv, hcontents⟩ := w.exists_marked ht
      rw [ht, records_of_mark, ← hv, ← hcontents]
      exact ⟨_, Scan.read_body _ v⟩
    · rw [records, if_neg (by rwa [List.isPrefixOf_iff_prefix])]
      exact ⟨_, Scan.read_body _ w⟩

theorem decodeCells_encode (field : Nat) (texts : List Text) :
    decodeCells field (texts.map encode) = .ok texts := by
  induction texts generalizing field with
  | nil => rfl
  | cons t texts ih =>
    rw [List.map_cons, decodeCells, decode_encode]
    simp only [ih]
    rfl

theorem Record.texts_of_cells {r : Record} {texts : List Text} (h : r.cells = texts.map encode)
    (number : Nat) : r.texts number = .ok texts := by
  rw [Record.texts, h, decodeCells_encode]

end StockScreen.Csv
