import Mathlib.Data.List.Forall2
import Mathlib.Data.List.TakeWhile
import StockScreen.Dataset.Load
import StockScreen.Proofs.Csv.Writing
import StockScreen.Proofs.Dataset.Rows
import StockScreen.Proofs.Text.Trimming

namespace StockScreen

open Utf8 (Bytes encode)

namespace Dataset

section Entering

inductive Entered : Nat → List (List Text) → List Stock → List SkippedRow → Prop where
  | none {number : Nat} : Entered number [] [] []
  | stock {number : Nat} {cells : List Text} {s : Stock} {rows : List (List Text)}
    {stocks : List Stock} {skipped : List SkippedRow} (h : Row.Means cells (.ok s))
    (rest : Entered (number + 1) rows stocks skipped) :
    Entered number (cells :: rows) (s :: stocks) skipped
  | skip {number : Nat} {cells : List Text} {reason : SkipReason} {rows : List (List Text)}
    {stocks : List Stock} {skipped : List SkippedRow} (h : Row.Means cells (.error reason))
    (rest : Entered (number + 1) rows stocks skipped) :
    Entered number (cells :: rows) stocks (⟨number, reason⟩ :: skipped)

theorem entered_outcomes (number : Nat) (rows : List (List Text)) :
    Entered number rows ((rows.map Row.read).filterMap Except.toOption)
      (((rows.map Row.read).zipIdx number).filterMap skip?) := by
  induction rows generalizing number with
  | nil => exact .none
  | cons cells rows ih =>
    have hmeans := Row.means_read cells
    rw [List.map_cons, List.zipIdx_cons]
    cases hr : Row.read cells with
    | ok s => exact .stock (hr ▸ hmeans) (ih (number + 1))
    | error reason => exact .skip (hr ▸ hmeans) (ih (number + 1))

variable {number : Nat} {rows : List (List Text)} {stocks : List Stock}
  {skipped : List SkippedRow}

namespace Entered

theorem length_add (h : Entered number rows stocks skipped) :
    stocks.length + skipped.length = rows.length := by
  induction h with
  | none => rfl
  | stock _ _ ih =>
    simp only [List.length_cons]
    omega
  | skip _ _ ih =>
    simp only [List.length_cons]
    omega

theorem row_bounds (h : Entered number rows stocks skipped) :
    ∀ r ∈ skipped, number ≤ r.row ∧ r.row < number + rows.length := by
  induction h with
  | none => exact List.forall_mem_nil _
  | stock _ _ ih =>
    intro r hr
    have hb := ih r hr
    simp only [List.length_cons]
    omega
  | skip _ _ ih =>
    rw [List.forall_mem_cons]
    refine ⟨⟨Nat.le_refl _, by simp⟩, fun r hr => ?_⟩
    have hb := ih r hr
    simp only [List.length_cons]
    omega

theorem increasing (h : Entered number rows stocks skipped) :
    (skipped.map SkippedRow.row).Pairwise (· < ·) := by
  induction h with
  | none => exact .nil
  | stock _ _ ih => exact ih
  | skip _ rest ih =>
    refine List.pairwise_cons.mpr ⟨fun k hk => ?_, ih⟩
    obtain ⟨r, hr, rfl⟩ := List.mem_map.mp hk
    exact (rest.row_bounds r hr).1

theorem not_mem_of_lt (h : Entered (number + 1) rows stocks skipped) :
    number ∉ skipped.map SkippedRow.row := by
  intro hmem
  obtain ⟨r, hr, hrow⟩ := List.mem_map.mp hmem
  have hb := h.row_bounds r hr
  omega

theorem mem_cons_later_iff {row : List Text × Nat} (hrow : row ∈ rows.zipIdx (number + 1))
    (numbers : List Nat) : row.2 ∈ number :: numbers ↔ row.2 ∈ numbers := by
  have hle := List.le_snd_of_mem_zipIdx hrow
  have hne : row.2 ≠ number := by omega
  rw [List.mem_cons, or_iff_right hne]

theorem stocks_from (h : Entered number rows stocks skipped) :
    List.Forall₂ (fun row s => Row.Means row.1 (.ok s))
      ((rows.zipIdx number).filter fun row => row.2 ∉ skipped.map SkippedRow.row) stocks := by
  induction h with
  | none => exact .nil
  | stock hm rest ih =>
    rw [List.zipIdx_cons, List.filter_cons_of_pos (by simpa using rest.not_mem_of_lt)]
    exact .cons hm ih
  | skip _ _ ih =>
    rw [List.zipIdx_cons, List.map_cons, List.filter_cons_of_neg (by simp),
      List.filter_congr fun row hrow => decide_eq_decide.mpr (mem_cons_later_iff hrow _).not]
    exact ih

theorem skipped_from (h : Entered number rows stocks skipped) :
    List.Forall₂ (fun row r => r.row = row.2 ∧ Row.Means row.1 (.error r.reason))
      ((rows.zipIdx number).filter fun row => row.2 ∈ skipped.map SkippedRow.row) skipped := by
  induction h with
  | none => exact .nil
  | stock _ rest ih =>
    rw [List.zipIdx_cons, List.filter_cons_of_neg (by simpa using rest.not_mem_of_lt)]
    exact ih
  | skip hm _ ih =>
    rw [List.zipIdx_cons, List.map_cons, List.filter_cons_of_pos (by simp),
      List.filter_congr fun row hrow => decide_eq_decide.mpr (mem_cons_later_iff hrow _)]
    exact .cons ⟨rfl, hm⟩ ih

end Entered

end Entering

section Records

theorem fault?_eq_none_iff {rows : List Csv.Record} :
    fault? rows = none ↔ ∃ texts : List (List Text), textRows rows = texts.map Except.ok := by
  rw [fault?]
  induction textRows rows with
  | nil => exact ⟨fun _ => ⟨[], rfl⟩, fun _ => rfl⟩
  | cons read reads ih =>
    cases read with
    | error fault =>
      refine ⟨fun h => absurd h (by simp), ?_⟩
      rintro ⟨_ | ⟨cells, texts⟩, h⟩ <;> simp at h
    | ok cells =>
      -- The text of this record goes in front of the texts of the others, or comes off them.
      rw [List.findSome?_cons]
      refine ih.trans ⟨?_, ?_⟩
      · rintro ⟨texts, rfl⟩
        exact ⟨cells :: texts, rfl⟩
      · rintro ⟨_ | ⟨first, texts⟩, h⟩
        · simp at h
        · exact ⟨texts, (List.cons.inj h).2⟩

theorem outcomes_of_texts {rows : List Csv.Record} {texts : List (List Text)}
    (h : textRows rows = texts.map Except.ok) : outcomes rows = texts.map Row.read := by
  have hall : ∀ read ∈ texts.map (Except.ok : List Text → Except Csv.Fault (List Text)),
      read.isOk = true := by
    intro read hread
    obtain ⟨cells, -, rfl⟩ := List.mem_map.mp hread
    rfl
  rw [outcomes, h, List.takeWhile_eq_self_iff.mpr hall, List.filterMap_map]
  congr 1
  exact List.filterMap_some

def ofRows (texts : List (List Text)) : Dataset :=
  ⟨(texts.map Row.read).filterMap Except.toOption,
    ⟨((texts.map Row.read).filterMap Except.toOption).length,
      skippedRows (texts.map Row.read)⟩⟩

theorem entered_ofRows (texts : List (List Text)) :
    Entered 1 texts (ofRows texts).stocks (ofRows texts).report.skipped :=
  entered_outcomes 1 texts

theorem ofBytes_of_records {bytes : Bytes} {header : Csv.Record} {rows : List Csv.Record}
    {names : List Text} (hrecords : Csv.records bytes = header :: rows)
    (hnames : header.texts 0 = .ok names) :
    ofBytes bytes = match fault? rows with
      | some fault => .error (.malformed (.encoding fault))
      | none => .ok ⟨(outcomes rows).filterMap Except.toOption,
          ⟨((outcomes rows).filterMap Except.toOption).length, skippedRows (outcomes rows)⟩⟩ := by
  rw [ofBytes, loading, hrecords]
  simp only [hnames]
  cases fault? rows <;> rfl

theorem ofBytes_eq_ok_iff {bytes : Bytes} {d : Dataset} :
    ofBytes bytes = .ok d ↔ ∃ header rows names, ∃ texts : List (List Text),
      Csv.records bytes = header :: rows ∧ header.texts 0 = .ok names ∧
        textRows rows = texts.map Except.ok ∧ d = ofRows texts := by
  constructor
  · intro h
    cases hrecords : Csv.records bytes with
    | nil =>
      rw [ofBytes, loading, hrecords] at h
      contradiction
    | cons header rows =>
      cases hnames : header.texts 0 with
      | error fault =>
        rw [ofBytes, loading, hrecords] at h
        simp only [hnames] at h
        contradiction
      | ok names =>
        rw [ofBytes_of_records hrecords hnames] at h
        cases hfault : fault? rows with
        | some fault =>
          rw [hfault] at h
          contradiction
        | none =>
          obtain ⟨texts, htexts⟩ := fault?_eq_none_iff.mp hfault
          rw [hfault, outcomes_of_texts htexts] at h
          exact ⟨header, rows, names, texts, rfl, hnames, htexts, (Except.ok.inj h).symm⟩
  · rintro ⟨header, rows, names, texts, hrecords, hnames, htexts, rfl⟩
    rw [ofBytes_of_records hrecords hnames, fault?_eq_none_iff.mpr ⟨texts, htexts⟩,
      outcomes_of_texts htexts]
    rfl

theorem textRows_of_cells {rows : List Csv.Record} {texts : List (List Text)}
    (h : rows.map Csv.Record.cells = texts.map (List.map encode)) :
    textRows rows = texts.map Except.ok := by
  have numbered (number : Nat) :
      ((rows.zipIdx number).map fun row => row.1.texts row.2) = texts.map Except.ok := by
    induction rows generalizing texts number with
    | nil =>
      obtain rfl := List.map_eq_nil_iff.mp h.symm
      rfl
    | cons row rows ih =>
      obtain ⟨cells, rest, rfl, hcells, hrest⟩ := List.map_eq_cons_iff.mp h.symm
      rw [List.zipIdx_cons, List.map_cons, ih hrest.symm]
      exact congrArg (· :: _) (row.texts_of_cells hcells.symm number)
  exact numbered 1

end Records

theorem ofBytes_text (w : Csv.WrittenTable) : ofBytes (encode w.text) = .ok (ofRows w.contents) := by
  obtain ⟨names, h⟩ := Csv.records_text w
  obtain ⟨header, rows, hrecords, hheader, hrows⟩ := List.map_eq_cons_iff.mp h
  exact ofBytes_eq_ok_iff.mpr ⟨header, rows, names, _, hrecords, header.texts_of_cells hheader 0,
    textRows_of_cells hrows, rfl⟩

theorem ofBytes_written (w : Csv.WrittenTable) :
    ∃ d, ofBytes (encode w.text) = .ok d ∧ Entered 1 w.contents d.stocks d.report.skipped := by
  obtain ⟨names, h⟩ := Csv.records_text w
  obtain ⟨header, rows, hrecords, hheader, hrows⟩ := List.map_eq_cons_iff.mp h
  have hnames : header.texts 0 = .ok names := header.texts_of_cells hheader 0
  have htexts : textRows rows = w.contents.map Except.ok := textRows_of_cells hrows
  exact ⟨ofRows w.contents, ofBytes_eq_ok_iff.mpr ⟨header, rows, names, _, hrecords, hnames, htexts,
    rfl⟩, entered_ofRows w.contents⟩

def knotted : Csv.WrittenTable where
  mark := false
  blankLines := []
  header := ⟨[⟨['\uFEFF'], false, fun _ => by decide⟩, ⟨[], true, nofun⟩], by simp, by simp⟩
  wide := by decide
  rows :=
    [(⟨.both, [.both]⟩, ⟨⟨"A,\"B\"\r".toList, true, nofun⟩ ::
        List.replicate 9 ⟨"nan".toList, false, fun _ => by decide⟩, by simp, by simp⟩),
      (⟨.carriageReturn, []⟩, ⟨[⟨[], true, nofun⟩], by simp, by simp⟩),
      (⟨.lineFeed, []⟩, ⟨⟨['C'], false, fun _ => by decide⟩ ::
        ⟨" n/a ".toList, false, fun _ => by decide⟩ :: List.replicate 8 ⟨[], true, nofun⟩,
        by simp, by simp⟩)]
  closing := [.carriageReturn]

theorem ofBytes_written_knotted :
    knotted.text = ("\uFEFF,\"\"\r\n\r\n\"A,\"\"B\"\"\r\",nan,nan,nan,nan,nan,nan,nan,nan,nan\r" ++
        "\"\"\nC, n/a ,\"\",\"\",\"\",\"\",\"\",\"\",\"\",\"\"\r").toList ∧
      ∃ d, ofBytes (encode knotted.text) = .ok d ∧
        Entered 1 ["A,\"B\"\r".toList :: List.replicate 9 "nan".toList, [[]],
          ['C'] :: " n/a ".toList :: List.replicate 8 []] d.stocks d.report.skipped := by
  have hcontents : knotted.contents = ["A,\"B\"\r".toList :: List.replicate 9 "nan".toList, [[]],
      ['C'] :: " n/a ".toList :: List.replicate 8 []] := by decide
  rw [← hcontents]
  exact ⟨by decide, ofBytes_written knotted⟩

/-- Whatever bytes load, every record after the header is entered once: the stocks come from the
records that are not skipped, in their order, and each skipped row stands under its own number. -/
theorem ofBytes_accounts {bytes : Bytes} {d : Dataset} (h : ofBytes bytes = .ok d) :
    ∃ header rows, ∃ texts : List (List Text), Csv.records bytes = header :: rows ∧
      textRows rows = texts.map Except.ok ∧
      d.report.loaded = d.stocks.length ∧
      d.report.loaded + d.report.skipped.length = rows.length ∧
      (d.report.skipped.map SkippedRow.row).Pairwise (· < ·) ∧
      (∀ r ∈ d.report.skipped,
        1 ≤ r.row ∧ r.row ≤ d.report.loaded + d.report.skipped.length) ∧
      List.Forall₂ (fun row s => Row.read row.1 = .ok s)
        ((texts.zipIdx 1).filter fun row => row.2 ∉ d.report.skipped.map SkippedRow.row)
        d.stocks ∧
      List.Forall₂ (fun row r => r.row = row.2 ∧ Row.read row.1 = .error r.reason)
        ((texts.zipIdx 1).filter fun row => row.2 ∈ d.report.skipped.map SkippedRow.row)
        d.report.skipped := by
  obtain ⟨header, rows, names, texts, hrecords, hnames, htexts, rfl⟩ := ofBytes_eq_ok_iff.mp h
  have he := entered_ofRows texts
  have hrows : texts.length = rows.length := by
    have hlen := congrArg List.length htexts
    simpa [textRows] using hlen.symm
  have hloaded : (ofRows texts).report.loaded = (ofRows texts).stocks.length := rfl
  have hsum : (ofRows texts).report.loaded + (ofRows texts).report.skipped.length = rows.length :=
    he.length_add.trans hrows
  refine ⟨header, rows, texts, hrecords, htexts, hloaded, hsum, he.increasing, fun r hr => ?_,
    he.stocks_from.imp fun _ _ => Row.means_iff.mp,
    he.skipped_from.imp fun _ _ hm => ⟨hm.1, Row.means_iff.mp hm.2⟩⟩
  have hb := he.row_bounds r hr
  omega

def raggedText : Text :=
  "h\n\"A\"B,nan,nan,nan,nan,nan,nan,nan,nan,nan\nC,x\nD,x,,,,,,,,\n\"E,0\nF".toList

theorem ofBytes_accounts_of_ragged :
    ofBytes (encode raggedText) = .ok ⟨[.ofValues "AB".toList fun _ => .nan],
        ⟨1, [⟨2, .tooFewColumns 2⟩, ⟨3, .invalidMarketCap ['x']⟩, ⟨4, .tooFewColumns 1⟩]⟩⟩ ∧
      ∃ header rows, ∃ texts : List (List Text),
        Csv.records (encode raggedText) = header :: rows ∧
        textRows rows = texts.map Except.ok ∧ 1 + 3 = rows.length ∧
        List.Forall₂ (fun row s => Row.read row.1 = .ok s)
          ((texts.zipIdx 1).filter fun row => row.2 ∉ [2, 3, 4])
          [.ofValues "AB".toList fun _ => .nan] := by
  have h : ofBytes (encode raggedText) = .ok ⟨[.ofValues "AB".toList fun _ => .nan],
      ⟨1, [⟨2, .tooFewColumns 2⟩, ⟨3, .invalidMarketCap ['x']⟩, ⟨4, .tooFewColumns 1⟩]⟩⟩ := by
    decide +kernel
  obtain ⟨header, rows, texts, hrecords, htexts, -, hsum, -, -, hstocks, -⟩ := ofBytes_accounts h
  exact ⟨h, header, rows, texts, hrecords, htexts, hsum, hstocks⟩

end Dataset

end StockScreen
