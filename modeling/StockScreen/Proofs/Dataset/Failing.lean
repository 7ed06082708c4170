import StockScreen.Proofs.Csv.Faults
import StockScreen.Proofs.Dataset.Loading

namespace StockScreen.Dataset

open Utf8 (Bytes encode)

variable {bytes : Bytes} {f : Csv.Fault}

section Outcomes

theorem fault?_of_first {before after : List Csv.Record} {r : Csv.Record}
    (hbefore : ∀ r ∈ before, r.IsText) (hr : r.texts (1 + before.length) = .error f) :
    fault? (before ++ r :: after) = some f := by
  obtain ⟨tables, htables⟩ := Csv.exists_tables hbefore
  have hnone : fault? before = none := fault?_eq_none_iff.mpr ⟨tables, textRows_of_cells htables⟩
  rw [fault?, textRows] at hnone ⊢
  rw [List.zipIdx_append, List.map_append, List.findSome?_append, hnone, List.zipIdx_cons,
    List.map_cons]
  simp only [hr]
  rfl

theorem ofBytes_of_no_record (h : Csv.records bytes = []) :
    ofBytes bytes = .error .missingHeader := by
  rw [ofBytes, loading, h]
  rfl

theorem ofBytes_of_fault (h : f.IsFirst (Csv.records bytes)) :
    ofBytes bytes = .error (.malformed (.encoding f)) := by
  obtain ⟨before, r, after, hrecords, hbefore, hnumber, hstart, hbreak⟩ := h
  have hr : r.texts before.length = .error f := by
    rw [Csv.Record.texts_of_break hbreak, ← hnumber, ← hstart]
  -- The header is read before any row, and the rows are numbered after it.
  cases before with
  | nil =>
    rw [ofBytes, loading, hrecords]
    simp only [List.nil_append]
    rw [← List.length_nil, hr]
    rfl
  | cons header before =>
    obtain ⟨hheader, hbefore⟩ := List.forall_mem_cons.mp hbefore
    obtain ⟨names, hnames⟩ := Csv.Record.texts_of_isText hheader
    rw [List.length_cons, Nat.add_comm] at hr
    rw [List.cons_append] at hrecords
    rw [ofBytes_of_records hrecords (hnames 0), fault?_of_first hbefore hr]

theorem ofBytes_of_texts (hne : Csv.records bytes ≠ []) (h : ∀ r ∈ Csv.records bytes, r.IsText) :
    ∃ d, ofBytes bytes = .ok d := by
  obtain ⟨header, rows, hrecords⟩ := List.exists_cons_of_ne_nil hne
  rw [hrecords] at h
  obtain ⟨hheader, hrows⟩ := List.forall_mem_cons.mp h
  obtain ⟨names, hnames⟩ := Csv.Record.texts_of_isText hheader
  obtain ⟨tables, htables⟩ := Csv.exists_tables hrows
  exact ⟨_, ofBytes_eq_ok_iff.mpr ⟨header, rows, names, tables, hrecords, hnames 0,
    textRows_of_cells htables, rfl⟩⟩

theorem ofBytes_cases (bytes : Bytes) :
    (Csv.records bytes = [] ∧ ofBytes bytes = .error .missingHeader) ∨
      (∃ f : Csv.Fault, f.IsFirst (Csv.records bytes) ∧
        ofBytes bytes = .error (.malformed (.encoding f))) ∨
      Csv.records bytes ≠ [] ∧ (∀ r ∈ Csv.records bytes, r.IsText) ∧
        ∃ d, ofBytes bytes = .ok d := by
  by_cases hne : Csv.records bytes = []
  · exact .inl ⟨hne, ofBytes_of_no_record hne⟩
  · by_cases htext : ∀ r ∈ Csv.records bytes, r.IsText
    · exact .inr (.inr ⟨hne, htext, ofBytes_of_texts hne htext⟩)
    · have hsome : ∃ r ∈ Csv.records bytes, ¬r.IsText := by simpa using htext
      obtain ⟨f, hf⟩ := Csv.exists_fault hsome
      exact .inr (.inl ⟨f, hf, ofBytes_of_fault hf⟩)

theorem ofBytes_eq_missingHeader_iff :
    ofBytes bytes = .error .missingHeader ↔ Csv.records bytes = [] := by
  refine ⟨fun h => ?_, ofBytes_of_no_record⟩
  rcases ofBytes_cases bytes with ⟨hnone, -⟩ | ⟨f, -, he⟩ | ⟨-, -, d, hd⟩
  · exact hnone
  · simp [he] at h
  · simp [hd] at h

theorem ofBytes_eq_fault_iff :
    ofBytes bytes = .error (.malformed (.encoding f)) ↔ f.IsFirst (Csv.records bytes) := by
  refine ⟨fun h => ?_, ofBytes_of_fault⟩
  rcases ofBytes_cases bytes with ⟨-, he⟩ | ⟨g, hg, he⟩ | ⟨-, -, d, hd⟩
  · simp [he] at h
  · rw [he] at h
    simp only [Except.error.injEq, DatasetError.malformed.injEq, MalformedCsv.encoding.injEq] at h
    exact h ▸ hg
  · simp [hd] at h

theorem exists_ofBytes_iff :
    (∃ d, ofBytes bytes = .ok d) ↔ Csv.records bytes ≠ [] ∧ ∀ r ∈ Csv.records bytes, r.IsText := by
  refine ⟨fun ⟨d, h⟩ => ?_, fun ⟨hne, htext⟩ => ofBytes_of_texts hne htext⟩
  rcases ofBytes_cases bytes with ⟨-, he⟩ | ⟨f, -, he⟩ | ⟨hne, htext, -⟩
  · simp [he] at h
  · simp [he] at h
  · exact ⟨hne, htext⟩

end Outcomes

/-- Loading fails for want of a record or because of the first cell that is not text. All other
bytes are a dataset. -/
theorem ofBytes_fails_exactly (bytes : Bytes) :
    (ofBytes bytes = .error .missingHeader ↔ Csv.records bytes = []) ∧
      (Csv.records bytes = [] ↔ ∀ b ∈ Csv.unmarked bytes, Csv.endsLine b = true) ∧
      ((∃ f, ofBytes bytes = .error (.malformed (.encoding f))) ↔
        ∃ r ∈ Csv.records bytes, ∃ cell ∈ r.cells, ¬Utf8.IsText cell) ∧
      (∀ f : Csv.Fault,
        ofBytes bytes = .error (.malformed (.encoding f)) ↔ f.IsFirst (Csv.records bytes)) ∧
      ((∃ d, ofBytes bytes = .ok d) ↔
        Csv.records bytes ≠ [] ∧ ∀ r ∈ Csv.records bytes, ∀ cell ∈ r.cells, Utf8.IsText cell) ∧
      (ofBytes bytes = .error .missingHeader ∨
        (∃ f, ofBytes bytes = .error (.malformed (.encoding f))) ∨ ∃ d, ofBytes bytes = .ok d) := by
  refine ⟨ofBytes_eq_missingHeader_iff, Csv.records_eq_nil_iff, ?_, fun f => ofBytes_eq_fault_iff,
    exists_ofBytes_iff, ?_⟩
  · rw [← Csv.exists_fault_iff]
    exact exists_congr fun f => ofBytes_eq_fault_iff
  · rcases ofBytes_cases bytes with ⟨-, he⟩ | ⟨f, -, he⟩ | ⟨-, -, hd⟩
    · exact .inl he
    · exact .inr (.inl ⟨f, he⟩)
    · exact .inr (.inr hd)

def brokenBytes : Bytes := encode "h\nA,x".toList ++ 0xC3 :: encode "\n\"B".toList ++ [0xFF]

theorem ofBytes_fails_exactly_at_short_row :
    Csv.Fault.IsFirst ⟨1, ⟨2, 2⟩, 1, 1⟩ (Csv.records brokenBytes) ∧
      ofBytes brokenBytes = .error (.malformed (.encoding ⟨1, ⟨2, 2⟩, 1, 1⟩)) := by
  have htext {t : Text} : Utf8.IsText (encode t) := ⟨t, rfl⟩
  have hrecords : Csv.records brokenBytes =
      [⟨⟨0, 1⟩, [encode ['h']]⟩] ++ ⟨⟨2, 2⟩, [encode ['A']] ++ [[0x78, 0xC3]]⟩ ::
        [⟨⟨7, 3⟩, [[0x42, 0xFF]]⟩] := by decide
  have hfirst : Csv.Fault.IsFirst ⟨1, ⟨2, 2⟩, 1, 1⟩ (Csv.records brokenBytes) := by
    refine ⟨_, _, _, hrecords, ?_, rfl, rfl, _, _, [], rfl, ?_, rfl,
      Utf8.decode_eq_error_iff.mp (by decide)⟩
    · simp [Csv.Record.IsText, htext]
    · simp [htext]
  exact ⟨hfirst, ((ofBytes_fails_exactly brokenBytes).2.2.2.1 _).mpr hfirst⟩

end StockScreen.Dataset
