import StockScreen.Listing.Content
import StockScreen.Proofs.Dataset.Loading
import StockScreen.Proofs.Query.Grammar
import StockScreen.Proofs.Query.Narrowing

namespace StockScreen

open Utf8 (Bytes)

def Condition.IsUnknown (c : Condition) : Prop := ∀ field : Field, field.name ≠ c.field

inductive SkippedRow.Warns : SkippedRow → Text → Prop where
  | short (row found : Nat) :
    Warns ⟨row, .tooFewColumns found⟩ ("skipped dataset row ".toList ++ Text.ofNat row ++
      ": ".toList ++ ("only ".toList ++ Text.ofNat found ++ " columns".toList))
  | market (row : Nat) (value : Text) :
    Warns ⟨row, .invalidMarketCap value⟩ ("skipped dataset row ".toList ++ Text.ofNat row ++
      ": ".toList ++ ("invalid market capitalization '".toList ++ value ++ ['\'']))

inductive DropReason.Names : DropReason → Text → Text → Prop where
  | noOperator : Names .noOperator "no_operator".toList "NoOperator".toList
  | repeatedOperator :
    Names .repeatedOperator "repeated_operator".toList "RepeatedOperator".toList
  | invalidValue : Names .invalidValue "invalid_value".toList "InvalidValue".toList

namespace Dataset

variable {bytes : Bytes} {d : Dataset} {rows : List (List Text)}

def HasRows (bytes : Bytes) (rows : List (List Text)) : Prop :=
  ∃ header records, Csv.records bytes = header :: records ∧ textRows records = rows.map Except.ok

theorem Entered.skipped_eq_nil_iff {number : Nat} {stocks : List Stock} {skipped : List SkippedRow}
    (h : Entered number rows stocks skipped) :
    skipped = [] ↔ ∀ cells ∈ rows, ∃ s, Row.Means cells (.ok s) := by
  induction h with
  | none => exact iff_of_true rfl (List.forall_mem_nil _)
  | stock hm _ ih =>
    rw [List.forall_mem_cons, ih]
    exact (and_iff_right ⟨_, hm⟩).symm
  | skip hm _ ih =>
    rw [List.forall_mem_cons]
    refine iff_of_false (List.cons_ne_nil _ _) ?_
    rintro ⟨⟨s, hs⟩, -⟩
    have hread := (Row.read_of_means hm).symm.trans (Row.read_of_means hs)
    contradiction

theorem exists_rows (h : ofBytes bytes = .ok d) :
    ∃ rows, HasRows bytes rows ∧
      (d.skipped = [] ↔ ∀ cells ∈ rows, ∃ s, Row.Means cells (.ok s)) := by
  obtain ⟨header, records, names, rows, hrecords, -, hrows, rfl⟩ := ofBytes_eq_ok_iff.mp h
  exact ⟨rows, ⟨header, records, hrecords, hrows⟩, (entered_ofRows rows).skipped_eq_nil_iff⟩

end Dataset

namespace Condition

variable {c : Condition}

theorem isUnknown_iff (c : Condition) : c.IsUnknown ↔ c.known?.isNone = true := by
  rw [Option.isNone_iff_eq_none, known?, Option.eq_none_iff_forall_ne_some]
  exact forall_congr' fun field => not_congr Field.named?_eq_some_iff.symm

theorem known?_isSome_iff (c : Condition) : c.known?.isSome = false ↔ c.IsUnknown := by
  rw [isUnknown_iff, Option.isSome_eq_false_iff]

theorem markedDocument_injective : Function.Injective markedDocument := by
  intro c c' h
  have hmembers : c.members = c'.members := List.append_inj_left (Json.object.inj h) rfl
  simp only [members, List.cons.injEq, Prod.mk.injEq, Json.string.injEq, Json.number.injEq,
    true_and, and_true] at hmembers
  obtain ⟨hfield, hoperator, hthreshold⟩ := hmembers
  cases c
  cases c'
  simp only at hfield hoperator hthreshold
  rw [hfield, Operator.symbol_injective hoperator, hthreshold]

end Condition

theorem Query.isSelection_unknown (q : Query) :
    IsSelection Condition.IsUnknown q (Listing.unknown q) := by
  have hunknown : (fun c : Condition => c.known?.isNone = true) = Condition.IsUnknown :=
    funext fun c => propext c.isUnknown_iff.symm
  rw [← hunknown]
  exact isSelection_filter _ q

theorem Report.dropped_eq_nil_iff {t : Text} :
    (ofText t).dropped = [] ↔ ∀ segment ∈ segments t, ∃ c : Condition, c.StatedBy segment := by
  rw [ofText, List.filterMap_eq_nil_iff]
  refine forall₂_congr fun segment _ => ?_
  have hstated : (∃ c : Condition, c.StatedBy segment) ↔ ∃ c, readSegment segment = .ok c :=
    exists_congr fun c => readSegment_eq_ok_iff.symm
  rw [hstated, dropped?]
  cases readSegment segment with
  | ok c => exact iff_of_true rfl ⟨c, rfl⟩
  | error reason => simp

namespace Listing

variable {c : Condition} {d : Dataset} {t : Text}

section Texts

theorem enclosed_inj {front back a b : Text} : front ++ a ++ back = front ++ b ++ back ↔ a = b := by
  rw [List.append_left_inj, List.append_right_inj]

theorem fieldWarning_eq_iff {c' : Condition} :
    fieldWarning c = fieldWarning c' ↔ c.field = c'.field := enclosed_inj

theorem fieldWarning_not_mem {warnings : List Text} {x : Char} (hx : x ≠ 'u')
    (hwarnings : ∀ w ∈ warnings, w.head? = some x) (c : Condition) : fieldWarning c ∉ warnings := by
  intro hc
  have hhead : (fieldWarning c).head? = some 'u' := rfl
  exact hx (Option.some.inj ((hwarnings _ hc).symm.trans hhead))

theorem rowWarning_warns (s : SkippedRow) : s.Warns (rowWarning s) := by
  obtain ⟨row, reason⟩ := s
  cases reason with
  | tooFewColumns found => exact .short row found
  | invalidMarketCap value => exact .market row value

theorem names_reason (r : DropReason) : r.Names r.key r.name := by
  cases r with
  | noOperator => exact .noOperator
  | repeatedOperator => exact .repeatedOperator
  | invalidValue => exact .invalidValue

end Texts

section Filter

theorem mem_unknown_iff {q : Query} : c ∈ unknown q ↔ c ∈ q ∧ c.IsUnknown := by
  rw [unknown, List.mem_filter, Condition.isUnknown_iff]

theorem fieldWarning_mem_iff :
    fieldWarning c ∈ (filter d t).warnings ↔
      ∃ c' ∈ Query.ofText t, c'.IsUnknown ∧ c'.field = c.field := by
  have hrow : fieldWarning c ∉ d.skipped.map rowWarning :=
    fieldWarning_not_mem (by decide) (List.forall_mem_map.mpr fun _ _ => rfl) c
  have hsegment : fieldWarning c ∉ (Report.ofText t).dropped.map segmentWarning :=
    fieldWarning_not_mem (by decide) (List.forall_mem_map.mpr fun _ _ => rfl) c
  simp only [filter, List.mem_append, hrow, hsegment, false_or, List.mem_map, mem_unknown_iff,
    fieldWarning_eq_iff, and_assoc]
  rfl

theorem warnings_eq_nil_iff :
    (filter d t).warnings = [] ↔
      d.skipped = [] ∧ (∀ segment ∈ Report.segments t, ∃ c : Condition, c.StatedBy segment) ∧
        ∀ c ∈ Query.ofText t, ∃ field : Field, field.name = c.field := by
  have hunknown : unknown (Query.ofText t) = [] ↔
      ∀ c ∈ Query.ofText t, ∃ field : Field, field.name = c.field := by
    rw [List.eq_nil_iff_forall_not_mem]
    simp only [mem_unknown_iff, Condition.IsUnknown, not_and, not_forall, not_not]
  rw [← Report.dropped_eq_nil_iff, ← hunknown]
  simp only [filter, List.append_eq_nil_iff, List.map_eq_nil_iff, and_assoc]
  rfl

theorem content_filter (d : Dataset) (t : Text) : (filter d t).content = .stocks (d.screen t) := rfl

theorem content_of_fieldWarning (h : fieldWarning c ∈ (filter d t).warnings) :
    (filter d t).content = .stocks [] := by
  obtain ⟨c', hc', hunknown, -⟩ := fieldWarning_mem_iff.mp h
  rw [content_filter, Dataset.screen, Query.screen_of_unknown hc' hunknown]

end Filter

/-- Filtering lists what the text selects, with one warning for each skipped row, each dropped
segment and each condition on an unknown field, in that order. So there is none exactly if all rows
are stocks, all segments conditions and all fields known, and one about a field only on an empty
list. The reading of the text shows the same segments and marks the same conditions, which select
the same stocks. -/
theorem filter_warns (d : Dataset) (t : Text) :
    (∃ rows segments unknown, List.Forall₂ SkippedRow.Warns d.skipped rows ∧
      List.Forall₂ (fun d w => ∃ key name, d.reason.Names key name ∧
        w = "ignored query segment '".toList ++ d.segment ++ "' (".toList ++ name ++ [')'])
        (Report.ofText t).dropped segments ∧
      IsSelection Condition.IsUnknown (Query.ofText t) unknown ∧
      filter d t = ⟨.stocks (d.screen t), rows ++ segments ++ unknown.map fieldWarning⟩) ∧
    (∀ c, fieldWarning c =
      "unknown field '".toList ++ c.field ++ "' matches no stock".toList) ∧
    ((filter d t).warnings = [] ↔
      d.skipped = [] ∧ (∀ segment ∈ Report.segments t, ∃ c : Condition, c.StatedBy segment) ∧
        ∀ c ∈ Query.ofText t, ∃ field : Field, field.name = c.field) ∧
    (∀ bytes, Dataset.ofBytes bytes = .ok d → ∃ rows, Dataset.HasRows bytes rows ∧
      (d.skipped = [] ↔ ∀ cells ∈ rows, ∃ s, Row.Means cells (.ok s))) ∧
    (∀ c, fieldWarning c ∈ (filter d t).warnings → (filter d t).content = .stocks []) ∧
    parse t = ⟨.report (Report.ofText t), []⟩ ∧
    ∃ conditions dropped, (parse t).content.document =
        .object [("normalized".toList, .string (Query.ofText t).text),
          ("conditions".toList, .array conditions), ("dropped".toList, .array dropped)] ∧
      List.Forall₂ (fun d j => ∃ key name, d.reason.Names key name ∧
        j = Json.object [("segment".toList, .string d.segment), ("reason".toList, .string key)])
        (Report.ofText t).dropped dropped ∧
      List.Forall₂ (fun c j => ∃ known, j = Json.object
          [("field".toList, .string c.field), ("operator".toList, .string c.operator.symbol),
            ("value".toList, .number c.threshold), ("known_field".toList, .bool known)] ∧
        (known = false ↔ fieldWarning c ∈ (filter d t).warnings)) (Query.ofText t) conditions ∧
      ∀ q : Query, q.map Condition.markedDocument = conditions →
        (filter d t).content = .stocks (q.screen d.stocks) := by
  refine ⟨⟨d.skipped.map rowWarning, (Report.ofText t).dropped.map segmentWarning, _, ?_, ?_,
      Query.isSelection_unknown _, rfl⟩, fun _ => rfl, warnings_eq_nil_iff,
    fun bytes h => Dataset.exists_rows h, fun c h => content_of_fieldWarning h, rfl,
    (Query.ofText t).map Condition.markedDocument, (Report.ofText t).dropped.map Dropped.document,
    rfl, ?_, ?_, ?_⟩
  · exact forall₂_map fun s _ => rowWarning_warns s
  · exact forall₂_map fun d _ => ⟨_, _, names_reason d.reason, rfl⟩
  · exact forall₂_map fun d _ => ⟨_, _, names_reason d.reason, rfl⟩
  · refine forall₂_map fun c hc => ⟨_, rfl, ?_⟩
    rw [Condition.known?_isSome_iff, fieldWarning_mem_iff]
    constructor
    · intro hunknown
      exact ⟨c, hc, hunknown, rfl⟩
    · rintro ⟨c', -, hunknown, hfield⟩ field
      rw [← hfield]
      exact hunknown field
  · intro q hq
    rw [List.map_injective_iff.mpr Condition.markedDocument_injective hq]
    rfl

def raggedTable : Text := "h\nA,nan,nan,nan,nan,nan,nan,nan,nan,nan\nB,1".toList

def raggedDataset : Dataset := ⟨[.ofValues ['A'] fun _ => .nan], ⟨1, [⟨2, .tooFewColumns 2⟩]⟩⟩

theorem filter_warns_of_short_row :
    Dataset.ofBytes (Utf8.encode raggedTable) = .ok raggedDataset ∧
      (∃ rows, Dataset.HasRows (Utf8.encode raggedTable) rows ∧
        ¬∀ cells ∈ rows, ∃ s, Row.Means cells (.ok s)) ∧
      fieldWarning ⟨"Beta".toList, .above, .nan⟩ ∈
        (filter raggedDataset "ROE AND Beta>NaN".toList).warnings ∧
      (filter raggedDataset "ROE AND Beta>NaN".toList).content = .stocks [] := by
  have hload : Dataset.ofBytes (Utf8.encode raggedTable) = .ok raggedDataset := by decide +kernel
  have hwarning : fieldWarning ⟨"Beta".toList, .above, .nan⟩ ∈
      (filter raggedDataset "ROE AND Beta>NaN".toList).warnings := by decide +kernel
  obtain ⟨-, -, -, htable, hfield, -⟩ := filter_warns raggedDataset "ROE AND Beta>NaN".toList
  obtain ⟨rows, hrows, hall⟩ := htable _ hload
  exact ⟨hload, ⟨rows, hrows, fun h => List.cons_ne_nil _ _ (hall.mpr h)⟩, hwarning,
    hfield _ hwarning⟩

end Listing

end StockScreen
