import StockScreen.Dataset.Load
import StockScreen.Proofs.Query.Grammar

namespace StockScreen

open Text

namespace Report

section Joined

variable {before after : Text}

theorem ofText_join (hb : Blanks before) (ha : Blanks after) {ts : List Text} (hne : ts ≠ []) :
    ofText (join (before ++ Query.conjunction ++ after) ts) =
      ⟨ts.flatMap fun t => (ofText t).query, ts.flatMap fun t => (ofText t).dropped⟩ := by
  induction ts with
  | nil => exact absurd rfl hne
  | cons t ts ih =>
    by_cases h : ts = []
    · simp [h, join_singleton]
    · have hjoin := ofText_spaced hb ha t (join (before ++ Query.conjunction ++ after) ts)
      simp only [← List.append_assoc] at hjoin
      rw [join_cons _ t h]
      simp only [← List.append_assoc]
      rw [hjoin, ih h]
      rfl

theorem ofText_join_conjunction {ts : List Text} (hne : ts ≠ []) :
    ofText (join Query.conjunction ts) =
      ⟨ts.flatMap fun t => (ofText t).query, ts.flatMap fun t => (ofText t).dropped⟩ := by
  have h := ofText_join Blanks.nil Blanks.nil hne
  rwa [List.nil_append, List.append_nil] at h

theorem ofText_trim (t : Text) : ofText t.trim = ofText t := by
  obtain ⟨p, s, hp, hs, ht⟩ := exists_trim t
  rw [ht, ofText_append_blanks hs, ofText_blanks_append hp, ← ht]

end Joined

section Pieces

def keeps (piece : Text) : Bool := !(ofText piece).query.isEmpty

variable {p t : Text} {ps : List Text}

theorem ofText_piece (hp : ¬Query.conjunction <:+: p) :
    (∃ c, ofText p = ⟨[c], []⟩) ∨ ∃ d, ofText p = ⟨[], [d]⟩ ∧ d.segment = p.trim := by
  rw [ofText_single hp]
  cases readSegment p.trim with
  | ok c => exact .inl ⟨c, rfl⟩
  | error reason => exact .inr ⟨⟨p.trim, reason⟩, rfl, rfl⟩

theorem ofText_pieces (t : Text) :
    ofText t = ⟨(split Query.conjunction t).flatMap fun p => (ofText p).query,
      (split Query.conjunction t).flatMap fun p => (ofText p).dropped⟩ := by
  have h := ofText_join_conjunction (split_ne_nil Query.conjunction_unbordered t)
  rwa [join_split Query.conjunction_unbordered] at h

theorem query_pieces (t : Text) :
    ((split Query.conjunction t).flatMap fun p => (ofText p).query) = (ofText t).query :=
  (congrArg Report.query (ofText_pieces t)).symm

theorem dropped_pieces (t : Text) :
    ((split Query.conjunction t).flatMap fun p => (ofText p).dropped) = (ofText t).dropped :=
  (congrArg Report.dropped (ofText_pieces t)).symm

theorem keeps_of_query {c : Condition} (h : ofText p = ⟨[c], []⟩) : keeps p = true := by
  simp [keeps, h]

theorem not_keeps_of_dropped {d : Dropped} (h : ofText p = ⟨[], [d]⟩) : keeps p = false := by
  simp [keeps, h]

theorem ofText_of_kept (hps : ∀ p ∈ ps, ¬Query.conjunction <:+: p) :
    (ps.filter keeps).map ofText =
      (ps.flatMap fun p => (ofText p).query).map fun c => ⟨[c], []⟩ := by
  induction ps with
  | nil => rfl
  | cons p ps ih =>
    obtain ⟨hp, hps⟩ := List.forall_mem_cons.mp hps
    rcases ofText_piece hp with ⟨c, h⟩ | ⟨d, h, -⟩
    · simp [keeps_of_query h, h, ih hps]
    · simp [not_keeps_of_dropped h, h, ih hps]

theorem segments_of_not_kept (hps : ∀ p ∈ ps, ¬Query.conjunction <:+: p) :
    (ps.flatMap fun p => (ofText p).dropped).map Dropped.segment =
      (ps.filter (!keeps ·)).map trim := by
  induction ps with
  | nil => rfl
  | cons p ps ih =>
    obtain ⟨hp, hps⟩ := List.forall_mem_cons.mp hps
    rcases ofText_piece hp with ⟨c, h⟩ | ⟨d, h, hd⟩
    · simp [keeps_of_query h, h, ih hps]
    · simp [not_keeps_of_dropped h, h, hd, ih hps]

theorem length_pieces (hps : ∀ p ∈ ps, ¬Query.conjunction <:+: p) :
    (ps.flatMap fun p => (ofText p).query).length +
      (ps.flatMap fun p => (ofText p).dropped).length = ps.length := by
  have hk := congrArg List.length (ofText_of_kept hps)
  have hd := congrArg List.length (segments_of_not_kept hps)
  simp only [List.length_map] at hk hd
  rw [← hk, hd, ← List.length_eq_length_filter_add]

theorem dropped_of_kept (hps : ∀ p ∈ ps, ¬Query.conjunction <:+: p) :
    ((ps.filter keeps).flatMap fun p => (ofText p).dropped) = [] := by
  rw [List.flatMap_eq_nil_iff]
  intro p hp
  obtain ⟨hmem, hk⟩ := List.mem_filter.mp hp
  rcases ofText_piece (hps p hmem) with ⟨c, h⟩ | ⟨d, h, -⟩
  · rw [h]
  · rw [not_keeps_of_dropped h] at hk
    contradiction

theorem query_of_kept (ts : List Text) :
    ((ts.filter keeps).flatMap fun t => (ofText t).query) =
      ts.flatMap fun t => (ofText t).query := by
  induction ts with
  | nil => rfl
  | cons t ts ih =>
    cases hq : (ofText t).query with
    | nil => simp [keeps, hq, ih]
    | cons c q => simp [keeps, hq, ih]

end Pieces

section Stability

theorem ofText_dropped {t : Text} {d : Dropped} (hd : d ∈ (ofText t).dropped) :
    ofText d.segment = ⟨[], [d]⟩ := by
  rw [← dropped_pieces] at hd
  obtain ⟨p, hp, hdp⟩ := List.mem_flatMap.mp hd
  have hn : ¬Query.conjunction <:+: p := not_infix_of_mem_split Query.conjunction_unbordered hp
  rcases ofText_piece hn with ⟨c, h⟩ | ⟨e, h, he⟩
  · rw [h] at hdp
    contradiction
  · rw [h, List.mem_singleton] at hdp
    rw [hdp, he, ofText_trim, h]

theorem query_of_same_kept {t : Text} {rest : List Text}
    (h : rest.filter keeps = (split Query.conjunction t).filter keeps) :
    (ofText (join Query.conjunction rest)).query = (ofText t).query := by
  rw [← query_pieces t, ← query_of_kept (split Query.conjunction t), ← h, query_of_kept]
  by_cases hne : rest = []
  · rw [hne]
    rfl
  · rw [ofText_join_conjunction hne]

end Stability

/-- Every piece of a query text is kept or dropped, in its order. A kept piece alone is its
condition, a dropped one is dropped again for the same reason, and whoever takes malformed pieces
out of the text, some of them or all, changes no selection. -/
theorem ofText_accounts (t : Text) :
    (ofText t).query.length + (ofText t).dropped.length = occurrences Query.conjunction t + 1 ∧
      ((split Query.conjunction t).filter keeps).map ofText =
        (ofText t).query.map (fun c => ⟨[c], []⟩) ∧
      ((split Query.conjunction t).filter (!keeps ·)).map trim =
        (ofText t).dropped.map Dropped.segment ∧
      (∀ d ∈ (ofText t).dropped, ofText d.segment = ⟨[], [d]⟩) ∧
      ((split Query.conjunction t).filter keeps ≠ [] →
        ofText (join Query.conjunction ((split Query.conjunction t).filter keeps)) =
          ⟨(ofText t).query, []⟩) ∧
      ∀ rest : List Text, rest.filter keeps = (split Query.conjunction t).filter keeps →
        ∀ d : Dataset, d.screen (join Query.conjunction rest) = d.screen t := by
  have hps : ∀ p ∈ split Query.conjunction t, ¬Query.conjunction <:+: p := by
    intro p hp
    exact not_infix_of_mem_split Query.conjunction_unbordered hp
  refine ⟨?_, ?_, ?_, fun d hd => ofText_dropped hd, fun hne => ?_, fun rest hrest d => ?_⟩
  · rw [← query_pieces, ← dropped_pieces, length_pieces hps,
      length_split Query.conjunction_unbordered]
  · rw [ofText_of_kept hps, query_pieces]
  · rw [← segments_of_not_kept hps, dropped_pieces]
  · rw [ofText_join_conjunction hne, dropped_of_kept hps, query_of_kept, query_pieces]
  · rw [Dataset.screen, Query.ofText, query_of_same_kept hrest, Dataset.screen, Query.ofText]

theorem ofText_accounts_for_repeated_operator :
    (split Query.conjunction "ROE>NAN AND a<b<1AND=inf".toList).filter keeps =
        ["ROE>NAN ".toList, "=inf".toList] ∧
      ["ROE>NAN ".toList, "=inf".toList].filter keeps =
        ["ROE>NAN ".toList, "=inf".toList] ∧
      ⟨"a<b<1".toList, .repeatedOperator⟩ ∈ (ofText "ROE>NAN AND a<b<1AND=inf".toList).dropped ∧
      ofText "a<b<1".toList = ⟨[], [⟨"a<b<1".toList, .repeatedOperator⟩]⟩ ∧
      ofText "ROE>NAN AND=inf".toList =
        ⟨[⟨"ROE".toList, .above, .nan⟩, ⟨[], .equal, .signed false .infinity⟩], []⟩ ∧
      ∀ d : Dataset, d.screen "ROE>NAN AND=inf".toList =
        d.screen "ROE>NAN AND a<b<1AND=inf".toList := by
  have hkept : (split Query.conjunction "ROE>NAN AND a<b<1AND=inf".toList).filter keeps =
      ["ROE>NAN ".toList, "=inf".toList] := by decide
  have hrest : ["ROE>NAN ".toList, "=inf".toList].filter keeps =
      ["ROE>NAN ".toList, "=inf".toList] := by decide
  have hdropped : (⟨"a<b<1".toList, .repeatedOperator⟩ : Dropped) ∈
      (ofText "ROE>NAN AND a<b<1AND=inf".toList).dropped := by decide
  have hne : (split Query.conjunction "ROE>NAN AND a<b<1AND=inf".toList).filter keeps ≠ [] := by
    rw [hkept]
    exact List.cons_ne_nil _ _
  obtain ⟨-, -, -, hstable, hjoin, hscreen⟩ :=
    ofText_accounts "ROE>NAN AND a<b<1AND=inf".toList
  refine ⟨hkept, hrest, hdropped, hstable _ hdropped, ?_, ?_⟩
  · have h := hjoin hne
    rw [hkept] at h
    exact h.trans (by decide)
  · exact hscreen ["ROE>NAN ".toList, "=inf".toList] (hrest.trans hkept.symm)

end Report

end StockScreen
