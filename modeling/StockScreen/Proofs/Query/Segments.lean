import StockScreen.Proofs.Text.Pieces
import StockScreen.Proofs.Text.Trimming
import StockScreen.Query.Report

namespace StockScreen

open Text

theorem Query.conjunction_unbordered : Unbordered conjunction := by decide

theorem Query.conjunction_not_blank : ∀ c ∈ conjunction, isBlank c = false := by decide

theorem Query.conjunction_disjoint {w : Text} (hw : Blanks w) : List.Disjoint conjunction w := by
  intro c hc hcw
  have hb := conjunction_not_blank c hc
  rw [hw c hcw] at hb
  contradiction

instance : Append Report := ⟨fun r s => ⟨r.query ++ s.query, r.dropped ++ s.dropped⟩⟩

namespace Report

theorem append_def (r s : Report) : r ++ s = ⟨r.query ++ s.query, r.dropped ++ s.dropped⟩ := rfl

section Segments

variable {w : Text}

theorem segments_single {t : Text} (h : ¬Query.conjunction <:+: t) : segments t = [t.trim] := by
  rw [segments, split_of_not_occurring h, List.map_singleton]

theorem segments_append (a b : Text) :
    segments (a ++ (Query.conjunction ++ b)) = segments a ++ segments b := by
  rw [segments, split_append_word Query.conjunction_unbordered, List.map_append]
  rfl

theorem segments_append_blanks (hw : Blanks w) (t : Text) : segments (t ++ w) = segments t := by
  have hd := Query.conjunction_disjoint hw
  induction t using piece_induction Query.conjunction_unbordered.1 with
  | last t ht =>
    have htw := not_infix_append_right Query.conjunction_unbordered.1 hd ht
    rw [segments_single htw, segments_single ht, trim_append_right hw]
  | more a b ha ih => rw [List.append_assoc, List.append_assoc, segments_append, ih, segments_append]

theorem segments_blanks_append (hw : Blanks w) (t : Text) : segments (w ++ t) = segments t := by
  have hd := Query.conjunction_disjoint hw
  have first {a : Text} (ha : ¬Query.conjunction <:+: a) : segments (w ++ a) = segments a := by
    have hwa := not_infix_append_left Query.conjunction_unbordered.1 hd ha
    rw [segments_single hwa, segments_single ha, trim_append_left hw]
  by_cases ht : Query.conjunction <:+: t
  · obtain ⟨a, b, rfl, ha⟩ := exists_first Query.conjunction_unbordered.1 ht
    rw [← List.append_assoc, segments_append, first ha, segments_append]
  · exact first ht

theorem not_infix_of_mem_segments {t s : Text} (hs : s ∈ segments t) :
    ¬Query.conjunction <:+: s := by
  obtain ⟨p, hp, rfl⟩ := List.mem_map.mp hs
  intro h
  exact not_infix_of_mem_split Query.conjunction_unbordered hp (h.trans (trim_infix_self p))

end Segments

theorem ofText_append (a b : Text) :
    ofText (a ++ (Query.conjunction ++ b)) = ofText a ++ ofText b := by
  rw [append_def, ofText, segments_append, List.filterMap_append, List.filterMap_append]
  rfl

theorem ofText_append_blanks {w : Text} (hw : Blanks w) (t : Text) : ofText (t ++ w) = ofText t := by
  rw [ofText, segments_append_blanks hw, ofText]

theorem ofText_blanks_append {w : Text} (hw : Blanks w) (t : Text) : ofText (w ++ t) = ofText t := by
  rw [ofText, segments_blanks_append hw, ofText]

theorem ofText_spaced {before after : Text} (hb : Blanks before) (ha : Blanks after) (a b : Text) :
    ofText (a ++ (before ++ (Query.conjunction ++ (after ++ b)))) = ofText a ++ ofText b := by
  rw [← List.append_assoc, ofText_append, ofText_append_blanks hb, ofText_blanks_append ha]

theorem ofText_conjoined (a b : Text) :
    ofText (a ++ Query.conjunction ++ b) =
        ⟨(ofText a).query ++ (ofText b).query, (ofText a).dropped ++ (ofText b).dropped⟩ ∧
      ∀ before after, Blanks before → Blanks after →
        ofText (a ++ before ++ Query.conjunction ++ after ++ b) =
          ⟨(ofText a).query ++ (ofText b).query, (ofText a).dropped ++ (ofText b).dropped⟩ := by
  constructor
  · rw [List.append_assoc, ofText_append, append_def]
  · intro before after hb ha
    simp only [List.append_assoc]
    rw [ofText_spaced hb ha, append_def]

theorem ofText_conjoined_at_word_ends :
    Blanks ['\u3000'] ∧ Blanks ['\n', ' '] ∧
      ofText ("ROE>NANAN".toList ++ ['\u3000'] ++ Query.conjunction ++ ['\n', ' '] ++
          "D<naN".toList) =
        ⟨[⟨['D'], .below, .nan⟩], [⟨"ROE>NANAN".toList, .invalidValue⟩]⟩ := by
  have hb : Blanks ['\u3000'] := by decide
  have ha : Blanks ['\n', ' '] := by decide
  refine ⟨hb, ha, ((ofText_conjoined _ _).2 _ _ hb ha).trans ?_⟩
  decide

end Report

end StockScreen
