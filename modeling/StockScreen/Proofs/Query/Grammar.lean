import StockScreen.Proofs.Binary64.Spelling
import StockScreen.Proofs.Query.OperatorSearch
import StockScreen.Proofs.Query.Segments

namespace StockScreen

open Text Literal

def Binary64.IsThreshold (t : Text) (x : Binary64) : Prop :=
  Binary64.ofText? t = some x ∧ (x.isFinite ∨ x.isNaN ∨ SpellsInfinity t)

/-- The segment is the condition's field, operator and threshold, with nothing else but blanks. -/
def Condition.StatedBy (c : Condition) (segment : Text) : Prop :=
  ∃ left right, segment = left ++ (c.operator.symbol ++ right) ∧ c.operator.FreeUpTo left ∧
    (∀ m ∈ right, m ∉ Operator.marks) ∧ c.field = left.trim ∧
    Binary64.IsThreshold right.trim c.threshold

/-- The operator stands where the last of the text's marks stands, and no longer operator does. -/
def Operator.EndsLast (op : Operator) (t : Text) : Prop :=
  ∃ left right, t = left ++ (op.symbol ++ right) ∧ (∀ m ∈ right, m ∉ Operator.marks) ∧
    ∀ p : Operator, p.symbol <:+ left ++ op.symbol → p.symbol.length ≤ op.symbol.length

def Operator.RepeatedIn (t : Text) : Prop :=
  ∃ op : Operator, op.FirstIn t ∧ 2 ≤ occurrences op.symbol t

section Threshold

theorem Binary64.isInfinite_or (x : Binary64) :
    x.isInfinite = false ↔ x.isFinite = true ∨ x.isNaN = true := by
  cases x <;> simp [isInfinite, isFinite, isNaN]

theorem Report.threshold?_eq_some_iff {t : Text} {x : Binary64} :
    threshold? t = some x ↔ Binary64.IsThreshold t x := by
  rw [threshold?, Binary64.IsThreshold, Binary64.ofText?, ← or_assoc, ← Binary64.isInfinite_or]
  cases hr : read? t with
  | none => simp
  | some l =>
    have hs := spellsInfinity_iff (read?_eq_some_iff.mp hr)
    by_cases hx : l.value = x
    · subst hx
      cases hi : l.value.isInfinite <;> simp [hs, hi]
    · simp [hx]

theorem Binary64.IsThreshold.not_mark {t : Text} {x : Binary64} (h : IsThreshold t.trim x) :
    ∀ m ∈ t, m ∉ Operator.marks := by
  obtain ⟨l, hl, -⟩ := Option.map_eq_some_iff.mp h.1
  have ha := (read?_eq_some_iff.mp hl).mem_alphabet
  have hm : ∀ m ∈ alphabet, m ∉ Operator.marks := by decide
  obtain ⟨p, s, hp, hs, ht⟩ := exists_trim t
  rw [ht]
  exact List.forall_mem_append.mpr
    ⟨List.forall_mem_append.mpr ⟨Operator.blanks_not_mark hp, fun m hmt => hm m (ha m hmt)⟩,
      Operator.blanks_not_mark hs⟩

end Threshold

theorem Condition.endsLast_of_statedBy {c : Condition} {segment : Text} (h : c.StatedBy segment) :
    c.operator.EndsLast segment := by
  obtain ⟨left, right, ht, hl, hr, -, -⟩ := h
  exact ⟨left, right, ht, hr, fun _ hp => Operator.length_le_of_suffix hl hp⟩

namespace Report

theorem readSegment_of_statedBy {c : Condition} {segment : Text} (h : c.StatedBy segment) :
    readSegment segment = .ok c := by
  obtain ⟨left, right, rfl, hl, hr, hf, hx⟩ := h
  have hd := Operator.detect?_eq_some_iff.mpr (Operator.firstIn_around hl hr)
  rw [readSegment, hd]
  simp only [Operator.split_around hl hr, threshold?_eq_some_iff.mpr hx, ← hf]

theorem statedBy_of_readSegment {c : Condition} {segment : Text}
    (h : readSegment segment = .ok c) : c.StatedBy segment := by
  rw [readSegment] at h
  split at h
  · contradiction
  · next op hd =>
    split at h
    · next field value hs =>
      split at h
      · next x hx =>
        obtain rfl := Except.ok.inj h
        have hseg := join_split op.symbol_unbordered segment
        rw [hs, join_cons _ _ (List.cons_ne_nil _ _), join_singleton] at hseg
        have hn : ¬op.symbol <:+: field :=
          not_infix_of_mem_split op.symbol_unbordered (hs ▸ List.mem_cons_self)
        have hfirst := (Operator.detect?_eq_some_iff.mp hd).2
        have hthreshold := threshold?_eq_some_iff.mp hx
        refine ⟨field, value, hseg.symm, ?_, hthreshold.not_mark, rfl, hthreshold⟩
        intro p hp hpf
        by_cases he : p = op
        · exact hn (he ▸ hpf)
        · exact hfirst p hp he (hseg ▸ List.infix_append_of_infix_left hpf)
      · contradiction
    · contradiction

theorem readSegment_eq_ok_iff {c : Condition} {segment : Text} :
    readSegment segment = .ok c ↔ c.StatedBy segment :=
  ⟨statedBy_of_readSegment, readSegment_of_statedBy⟩

theorem kept?_eq_some_iff {c : Condition} {segment : Text} :
    kept? segment = some c ↔ c.StatedBy segment := by
  rw [← readSegment_eq_ok_iff, kept?]
  cases readSegment segment with
  | ok d => simp [Except.toOption]
  | error reason => simp [Except.toOption]

theorem readSegment_eq_noOperator_iff {segment : Text} :
    readSegment segment = .error .noOperator ↔ ∀ m ∈ segment, m ∉ Operator.marks := by
  rw [← Operator.detect?_eq_none_iff, readSegment]
  cases Operator.detect? segment with
  | none => simp
  | some op =>
    simp only [reduceCtorEq, iff_false]
    split
    · split <;> simp
    · simp

theorem readSegment_of_length {op : Operator} {segment : Text}
    (hd : Operator.detect? segment = some op) :
    readSegment segment = .error .repeatedOperator ↔ (split op.symbol segment).length ≠ 2 := by
  rw [readSegment, hd]
  simp only
  split
  · next field value hs =>
    rw [hs]
    split <;> simp
  · next hs =>
    refine ⟨fun _ hlen => ?_, fun _ => rfl⟩
    obtain ⟨field, value, he⟩ := List.length_eq_two.mp hlen
    exact hs field value he

theorem readSegment_eq_repeatedOperator_iff {segment : Text} :
    readSegment segment = .error .repeatedOperator ↔ Operator.RepeatedIn segment := by
  constructor
  · intro h
    cases hd : Operator.detect? segment with
    | none =>
      rw [readSegment, hd] at h
      exact absurd (Except.error.inj h) (by decide)
    | some op =>
      have hfirst := Operator.detect?_eq_some_iff.mp hd
      have hlen := (readSegment_of_length hd).mp h
      rw [length_split op.symbol_unbordered] at hlen
      have hpos := occurrences_pos op.symbol_unbordered hfirst.1
      exact ⟨op, hfirst, by omega⟩
  · rintro ⟨op, hfirst, hocc⟩
    have hlen := length_split op.symbol_unbordered segment
    exact (readSegment_of_length (Operator.detect?_eq_some_iff.mpr hfirst)).mpr (by omega)

theorem readSegment_eq_invalidValue_iff {segment : Text} :
    readSegment segment = .error .invalidValue ↔
      (∀ c : Condition, ¬c.StatedBy segment) ∧ (∃ m ∈ segment, m ∈ Operator.marks) ∧
        ¬Operator.RepeatedIn segment := by
  have hno := @readSegment_eq_noOperator_iff segment
  have hrep := @readSegment_eq_repeatedOperator_iff segment
  simp only [← readSegment_eq_ok_iff, ← hrep]
  have hmarks : (∃ m ∈ segment, m ∈ Operator.marks) ↔
      readSegment segment ≠ .error .noOperator := by
    rw [Ne, hno]
    push Not
    rfl
  rw [hmarks]
  rcases readSegment segment with reason | c
  · cases reason <;> simp
  · simp

theorem ofText_single {t : Text} (h : ¬Query.conjunction <:+: t) :
    ofText t =
      match readSegment t.trim with
      | .ok c => ⟨[c], []⟩
      | .error reason => ⟨[], [⟨t.trim, reason⟩]⟩ := by
  rw [ofText, segments_single h]
  cases hr : readSegment t.trim <;> simp [kept?, dropped?, hr, Except.toOption]

/-- What becomes of a text without conjunction: it is one condition if its trimmed form states it,
and then by its last operator; else it is dropped in trimmed form for exactly one reason. -/
theorem ofText_of_one_segment (t : Text) (h : ¬Query.conjunction <:+: t) :
    (∀ c : Condition, ofText t = ⟨[c], []⟩ ↔ c.StatedBy t.trim) ∧
      (∀ c : Condition, c.StatedBy t.trim → c.operator.EndsLast t.trim) ∧
      ((∀ c : Condition, ¬c.StatedBy t.trim) →
        ∃ reason, ofText t = ⟨[], [⟨t.trim, reason⟩]⟩ ∧
          (reason = .noOperator ↔ ∀ m ∈ t.trim, m ∉ Operator.marks) ∧
          (reason = .repeatedOperator ↔ Operator.RepeatedIn t.trim) ∧
          (reason = .invalidValue ↔
            (∃ m ∈ t.trim, m ∈ Operator.marks) ∧ ¬Operator.RepeatedIn t.trim)) := by
  have hsingle := ofText_single h
  refine ⟨fun c => ?_, fun _ => Condition.endsLast_of_statedBy, fun hnone => ?_⟩
  · rw [← readSegment_eq_ok_iff, hsingle]
    rcases readSegment t.trim with reason | d <;> simp
  · have hinvalid := @readSegment_eq_invalidValue_iff t.trim
    rw [and_iff_right hnone] at hinvalid
    rcases hr : readSegment t.trim with reason | c
    · rw [hr] at hsingle hinvalid
      refine ⟨reason, hsingle, ?_, ?_, ?_⟩
      · rw [← readSegment_eq_noOperator_iff, hr, Except.error.injEq]
      · rw [← readSegment_eq_repeatedOperator_iff, hr, Except.error.injEq]
      · rw [← hinvalid, Except.error.injEq]
    · exact absurd (readSegment_eq_ok_iff.mp hr) (hnone c)

theorem ofText_of_one_segment_at_last_operator :
    ¬Query.conjunction <:+: " a<b>=\u2003-Infinity".toList ∧
      ofText " a<b>=\u2003-Infinity".toList =
        ⟨[⟨"a<b".toList, .atLeast, .signed true .infinity⟩], []⟩ := by
  have h : ¬Query.conjunction <:+: " a<b>=\u2003-Infinity".toList := by decide
  refine ⟨h, ((ofText_of_one_segment _ h).1 _).mpr ?_⟩
  exact ⟨"a<b".toList, "\u2003-Infinity".toList, by decide, by decide, by decide, by decide,
    by decide, .inr (.inr ⟨['-'], by decide, "Infinity".toList, by decide, by decide⟩)⟩

end Report

end StockScreen
