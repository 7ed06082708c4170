import StockScreen.Proofs.Binary64.ReadBack
import StockScreen.Proofs.Query.Spacing

namespace StockScreen

open Text Literal

theorem Report.canonical_of_mem {t : Text} {c : Condition} (hc : c ∈ (ofText t).query) :
    c.Canonical := by
  obtain ⟨segment, hsegment, hkept⟩ := List.mem_filterMap.mp hc
  obtain ⟨left, right, hs, hl, -, hf, -⟩ := kept?_eq_some_iff.mp hkept
  refine ⟨?_, ?_, ?_⟩
  · rw [hf, trim_trim]
  · rw [hf]
    intro h
    apply not_infix_of_mem_segments hsegment
    rw [hs]
    exact List.infix_append_of_infix_left (h.trans (trim_infix_self left))
  · rw [hf]
    exact hl.of_infix (trim_infix_self left)

namespace Query

theorem text_cons (c : Condition) {q : Query} (hq : q ≠ []) :
    Query.text (c :: q) = c.text ++ ([' '] ++ (conjunction ++ ([' '] ++ Query.text q))) := by
  have hmap : q.map Condition.text ≠ [] := by simpa using hq
  rw [text, List.map_cons, join_cons _ _ hmap, text]
  simp

theorem ofText_text {q : Query} (hne : q ≠ []) (hq : ∀ c ∈ q, c.Canonical) :
    Report.ofText q.text = ⟨q, []⟩ := by
  have hspace : Blanks [' '] := by decide
  have single {c : Condition} (hc : c.Canonical) : Report.ofText c.text = ⟨[c], []⟩ := by
    obtain ⟨l, hs, hv, hr⟩ := c.threshold.spelled_plain
    exact Report.ofText_spelled hc hs hv hr
  induction q with
  | nil => exact absurd rfl hne
  | cons c q ih =>
    have hc : c.Canonical := hq c List.mem_cons_self
    by_cases h : q = []
    · rw [h, text, List.map_singleton, join_singleton, single hc]
    · have hrest : ∀ d ∈ q, d.Canonical := by
        intro d hd
        exact hq d (List.mem_cons_of_mem c hd)
      rw [text_cons c h, Report.ofText_spaced hspace hspace, single hc, ih h hrest]
      rfl

/-- Reading gives canonical conditions only; and the normal form of a query is read as that query,
with nothing dropped but the empty text, exactly when all its conditions are canonical. -/
theorem normal_form :
    (∀ t : Text, ∀ c ∈ Query.ofText t, c.Canonical) ∧
      ∀ q : Query, (Query.ofText q.text = q ↔ ∀ c ∈ q, c.Canonical) ∧
        ((∀ c ∈ q, c.Canonical) →
          (Report.ofText q.text).dropped = if q = [] then [⟨[], .noOperator⟩] else []) := by
  refine ⟨fun t c hc => Report.canonical_of_mem hc, fun q => ⟨⟨?_, ?_⟩, ?_⟩⟩
  · intro h c hc
    rw [← h] at hc
    exact Report.canonical_of_mem hc
  · intro hq
    by_cases hne : q = []
    · rw [hne]
      rfl
    · rw [Query.ofText, ofText_text hne hq]
  · intro hq
    by_cases hne : q = []
    · rw [hne, if_pos rfl]
      rfl
    · rw [if_neg hne, ofText_text hne hq]

theorem normal_form_of_operators_in_fields :
    Query.ofText "a<b> >= NaN AND  < inf AND D = -inf".toList =
        [⟨"a<b>".toList, .atLeast, .nan⟩, ⟨[], .below, .signed false .infinity⟩,
          ⟨"D".toList, .equal, .signed true .infinity⟩] ∧
      (Report.ofText "a<b> >= NaN AND  < inf AND D = -inf".toList).dropped = [] ∧
      Query.ofText (Query.text [⟨"a<b>".toList, .equal, .nan⟩]) ≠
        [⟨"a<b>".toList, .equal, .nan⟩] := by
  have h : Query.text [⟨"a<b>".toList, .atLeast, .nan⟩, ⟨[], .below, .signed false .infinity⟩,
      ⟨"D".toList, .equal, .signed true .infinity⟩] =
      "a<b> >= NaN AND  < inf AND D = -inf".toList := by decide
  have hc : ∀ c ∈ [(⟨"a<b>".toList, .atLeast, .nan⟩ : Condition),
      ⟨[], .below, .signed false .infinity⟩, ⟨"D".toList, .equal, .signed true .infinity⟩],
      c.Canonical := by decide
  rw [← h]
  refine ⟨(normal_form.2 _).1.mpr hc, (normal_form.2 _).2 hc, fun heq => ?_⟩
  exact absurd ((normal_form.2 _).1.mp heq _ List.mem_cons_self) (by decide)

end Query

end StockScreen
