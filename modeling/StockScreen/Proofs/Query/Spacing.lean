import StockScreen.Proofs.Query.Grammar

namespace StockScreen

open Text Literal

/-- The conditions whose field a query text can name. -/
def Condition.Canonical (c : Condition) : Prop :=
  c.field.trim = c.field ∧ ¬Query.conjunction <:+: c.field ∧ c.operator.FreeUpTo c.field

instance (c : Condition) : Decidable c.Canonical := inferInstanceAs (Decidable (_ ∧ _ ∧ _))

/-- A condition as it is written. A decimal must be in range, a word may name infinity. -/
structure Clause where
  field : Text
  operator : Operator
  number : Text
  literal : Literal
  beforeField : Text
  afterField : Text
  beforeNumber : Text
  afterNumber : Text
  canonical : Condition.Canonical ⟨field, operator, literal.value⟩
  spelled : Spelled number literal
  inRange : ∀ whole fraction exponent, literal.body = .decimal whole fraction exponent →
    literal.value.isFinite = true
  blanks : Blanks beforeField ∧ Blanks afterField ∧ Blanks beforeNumber ∧ Blanks afterNumber

theorem Condition.statedBy_trim {c : Condition} {segment : Text} (h : c.StatedBy segment) :
    c.StatedBy segment.trim := by
  obtain ⟨left, right, rfl, hl, hr, hf, hx⟩ := h
  refine ⟨left.trimStart, right.trimEnd, ?_, ?_, ?_, ?_, ?_⟩
  · rw [← List.append_assoc, ← List.append_assoc]
    exact trim_around c.operator.symbol_unbordered.1 c.operator.symbol_not_blank left right
  · obtain ⟨p, -, hp⟩ := exists_trimStart left
    exact hl.of_infix ⟨p, [], by rw [List.append_nil, ← hp]⟩
  · obtain ⟨s, -, hs⟩ := exists_trimEnd right
    intro m hm
    exact hr m (hs ▸ List.mem_append_left s hm)
  · rw [hf, trim_trimStart]
  · rw [trim_trimEnd]
    exact hx

theorem Literal.Spelled.isThreshold {t : Text} {l : Literal} (h : Spelled t l)
    (hl : ∀ whole fraction exponent, l.body = .decimal whole fraction exponent →
      l.value.isFinite = true) : Binary64.IsThreshold t l.value := by
  constructor
  · rw [Binary64.ofText?, read?_eq_some_iff.mpr h, Option.map_some]
  · cases hb : l.body with
    | decimal whole fraction exponent => exact .inl (hl _ _ _ hb)
    | infinity => exact .inr (.inr ((spellsInfinity_iff h).mpr hb))
    | nan =>
      refine .inr (.inl ?_)
      rw [value, hb]
      rfl

theorem Literal.Spelled.not_infix {t : Text} {l : Literal} (h : Spelled t l) :
    ¬Query.conjunction <:+: t := by
  intro hi
  have hd : 'D' ∈ t := hi.subset (by decide)
  exact absurd (h.mem_alphabet 'D' hd) (by decide)

theorem Literal.Spelled.not_blank {t : Text} {l : Literal} (h : Spelled t l) :
    ∀ c ∈ t, isBlank c = false := by
  have ha : ∀ c ∈ alphabet, isBlank c = false := by decide
  intro c hc
  exact ha c (h.mem_alphabet c hc)

theorem Literal.Spelled.not_mark {t : Text} {l : Literal} (h : Spelled t l) :
    ∀ c ∈ t, c ∉ Operator.marks := by
  have ha : ∀ c ∈ alphabet, c ∉ Operator.marks := by decide
  intro c hc
  exact ha c (h.mem_alphabet c hc)

namespace Clause

def condition (c : Clause) : Condition := ⟨c.field, c.operator, c.literal.value⟩

def left (c : Clause) : Text := c.beforeField ++ c.field ++ c.afterField

def right (c : Clause) : Text := c.beforeNumber ++ c.number ++ c.afterNumber

def text (c : Clause) : Text := c.left ++ (c.operator.symbol ++ c.right)

theorem left_trim (c : Clause) : c.left.trim = c.field := by
  obtain ⟨hb, ha, -, -⟩ := c.blanks
  rw [left, trim_append_right ha, trim_append_left hb]
  exact c.canonical.1

theorem right_trim (c : Clause) : c.right.trim = c.number := by
  obtain ⟨-, -, hb, ha⟩ := c.blanks
  rw [right, trim_append_right ha, trim_append_left hb, trim_of_not_blank c.spelled.not_blank]

theorem text_not_infix (c : Clause) : ¬Query.conjunction <:+: c.text := by
  obtain ⟨hbf, haf, hbn, han⟩ := c.blanks
  have hne := Query.conjunction_unbordered.1
  have around {p t s : Text} (hp : Blanks p) (hs : Blanks s) (ht : ¬Query.conjunction <:+: t) :
      ¬Query.conjunction <:+: p ++ t ++ s := by
    apply not_infix_append_right hne (Query.conjunction_disjoint hs)
    exact not_infix_append_left hne (Query.conjunction_disjoint hp) ht
  have hd : List.Disjoint Query.conjunction c.operator.symbol := by
    have hm : ∀ m ∈ Query.conjunction, m ∉ Operator.marks := by decide
    intro m hc hs
    exact hm m hc (Operator.mem_marks_of_mem_symbol hs)
  exact not_infix_across c.operator.symbol_unbordered.1 hd (around hbf haf c.canonical.2.1)
    (around hbn han c.spelled.not_infix)

theorem statedBy_text (c : Clause) : c.condition.StatedBy c.text := by
  obtain ⟨hbf, haf, hbn, han⟩ := c.blanks
  refine ⟨c.left, c.right, rfl, ?_, ?_, c.left_trim.symm, ?_⟩
  · intro p hp
    have hne := p.symbol_unbordered.1
    have hdb := p.symbol_disjoint (Operator.blanks_not_mark hbf)
    have hda := p.symbol_disjoint (Operator.blanks_not_mark haf)
    apply not_infix_append_right hne hda
    exact not_infix_append_left hne hdb (c.canonical.2.2 p hp)
  · exact List.forall_mem_append.mpr ⟨List.forall_mem_append.mpr
      ⟨Operator.blanks_not_mark hbn, c.spelled.not_mark⟩, Operator.blanks_not_mark han⟩
  · rw [c.right_trim]
    exact c.spelled.isThreshold c.inRange

end Clause

namespace Report

theorem ofText_clause (c : Clause) : ofText c.text = ⟨[c.condition], []⟩ := by
  rw [ofText_single c.text_not_infix,
    readSegment_of_statedBy (Condition.statedBy_trim c.statedBy_text)]

theorem ofText_spelled {c : Condition} (hc : c.Canonical) {number : Text} {l : Literal}
    (hs : Spelled number l) (hv : l.value = c.threshold)
    (hr : c.threshold.isFinite = true ∨ l.body = .infinity ∨ l.body = .nan) :
    ofText (c.field ++ ' ' :: c.operator.symbol ++ ' ' :: number) = ⟨[c], []⟩ := by
  have hrange : ∀ whole fraction exponent, l.body = .decimal whole fraction exponent →
      l.value.isFinite = true := by
    intro whole fraction exponent hb
    rw [hv]
    refine hr.resolve_right ?_
    rw [hb]
    exact not_or_intro (by simp) (by simp)
  have hcanonical : Condition.Canonical ⟨c.field, c.operator, l.value⟩ := hc
  have hblanks : Blanks [] ∧ Blanks [' '] ∧ Blanks [' '] ∧ Blanks [] := by decide
  have hread := ofText_clause
    ⟨c.field, c.operator, number, l, [], [' '], [' '], [], hcanonical, hs, hrange, hblanks⟩
  simpa [Clause.text, Clause.left, Clause.right, Clause.condition, hv] using hread

/-- However the conditions of a query are written, they are read in their order and nothing is
dropped. -/
theorem ofText_written (clauses : List Clause) (hne : clauses ≠ []) :
    ofText (Text.join Query.conjunction (clauses.map Clause.text)) =
      ⟨clauses.map Clause.condition, []⟩ := by
  induction clauses with
  | nil => exact absurd rfl hne
  | cons c clauses ih =>
    by_cases h : clauses = []
    · rw [h, List.map_singleton, List.map_singleton, join_singleton, ofText_clause]
    · have hmap : clauses.map Clause.text ≠ [] := by simpa using h
      rw [List.map_cons, join_cons _ _ hmap, ofText_append, ofText_clause, ih h]
      rfl

def touching : List Clause :=
  [⟨"P/E<".toList, .above, "NAN".toList, ⟨false, .nan⟩, [], [], [], [], by decide,
      read?_eq_some_iff.mp (by decide), by simp, by decide⟩,
    ⟨"ND".toList, .atMost, "-.5E1".toList, ⟨true, .decimal [] ['5'] 1⟩, [], [], [], [], by decide,
      read?_eq_some_iff.mp (by decide), fun _ _ _ _ => by decide +kernel, by decide⟩,
    ⟨[], .equal, "+inF".toList, ⟨false, .infinity⟩, [], [], [], ['\u2028'], by decide,
      read?_eq_some_iff.mp (by decide), by simp, by decide⟩]

theorem ofText_written_touching :
    touching ≠ [] ∧ ofText "P/E<>NANANDND<=-.5E1AND=+inF\u2028".toList =
      ⟨[⟨"P/E<".toList, .above, .nan⟩, ⟨"ND".toList, .atMost, .signed true ⟨0x4014000000000000,
        by decide⟩⟩, ⟨[], .equal, .signed false .infinity⟩], []⟩ := by
  have hne : touching ≠ [] := List.cons_ne_nil _ _
  have htext : Text.join Query.conjunction (touching.map Clause.text) =
      "P/E<>NANANDND<=-.5E1AND=+inF\u2028".toList := by decide
  have hconditions : touching.map Clause.condition = [⟨"P/E<".toList, .above, .nan⟩,
      ⟨"ND".toList, .atMost, .signed true ⟨0x4014000000000000, by decide⟩⟩,
      ⟨[], .equal, .signed false .infinity⟩] := by decide +kernel
  rw [← htext, ← hconditions]
  exact ⟨hne, ofText_written touching hne⟩

end Report

end StockScreen
