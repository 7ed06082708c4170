import Mathlib.Data.List.Infix
import StockScreen.Text.Basic

namespace StockScreen

theorem occursIn_iff {α : Type} [BEq α] [LawfulBEq α] {word xs : List α} :
    occursIn word xs = true ↔ word <:+: xs := by
  induction xs with
  | nil => simp [occursIn]
  | cons x xs ih =>
    rw [occursIn, Bool.or_eq_true, ih, List.isPrefixOf_iff_prefix, List.infix_cons_iff]

namespace Text

/-- No proper part of the word is both its beginning and its end. -/
def Unbordered (word : Text) : Prop :=
  word ≠ [] ∧ ∀ l ∈ word.tails, l ≠ [] → l <+: word → l = word

instance (word : Text) : Decidable (Unbordered word) :=
  inferInstanceAs (Decidable (_ ∧ ∀ l ∈ word.tails, _))

section Scan

theorem splitLoop_eq (word t : Text) (skip : Nat) (piece : Text) (pieces : List Text) :
    splitLoop word skip piece pieces t =
      pieces.reverse ++ (splitLoop word skip [] [] t).modifyHead (piece.reverse ++ ·) := by
  induction t generalizing skip piece pieces with
  | nil => simp [splitLoop]
  | cons c t ih =>
    cases skip with
    | succ n =>
      simp only [splitLoop]
      exact ih n piece pieces
    | zero =>
      simp only [splitLoop]
      split
      · rw [ih _ [] (piece.reverse :: pieces), ih _ [] [[].reverse]]
        simp
      · rw [ih 0 (c :: piece) pieces, ih 0 [c] []]
        simp [List.modifyHead_modifyHead, Function.comp_def]

theorem splitLoop_skip (word u t : Text) (pieces : List Text) :
    splitLoop word u.length [] pieces (u ++ t) = splitLoop word 0 [] pieces t := by
  induction u with
  | nil => rfl
  | cons c u ih => simpa [splitLoop] using ih

theorem split_cons {word t : Text} {c : Char} (h : ¬word <+: c :: t) :
    split word (c :: t) = (split word t).modifyHead (c :: ·) := by
  have hp : word.isPrefixOf (c :: t) = false := by
    rw [← Bool.not_eq_true, List.isPrefixOf_iff_prefix]
    exact h
  rw [split, splitLoop, hp, if_neg Bool.false_ne_true, splitLoop_eq]
  rfl

theorem split_word_append {word : Text} (hne : word ≠ []) (t : Text) :
    split word (word ++ t) = [] :: split word t := by
  obtain ⟨c, rest, rfl⟩ := List.exists_cons_of_ne_nil hne
  have hp : (c :: rest).isPrefixOf (c :: (rest ++ t)) = true :=
    List.isPrefixOf_iff_prefix.mpr (List.prefix_append (c :: rest) t)
  rw [split, List.cons_append, splitLoop, hp, if_pos rfl]
  simp only [List.length_cons, Nat.add_sub_cancel]
  rw [splitLoop_skip, splitLoop_eq]
  exact congrArg ([] :: ·) (congrFun List.modifyHead_id _)

theorem split_of_not_occurring {word t : Text} (h : ¬word <:+: t) : split word t = [t] := by
  induction t with
  | nil => rfl
  | cons c t ih =>
    rw [List.infix_cons_iff, not_or] at h
    rw [split_cons h.1, ih h.2, List.modifyHead_cons]

end Scan

section Overlap

variable {word : Text}

theorem not_infix_nil (hne : word ≠ []) : ¬word <:+: [] := by
  intro h
  exact hne (List.infix_nil.mp h)

theorem not_prefix_of_tail (hu : Unbordered word) {l : Text} (hl : l <:+ word) (hne : l ≠ [])
    (hlt : l ≠ word) (b : Text) : ¬word <+: l ++ b := by
  intro h
  have hp : l <+: word :=
    List.prefix_of_prefix_length_le (List.prefix_append l b) h hl.length_le
  exact hlt (hu.2 l ((List.mem_tails l word).mpr hl) hne hp)

theorem nil_or_prefix_of_prefix_append (hu : Unbordered word) {x b : Text}
    (h : word <+: x ++ (word ++ b)) : x = [] ∨ word <+: x := by
  obtain ⟨t, ht⟩ := h
  rcases List.append_eq_append_iff.mp ht with ⟨l, hx, -⟩ | ⟨l, hw, hr⟩
  · exact .inr ⟨l, hx.symm⟩
  -- Otherwise the word ends in `l`, with which the text after `x` begins.
  · by_cases hl : l = []
    · subst hl
      rw [List.append_nil] at hw
      exact .inr (hw ▸ List.prefix_rfl)
    · by_cases hlw : l = word
      · subst hlw
        exact .inl (List.self_eq_append_left.mp hw)
      · exact absurd ⟨b, hr⟩ (not_prefix_of_tail hu ⟨x, hw.symm⟩ hl hlw t)

theorem not_prefix_append (hu : Unbordered word) {c : Char} {a : Text} (h : ¬word <+: c :: a)
    (b : Text) : ¬word <+: c :: (a ++ (word ++ b)) := by
  intro hp
  have hx : c :: a = [] ∨ word <+: c :: a := nil_or_prefix_of_prefix_append hu hp
  exact h (hx.resolve_left (List.cons_ne_nil c a))

theorem exists_first (hne : word ≠ []) {t : Text} (h : word <:+: t) :
    ∃ a b, t = a ++ (word ++ b) ∧ ¬word <:+: a := by
  induction t with
  | nil => exact absurd h (not_infix_nil hne)
  | cons c t ih =>
    by_cases hp : word <+: c :: t
    · obtain ⟨b, hb⟩ := hp
      exact ⟨[], b, hb.symm, not_infix_nil hne⟩
    · obtain ⟨a, b, rfl, ha⟩ := ih ((List.infix_cons_iff.mp h).resolve_left hp)
      refine ⟨c :: a, b, rfl, ?_⟩
      have hpa : ¬word <+: c :: a := by
        intro h
        exact hp (h.trans (List.prefix_append (c :: a) (word ++ b)))
      rw [List.infix_cons_iff, not_or]
      exact ⟨hpa, ha⟩

theorem piece_induction (hne : word ≠ []) {motive : Text → Prop}
    (last : ∀ t, ¬word <:+: t → motive t)
    (more : ∀ a b, ¬word <:+: a → motive b → motive (a ++ (word ++ b))) (t : Text) : motive t := by
  induction hn : t.length using Nat.strong_induction_on generalizing t with
  | h n ih =>
    by_cases h : word <:+: t
    · obtain ⟨a, b, rfl, ha⟩ := exists_first hne h
      refine more a b ha (ih b.length ?_ b rfl)
      have hw : 0 < word.length := List.length_pos_iff.mpr hne
      simp only [List.length_append] at hn
      omega
    · exact last t h

theorem split_append (hu : Unbordered word) {a : Text} (ha : ¬word <:+: a) (b : Text) :
    split word (a ++ (word ++ b)) = a :: split word b := by
  induction a with
  | nil => exact split_word_append hu.1 b
  | cons c a ih =>
    rw [List.infix_cons_iff, not_or] at ha
    have hp : ¬word <+: c :: (a ++ (word ++ b)) := not_prefix_append hu ha.1 b
    rw [List.cons_append, split_cons hp, ih ha.2, List.modifyHead_cons]

theorem split_append_word (hu : Unbordered word) (a b : Text) :
    split word (a ++ (word ++ b)) = split word a ++ split word b := by
  induction a using piece_induction hu.1 with
  | last a ha => rw [split_append hu ha, split_of_not_occurring ha, List.singleton_append]
  | more a c ha ih =>
    rw [List.append_assoc, List.append_assoc, split_append hu ha, ih, split_append hu ha,
      List.cons_append]

theorem split_ne_nil (hu : Unbordered word) (t : Text) : split word t ≠ [] := by
  induction t using piece_induction hu.1 with
  | last t ht => simp [split_of_not_occurring ht]
  | more a b ha _ => simp [split_append hu ha]

theorem not_infix_of_mem_split (hu : Unbordered word) {t p : Text} (hp : p ∈ split word t) :
    ¬word <:+: p := by
  induction t using piece_induction hu.1 with
  | last t ht =>
    rw [split_of_not_occurring ht, List.mem_singleton] at hp
    exact hp ▸ ht
  | more a b ha ih =>
    rw [split_append hu ha, List.mem_cons] at hp
    rcases hp with rfl | hp
    · exact ha
    · exact ih hp

theorem join_cons (sep p : Text) {ps : List Text} (hps : ps ≠ []) :
    join sep (p :: ps) = p ++ (sep ++ join sep ps) := by
  obtain ⟨q, qs, rfl⟩ := List.exists_cons_of_ne_nil hps
  rw [join, List.intercalate_cons_cons, List.append_assoc, join]

theorem join_singleton (sep p : Text) : join sep [p] = p := List.intercalate_singleton

theorem join_split (hu : Unbordered word) (t : Text) : join word (split word t) = t := by
  induction t using piece_induction hu.1 with
  | last t ht => rw [split_of_not_occurring ht, join_singleton]
  | more a b ha ih => rw [split_append hu ha, join_cons word a (split_ne_nil hu b), ih]

end Overlap

section Count

variable {word : Text}

def occurrences (word t : Text) : Nat := t.tails.countP fun l => word.isPrefixOf l

theorem occurrences_cons_of_prefix {t : Text} {c : Char} (h : word <+: c :: t) :
    occurrences word (c :: t) = occurrences word t + 1 := by
  rw [occurrences, List.tails_cons, List.countP_cons_of_pos (List.isPrefixOf_iff_prefix.mpr h)]
  rfl

theorem occurrences_cons {t : Text} {c : Char} (h : ¬word <+: c :: t) :
    occurrences word (c :: t) = occurrences word t := by
  have hp : ¬word.isPrefixOf (c :: t) = true := by
    rw [List.isPrefixOf_iff_prefix]
    exact h
  rw [occurrences, List.tails_cons, List.countP_cons_of_neg hp]
  rfl

theorem occurrences_eq_zero {t : Text} (h : ¬word <:+: t) : occurrences word t = 0 := by
  rw [occurrences, List.countP_eq_zero]
  intro l hl hp
  have hs : l <:+ t := (List.mem_tails l t).mp hl
  exact h ((List.isPrefixOf_iff_prefix.mp hp).isInfix.trans hs.isInfix)

theorem occurrences_tail_append (hu : Unbordered word) {l : Text} (hl : l <:+ word)
    (hlt : l ≠ word) (b : Text) : occurrences word (l ++ b) = occurrences word b := by
  induction l with
  | nil => rfl
  | cons c l ih =>
    have hs : l <:+ word := (List.suffix_cons c l).trans hl
    have hne : l ≠ word := by
      rintro rfl
      exact absurd hl.length_le (Nat.not_succ_le_self _)
    have hp : ¬word <+: c :: (l ++ b) := not_prefix_of_tail hu hl (List.cons_ne_nil c l) hlt b
    rw [List.cons_append, occurrences_cons hp, ih hs hne]

theorem occurrences_append (hu : Unbordered word) {a : Text} (ha : ¬word <:+: a) (b : Text) :
    occurrences word (a ++ (word ++ b)) = occurrences word b + 1 := by
  induction a with
  | nil =>
    obtain ⟨c, rest, rfl⟩ := List.exists_cons_of_ne_nil hu.1
    have hne : rest ≠ c :: rest := by simp
    have hp : c :: rest <+: c :: (rest ++ b) := List.prefix_append (c :: rest) b
    rw [List.nil_append, List.cons_append, occurrences_cons_of_prefix hp,
      occurrences_tail_append hu (List.suffix_cons c rest) hne]
  | cons c a ih =>
    rw [List.infix_cons_iff, not_or] at ha
    have hp : ¬word <+: c :: (a ++ (word ++ b)) := not_prefix_append hu ha.1 b
    rw [List.cons_append, occurrences_cons hp, ih ha.2]

theorem occurrences_pos (hu : Unbordered word) {t : Text} (h : word <:+: t) :
    0 < occurrences word t := by
  obtain ⟨a, b, rfl, ha⟩ := exists_first hu.1 h
  rw [occurrences_append hu ha]
  exact Nat.succ_pos _

theorem length_split (hu : Unbordered word) (t : Text) :
    (split word t).length = occurrences word t + 1 := by
  induction t using piece_induction hu.1 with
  | last t ht => rw [split_of_not_occurring ht, occurrences_eq_zero ht, List.length_singleton]
  | more a b ha ih =>
    rw [split_append hu ha, occurrences_append hu ha, List.length_cons, ih]

end Count

section Disjoint

variable {word : Text}

theorem not_infix_append_right (hne : word ≠ []) {w : Text} (hd : List.Disjoint word w) {a : Text}
    (ha : ¬word <:+: a) : ¬word <:+: a ++ w := by
  intro h
  rcases List.infix_append_iff_ne_nil.mp h with h | h | ⟨l₁, l₂, -, h₂, rfl, -, hw⟩
  · exact ha h
  · obtain ⟨c, hc⟩ := List.exists_mem_of_ne_nil word hne
    exact hd hc (h.subset hc)
  · obtain ⟨c, hc⟩ := List.exists_mem_of_ne_nil l₂ h₂
    exact hd (List.mem_append_right l₁ hc) (hw.subset hc)

theorem not_infix_append_left (hne : word ≠ []) {w : Text} (hd : List.Disjoint word w) {a : Text}
    (ha : ¬word <:+: a) : ¬word <:+: w ++ a := by
  intro h
  rcases List.infix_append_iff_ne_nil.mp h with h | h | ⟨l₁, l₂, h₁, -, rfl, hw, -⟩
  · obtain ⟨c, hc⟩ := List.exists_mem_of_ne_nil word hne
    exact hd hc (h.subset hc)
  · exact ha h
  · obtain ⟨c, hc⟩ := List.exists_mem_of_ne_nil l₁ h₁
    exact hd (List.mem_append_left l₂ hc) (hw.subset hc)

theorem not_infix_across {w : Text} (hw : w ≠ []) (hd : List.Disjoint word w) {a b : Text}
    (ha : ¬word <:+: a) (hb : ¬word <:+: b) : ¬word <:+: a ++ (w ++ b) := by
  intro h
  have hne : word ≠ [] := by
    rintro rfl
    exact ha List.nil_infix
  rcases List.infix_append_iff_ne_nil.mp h with h | h | ⟨l₁, l₂, -, h₂, rfl, -, hp⟩
  · exact ha h
  · exact not_infix_append_left hne hd hb h
  · obtain ⟨c, w, rfl⟩ := List.exists_cons_of_ne_nil hw
    obtain ⟨d, l, rfl⟩ := List.exists_cons_of_ne_nil h₂
    have hc : d = c := (List.cons_prefix_cons.mp hp).1
    exact hd (List.mem_append_right l₁ List.mem_cons_self) (hc ▸ List.mem_cons_self)

end Disjoint

end Text

end StockScreen
