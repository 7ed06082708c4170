import Mathlib.Data.List.DropRight
import StockScreen.Text.Basic

namespace StockScreen.Text

/-- Goes through the text, where another instance goes through all characters there are. -/
instance (priority := high) decidableForallMem (t : Text) (p : Char → Prop) [DecidablePred p] :
    Decidable (∀ c ∈ t, p c) :=
  List.decidableBAll p t

def Blanks (t : Text) : Prop := ∀ c ∈ t, isBlank c = true

instance (t : Text) : Decidable (Blanks t) := decidableForallMem t _

theorem Blanks.nil : Blanks [] := List.forall_mem_nil _

theorem Blanks.reverse {t : Text} (ht : Blanks t) : Blanks t.reverse := by
  intro c hc
  exact ht c (List.mem_reverse.mp hc)

theorem blanks_takeWhile (t : Text) : Blanks (t.takeWhile isBlank) := by
  intro c hc
  exact List.mem_takeWhile_imp hc

theorem trimStart_append_left {p : Text} (hp : Blanks p) (t : Text) :
    trimStart (p ++ t) = trimStart t :=
  List.dropWhile_append_of_pos hp

theorem trimEnd_append_right {s : Text} (hs : Blanks s) (t : Text) :
    trimEnd (t ++ s) = trimEnd t := by
  rw [trimEnd, trimEnd, List.reverse_append, List.dropWhile_append_of_pos hs.reverse]

theorem trimEnd_of_blanks {t : Text} (ht : Blanks t) : trimEnd t = [] := by
  rw [trimEnd, List.reverse_eq_nil_iff]
  exact List.dropWhile_eq_nil_iff.mpr ht.reverse

theorem trim_append_left {p : Text} (hp : Blanks p) (t : Text) : trim (p ++ t) = trim t := by
  rw [trim, trimStart_append_left hp, trim]

theorem trim_append_right {s : Text} (hs : Blanks s) (t : Text) : trim (t ++ s) = trim t := by
  rw [trim, trim, trimStart, List.dropWhile_append]
  split
  · next h =>
    have ht : t.dropWhile isBlank = [] := List.isEmpty_iff.mp h
    have hd : Blanks (s.dropWhile isBlank) := by
      intro c hc
      exact hs c ((List.dropWhile_sublist isBlank).subset hc)
    rw [trimStart, ht, trimEnd_of_blanks hd, trimEnd_of_blanks Blanks.nil]
  · exact trimEnd_append_right hs _

theorem exists_trimStart (t : Text) : ∃ p, Blanks p ∧ t = p ++ trimStart t :=
  ⟨t.takeWhile isBlank, blanks_takeWhile t, List.takeWhile_append_dropWhile.symm⟩

theorem exists_trimEnd (t : Text) : ∃ s, Blanks s ∧ t = trimEnd t ++ s := by
  obtain ⟨p, hp, he⟩ := exists_trimStart t.reverse
  refine ⟨p.reverse, hp.reverse, ?_⟩
  rw [trimEnd, ← List.reverse_append]
  exact List.reverse_eq_iff.mp he

theorem exists_trim (t : Text) : ∃ p s, Blanks p ∧ Blanks s ∧ t = p ++ trim t ++ s := by
  obtain ⟨p, hp, ht⟩ := exists_trimStart t
  obtain ⟨s, hs, hr⟩ := exists_trimEnd (trimStart t)
  refine ⟨p, s, hp, hs, ?_⟩
  rw [List.append_assoc, trim, ← hr]
  exact ht

theorem trim_infix_self (t : Text) : trim t <:+: t := by
  obtain ⟨p, s, -, -, ht⟩ := exists_trim t
  exact ⟨p, s, ht.symm⟩

theorem trim_trim (t : Text) : trim (trim t) = trim t := by
  obtain ⟨p, s, hp, hs, ht⟩ := exists_trim t
  calc trim (trim t) = trim (p ++ trim t ++ s) := by
        rw [trim_append_right hs, trim_append_left hp]
    _ = trim t := by rw [← ht]

theorem trim_trimStart (t : Text) : trim (trimStart t) = trim t := by
  obtain ⟨p, hp, ht⟩ := exists_trimStart t
  calc trim (trimStart t) = trim (p ++ trimStart t) := (trim_append_left hp _).symm
    _ = trim t := by rw [← ht]

theorem trim_trimEnd (t : Text) : trim (trimEnd t) = trim t := by
  obtain ⟨s, hs, ht⟩ := exists_trimEnd t
  calc trim (trimEnd t) = trim (trimEnd t ++ s) := (trim_append_right hs _).symm
    _ = trim t := by rw [← ht]

theorem trimStart_of_not_blank {t : Text} (h : ∀ c ∈ t, isBlank c = false) : trimStart t = t := by
  cases t with
  | nil => rfl
  | cons c t => exact List.dropWhile_cons_of_neg (by simp [h c List.mem_cons_self])

theorem trimEnd_of_not_blank {t : Text} (h : ∀ c ∈ t, isBlank c = false) : trimEnd t = t := by
  have hr : trimStart t.reverse = t.reverse := by
    apply trimStart_of_not_blank
    intro c hc
    exact h c (List.mem_reverse.mp hc)
  rw [trimStart] at hr
  rw [trimEnd, hr, List.reverse_reverse]

theorem trim_of_not_blank {t : Text} (h : ∀ c ∈ t, isBlank c = false) : trim t = t := by
  rw [trim, trimStart_of_not_blank h, trimEnd_of_not_blank h]

theorem trimStart_append_solid {c : Char} (hc : isBlank c = false) (left right : Text) :
    trimStart (left ++ c :: right) = trimStart left ++ c :: right := by
  rw [trimStart, trimStart, List.dropWhile_append]
  split
  · next h =>
    rw [List.isEmpty_iff.mp h, List.nil_append]
    exact List.dropWhile_cons_of_neg (by simp [hc])
  · rfl

theorem trimEnd_append_solid {c : Char} (hc : isBlank c = false) (left right : Text) :
    trimEnd (left ++ c :: right) = left ++ c :: trimEnd right := by
  have hr : (left ++ c :: right).reverse = right.reverse ++ c :: left.reverse := by simp
  have ht := trimStart_append_solid hc right.reverse left.reverse
  rw [trimStart, trimStart] at ht
  rw [trimEnd, hr, ht, trimEnd]
  simp

theorem trimEnd_append_of_not_blanks {t : Text} (h : ¬Blanks t) (left : Text) :
    trimEnd (left ++ t) = left ++ trimEnd t := by
  obtain ⟨c, hc, hblank⟩ : ∃ c ∈ t, isBlank c = false := by
    simpa [Blanks] using h
  obtain ⟨init, rest, rfl⟩ := List.append_of_mem hc
  rw [← List.append_assoc, trimEnd_append_solid hblank, trimEnd_append_solid hblank,
    List.append_assoc]

theorem trim_around {middle : Text} (hne : middle ≠ []) (h : ∀ c ∈ middle, isBlank c = false)
    (left right : Text) :
    trim (left ++ middle ++ right) = trimStart left ++ middle ++ trimEnd right := by
  obtain ⟨c, rest, rfl⟩ := List.exists_cons_of_ne_nil hne
  have hc : isBlank c = false := h c List.mem_cons_self
  have hr : trimEnd (rest ++ right) = rest ++ trimEnd right := by
    rcases List.eq_nil_or_concat rest with rfl | ⟨init, d, rfl⟩
    · rfl
    · have hd : isBlank d = false := h d (by simp)
      simpa using trimEnd_append_solid hd init right
  calc trim (left ++ c :: rest ++ right)
      = trimEnd (trimStart left ++ c :: (rest ++ right)) := by
        rw [trim, List.append_assoc, List.cons_append, trimStart_append_solid hc]
    _ = trimStart left ++ c :: (rest ++ trimEnd right) := by
        rw [trimEnd_append_solid hc, hr]
    _ = trimStart left ++ c :: rest ++ trimEnd right := by
        rw [List.append_assoc, List.cons_append]

end StockScreen.Text
