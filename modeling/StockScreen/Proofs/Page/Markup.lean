import StockScreen.Page

namespace StockScreen

structure Markup where
  lead : Text
  parts : List (Text × Text)
  deriving DecidableEq

namespace Markup

def partText (part : Text × Text) : Text := '<' :: (part.1 ++ '>' :: part.2)

def text (m : Markup) : Text := m.lead ++ m.parts.flatMap partText

/-- The tag that is open is kept in reverse. -/
def cutLoop : Option Text → Text → Markup
  | none, [] => ⟨[], []⟩
  | some tag, [] => ⟨[], [(tag.reverse, [])]⟩
  | none, c :: rest =>
    if c = '<' then cutLoop (some []) rest
    else ⟨c :: (cutLoop none rest).lead, (cutLoop none rest).parts⟩
  | some tag, c :: rest =>
    if c = '>' then ⟨[], (tag.reverse, (cutLoop none rest).lead) :: (cutLoop none rest).parts⟩
    else cutLoop (some (c :: tag)) rest

def cut (t : Text) : Markup := cutLoop none t

def tags (m : Markup) : List Text := m.parts.map Prod.fst

def textsAfter (p : Text → Bool) (parts : List (Text × Text)) : List Text :=
  (parts.filter fun part => p part.1).map Prod.snd

def inside (names : List Text) (m : Markup) : List Text := textsAfter (· ∈ names) m.parts

def outside (names : List Text) (m : Markup) : List Text :=
  m.lead :: textsAfter (· ∉ names) m.parts

def CleanPart (part : Text × Text) : Prop := '>' ∉ part.1 ∧ '<' ∉ part.2

instance (part : Text × Text) : Decidable (CleanPart part) := inferInstanceAs (Decidable (_ ∧ _))

def Clean (m : Markup) : Prop := '<' ∉ m.lead ∧ ∀ part ∈ m.parts, CleanPart part

theorem textsAfter_append (p : Text → Bool) (parts parts' : List (Text × Text)) :
    textsAfter p (parts ++ parts') = textsAfter p parts ++ textsAfter p parts' := by
  simp only [textsAfter, List.filter_append, List.map_append]

theorem textsAfter_flatMap {α : Type} (p : Text → Bool) (xs : List α)
    (f : α → List (Text × Text)) :
    textsAfter p (xs.flatMap f) = xs.flatMap fun x => textsAfter p (f x) := by
  simp only [textsAfter, List.filter_flatMap, List.map_flatMap]

section Cutting

variable {t : Text}

theorem cutLoop_text (ht : '<' ∉ t) (rest : Text) :
    cutLoop none (t ++ rest) = ⟨t ++ (cutLoop none rest).lead, (cutLoop none rest).parts⟩ := by
  induction t with
  | nil => rfl
  | cons c t ih =>
    rw [List.mem_cons, not_or] at ht
    rw [List.cons_append, cutLoop, if_neg (Ne.symm ht.1), ih ht.2]
    rfl

theorem cutLoop_tag (ht : '>' ∉ t) (tag rest : Text) :
    cutLoop (some tag) (t ++ '>' :: rest) =
      ⟨[], (tag.reverse ++ t, (cutLoop none rest).lead) :: (cutLoop none rest).parts⟩ := by
  induction t generalizing tag with
  | nil => rw [List.nil_append, cutLoop, if_pos rfl, List.append_nil]
  | cons c t ih =>
    rw [List.mem_cons, not_or] at ht
    rw [List.cons_append, cutLoop, if_neg (Ne.symm ht.1), ih ht.2, List.reverse_cons,
      List.append_assoc]
    rfl

theorem cutLoop_parts {parts : List (Text × Text)} (h : ∀ part ∈ parts, CleanPart part) :
    cutLoop none (parts.flatMap partText) = ⟨[], parts⟩ := by
  induction parts with
  | nil => rfl
  | cons part parts ih =>
    obtain ⟨⟨htag, ht⟩, hparts⟩ := List.forall_mem_cons.mp h
    rw [List.flatMap_cons, partText, List.cons_append, cutLoop, if_pos rfl, List.append_assoc,
      List.cons_append, cutLoop_tag htag, cutLoop_text ht, ih hparts, List.append_nil]
    rfl

theorem cut_text {m : Markup} (h : m.Clean) : cut m.text = m := by
  rw [cut, text, cutLoop_text h.1, cutLoop_parts h.2, List.append_nil]

end Cutting

section Entities

def entities : List (Text × Char) :=
  [("&amp;".toList, '&'), ("&lt;".toList, '<'), ("&gt;".toList, '>'), ("&quot;".toList, '"'),
    ("&#39;".toList, '\'')]

def unescapeLoop : Nat → Text → Text
  | _, [] => []
  | skip + 1, _ :: rest => unescapeLoop skip rest
  | 0, c :: rest =>
    match entities.find? fun entity => entity.1.isPrefixOf (c :: rest) with
    | some (name, x) => x :: unescapeLoop (name.length - 1) rest
    | none => c :: unescapeLoop 0 rest

def unescape (t : Text) : Text := unescapeLoop 0 t

def special : Text := ['&', '<', '>', '"', '\'']

/-- Nothing in the text looks like a tag or a quote, and every ampersand begins an entity. -/
def Escaped (t : Text) : Prop :=
  (∀ c ∈ ['<', '>', '"', '\''], c ∉ t) ∧
    ∀ back, '&' :: back <:+ t → ∃ entity ∈ entities, entity.1 <+: '&' :: back

variable {c : Char} {t : Text} {entity : Text × Char}

theorem unescape_entity {name : Text} {x : Char} (h : (name, x) ∈ entities) (t : Text) :
    unescape (name ++ t) = x :: unescape t := by
  simp only [entities, List.mem_cons, List.not_mem_nil, or_false, Prod.mk.injEq] at h
  rcases h with ⟨rfl, rfl⟩ | ⟨rfl, rfl⟩ | ⟨rfl, rfl⟩ | ⟨rfl, rfl⟩ | ⟨rfl, rfl⟩ <;> rfl

theorem exists_tail_of_entity (h : entity ∈ entities) :
    ∃ tail, entity.1 = '&' :: tail ∧ ∀ c ∈ tail, c ∉ special := by
  simp only [entities, List.mem_cons, List.not_mem_nil, or_false] at h
  rcases h with rfl | rfl | rfl | rfl | rfl <;> exact ⟨_, rfl, by decide⟩

theorem unescape_cons (hc : c ≠ '&') (t : Text) : unescape (c :: t) = c :: unescape t := by
  have hnone : (entities.find? fun entity => entity.1.isPrefixOf (c :: t)) = none := by
    rw [List.find?_eq_none]
    intro entity hentity hp
    obtain ⟨tail, htail, -⟩ := exists_tail_of_entity hentity
    rw [htail, List.isPrefixOf_iff_prefix, List.cons_prefix_cons] at hp
    exact hc hp.1.symm
  rw [unescape, unescapeLoop, hnone]
  rfl

theorem escaped_nil : Escaped [] := by
  refine ⟨fun c _ => List.not_mem_nil, fun back hs => ?_⟩
  exact absurd (List.suffix_nil.mp hs) (List.cons_ne_nil _ _)

theorem Escaped.cons (ht : Escaped t) (hc : c ∉ ['<', '>', '"', '\''])
    (hentity : c = '&' → ∃ entity ∈ entities, entity.1 <+: c :: t) : Escaped (c :: t) := by
  refine ⟨fun d hd hmem => ?_, fun back hs => ?_⟩
  · rcases List.mem_cons.mp hmem with rfl | hmem
    · exact hc hd
    · exact ht.1 d hd hmem
  · rcases List.suffix_cons_iff.mp hs with he | hs
    · rw [he]
      exact hentity (List.cons.inj he).1.symm
    · exact ht.2 back hs

theorem Escaped.cons_ordinary (ht : Escaped t) (hc : c ∉ special) : Escaped (c :: t) := by
  rw [special, List.mem_cons, not_or] at hc
  exact ht.cons hc.2 fun h => absurd h hc.1

theorem Escaped.append_ordinary (ht : Escaped t) {s : Text} (hs : ∀ c ∈ s, c ∉ special) :
    Escaped (s ++ t) := by
  induction s with
  | nil => exact ht
  | cons c s ih =>
    obtain ⟨hc, hs⟩ := List.forall_mem_cons.mp hs
    exact (ih hs).cons_ordinary hc

theorem Escaped.append_entity (ht : Escaped t) (h : entity ∈ entities) :
    Escaped (entity.1 ++ t) := by
  obtain ⟨tail, htail, htail'⟩ := exists_tail_of_entity h
  have hprefix : entity.1 <+: '&' :: (tail ++ t) := by
    rw [htail]
    exact List.prefix_append _ t
  rw [htail]
  exact (ht.append_ordinary htail').cons (by decide) fun _ => ⟨entity, h, hprefix⟩

end Entities

end Markup

namespace Page

open Markup

section Escape

variable {c : Char} {t : Text}

theorem entity_of_special (hc : c ∈ special) : (escapeChar c, c) ∈ entities := by
  revert c
  decide

theorem escapeChar_of_not_special (hc : c ∉ special) : escapeChar c = [c] := by
  simp only [special, List.mem_cons, List.not_mem_nil, or_false, not_or] at hc
  obtain ⟨h₁, h₂, h₃, h₄, h₅⟩ := hc
  simp [escapeChar, h₁, h₂, h₃, h₄, h₅]

theorem escape_cons (c : Char) (t : Text) : escape (c :: t) = escapeChar c ++ escape t :=
  List.flatMap_cons

theorem unescape_escape (t : Text) : unescape (escape t) = t := by
  induction t with
  | nil => rfl
  | cons c t ih =>
    rw [escape_cons]
    -- Every entity begins with an ampersand, so a character left as it is begins none.
    by_cases hc : c ∈ special
    · rw [unescape_entity (entity_of_special hc), ih]
    · have hne : c ≠ '&' := fun h => hc (h ▸ List.mem_cons_self)
      rw [escapeChar_of_not_special hc, List.singleton_append, unescape_cons hne, ih]

theorem escape_of_not_special (h : ∀ c ∈ t, c ∉ special) : escape t = t := by
  induction t with
  | nil => rfl
  | cons c t ih =>
    obtain ⟨hc, ht⟩ := List.forall_mem_cons.mp h
    rw [escape_cons, ih ht, escapeChar_of_not_special hc, List.singleton_append]

theorem escaped_escape (t : Text) : Escaped (escape t) := by
  induction t with
  | nil => exact escaped_nil
  | cons c t ih =>
    rw [escape_cons]
    by_cases hc : c ∈ special
    · exact ih.append_entity (entity_of_special hc)
    · rw [escapeChar_of_not_special hc]
      exact ih.cons_ordinary hc

end Escape

end Page

end StockScreen
