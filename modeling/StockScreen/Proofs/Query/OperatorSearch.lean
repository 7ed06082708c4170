import StockScreen.Proofs.Text.Pieces
import StockScreen.Proofs.Text.Trimming
import StockScreen.Query.Condition

namespace StockScreen.Operator

open Text

def marks : Text := ['<', '>', '=']

theorem mem_marks_of_mem_symbol {op : Operator} {c : Char} (hc : c ∈ op.symbol) : c ∈ marks := by
  cases op <;> revert c <;> decide

theorem exists_symbol_eq {c : Char} (hc : c ∈ marks) : ∃ op : Operator, op.symbol = [c] := by
  simp only [marks, List.mem_cons, List.not_mem_nil, or_false] at hc
  rcases hc with rfl | rfl | rfl
  · exact ⟨below, rfl⟩
  · exact ⟨above, rfl⟩
  · exact ⟨equal, rfl⟩

theorem symbol_unbordered (op : Operator) : Unbordered op.symbol := by cases op <;> decide

theorem symbol_not_blank (op : Operator) : ∀ c ∈ op.symbol, isBlank c = false := by
  cases op <;> decide

theorem blanks_not_mark {w : Text} (hw : Blanks w) : ∀ c ∈ w, c ∉ marks := by
  have hm : ∀ c ∈ marks, isBlank c = false := by decide
  intro c hcw hc
  have hb := hw c hcw
  rw [hm c hc] at hb
  contradiction

theorem symbol_disjoint (op : Operator) {t : Text} (ht : ∀ c ∈ t, c ∉ marks) :
    List.Disjoint op.symbol t := by
  intro c hc hct
  exact ht c hct (mem_marks_of_mem_symbol hc)

theorem mem_upTo_self (op : Operator) : op ∈ op.upTo := by cases op <;> decide

theorem mem_upTo_equal (op : Operator) : op ∈ equal.upTo := mem_priority op

theorem not_infix_symbol {p op : Operator} (hp : p ∈ op.upTo) (hne : p ≠ op) :
    ¬p.symbol <:+: op.symbol := by
  cases p <;> cases op <;> revert hp hne <;> decide

def FreeUpTo (op : Operator) (t : Text) : Prop := ∀ p ∈ op.upTo, ¬p.symbol <:+: t

def FirstIn (op : Operator) (t : Text) : Prop :=
  op.symbol <:+: t ∧ ∀ p ∈ op.upTo, p ≠ op → ¬p.symbol <:+: t

instance (op : Operator) (t : Text) : Decidable (op.FreeUpTo t) :=
  inferInstanceAs (Decidable (∀ p ∈ op.upTo, _))

theorem FreeUpTo.of_infix {op : Operator} {s t : Text} (ht : op.FreeUpTo t) (hs : s <:+: t) :
    op.FreeUpTo s := by
  intro p hp h
  exact ht p hp (h.trans hs)

theorem exists_priority_eq (op : Operator) :
    ∃ before after, priority = before ++ op :: after ∧ op.upTo = before ++ [op] ∧ op ∉ before := by
  cases op with
  | atLeast => exact ⟨[], _, rfl, rfl, by decide⟩
  | atMost => exact ⟨[atLeast], _, rfl, rfl, by decide⟩
  | above => exact ⟨[atLeast, atMost], _, rfl, rfl, by decide⟩
  | below => exact ⟨[atLeast, atMost, above], _, rfl, rfl, by decide⟩
  | equal => exact ⟨[atLeast, atMost, above, below], [], rfl, rfl, by decide⟩

theorem detect?_eq_some_iff {op : Operator} {t : Text} : detect? t = some op ↔ op.FirstIn t := by
  obtain ⟨before, after, hp, hu, hop⟩ := exists_priority_eq op
  constructor
  · intro h
    have ho : occursIn op.symbol t = true := by simpa using List.find?_some h
    refine ⟨occursIn_iff.mp ho, ?_⟩
    intro p hpu hne hpt
    have hpb : p ∈ before := by
      rw [hu, List.mem_append, List.mem_singleton] at hpu
      exact hpu.resolve_right hne
    have hs : (before.find? fun q => occursIn q.symbol t).isSome = true :=
      List.find?_isSome.mpr ⟨p, hpb, occursIn_iff.mpr hpt⟩
    obtain ⟨q, hq⟩ := Option.isSome_iff_exists.mp hs
    rw [detect?, hp, List.find?_append, hq, Option.some_or] at h
    exact hop (Option.some.inj h ▸ List.mem_of_find?_eq_some hq)
  · rintro ⟨ho, hn⟩
    refine List.find?_eq_some_iff_append.mpr ⟨occursIn_iff.mpr ho, before, after, hp, ?_⟩
    intro p hpb
    have hpu : p ∈ op.upTo := hu ▸ List.mem_append_left [op] hpb
    rw [Bool.not_eq_true', ← Bool.not_eq_true, occursIn_iff]
    apply hn p hpu
    rintro rfl
    exact hop hpb

theorem detect?_eq_none_iff {t : Text} : detect? t = none ↔ ∀ c ∈ t, c ∉ marks := by
  rw [detect?, List.find?_eq_none]
  constructor
  · intro h c hct hc
    obtain ⟨op, hop⟩ := exists_symbol_eq hc
    apply h op (mem_priority op)
    rw [occursIn_iff, hop]
    exact (List.singleton_infix_iff c t).mpr hct
  · intro h op _ ho
    obtain ⟨c, hc⟩ := List.exists_mem_of_ne_nil op.symbol op.symbol_unbordered.1
    exact h c ((occursIn_iff.mp ho).subset hc) (mem_marks_of_mem_symbol hc)

section Junction

variable {op : Operator} {left right : Text}

theorem pair_parts {c d : Char} {l₁ l₂ : Text} (h : [c, d] = l₁ ++ l₂) (h₁ : l₁ ≠ [])
    (h₂ : l₂ ≠ []) : l₁ = [c] ∧ l₂ = [d] := by
  have hlen : l₁.length + l₂.length = 2 := by rw [← List.length_append, ← h]; rfl
  have hp₁ : 0 < l₁.length := List.length_pos_iff.mpr h₁
  have hp₂ : 0 < l₂.length := List.length_pos_iff.mpr h₂
  have hl : [c].length = l₁.length := by
    rw [List.length_singleton]
    omega
  have hcd : [c] ++ [d] = l₁ ++ l₂ := h
  obtain ⟨hc, hd⟩ := List.append_inj hcd hl
  exact ⟨hc.symm, hd.symm⟩

theorem symbol_parts {p : Operator} {l₁ l₂ : Text} (h : p.symbol = l₁ ++ l₂) (h₁ : l₁ ≠ [])
    (h₂ : l₂ ≠ []) : (∃ q : Operator, q.symbol = l₁) ∧ l₂ = ['='] := by
  have single {c : Char} (hc : [c] = l₁ ++ l₂) : False := by
    have hlen := congrArg List.length hc
    have hp₁ : 0 < l₁.length := List.length_pos_iff.mpr h₁
    have hp₂ : 0 < l₂.length := List.length_pos_iff.mpr h₂
    rw [List.length_singleton, List.length_append] at hlen
    omega
  cases p with
  | atLeast =>
    obtain ⟨rfl, rfl⟩ := pair_parts h h₁ h₂
    exact ⟨⟨above, rfl⟩, rfl⟩
  | atMost =>
    obtain ⟨rfl, rfl⟩ := pair_parts h h₁ h₂
    exact ⟨⟨below, rfl⟩, rfl⟩
  | above | below | equal => exact (single h).elim

theorem not_prefix_symbol (hl : op.FreeUpTo left) {p : Operator} {l₁ l₂ : Text}
    (hp : p.symbol = l₁ ++ l₂) (h₁ : l₁ ≠ []) (h₂ : l₂ ≠ []) (hs : l₁ <:+ left) :
    ¬l₂ <+: op.symbol := by
  -- The first part is an operator `q` in the field, so the cut is not at the last one in the order.
  obtain ⟨⟨q, rfl⟩, rfl⟩ := symbol_parts hp h₁ h₂
  intro h
  obtain rfl : op = equal := by cases op <;> revert h <;> decide
  exact hl q q.mem_upTo_equal hs.isInfix

theorem firstIn_around (hl : op.FreeUpTo left) (hr : ∀ c ∈ right, c ∉ marks) :
    op.FirstIn (left ++ (op.symbol ++ right)) := by
  refine ⟨List.infix_append' left op.symbol right, ?_⟩
  intro p hp hne
  rw [← List.append_assoc]
  apply not_infix_append_right p.symbol_unbordered.1 (p.symbol_disjoint hr)
  intro h
  rcases List.infix_append_iff_ne_nil.mp h with h | h | ⟨l₁, l₂, h₁, h₂, hs, hl₁, hl₂⟩
  · exact hl p hp h
  · exact not_infix_symbol hp hne h
  · exact not_prefix_symbol hl hs h₁ h₂ hl₁ hl₂

theorem split_around (hl : op.FreeUpTo left) (hr : ∀ c ∈ right, c ∉ marks) :
    split op.symbol (left ++ (op.symbol ++ right)) = [left, right] := by
  have hne := op.symbol_unbordered.1
  have hn : ¬op.symbol <:+: right :=
    not_infix_append_right hne (op.symbol_disjoint hr) (not_infix_nil hne)
  rw [split_append op.symbol_unbordered (hl op op.mem_upTo_self), split_of_not_occurring hn]

theorem length_le_of_suffix (hl : op.FreeUpTo left) {p : Operator}
    (hp : p.symbol <:+ left ++ op.symbol) : p.symbol.length ≤ op.symbol.length := by
  by_contra hlt
  rw [Nat.not_le] at hlt
  have hs : op.symbol <:+ p.symbol :=
    List.suffix_of_suffix_length_le (List.suffix_append left op.symbol) hp hlt.le
  obtain ⟨l, hps⟩ := hs
  have hl₁ : l ≠ [] := by
    rintro rfl
    rw [← hps, List.nil_append] at hlt
    exact Nat.lt_irrefl _ hlt
  rw [← hps, List.suffix_append_self_iff] at hp
  exact not_prefix_symbol hl hps.symm hl₁ op.symbol_unbordered.1 hp List.prefix_rfl

end Junction

end StockScreen.Operator
