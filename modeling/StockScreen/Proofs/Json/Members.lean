import Mathlib.Data.List.TakeWhile
import StockScreen.Json.Shape
import StockScreen.Proofs.Json.Grammar

namespace StockScreen.Json

open Utf8 (Bytes)

section Tokens

variable {a rest : Bytes} {b : UInt8}

theorem skipBlanks_append (ha : Blanks a) (rest : Bytes) :
    skipBlanks (a ++ rest) = skipBlanks rest :=
  List.dropWhile_append_of_pos (blanks_iff.mp ha)

theorem skipBlanks_cons (hb : isBlank b = false) (rest : Bytes) :
    skipBlanks (b :: rest) = b :: rest :=
  List.dropWhile_cons_of_neg (Bool.eq_false_iff.mp hb)

theorem skipBlanks_of_blanks (ha : Blanks a) : skipBlanks a = [] :=
  List.dropWhile_eq_nil_iff.mpr (blanks_iff.mp ha)

theorem expectMark_append {c : Char} (ha : Blanks a) (hc : isBlank c.toUInt8 = false) :
    expectMark c (a ++ c.toUInt8 :: rest) = .ok rest := by
  rw [expectMark, skipBlanks_append ha, skipBlanks_cons hc]
  exact if_pos (isByte_iff.mpr rfl)

theorem expectBytes_append (expected rest : Bytes) : expectBytes expected (expected ++ rest) = .ok rest := by
  induction expected with
  | nil => cases rest <;> rfl
  | cons e expected ih =>
    rw [List.cons_append, expectBytes, if_pos rfl, ih]

theorem readText_spelled {s : Bytes} {t : Text} (ha : Blanks a) (hs : Spells s t) (expected : Text) :
    readText expected (a ++ quote :: (s ++ quote :: rest)) = .ok (t, rest) := by
  have hq : isBlank quote = false := rfl
  rw [readText, skipBlanks_append ha, skipBlanks_cons hq]
  exact (if_pos isByte_quote).trans (readString_spelled hs rest)

theorem readOptional_null {α : Type} (read : Reader α) (ha : Blanks a) :
    readOptional read (a ++ (Utf8.encode "null".toList ++ rest)) = .ok (none, rest) := by
  have hn : Utf8.encode "null".toList ++ rest = 0x6E :: ([0x75, 0x6C, 0x6C] ++ rest) := rfl
  have hword : expectWord "ull".toList ([0x75, 0x6C, 0x6C] ++ rest) = .ok rest :=
    expectBytes_append _ rest
  rw [readOptional, skipBlanks_append ha, hn, skipBlanks_cons rfl]
  simp only [hword]
  rfl

theorem readOptional_some {α : Type} {read : Reader α} (ha : Blanks a) (hb : isBlank b = false)
    (hn : isByte 'n' b = false) :
    readOptional read (a ++ b :: rest) = (read (b :: rest)).map fun (x, rest) => (some x, rest) := by
  rw [readOptional, skipBlanks_append ha, skipBlanks_cons hb]
  simp only [hn]
  rfl

end Tokens

section Members

variable {σ : Type} {read : σ → Text → Reader σ}

inductive Folds (read : σ → Text → Reader σ) : σ → List (Text × Bytes) → σ → Prop where
  | nil (s : σ) : Folds read s [] s
  | cons {s s' s'' : σ} {key : Text} {v : Bytes} {members : List (Text × Bytes)}
    (h : ∀ b c rest, Blanks b → Blanks c → Ends rest →
      read s key (b ++ 0x3A :: (c ++ (v ++ rest))) = .ok (s', rest))
    (hmembers : Folds read s' members s'') : Folds read s ((key, v) :: members) s''

theorem memberValue_append {α : Type} (read : Reader α) {b : Bytes} (hb : Blanks b) (v : Bytes) :
    memberValue read (b ++ 0x3A :: v) = read v := by
  have hmark : expectMark ':' (b ++ 0x3A :: v) = .ok v := expectMark_append hb rfl
  rw [memberValue, hmark]

inductive Leads : Bool → Bytes → Prop where
  | first : Leads true []
  | next {d : Bytes} (hd : Blanks d) : Leads false (d ++ [0x2C])

theorem nextKey_quote {isFirst : Bool} {lead a rest : Bytes} (h : Leads isFirst lead)
    (ha : Blanks a) : nextKey isFirst (lead ++ (a ++ quote :: rest)) = .ok (some rest) := by
  cases h with
  | first =>
    rw [List.nil_append, nextKey, skipBlanks_append ha, skipBlanks_cons rfl]
    rfl
  | next hd =>
    rw [List.append_assoc, nextKey, skipBlanks_append hd, List.singleton_append,
      skipBlanks_cons rfl]
    simp only [skipBlanks_append ha, skipBlanks_cons (rfl : isBlank quote = false)]
    rfl

theorem nextKey_close {a rest : Bytes} (isFirst : Bool) (ha : Blanks a) :
    nextKey isFirst (a ++ 0x7D :: rest) = .ok none := by
  rw [nextKey, skipBlanks_append ha, skipBlanks_cons rfl]
  rfl

theorem membersLoop_close {a rest : Bytes} (fuel : Nat) (isFirst : Bool) (s : σ) (ha : Blanks a) :
    membersLoop read (fuel + 1) isFirst s (a ++ 0x7D :: rest) = .ok (s, rest) := by
  have hmark : expectMark '\x7d' (a ++ 0x7D :: rest) = .ok rest := expectMark_append ha rfl
  rw [membersLoop, nextKey_close isFirst ha]
  simp only [hmark]
  rfl

theorem membersLoop_member {s s' : σ} {key : Text} {v bytes lead rest : Bytes} {isFirst : Bool}
    (h : MemberText (key, v) bytes) (hlead : Leads isFirst lead)
    (hread : ∀ b c rest, Blanks b → Blanks c → Ends rest →
      read s key (b ++ 0x3A :: (c ++ (v ++ rest))) = .ok (s', rest)) (hrest : Ends rest)
    (fuel : Nat) :
    ∃ d, Blanks d ∧ membersLoop read (fuel + 1) isFirst s (lead ++ (bytes ++ rest)) =
      membersLoop read fuel false s' (d ++ rest) := by
  cases h with
  | @mk key a spelled b c v d ha hs hb hc hd =>
    refine ⟨d, hd, ?_⟩
    simp only [List.append_assoc, List.cons_append]
    rw [membersLoop, nextKey_quote hlead ha]
    simp only [readString_spelled hs, hread b c (d ++ rest) hb hc (hrest.blanks hd)]

theorem membersLoop_text {members : List (Text × Bytes)} {inner lead : Bytes} {isFirst : Bool}
    {s s' : σ} {fuel : Nat} (h : MembersText members inner) (hfolds : Folds read s members s')
    (hlead : Leads isFirst lead) (hfuel : members.length < fuel) (rest : Bytes) :
    membersLoop read fuel isFirst s (lead ++ (inner ++ 0x7D :: rest)) = .ok (s', rest) := by
  -- A step leaves the blanks after its member, and they lead the next one.
  induction h generalizing isFirst lead s fuel with
  | one h =>
    obtain ⟨fuel, rfl⟩ : ∃ n, fuel = n + 2 := Nat.exists_eq_add_of_le' hfuel
    cases hfolds with
    | cons hread hmembers =>
      cases hmembers
      have hends : Ends (0x7D :: rest) := .cons (by decide) rest
      obtain ⟨d, hd, hloop⟩ := membersLoop_member h hlead hread hends (fuel + 1)
      rw [hloop, membersLoop_close fuel false _ hd]
  | @cons member members bytes inner h _ ih =>
    obtain ⟨fuel, rfl⟩ : ∃ n, fuel = n + 1 := Nat.exists_eq_add_of_le' (Nat.one_le_of_lt hfuel)
    cases hfolds with
    | cons hread hmembers =>
      have hends : Ends (0x2C :: (inner ++ 0x7D :: rest)) := .cons (by decide) _
      obtain ⟨d, hd, hloop⟩ := membersLoop_member h hlead hread hends fuel
      have hnext := ih hmembers (.next hd) (Nat.lt_of_succ_lt_succ hfuel)
      rw [List.append_assoc, List.cons_append, hloop, ← hnext, List.append_assoc]
      rfl

theorem MembersText.length_le {members : List (Text × Bytes)} {inner : Bytes}
    (h : MembersText members inner) : members.length ≤ inner.length := by
  induction h with
  | one h =>
    cases h
    simp only [List.length_append, List.length_cons, List.length_nil]
    omega
  | cons h _ ih =>
    simp only [List.length_append, List.length_cons]
    omega

theorem readMembers_object {members : List (Text × Bytes)} {bytes : Bytes} {s s' : σ}
    (h : ObjectText members (0x7B :: bytes)) (hfolds : Folds read s members s') (rest : Bytes) :
    readMembers read s (bytes ++ rest) = .ok (s', rest) := by
  cases h with
  | empty ha =>
    cases hfolds
    rw [readMembers, List.append_assoc]
    exact membersLoop_close _ true s ha
  | members h =>
    rw [readMembers, List.append_assoc]
    refine membersLoop_text h hfolds .first ?_ rest
    have hlen := h.length_le
    simp only [List.length_append]
    omega

end Members

section Whole

theorem readAll_eq_ok {α : Type} {read : Reader α} {bytes a : Bytes} {x : α}
    (h : read bytes = .ok (x, a)) (ha : Blanks a) : readAll read bytes = .ok x := by
  rw [readAll, h]
  simp only [skipBlanks_of_blanks ha]
  rfl

end Whole

end StockScreen.Json
