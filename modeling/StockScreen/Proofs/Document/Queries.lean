import StockScreen.Proofs.Document.Stocks

namespace StockScreen

open Utf8 (Bytes)
open Json

structure Condition.RereadAs (c c' : Condition) : Prop where
  field : c'.field = c.field
  operator : c'.operator = c.operator
  threshold : c.threshold.RereadAs c'.threshold

section Names

variable {α : Type} {names : List (Text × α)} {name : Text} {x : α} {c rest : Bytes}

theorem readName_document (h : names.lookup name = some x) (hc : Blanks c) (rest : Bytes) :
    readName names (c ++ (Utf8.encode (Json.string name).compact ++ rest)) = .ok (x, rest) := by
  have hquote : isByte '"' quote = true := isByte_quote
  rw [compact, encode_stringText, List.cons_append, List.append_assoc, readName,
    skipBlanks_append hc, skipBlanks_cons rfl]
  simp only [hquote, if_true, List.singleton_append, readString_spelled (spells_escape name), bind,
    Except.bind, h]
  rfl

theorem Operator.lookup_symbol (op : Operator) : Operator.names.lookup op.symbol = some op := by
  cases op <;> rfl

end Names

namespace PartialCondition

variable {b c : Bytes}

theorem member_field (hb : Blanks b) (hc : Blanks c) (field : Text) (rest : Bytes) :
    member ⟨none, none, none⟩ fieldKey
        (b ++ 0x3A :: (c ++ (Utf8.encode (Json.string field).compact ++ rest))) =
      .ok (⟨some field, none, none⟩, rest) := by
  rw [member, if_pos rfl, if_neg (by decide), memberValue_append _ hb]
  simp only [readText_document aText field hc]
  rfl

theorem member_operator (field : Option Text) (hb : Blanks b) (hc : Blanks c) (op : Operator)
    (rest : Bytes) :
    member ⟨field, none, none⟩ operatorKey
        (b ++ 0x3A :: (c ++ (Utf8.encode (Json.string op.symbol).compact ++ rest))) =
      .ok (⟨field, some op, none⟩, rest) := by
  rw [member, if_neg (by decide), if_pos rfl, if_neg (by simp), memberValue_append _ hb,
    Operator.fromDocument]
  simp only [readName_document op.lookup_symbol hc]
  rfl

theorem member_value (field : Option Text) (op : Option Operator) (bytes : Bytes) :
    member ⟨field, op, none⟩ valueKey bytes = (memberValue (readNumber aNumber) bytes).map
      fun (x, rest) => (⟨field, op, some x⟩, rest) := by
  rw [member, if_neg (by decide), if_neg (by decide), if_pos rfl, if_neg (by simp)]
  cases memberValue (readNumber aNumber) bytes <;> rfl

end PartialCondition

namespace Condition

theorem readsMembers : ReadsMembers fromDocument PartialCondition.member ⟨none, none, none⟩
    PartialCondition.complete := by
  intro bytes
  have hbracket : isByte '[' 0x7B = false := rfl
  have hopen : isByte '\x7b' 0x7B = true := rfl
  rw [fromDocument, skipBlanks_cons rfl]
  simp only [hbracket, hopen, if_true]
  cases readMembers PartialCondition.member ⟨none, none, none⟩ bytes with
  | error => rfl
  | ok read =>
    obtain ⟨c, rest⟩ := read
    cases hc : c.complete <;> simp only [bind, Except.bind, hc] <;> rfl

theorem exists_gives (c : Condition) :
    ∃ r, Gives fromDocument (Utf8.encode c.document.compact) r ∧
      Reread (c.threshold.isFinite = true) c.RereadAs nullFault r := by
  have htext := objectText_compact c.members
  have hfield (b a rest : Bytes) (hb : Blanks b) (ha : Blanks a) (_ : Ends rest) :=
    PartialCondition.member_field hb ha c.field rest
  have hoperator (b a rest : Bytes) (hb : Blanks b) (ha : Blanks a) (_ : Ends rest) :=
    PartialCondition.member_operator (some c.field) hb ha c.operator rest
  by_cases hc : c.threshold.isFinite = true
  · obtain ⟨y, hreread, hread⟩ := readNumber_written hc
    refine ⟨_, readsMembers.gives htext (.cons hfield (.cons hoperator (.cons ?_ (.nil
      ⟨some c.field, some c.operator, some y⟩)))), .ok hc ⟨rfl, rfl, hreread⟩⟩
    intro b a rest hb ha hrest
    rw [PartialCondition.member_value, memberValue_append _ hb, compact,
      hread aNumber a rest ha hrest]
    rfl
  · refine ⟨_, readsMembers.gives_error htext (.later hfield (.later hoperator (.here ?_))),
      .error hc⟩
    intro b a rest hb ha _
    rw [PartialCondition.member_value, memberValue_append _ hb,
      readNumber_null (Bool.eq_false_iff.mpr hc) ha]
    rfl

end Condition

theorem readAll_queryDocument {q : Query} (h : ∀ c ∈ q, c.threshold.isFinite = true) :
    ∃ q', readAll Query.fromDocument (Utf8.encode q.document.compact) = .ok q' ∧
      List.Forall₂ Condition.RereadAs q q' := by
  choose r hgives hreread using Condition.exists_gives
  rw [Query.document, Query.fromDocument, readAll_array fun c _ => hgives c]
  exact mapM_ok (fun c _ => hreread c) h

/-- Nothing is lost of stocks and queries through their documents but the last places of a number, and
of the zeros nothing at all. -/
theorem documents_reread (stocks : List Stock) (q : Query) (hs : ∀ s ∈ stocks, s.IsFinite)
    (hq : ∀ c ∈ q, c.threshold.isFinite = true) :
    (∃ stocks', readAll stocksFromDocument (Utf8.encode (stocksDocument stocks).compact) =
        .ok stocks' ∧ List.Forall₂ Stock.RereadAs stocks stocks') ∧
      (∃ q', readAll Query.fromDocument (Utf8.encode q.document.compact) = .ok q' ∧
        List.Forall₂ Condition.RereadAs q q') ∧
      ∀ (negative : Bool) (y : Binary64), (Binary64.signed negative .zero).RereadAs y →
        y = .signed negative .zero :=
  ⟨readAll_stocksDocument hs, readAll_queryDocument hq, fun _ _ h => h.eq_of_zero⟩

def Stock.capitalized (name : Text) (x : Binary64) : Stock :=
  .ofValues name fun field => if field = .marketCap then x else .zero

theorem Stock.capitalized_isFinite (name : Text) {x : Binary64} (hx : x.isFinite = true) :
    (capitalized name x).IsFinite := by
  intro field
  rw [capitalized, value_ofValues]
  split
  · exact hx
  · rfl

def oddStock : Stock :=
  .capitalized "A\"\n".toList (.signed false ⟨0x433FFFFFFFFFFFFF, by decide⟩)

def driftingCondition : Condition :=
  ⟨"é".toList, .atMost, .signed true ⟨0x144FFFFFFFFFFFD8, by decide⟩⟩

theorem oddStock_isFinite : oddStock.IsFinite := Stock.capitalized_isFinite _ rfl

theorem documents_reread_odd :
    oddStock.IsFinite ∧ driftingCondition.threshold.isFinite = true ∧
      (∃ stocks', readAll stocksFromDocument (Utf8.encode (stocksDocument [oddStock]).compact) =
        .ok stocks' ∧ List.Forall₂ Stock.RereadAs [oddStock] stocks') ∧
      ∃ q', readAll Query.fromDocument
          (Utf8.encode (Query.document [driftingCondition]).compact) = .ok q' ∧
        List.Forall₂ Condition.RereadAs [driftingCondition] q' := by
  obtain ⟨hstocks, hquery, -⟩ := documents_reread [oddStock] [driftingCondition]
    (List.forall_mem_singleton.mpr oddStock_isFinite) (List.forall_mem_singleton.mpr rfl)
  exact ⟨oddStock_isFinite, rfl, hstocks, hquery⟩

theorem documents_drift :
    let s := oddStock.set .marketCap (.signed false ⟨0x433FFFFFFFFFFFFE, by decide⟩)
    let c : Condition := ⟨"é".toList, .atMost, .signed true ⟨0x144FFFFFFFFFFFD6, by decide⟩⟩
    oddStock.IsFinite ∧ s ≠ oddStock ∧
      readAll stocksFromDocument (Utf8.encode (stocksDocument [oddStock]).compact) = .ok [s] ∧
      driftingCondition.threshold.isFinite = true ∧ c ≠ driftingCondition ∧
      readAll Query.fromDocument (Utf8.encode (Query.document [driftingCondition]).compact) =
        .ok [c] :=
  ⟨oddStock_isFinite, by decide, by decide +kernel, rfl, by decide, by decide +kernel⟩

end StockScreen
