import StockScreen.Document.Read
import StockScreen.Proofs.Json.Items
import StockScreen.Proofs.Json.Numerals

namespace StockScreen

open Utf8 (Bytes)
open Json

section Values

variable {c : Bytes}

theorem readText_document (expected : Text) (t : Text) (hc : Blanks c) (rest : Bytes) :
    readText expected (c ++ (Utf8.encode (Json.string t).compact ++ rest)) = .ok (t, rest) := by
  rw [compact, encode_stringText, List.cons_append, List.append_assoc]
  exact readText_spelled hc (spells_escape t) expected

def nullFault : ReadError := .mismatch (.wrongKind .null aNumber)

theorem readNumber_null {x : Binary64} (hx : x.isFinite = false) (hc : Blanks c) (rest : Bytes) :
    readNumber aNumber (c ++ (Utf8.encode (Json.number x).compact ++ rest)) = .error nullFault := by
  have htext : (Json.number x).compact = "null".toList := by
    rw [compact]
    cases x with
    | nan => rfl
    | signed negative m =>
      have hm : m.isInfinite = true := by simpa [Binary64.isFinite] using hx
      exact if_pos hm
  have hnull : Utf8.encode "null".toList = 0x6E :: [0x75, 0x6C, 0x6C] := by decide
  have hword : expectWord "ull".toList ([0x75, 0x6C, 0x6C] ++ rest) = .ok rest :=
    expectBytes_append _ rest
  have hmismatch : mismatch aNumber 0x6E ([0x75, 0x6C, 0x6C] ++ rest) = nullFault := by
    have hn : isByte 'n' 0x6E = true := rfl
    rw [mismatch, if_pos hn, hword]
    rfl
  rw [htext, hnull, readNumber, skipBlanks_append hc, List.cons_append, skipBlanks_cons rfl]
  exact congrArg Except.error hmismatch

end Values

namespace Stock

def IsFinite (s : Stock) : Prop := ∀ field, (s.value field).isFinite = true

structure RereadAs (s s' : Stock) : Prop where
  name : s'.name = s.name
  value : ∀ field, (s.value field).RereadAs (s'.value field)

end Stock

namespace PartialStock

variable {s : PartialStock} {x y : Field → Binary64} {fields : List Field}

def members (x : Field → Binary64) (fields : List Field) : List (Text × Bytes) :=
  fields.map fun field => (field.name, Utf8.encode (Json.number (x field)).compact)

theorem member_name (hs : s.name = none) {b c : Bytes} (hb : Blanks b) (hc : Blanks c) (name : Text)
    (rest : Bytes) :
    s.member Stock.nameKey
        (b ++ 0x3A :: (c ++ (Utf8.encode (Json.string name).compact ++ rest))) =
      .ok ({ s with name := some name }, rest) := by
  rw [member, if_pos rfl, hs, if_neg (by decide), memberValue_append _ hb]
  simp only [readText_document aText name hc]
  rfl

theorem member_field {field : Field} (hfield : s.values.lookup field = none) (bytes : Bytes) :
    s.member field.name bytes = (memberValue (readNumber aNumber) bytes).map
      fun (x, rest) => ({ s with values := (field, x) :: s.values }, rest) := by
  have hname : ∀ field ∈ Field.all, field.name ≠ Stock.nameKey := by decide
  rw [member, if_neg (hname field field.mem_all)]
  simp only [Field.named?_name, hfield]
  cases memberValue (readNumber aNumber) bytes <;> rfl

theorem lookup_later {field : Field} {values : List (Field × Binary64)} (hfield : field ∉ fields)
    (hnew : ∀ g ∈ fields, values.lookup g = none) (y : Binary64) :
    ∀ g ∈ fields, ((field, y) :: values).lookup g = none := by
  intro g hg
  have hne : g ≠ field := fun h => hfield (h ▸ hg)
  rw [List.lookup_cons, beq_false_of_ne hne]
  exact hnew g hg

theorem folds_members (hfields : fields.Nodup) (hnew : ∀ field ∈ fields, s.values.lookup field = none)
    (hread : ∀ field ∈ fields, ∀ (a rest : Bytes), Blanks a → Ends rest →
      readNumber aNumber (a ++ (Utf8.encode (Json.number (x field)).compact ++ rest)) =
        .ok (y field, rest)) :
    Folds member s (members x fields)
      ⟨s.name, (fields.map fun field => (field, y field)).reverse ++ s.values⟩ := by
  -- A field that has been read is in the state, and the later fields are others.
  induction fields generalizing s with
  | nil => exact .nil s
  | cons field fields ih =>
    obtain ⟨hfield, hfields⟩ := List.nodup_cons.mp hfields
    obtain ⟨hnone, hnew⟩ := List.forall_mem_cons.mp hnew
    obtain ⟨hfirst, hread⟩ := List.forall_mem_cons.mp hread
    have hfolds := @ih { s with values := (field, y field) :: s.values } hfields
      (lookup_later hfield hnew (y field)) hread
    rw [List.map_cons, List.reverse_cons, List.append_assoc]
    refine .cons (fun b c rest hb hc hrest => ?_) hfolds
    rw [member_field hnone, memberValue_append _ hb, hfirst c rest hc hrest]
    rfl

theorem stops_members (hfields : fields.Nodup) (hnew : ∀ field ∈ fields, s.values.lookup field = none)
    (hbad : ∃ field ∈ fields, (x field).isFinite = false) :
    Stops member s (members x fields) nullFault := by
  induction fields generalizing s with
  | nil => simp at hbad
  | cons field fields ih =>
    obtain ⟨hfield, hfields⟩ := List.nodup_cons.mp hfields
    obtain ⟨hnone, hnew⟩ := List.forall_mem_cons.mp hnew
    by_cases hx : (x field).isFinite = true
    · obtain ⟨y, -, hread⟩ := readNumber_written hx
      have hrest : ∃ g ∈ fields, (x g).isFinite = false := by
        obtain ⟨g, hg, hbad⟩ := hbad
        rcases List.mem_cons.mp hg with rfl | hg
        · exact absurd hx (ne_true_of_eq_false hbad)
        · exact ⟨g, hg, hbad⟩
      have hlater : Stops member { s with values := (field, y) :: s.values } (members x fields)
          nullFault := ih hfields (lookup_later hfield hnew y) hrest
      refine .later (fun b c rest hb hc hrest => ?_) hlater
      rw [member_field hnone, memberValue_append _ hb, compact, hread aNumber c rest hc hrest]
      rfl
    · refine .here fun b c rest hb hc hrest => ?_
      rw [member_field hnone, memberValue_append _ hb,
        readNumber_null (Bool.eq_false_iff.mpr hx) hc]
      rfl

theorem complete_values (name : Text) (y : Field → Binary64) :
    complete ⟨some name, (Field.all.map fun field => (field, y field)).reverse⟩ =
      .ok (Stock.ofValues name y) := rfl

end PartialStock

namespace Stock

theorem readsMembers : ReadsMembers fromDocument PartialStock.member ⟨none, []⟩
    PartialStock.complete := by
  intro bytes
  have hopen : isByte '\x7b' 0x7B = true := rfl
  rw [fromDocument, skipBlanks_cons rfl]
  simp only [hopen, if_true]
  cases readMembers PartialStock.member ⟨none, []⟩ bytes with
  | error => rfl
  | ok read =>
    obtain ⟨s, rest⟩ := read
    cases hs : s.complete <;> simp only [bind, Except.bind, hs] <;> rfl

theorem objectText_document (s : Stock) :
    ObjectText ((nameKey, Utf8.encode (Json.string s.name).compact) ::
      PartialStock.members s.value Field.all) (Utf8.encode s.document.compact) := by
  have h := objectText_compact ((nameKey, .string s.name) ::
    Field.all.map fun field => (field.name, .number (s.value field)))
  rwa [List.map_cons, List.map_map] at h

theorem exists_gives (s : Stock) :
    ∃ r, Gives fromDocument (Utf8.encode s.document.compact) r ∧
      Reread s.IsFinite s.RereadAs nullFault r := by
  have hfields : Field.all.Nodup := by decide
  have hname (b c rest : Bytes) (hb : Blanks b) (hc : Blanks c) (_ : Ends rest) :
      PartialStock.member ⟨none, []⟩ nameKey
          (b ++ 0x3A :: (c ++ (Utf8.encode (Json.string s.name).compact ++ rest))) =
        .ok (⟨some s.name, []⟩, rest) := PartialStock.member_name rfl hb hc s.name rest
  by_cases hs : s.IsFinite
  · choose y hreread hread using fun field => readNumber_written (hs field)
    have hfolds := PartialStock.folds_members (s := ⟨some s.name, []⟩) (x := s.value) hfields
      (fun _ _ => rfl) fun field _ a rest ha hrest => by
        rw [compact]
        exact hread field aNumber a rest ha hrest
    rw [List.append_nil] at hfolds
    have hgives := readsMembers.gives s.objectText_document (.cons hname hfolds)
    rw [PartialStock.complete_values] at hgives
    refine ⟨_, hgives, .ok hs ⟨rfl, fun field => ?_⟩⟩
    rw [value_ofValues]
    exact hreread field
  · obtain ⟨field, hbad⟩ := not_forall.mp hs
    have hstops : Stops PartialStock.member ⟨some s.name, []⟩
        (PartialStock.members s.value Field.all) nullFault :=
      PartialStock.stops_members hfields (fun _ _ => rfl)
        ⟨field, field.mem_all, Bool.eq_false_iff.mpr hbad⟩
    exact ⟨_, readsMembers.gives_error s.objectText_document (.later hname hstops), .error hs⟩

end Stock

theorem readAll_stocksDocument {stocks : List Stock} (h : ∀ s ∈ stocks, s.IsFinite) :
    ∃ stocks', readAll stocksFromDocument (Utf8.encode (stocksDocument stocks).compact) =
      .ok stocks' ∧ List.Forall₂ Stock.RereadAs stocks stocks' := by
  choose r hgives hreread using Stock.exists_gives
  rw [stocksDocument, stocksFromDocument, readAll_array fun s _ => hgives s]
  exact mapM_ok (fun s _ => hreread s) h

theorem readAll_stocksDocument_error {stocks : List Stock} (h : ∃ s ∈ stocks, ¬s.IsFinite) :
    readAll stocksFromDocument (Utf8.encode (stocksDocument stocks).compact) =
      .error nullFault := by
  choose r hgives hreread using Stock.exists_gives
  rw [stocksDocument, stocksFromDocument, readAll_array fun s _ => hgives s]
  exact mapM_error (fun s _ => hreread s) h

end StockScreen
