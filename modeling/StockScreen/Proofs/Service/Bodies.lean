import StockScreen.Proofs.Json.Items
import StockScreen.Proofs.Json.Passing
import StockScreen.Service.FilterRequest

namespace StockScreen.FilterRequest

open Utf8 (Bytes)
open Json

section Bodies

inductive QueryValue : Bytes → Text → Prop where
  | null : QueryValue (Utf8.encode "null".toList) []
  | string {s : Bytes} {t : Text} (hs : Spells s t) : QueryValue (quote :: (s ++ [quote])) t

def Others (members : List (Text × Bytes)) : Prop :=
  ∀ member ∈ members, member.1 ≠ "query".toList ∧ ValueText member.2

inductive QueryMembers : List (Text × Bytes) → Text → Prop where
  | absent {members : List (Text × Bytes)} (h : Others members) : QueryMembers members []
  | once {before after : List (Text × Bytes)} {v : Bytes} {t : Text} (hbefore : Others before)
    (hv : QueryValue v t) (hafter : Others after) :
    QueryMembers (before ++ ("query".toList, v) :: after) t

inductive Asks : Bytes → Text → Prop where
  | null : Asks (Utf8.encode "null".toList) []
  | object {members : List (Text × Bytes)} {inner : Bytes} {t : Text}
    (h : ObjectText members (0x7B :: inner)) (hmembers : QueryMembers members t) :
    Asks (0x7B :: inner) t
  | emptyArray {a : Bytes} (ha : Blanks a) : Asks (0x5B :: (a ++ [0x5D])) []
  | array {a v b : Bytes} {t : Text} (ha : Blanks a) (hv : QueryValue v t) (hb : Blanks b) :
    Asks (0x5B :: (a ++ (v ++ (b ++ [0x5D])))) t

def AsksFor (body : Bytes) (t : Text) : Prop :=
  ∃ a bytes b, Blanks a ∧ Blanks b ∧ Asks bytes t ∧ body = a ++ (bytes ++ b)

variable {v a b rest body : Bytes} {t : Text} {members : List (Text × Bytes)}

theorem QueryValue.read (h : QueryValue v t) (ha : Blanks a) (rest : Bytes) :
    readQuery (a ++ (v ++ rest)) = .ok (t, rest) := by
  cases h with
  | null =>
    rw [readQuery, readOptional_null _ ha]
    rfl
  | string hs =>
    have htext : readText aText ([] ++ _) = .ok (t, rest) :=
      readText_spelled (List.forall_mem_nil _) hs aText
    rw [List.nil_append] at htext
    rw [readQuery, List.cons_append, List.append_assoc, readOptional_some ha rfl rfl]
    simp only [List.singleton_append, htext]
    rfl

theorem member_other {key : Text} (hkey : key ≠ queryKey) (hv : ValueText v) (query : Option Text)
    {b c rest : Bytes} (hb : Blanks b) (hc : Blanks c) (hrest : Ends rest) :
    member query key (b ++ 0x3A :: (c ++ (v ++ rest))) = .ok (query, rest) := by
  have hmark : expectMark ':' (b ++ 0x3A :: (c ++ (v ++ rest))) = .ok (c ++ (v ++ rest)) :=
    expectMark_append hb rfl
  rw [member, if_neg hkey, hmark]
  simp only [bind, Except.bind, skipValue_value hv hc hrest]
  rfl

theorem member_query (hv : QueryValue v t) {b c : Bytes} (hb : Blanks b) (hc : Blanks c)
    (rest : Bytes) :
    member none queryKey (b ++ 0x3A :: (c ++ (v ++ rest))) = .ok (some t, rest) := by
  rw [member, if_pos rfl, if_neg (by decide), memberValue_append _ hb]
  simp only [hv.read hc]
  rfl

theorem Others.folds_append {before : List (Text × Bytes)} (h : Others before)
    {query query' : Option Text} (hmembers : Folds member query members query') :
    Folds member query (before ++ members) query' := by
  induction before with
  | nil => exact hmembers
  | cons entry before ih =>
    obtain ⟨⟨hkey, hv⟩, hbefore⟩ := List.forall_mem_cons.mp h
    exact .cons (fun b c rest hb hc hrest => member_other hkey hv query hb hc hrest) (ih hbefore)

theorem Others.folds (h : Others members) (query : Option Text) :
    Folds member query members query := by
  have hfolds := h.folds_append (.nil query)
  rwa [List.append_nil] at hfolds

theorem QueryMembers.folds (h : QueryMembers members t) :
    ∃ query : Option Text, Folds member none members query ∧ query.getD [] = t := by
  cases h with
  | absent h => exact ⟨none, h.folds none, rfl⟩
  | once hbefore hv hafter =>
    refine ⟨some t, hbefore.folds_append ?_, rfl⟩
    exact .cons (fun b c rest hb hc _ => member_query hv hb hc rest) (hafter.folds _)

theorem QueryValue.exists_cons (h : QueryValue v t) :
    ∃ first tail, v = first :: tail ∧ isBlank first = false ∧ isByte ']' first = false := by
  cases h with
  | null => exact ⟨_, _, rfl, rfl, rfl⟩
  | string => exact ⟨_, _, rfl, rfl, rfl⟩

theorem fromItems_nil (ha : Blanks a) (rest : Bytes) :
    fromItems (a ++ 0x5D :: rest) = .ok ([], rest) := by
  have hitem : nextItem true (a ++ 0x5D :: rest) = .ok none := by
    rw [nextItem, skipBlanks_append ha, skipBlanks_cons rfl]
    rfl
  have hclose : closeArray (a ++ 0x5D :: rest) = .ok rest := expectMark_append ha rfl
  rw [fromItems, hitem]
  simp only [bind, Except.bind, hclose]
  rfl

theorem fromItems_one (ha : Blanks a) (hv : QueryValue v t) (hb : Blanks b) (rest : Bytes) :
    fromItems (a ++ (v ++ (b ++ 0x5D :: rest))) = .ok (t, rest) := by
  obtain ⟨first, tail, rfl, hblank, hbracket⟩ := hv.exists_cons
  have hitem : nextItem true (a ++ (first :: tail ++ (b ++ 0x5D :: rest))) =
      .ok (some (first :: tail ++ (b ++ 0x5D :: rest))) := by
    rw [nextItem, skipBlanks_append ha, List.cons_append, skipBlanks_cons hblank]
    simp only [hbracket]
    rfl
  have hread := hv.read (List.forall_mem_nil _) (b ++ 0x5D :: rest)
  have hclose : closeArray (b ++ 0x5D :: rest) = .ok rest := expectMark_append hb rfl
  rw [List.nil_append] at hread
  rw [fromItems, hitem]
  simp only [bind, Except.bind, hread, hclose]
  rfl

theorem Asks.read {bytes : Bytes} (h : Asks bytes t) (ha : Blanks a) (rest : Bytes) :
    ∃ query : Option Text, readOptional reader (a ++ (bytes ++ rest)) = .ok (query, rest) ∧
      query.getD [] = t := by
  cases h with
  | null => exact ⟨none, readOptional_null reader ha, rfl⟩
  | @object members inner _ h hmembers =>
    obtain ⟨query, hfolds, hquery⟩ := hmembers.folds
    refine ⟨some (query.getD []), ?_, hquery⟩
    have hreader : reader (0x7B :: (inner ++ rest)) = .ok (query.getD [], rest) := by
      rw [reader, skipBlanks_cons rfl]
      simp only [readMembers_object h hfolds rest]
      rfl
    rw [List.cons_append, readOptional_some ha rfl rfl, hreader]
    rfl
  | @emptyArray a' ha' =>
    refine ⟨some [], ?_, rfl⟩
    have hreader : reader (0x5B :: (a' ++ 0x5D :: rest)) = .ok ([], rest) := by
      rw [reader, skipBlanks_cons rfl]
      exact fromItems_nil ha' rest
    rw [List.cons_append, List.append_assoc, readOptional_some ha rfl rfl]
    simp only [List.singleton_append, hreader]
    rfl
  | @array a' v b' _ ha' hv hb' =>
    refine ⟨some t, ?_, rfl⟩
    have hreader : reader (0x5B :: (a' ++ (v ++ (b' ++ 0x5D :: rest)))) = .ok (t, rest) := by
      rw [reader, skipBlanks_cons rfl]
      exact fromItems_one ha' hv hb' rest
    simp only [List.cons_append, List.append_assoc, List.nil_append]
    rw [readOptional_some ha rfl rfl, hreader]
    rfl

theorem AsksFor.ofBody_eq (h : AsksFor body t) : ofBody body = .ok t := by
  obtain ⟨a, bytes, b, ha, hb, hasks, rfl⟩ := h
  obtain ⟨query, hread, rfl⟩ := hasks.read ha b
  rw [ofBody, readAll_eq_ok hread hb]
  rfl

end Bodies

section Plain

def plainBody (t : Text) : Bytes := Utf8.encode (Json.object [("query".toList, .string t)]).compact

theorem asksFor_plainBody (t : Text) : AsksFor (plainBody t) t := by
  have hnone : Blanks [] := List.forall_mem_nil _
  have htext : ObjectText [(queryKey, Utf8.encode (Json.string t).compact)] (plainBody t) :=
    objectText_compact [(queryKey, .string t)]
  obtain ⟨inner, hinner⟩ := htext.exists_cons
  have hquery : QueryValue (Utf8.encode (Json.string t).compact) t := by
    rw [compact, encode_stringText]
    exact .string (spells_escape t)
  have hmembers : QueryMembers ([] ++ [(queryKey, Utf8.encode (Json.string t).compact)]) t :=
    .once (List.forall_mem_nil _) hquery (List.forall_mem_nil _)
  rw [hinner] at htext
  exact ⟨[], _, [], hnone, hnone, .object htext hmembers, by simp [hinner]⟩

def nothingBodies : List Text :=
  ["null".toList, "\x7b\"query\":null\x7d".toList, "\x7b\x7d".toList]

theorem asksFor_nothing {body : Text} (h : body ∈ nothingBodies) :
    AsksFor (Utf8.encode body) [] := by
  have hnone : Blanks [] := List.forall_mem_nil _
  have hkey : Spells (Utf8.encode queryKey) queryKey := spells_escape queryKey
  simp only [nothingBodies, List.mem_cons, List.not_mem_nil, or_false] at h
  rcases h with rfl | rfl | rfl
  · exact ⟨[], _, [], hnone, hnone, .null, by decide⟩
  · have hmembers : QueryMembers ([] ++ [(queryKey, Utf8.encode "null".toList)]) [] :=
      .once (List.forall_mem_nil _) .null (List.forall_mem_nil _)
    have hasks := Asks.object (.members (.one (.mk hnone hkey hnone hnone hnone))) hmembers
    exact ⟨[], _, [], hnone, hnone, hasks, by decide⟩
  · have hasks := Asks.object (.empty hnone) (.absent (List.forall_mem_nil _))
    exact ⟨[], _, [], hnone, hnone, hasks, by decide⟩

def escapedBody : Bytes :=
  Utf8.encode
    "\x7b\"n\":[-0.5e+1, \"\\ud800\"],\"\\u0071uery\":\"\\/\\n\"\x7d\n".toList

theorem asksFor_escapedBody : AsksFor escapedBody "/\n".toList := by
  have hnone : Blanks [] := List.forall_mem_nil _
  have hfraction : FractionPart [0x2E, 0x35] := .digits (by decide)
  have hexponent : ExponentPart (0x65 :: ([0x2B] ++ [0x31])) :=
    .digits (.inl rfl) (.inr (.inl rfl)) (by decide)
  have hnumber : Derives .value [0x2D, 0x30, 0x2E, 0x35, 0x65, 0x2B, 0x31] :=
    .number (.mk (.inr rfl) .zero hfraction hexponent)
  have hsurrogate : Derives .value [quote, backslash, 0x75, 0x64, 0x38, 0x30, 0x30, quote] :=
    .string (.code (fourHex?_eq_some_iff.mp rfl) .nil)
  have harray := Derives.array (.items hnone hnumber hnone
    (.item (a := [0x20]) (by decide) hsurrogate hnone))
  have hkey : Spells [backslash, 0x75, 0x30, 0x30, 0x37, 0x31, 0x75, 0x65, 0x72, 0x79] queryKey :=
    .code (n := 0x71) (fourHex?_eq_some_iff.mp rfl) (by decide) (unescapes_self (by decide))
  have htext : Spells [backslash, 0x2F, backslash, 0x6E] "/\n".toList :=
    .short (b := 0x2F) (by decide) (.short (b := 0x0A) (by decide) .nil)
  have hquery := QueryValue.string htext
  have hother : Spells [0x6E] ['n'] := unescapes_self (by decide)
  have hothers : Others [(['n'], _)] := List.forall_mem_singleton.mpr ⟨by decide, harray⟩
  have hmembers := QueryMembers.once hothers hquery (List.forall_mem_nil _)
  have hasks := Asks.object (.members (.cons (.mk hnone hother hnone hnone hnone)
    (.one (.mk hnone hkey hnone hnone hnone)))) hmembers
  exact ⟨[], _, [0x0A], hnone, by decide, hasks, by decide⟩

end Plain

end StockScreen.FilterRequest
