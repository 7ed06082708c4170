import StockScreen.Proofs.Json.Entries
import StockScreen.Proofs.Service.Bodies
import StockScreen.Service.Routes

namespace StockScreen.FilterRequest

open Utf8 (Bytes)
open Json

section Reading

variable {bytes rest body : Bytes} {t : Text} {query : Option Text}
  {members : List (Text × Bytes)}

theorem queryValue_of_stringText {v : Bytes} (h : StringText v t) : QueryValue v t := by
  cases h with
  | mk hs => exact .string hs

theorem QueryValue.valueText {v : Bytes} (h : QueryValue v t) : ValueText v := by
  cases h with
  | null => exact .word (by decide)
  | string hs => exact (StringText.mk hs).valueText

theorem exists_of_readQuery (h : readQuery bytes = .ok (t, rest)) :
    ∃ a v, Blanks a ∧ QueryValue v t ∧ bytes = a ++ (v ++ rest) := by
  obtain ⟨⟨q, rest'⟩, hread, heq⟩ := map_eq_ok_iff.mp h
  obtain ⟨rfl, rfl⟩ := Prod.mk.inj heq
  obtain ⟨a, bytes', ha, rfl, ⟨rfl, rfl⟩ | ⟨t, rfl, htext⟩⟩ := exists_of_readOptional hread
  · exact ⟨a, _, ha, .null, rfl⟩
  · obtain ⟨a', v, ha', hv, rfl⟩ := readText_eq_ok_iff.mp htext
    exact ⟨a ++ a', v, List.forall_mem_append.mpr ⟨ha, ha'⟩, queryValue_of_stringText hv,
      by rw [List.append_assoc]⟩

inductive Step : Option Text → Text × Bytes → Option Text → Prop where
  | query {v : Bytes} {t : Text} (hv : QueryValue v t) : Step none (queryKey, v) (some t)
  | other {query : Option Text} {key : Text} {v : Bytes} (hkey : key ≠ queryKey)
    (hv : ValueText v) : Step query (key, v) query

theorem takes_member : Takes member Step := by
  intro query key bytes query' rest h
  rw [member] at h
  split at h
  · next hkey =>
    subst hkey
    split at h
    · cases h
    · next hnew =>
      obtain ⟨⟨t, rest'⟩, hvalue, heq⟩ := map_eq_ok_iff.mp h
      obtain ⟨rfl, rfl⟩ := Prod.mk.inj heq
      obtain rfl : query = none := Option.not_isSome_iff_eq_none.mp hnew
      obtain ⟨b, bytes', hb, rfl, hread⟩ := exists_of_memberValue hvalue
      obtain ⟨c, v, hc, hv, rfl⟩ := exists_of_readQuery hread
      exact ⟨b, c, v, hb, hc, .query hv, rfl⟩
  · next hkey =>
    obtain ⟨bytes', hmark, h⟩ := bind_eq_ok_iff.mp h
    obtain ⟨rest', hskip, heq⟩ := bind_eq_ok_iff.mp h
    obtain ⟨rfl, rfl⟩ := Prod.mk.inj (Except.ok.inj heq)
    obtain ⟨b, hb, rfl⟩ := exists_of_expectMark hmark
    obtain ⟨c, v, hc, hv, rfl⟩ := skipValue_sound hskip
    exact ⟨b, c, v, hb, hc, .other hkey hv, rfl⟩

theorem QueryMembers.cons {key : Text} {v : Bytes} (h : QueryMembers members t)
    (hkey : key ≠ queryKey) (hv : ValueText v) : QueryMembers ((key, v) :: members) t := by
  cases h with
  | absent hothers => exact .absent (List.forall_mem_cons.mpr ⟨⟨hkey, hv⟩, hothers⟩)
  | once hbefore hquery hafter =>
    exact .once (List.forall_mem_cons.mpr ⟨⟨hkey, hv⟩, hbefore⟩) hquery hafter

theorem chain_some (h : Chain Step (some t) members query) : query = some t ∧ Others members := by
  induction members with
  | nil =>
    cases h
    exact ⟨rfl, List.forall_mem_nil _⟩
  | cons member members ih =>
    cases h with
    | cons hstep hmembers =>
      cases hstep with
      | other hkey hv =>
        obtain ⟨hquery, hothers⟩ := ih hmembers
        exact ⟨hquery, List.forall_mem_cons.mpr ⟨⟨hkey, hv⟩, hothers⟩⟩

theorem chain_none (h : Chain Step none members query) :
    QueryMembers members (query.getD []) := by
  induction members with
  | nil =>
    cases h
    exact .absent (List.forall_mem_nil _)
  | cons member members ih =>
    cases h with
    | cons hstep hmembers =>
      cases hstep with
      | query hv =>
        obtain ⟨rfl, hafter⟩ := chain_some hmembers
        exact .once (List.forall_mem_nil _) hv hafter
      | other hkey hv => exact (ih hmembers).cons hkey hv

theorem exists_of_nextItem_first {after : Bytes} (h : nextItem true bytes = .ok (some after)) :
    ∃ a, Blanks a ∧ bytes = a ++ after := by
  rw [nextItem] at h
  split at h
  · cases h
  · next b tail hb =>
    obtain ⟨a, ha, -, rfl⟩ := exists_of_skipBlanks hb
    split at h
    · cases h
    · rw [if_pos rfl] at h
      obtain rfl := Option.some.inj (Except.ok.inj h)
      exact ⟨a, ha, rfl⟩

theorem exists_of_fromItems (h : fromItems bytes = .ok (t, rest)) :
    ∃ inner, Asks (0x5B :: inner) t ∧ bytes = inner ++ rest := by
  obtain ⟨item, hitem, h⟩ := bind_eq_ok_iff.mp h
  cases item with
  | none =>
    obtain ⟨rest', hclose, heq⟩ := bind_eq_ok_iff.mp h
    obtain ⟨rfl, rfl⟩ := Prod.mk.inj (Except.ok.inj heq)
    obtain ⟨a, ha, rfl⟩ := exists_of_expectMark hclose
    exact ⟨_, .emptyArray ha, by rw [List.append_assoc]; rfl⟩
  | some after =>
    obtain ⟨⟨t', after'⟩, hread, h⟩ := bind_eq_ok_iff.mp h
    obtain ⟨rest', hclose, heq⟩ := bind_eq_ok_iff.mp h
    obtain ⟨rfl, rfl⟩ := Prod.mk.inj (Except.ok.inj heq)
    obtain ⟨a, ha, rfl⟩ := exists_of_nextItem_first hitem
    obtain ⟨a', v, ha', hv, rfl⟩ := exists_of_readQuery hread
    obtain ⟨b, hb, rfl⟩ := exists_of_expectMark hclose
    refine ⟨_, .array (List.forall_mem_append.mpr ⟨ha, ha'⟩) hv hb, ?_⟩
    simp only [List.append_assoc]
    rfl

theorem exists_of_reader (h : reader bytes = .ok (t, rest)) :
    ∃ a asked, Blanks a ∧ Asks asked t ∧ bytes = a ++ (asked ++ rest) := by
  rw [reader] at h
  split at h
  · cases h
  · next b tail hb =>
    obtain ⟨a, ha, -, rfl⟩ := exists_of_skipBlanks hb
    split at h
    · next hopen =>
      obtain rfl : b = 0x5B := isByte_iff.mp hopen
      obtain ⟨inner, hasks, rfl⟩ := exists_of_fromItems h
      exact ⟨a, _, ha, hasks, rfl⟩
    split at h
    · next hopen =>
      obtain rfl : b = 0x7B := isByte_iff.mp hopen
      obtain ⟨⟨query, rest'⟩, hmembers, heq⟩ := map_eq_ok_iff.mp h
      obtain ⟨rfl, rfl⟩ := Prod.mk.inj heq
      obtain ⟨members, inner, hobject, hchain, rfl⟩ := readMembers_sound takes_member hmembers
      exact ⟨a, _, ha, .object hobject (chain_none hchain), rfl⟩
    · cases h

theorem ofBody_eq_ok_iff : ofBody body = .ok t ↔ AsksFor body t := by
  refine ⟨fun h => ?_, AsksFor.ofBody_eq⟩
  obtain ⟨query, hall, rfl⟩ := map_eq_ok_iff.mp h
  obtain ⟨b, hread, hb⟩ := readAll_eq_ok_iff.mp hall
  obtain ⟨a, bytes, ha, rfl, ⟨rfl, rfl⟩ | ⟨t, rfl, hreader⟩⟩ := exists_of_readOptional hread
  · exact ⟨a, _, b, ha, hb, .null, rfl⟩
  · obtain ⟨a', asked, ha', hasks, rfl⟩ := exists_of_reader hreader
    exact ⟨a ++ a', asked, b, List.forall_mem_append.mpr ⟨ha, ha'⟩, hb, hasks,
      by rw [List.append_assoc]⟩

end Reading

section Independence

variable {members members' : List (Text × Bytes)} {body body' : Bytes} {t : Text}

def isQuery (member : Text × Bytes) : Bool := member.1 == "query".toList

theorem others_iff (hvalues : ∀ member ∈ members, ValueText member.2) :
    Others members ↔ members.filter isQuery = [] := by
  rw [List.filter_eq_nil_iff]
  refine forall₂_congr fun member hmember => ?_
  rw [isQuery, beq_iff_eq]
  exact ⟨fun h => h.1, fun h => ⟨h, hvalues member hmember⟩⟩

theorem QueryMembers.valueText (h : QueryMembers members t) :
    ∀ member ∈ members, ValueText member.2 := by
  cases h with
  | absent hothers => exact fun member hm => (hothers member hm).2
  | once hbefore hv hafter =>
    refine List.forall_mem_append.mpr ⟨fun member hm => (hbefore member hm).2, ?_⟩
    exact List.forall_mem_cons.mpr ⟨hv.valueText, fun member hm => (hafter member hm).2⟩

theorem queryMembers_iff (hvalues : ∀ member ∈ members, ValueText member.2) :
    QueryMembers members t ↔ (members.filter isQuery = [] ∧ t = []) ∨
      ∃ v, members.filter isQuery = [("query".toList, v)] ∧ QueryValue v t := by
  constructor
  · intro h
    cases h with
    | absent hothers => exact .inl ⟨(others_iff hvalues).mp hothers, rfl⟩
    | @once before after v _ hbefore hv hafter =>
      obtain ⟨hbefore', hrest⟩ := List.forall_mem_append.mp hvalues
      obtain ⟨-, hafter'⟩ := List.forall_mem_cons.mp hrest
      have hquery : isQuery ("query".toList, v) = true := beq_self_eq_true "query".toList
      refine .inr ⟨v, ?_, hv⟩
      rw [List.filter_append, (others_iff hbefore').mp hbefore, List.filter_cons_of_pos hquery,
        (others_iff hafter').mp hafter, List.nil_append]
  · rintro (⟨hnone, rfl⟩ | ⟨v, hone, hv⟩)
    · exact .absent ((others_iff hvalues).mpr hnone)
    · obtain ⟨before, after, rfl, hbefore, -, hafter⟩ := List.filter_eq_cons_iff.mp hone
      obtain ⟨hbefore', hrest⟩ := List.forall_mem_append.mp hvalues
      obtain ⟨-, hafter'⟩ := List.forall_mem_cons.mp hrest
      exact .once ((others_iff hbefore').mpr (List.filter_eq_nil_iff.mpr hbefore)) hv
        ((others_iff hafter').mpr hafter)

theorem ofBody_document (h : ObjectDocument members body) :
    ofBody body = .ok t ↔ QueryMembers members t := by
  rw [ofBody_eq_ok_iff]
  constructor
  · rintro ⟨a, bytes, b, ha, hb, hasks, rfl⟩
    cases hasks with
    | null => exact absurd (h.head ha rfl) (by decide)
    | emptyArray => exact absurd (h.head ha rfl) (by decide)
    | array => exact absurd (h.head ha rfl) (by decide)
    | object hobject hmembers =>
      obtain rfl := h.unique (.mk ha hobject hmembers.valueText hb)
      exact hmembers
  · intro hmembers
    cases h with
    | mk ha hobject _ hb =>
      obtain ⟨inner, rfl⟩ := hobject.exists_cons
      exact ⟨_, _, _, ha, hb, .object hobject hmembers, rfl⟩

theorem ofBody_congr (h : ObjectDocument members body) (h' : ObjectDocument members' body')
    (hquery : members.filter isQuery = members'.filter isQuery) :
    ofBody body = .ok t ↔ ofBody body' = .ok t := by
  have hvalues {members : List (Text × Bytes)} {body : Bytes} (h : ObjectDocument members body) :
      ∀ member ∈ members, ValueText member.2 := by
    cases h with
    | mk _ _ hvalues => exact hvalues
  rw [ofBody_document h, ofBody_document h', queryMembers_iff (hvalues h),
    queryMembers_iff (hvalues h'), hquery]

theorem exists_error_iff : (∃ e, ofBody body = .error e) ↔ ∀ t, ¬AsksFor body t := by
  simp only [← ofBody_eq_ok_iff]
  cases ofBody body with
  | error e => simp
  | ok t => simp

/-- Bodies that ask for a query text are accepted as it, and all others are rejected. What stands
under other keys makes no difference. -/
theorem ofBody_accepts :
    (∀ body t, ofBody body = .ok t ↔ AsksFor body t) ∧
    (∀ body, (∃ e, ofBody body = .error e) ↔ ∀ t, ¬AsksFor body t) ∧
    (∀ (service : Service) (r : Request), r.body.length ≤ Service.bodyLimit →
      (∀ t, ¬AsksFor r.body t) → service.answerFilter r = Service.Rejection.invalidRequest.answer) ∧
    ∀ members members' body body', ObjectDocument members body → ObjectDocument members' body' →
      members.filter isQuery = members'.filter isQuery →
        ∀ t, ofBody body = .ok t ↔ ofBody body' = .ok t := by
  refine ⟨fun body t => ofBody_eq_ok_iff, fun body => exists_error_iff,
    fun service r hlength hnone => ?_, fun members members' body body' h h' hquery t =>
      ofBody_congr h h' hquery⟩
  obtain ⟨e, he⟩ := exists_error_iff.mpr hnone
  rw [Service.answerFilter, if_neg (Nat.not_lt.mpr hlength), he]

def accompanied : List (Text × Json) := [(['x'], .null), (queryKey, .string ['a'])]

theorem objectDocument_accompanied :
    ObjectDocument [(['x'], Utf8.encode "null".toList),
        (queryKey, Utf8.encode (Json.string ['a']).compact)]
      (Utf8.encode (Json.object accompanied).compact) := by
  have hnull : ValueText (Utf8.encode Json.null.compact) := .word (by decide)
  have hvalues : ∀ entry ∈ accompanied, ValueText (Utf8.encode entry.2.compact) :=
    List.forall_mem_cons.mpr
      ⟨hnull, List.forall_mem_singleton.mpr (stringText_compact ['a']).valueText⟩
  exact objectDocument_compact hvalues

theorem objectDocument_plainBody (t : Text) :
    ObjectDocument [(queryKey, Utf8.encode (Json.string t).compact)] (plainBody t) := by
  have hvalues : ∀ entry ∈ [(queryKey, Json.string t)], ValueText (Utf8.encode entry.2.compact) :=
    List.forall_mem_singleton.mpr (stringText_compact t).valueText
  exact objectDocument_compact hvalues

theorem ofBody_accepts_escaped :
    let service : Service := ⟨.ofStocks [], []⟩
    let r : Request := ⟨"POST".toList, "/filter".toList, [], []⟩
    ofBody escapedBody = .ok "/\n".toList ∧
      r.body.length ≤ Service.bodyLimit ∧ (∀ t, ¬AsksFor r.body t) ∧
      (∃ e, ofBody r.body = .error e) ∧
      service.answerFilter r = Service.Rejection.invalidRequest.answer ∧
      (ofBody (Utf8.encode (Json.object accompanied).compact) = .ok ['a'] ↔
        ofBody (plainBody ['a']) = .ok ['a']) := by
  intro service r
  obtain ⟨haccepted, herror, hanswer, hcongr⟩ := ofBody_accepts
  have hnone : ∀ t, ¬AsksFor r.body t := (herror []).mp ⟨.endsEarly, rfl⟩
  have hlength : r.body.length ≤ Service.bodyLimit := Nat.zero_le _
  exact ⟨(haccepted _ _).mpr asksFor_escapedBody, hlength, hnone, (herror _).mpr hnone,
    hanswer service r hlength hnone,
    hcongr _ _ _ _ objectDocument_accompanied (objectDocument_plainBody ['a']) (by decide) ['a']⟩

end Independence

end StockScreen.FilterRequest
