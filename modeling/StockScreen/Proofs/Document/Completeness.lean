import Mathlib.Data.List.Nodup
import StockScreen.Proofs.Dataset.Rows
import StockScreen.Proofs.Document.Queries
import StockScreen.Proofs.Json.Entries
import StockScreen.Proofs.Json.NumberTexts

namespace StockScreen

open Utf8 (Bytes)
open Json

namespace Json

variable {v : Bytes} {x : Binary64} {expected : Text}

theorem ends_nil : Ends [] := fun b hb => by cases hb

theorem Blanks.ends {b : Bytes} (hb : Blanks b) : Ends b :=
  List.append_nil b ▸ ends_nil.blanks hb

theorem ReadsAs.readAll {α : Type} {read : Reader α} {x : α} (h : ReadsAs read v x) :
    readAll read v = .ok x := by
  have hread := h [] ends_nil
  rw [List.append_nil] at hread
  exact readAll_eq_ok hread blanks_nil

theorem readNumber_blanks {c : Bytes} (hc : Blanks c) :
    readNumber expected (c ++ v) = readNumber expected v := by
  rw [readNumber, readNumber, skipBlanks_append hc]

theorem NumberText.readsAs (hv : NumberText v) (hx : readAll (readNumber expected) v = .ok x) :
    ReadsAs (readNumber expected) v x := by
  obtain ⟨b, hread, hb⟩ := readAll_eq_ok_iff.mp hx
  obtain ⟨a, v', ha, hv', heq, hreads⟩ := exists_of_readNumber hread
  have hvalue : ValueText v := .number hv
  have heq : [] ++ (v ++ []) = a ++ (v' ++ b) := by rwa [List.append_nil]
  obtain ⟨rfl, -⟩ := hvalue.unique_after (.number hv') blanks_nil ha ends_nil hb.ends heq
  exact hreads

theorem numberText_of_not_finite {x : Binary64} (hx : ¬x.isFinite = true) :
    numberText x = "null".toList := by
  cases x with
  | nan => rfl
  | signed negative m =>
    have hm : m.isInfinite = true := by simpa [Binary64.isFinite] using hx
    rw [numberText, if_pos hm]

theorem exists_cons_numberText {x : Binary64} (hx : x.isFinite = true) :
    ∃ b tail, Utf8.encode (numberText x) = b :: tail ∧ isBlank b = false := by
  cases x with
  | nan => cases hx
  | signed negative m =>
    have hm : m.isInfinite = false := by simpa [Binary64.isFinite] using hx
    have hfinite : m.rank < infinityRank := lt_of_le_of_ne m.rank_le (beq_eq_false_iff_ne.mp hm)
    obtain ⟨b, tail, hcons, hb⟩ := token_exists_digit (Binary64.token_written hfinite)
    rw [numberText, if_neg (ne_true_of_eq_false hm)]
    cases negative with
    | true => exact ⟨0x2D, _, rfl, rfl⟩
    | false => exact ⟨b, tail, hcons, not_blank_of_digit hb⟩

theorem exists_numberText (expected : Text) {x : Binary64} (hx : x.isFinite = true) :
    ∃ y, x.RereadAs y ∧ NumberText (Utf8.encode (numberText x)) ∧
      readAll (readNumber expected) (Utf8.encode (numberText x)) = .ok y := by
  obtain ⟨y, hy, hread⟩ := readNumber_written hx
  have hreads : ReadsAs (readNumber expected) (Utf8.encode (numberText x)) y :=
    fun rest hrest => hread expected [] rest blanks_nil hrest
  obtain ⟨a, v, ha, hv, heq, -⟩ := exists_of_readNumber (hreads [] ends_nil)
  refine ⟨y, hy, ?_, hreads.readAll⟩
  obtain ⟨b, tail, hcons, hb⟩ := exists_cons_numberText hx
  obtain ⟨c, w, rfl, hc⟩ := ValueText.exists_cons (.number hv)
  rw [hcons, List.cons_append, List.cons_append] at heq
  obtain ⟨-, rfl, htail⟩ := blanks_nil.unique ha hb hc heq
  rw [hcons, List.append_cancel_right htail]
  exact hv

end Json

namespace Stock

def keys : List Text := nameKey :: Field.all.map Field.name

inductive Entry (s : Stock) : Text × Bytes → Prop where
  | name {v : Bytes} (hv : StringText v s.name) : Entry s (nameKey, v)
  | value {field : Field} {v : Bytes} (hv : NumberText v)
    (hx : readAll (readNumber aNumber) v = .ok (s.value field)) : Entry s (field.name, v)

structure Completes (members : List (Text × Bytes)) (s : Stock) : Prop where
  keys : (members.map Prod.fst).Perm Stock.keys
  entries : ∀ member ∈ members, s.Entry member

/-- Every key once, with a string for the name and numbers in range for the metrics. -/
structure Complete (members : List (Text × Bytes)) : Prop where
  keys : (members.map Prod.fst).Perm Stock.keys
  name : ∀ v, (nameKey, v) ∈ members → ∃ t, StringText v t
  value : ∀ field v, (Field.name field, v) ∈ members →
    NumberText v ∧ ∃ x, readAll (readNumber aNumber) v = .ok x

variable {s : Stock} {members members' : List (Text × Bytes)} {key : Text} {v : Bytes}
  {field : Field}

theorem name_ne_nameKey (field : Field) : field.name ≠ nameKey := by
  have h : ∀ field ∈ Field.all, Field.name field ≠ nameKey := by decide
  exact h field field.mem_all

theorem keys_nodup : keys.Nodup := by decide

theorem mem_keys_iff : key ∈ keys ↔ key = nameKey ∨ ∃ field, Field.name field = key := by
  rw [keys, List.mem_cons, List.mem_map]
  exact or_congr_right ⟨fun ⟨field, _, h⟩ => ⟨field, h⟩, fun ⟨field, h⟩ => ⟨field, field.mem_all, h⟩⟩

theorem entry_name_iff : s.Entry (nameKey, v) ↔ StringText v s.name := by
  refine ⟨fun h => ?_, .name⟩
  generalize hmember : (nameKey, v) = member at h
  cases h with
  | name hv => exact (Prod.mk.inj hmember).2 ▸ hv
  | value => exact absurd (Prod.mk.inj hmember).1.symm (name_ne_nameKey _)

theorem entry_value_iff : s.Entry (field.name, v) ↔
    NumberText v ∧ readAll (readNumber aNumber) v = .ok (s.value field) := by
  refine ⟨fun h => ?_, fun ⟨hv, hx⟩ => .value hv hx⟩
  generalize hmember : (field.name, v) = member at h
  cases h with
  | name => exact absurd (Prod.mk.inj hmember).1 (name_ne_nameKey _)
  | value hv hx =>
    obtain ⟨hname, rfl⟩ := Prod.mk.inj hmember
    obtain rfl := Field.name_injective hname
    exact ⟨hv, hx⟩

theorem Entry.valueText {member : Text × Bytes} (h : s.Entry member) : ValueText member.2 := by
  cases h with
  | name hv => exact hv.valueText
  | value hv => exact .number hv

theorem Completes.perm (h : Completes members s) (hperm : members.Perm members') :
    Completes members' s :=
  ⟨(hperm.map Prod.fst).symm.trans h.keys, fun member hm => h.entries member (hperm.mem_iff.mpr hm)⟩

theorem exists_value (h : (members.map Prod.fst).Perm keys) (hkey : key ∈ keys) :
    ∃ v, (key, v) ∈ members := by
  obtain ⟨member, hmember, rfl⟩ := List.mem_map.mp (h.mem_iff.mpr hkey)
  exact ⟨member.2, hmember⟩

theorem exists_completes_iff : (∃ s, Completes members s) ↔ Complete members := by
  constructor
  · rintro ⟨s, h⟩
    refine ⟨h.keys, fun v hv => ⟨_, entry_name_iff.mp (h.entries _ hv)⟩, fun field v hv => ?_⟩
    obtain ⟨hnumber, hx⟩ := entry_value_iff.mp (h.entries _ hv)
    exact ⟨hnumber, _, hx⟩
  · intro h
    have hnodup : (members.map Prod.fst).Nodup := h.keys.nodup_iff.mpr keys_nodup
    have hunique {key : Text} {v v' : Bytes} (hv : (key, v) ∈ members) (hv' : (key, v') ∈ members) :
        v = v' := (Prod.mk.inj (List.inj_on_of_nodup_map hnodup hv hv' rfl)).2
    obtain ⟨v, hv⟩ := exists_value h.keys (mem_keys_iff.mpr (.inl rfl))
    obtain ⟨t, ht⟩ := h.name v hv
    choose w hw using fun field : Field =>
      exists_value h.keys (mem_keys_iff.mpr (.inr ⟨field, rfl⟩))
    choose hnumber x hx using fun field => h.value field (w field) (hw field)
    refine ⟨ofValues t x, h.keys, fun ⟨key, v'⟩ hmember => ?_⟩
    have hkey : key ∈ keys := h.keys.mem_iff.mp (List.mem_map_of_mem hmember)
    rcases mem_keys_iff.mp hkey with rfl | ⟨field, rfl⟩
    · rw [hunique hmember hv]
      exact .name ht
    · rw [hunique hmember (hw field)]
      exact .value (hnumber field) (by rw [value_ofValues]; exact hx field)

end Stock

namespace PartialStock

def keys (p : PartialStock) : List Text :=
  (p.name.map fun _ => Stock.nameKey).toList ++ p.values.map fun entry => entry.1.name

inductive Step : PartialStock → Text × Bytes → PartialStock → Prop where
  | name {p : PartialStock} {v : Bytes} {t : Text} (hnew : p.name = none) (hv : StringText v t) :
    Step p (Stock.nameKey, v) { p with name := some t }
  | value {p : PartialStock} {field : Field} {v : Bytes} {x : Binary64}
    (hnew : p.values.lookup field = none) (hv : NumberText v)
    (hx : readAll (readNumber aNumber) v = .ok x) :
    Step p (field.name, v) { p with values := (field, x) :: p.values }

structure Agrees (p : PartialStock) (s : Stock) : Prop where
  name : ∀ t, p.name = some t → t = s.name
  value : ∀ field x, p.values.lookup field = some x → x = s.value field

variable {p p' : PartialStock} {s : Stock} {entry : Text × Bytes} {members : List (Text × Bytes)}

theorem lookup_eq_none_iff {values : List (Field × Binary64)} {field : Field} :
    values.lookup field = none ↔ field.name ∉ values.map fun entry => entry.1.name := by
  rw [List.lookup_eq_none_iff]
  simp only [List.mem_map, not_exists, not_and, bne_iff_ne, Prod.forall]
  exact ⟨fun h g x hg hname => h g x hg (Field.name_injective hname).symm,
    fun h g x hg heq => h g x hg (congrArg Field.name heq.symm)⟩

theorem nameKey_mem_keys : Stock.nameKey ∈ p.keys ↔ p.name.isSome = true := by
  have hvalues : Stock.nameKey ∉ p.values.map fun entry => entry.1.name := by
    intro h
    obtain ⟨entry, -, hentry⟩ := List.mem_map.mp h
    exact Stock.name_ne_nameKey entry.1 hentry
  rw [keys, List.mem_append, or_iff_left hvalues]
  cases p.name <;> simp

theorem name_mem_keys {field : Field} :
    field.name ∈ p.keys ↔ (p.values.lookup field).isSome = true := by
  have hname : field.name ∉ (p.name.map fun _ => Stock.nameKey).toList := by
    cases p.name <;> simp [Stock.name_ne_nameKey]
  rw [keys, List.mem_append, or_iff_right hname, ← not_iff_not, ← lookup_eq_none_iff]
  cases p.values.lookup field <;> simp

theorem keys_subset : p.keys ⊆ Stock.keys := by
  intro key hkey
  rw [Stock.mem_keys_iff]
  rcases List.mem_append.mp hkey with hname | hvalue
  · cases hp : p.name with
    | none => simp [hp] at hname
    | some t => exact .inl (by simpa [hp] using hname)
  · obtain ⟨entry, -, rfl⟩ := List.mem_map.mp hvalue
    exact .inr ⟨entry.1, rfl⟩

theorem Step.new (h : Step p entry p') : entry.1 ∉ p.keys := by
  cases h with
  | name hnew => simp [nameKey_mem_keys, hnew]
  | value hnew => simp [name_mem_keys, hnew]

theorem Step.keys_perm (h : Step p entry p') : p'.keys.Perm (entry.1 :: p.keys) := by
  cases h with
  | name hnew =>
    simp only [keys, hnew]
    exact .refl _
  | value => exact List.perm_middle

theorem chain_keys (h : Chain Step p members p') :
    p'.keys.Perm (members.map Prod.fst ++ p.keys) := by
  induction h with
  | nil => exact .refl _
  | @cons p p₁ p' member members hstep _ ih =>
    have hkeys := ih.trans (hstep.keys_perm.append_left (members.map Prod.fst))
    exact hkeys.trans List.perm_middle

theorem chain_nodup (h : Chain Step p members p') (hp : p.keys.Nodup) : p'.keys.Nodup := by
  induction h with
  | nil => exact hp
  | cons hstep _ ih =>
    exact ih (hstep.keys_perm.nodup_iff.mpr (List.nodup_cons.mpr ⟨hstep.new, hp⟩))

theorem Step.agrees_iff (h : Step p entry p') : p'.Agrees s ↔ p.Agrees s ∧ s.Entry entry := by
  cases h with
  | @name v t hnew hv =>
    constructor
    · rintro ⟨hname, hvalue⟩
      refine ⟨⟨fun t' ht' => ?_, hvalue⟩, .name (hname t rfl ▸ hv)⟩
      rw [hnew] at ht'
      cases ht'
    · rintro ⟨⟨hname, hvalue⟩, hentry⟩
      refine ⟨fun t' ht' => ?_, hvalue⟩
      obtain rfl := Option.some.inj ht'
      exact hv.unique (Stock.entry_name_iff.mp hentry)
  | @value field v x hnew hv hx =>
    constructor
    · rintro ⟨hname, hvalue⟩
      have hx' : x = s.value field := hvalue field x (by rw [List.lookup_cons_self])
      refine ⟨⟨hname, fun g y hg => hvalue g y ?_⟩, .value hv (hx' ▸ hx)⟩
      have hne : g ≠ field := by
        rintro rfl
        rw [hnew] at hg
        cases hg
      rwa [List.lookup_cons, beq_false_of_ne hne]
    · rintro ⟨⟨hname, hvalue⟩, hentry⟩
      refine ⟨hname, fun g y hg => ?_⟩
      rw [List.lookup_cons] at hg
      by_cases hgf : g = field
      · subst hgf
        rw [beq_self_eq_true] at hg
        obtain rfl := Option.some.inj hg
        exact Except.ok.inj (hx.symm.trans (Stock.entry_value_iff.mp hentry).2)
      · rw [beq_false_of_ne hgf] at hg
        exact hvalue g y hg

theorem chain_agrees_iff (h : Chain Step p members p') :
    p'.Agrees s ↔ p.Agrees s ∧ ∀ member ∈ members, s.Entry member := by
  induction h with
  | nil => simp
  | cons hstep _ ih =>
    rw [ih, hstep.agrees_iff, List.forall_mem_cons, and_assoc]

theorem exists_step (hentry : s.Entry entry) (hnew : entry.1 ∉ p.keys) :
    ∃ p', Step p entry p' := by
  cases hentry with
  | name hv =>
    rw [nameKey_mem_keys, Bool.not_eq_true, Option.isSome_eq_false_iff, Option.isNone_iff_eq_none]
      at hnew
    exact ⟨_, .name hnew hv⟩
  | value hv hx =>
    rw [name_mem_keys, Bool.not_eq_true, Option.isSome_eq_false_iff, Option.isNone_iff_eq_none]
      at hnew
    exact ⟨_, .value hnew hv hx⟩

theorem exists_chain (hentries : ∀ member ∈ members, s.Entry member)
    (hnew : (members.map Prod.fst ++ p.keys).Nodup) : ∃ p', Chain Step p members p' := by
  induction members generalizing p with
  | nil => exact ⟨p, .nil p⟩
  | cons member members ih =>
    obtain ⟨hentry, hentries⟩ := List.forall_mem_cons.mp hentries
    obtain ⟨hmember, hrest⟩ := List.nodup_cons.mp hnew
    obtain ⟨p₁, hstep⟩ := exists_step hentry fun h => hmember (List.mem_append_right _ h)
    have hperm : (members.map Prod.fst ++ p₁.keys).Perm
        (member.1 :: (members.map Prod.fst ++ p.keys)) :=
      (hstep.keys_perm.append_left _).trans List.perm_middle
    obtain ⟨p', hchain⟩ := ih hentries (hperm.nodup_iff.mpr hnew)
    exact ⟨p', .cons hstep hchain⟩

theorem complete_eq_ok_iff :
    p.complete = .ok s ↔ (∀ key ∈ Stock.keys, key ∈ p.keys) ∧ p.Agrees s := by
  have hkeys : (∀ key ∈ Stock.keys, key ∈ p.keys) ↔
      p.name.isSome = true ∧ ∀ field, (p.values.lookup field).isSome = true := by
    simp only [Stock.keys, List.forall_mem_cons, List.forall_mem_map, nameKey_mem_keys,
      name_mem_keys]
    exact and_congr_right' ⟨fun h field => h field field.mem_all, fun h field _ => h field⟩
  rw [hkeys, complete]
  constructor
  · intro h
    split at h
    · cases h
    · next t hname =>
      split at h
      · cases h
      · next hfields =>
        obtain rfl := Except.ok.inj h
        have hsome : ∀ field, (p.values.lookup field).isSome = true := by
          intro field
          have hfield := List.find?_eq_none.mp hfields field field.mem_all
          simpa [Option.isSome_iff_ne_none] using hfield
        refine ⟨⟨by rw [hname]; rfl, hsome⟩, fun t' ht' => ?_, fun field x hx => ?_⟩
        · exact Option.some.inj (ht'.symm.trans hname)
        · rw [Stock.value_ofValues, hx]
          rfl
  · rintro ⟨⟨hname, hvalues⟩, hagrees⟩
    obtain ⟨t, ht⟩ := Option.isSome_iff_exists.mp hname
    obtain rfl := hagrees.name t ht
    have hfields : (Field.all.find? fun field => (p.values.lookup field).isNone) = none := by
      refine List.find?_eq_none.mpr fun field _ => ?_
      simpa [Option.isSome_iff_ne_none] using hvalues field
    simp only [ht, hfields]
    refine congrArg Except.ok (Stock.eq_of_values rfl fun field => ?_)
    obtain ⟨x, hx⟩ := Option.isSome_iff_exists.mp (hvalues field)
    rw [Stock.value_ofValues, hx, hagrees.value field x hx]
    rfl

theorem takes_member : Takes member Step := by
  intro p key bytes p' rest h
  rw [member] at h
  split at h
  · next hkey =>
    subst hkey
    split at h
    · cases h
    · next hnew =>
      obtain ⟨⟨t, after⟩, hvalue, heq⟩ := bind_eq_ok_iff.mp h
      obtain ⟨rfl, rfl⟩ := Prod.mk.inj (Except.ok.inj heq)
      obtain ⟨b, bytes', hb, rfl, hread⟩ := exists_of_memberValue hvalue
      obtain ⟨c, v, hc, hv, rfl⟩ := readText_eq_ok_iff.mp hread
      have hnew : p.name = none := Option.not_isSome_iff_eq_none.mp hnew
      exact ⟨b, c, v, hb, hc, .name hnew hv, rfl⟩
  · split at h
    · cases h
    · next field hfield =>
      obtain rfl := Field.named?_eq_some_iff.mp hfield
      split at h
      · cases h
      · next hnew =>
        obtain ⟨⟨x, after⟩, hvalue, heq⟩ := bind_eq_ok_iff.mp h
        obtain ⟨rfl, rfl⟩ := Prod.mk.inj (Except.ok.inj heq)
        obtain ⟨b, bytes', hb, rfl, hread⟩ := exists_of_memberValue hvalue
        obtain ⟨c, v, hc, hv, rfl, hreads⟩ := exists_of_readNumber hread
        have hnew : p.values.lookup field = none := Option.not_isSome_iff_eq_none.mp hnew
        exact ⟨b, c, v, hb, hc, .value hnew hv hreads.readAll, rfl⟩

theorem makes_member : Makes member Step := by
  intro p key v p' h b c rest hb hc hrest
  cases h with
  | name hnew hv =>
    have hread : readText aText (c ++ (v ++ rest)) = .ok (_, rest) :=
      readText_eq_ok_iff.mpr ⟨c, v, hc, hv, rfl⟩
    rw [member, if_pos rfl, hnew, if_neg (by decide), memberValue_append _ hb]
    simp only [hread]
    rfl
  | value hnew hv hx =>
    rw [member_field hnew, memberValue_append _ hb, readNumber_blanks hc,
      hv.readsAs hx rest hrest]
    rfl

end PartialStock

namespace Stock

variable {s : Stock} {members members' : List (Text × Bytes)} {bytes bytes' : Bytes}

theorem completes_iff_chain : Completes members s ↔
    ∃ p, Chain PartialStock.Step ⟨none, []⟩ members p ∧ p.complete = .ok s := by
  have hnone : PartialStock.Agrees ⟨none, []⟩ s :=
    ⟨fun t ht => (by cases ht), fun field x hx => (by cases hx)⟩
  constructor
  · intro h
    have hnew : (members.map Prod.fst ++ PartialStock.keys ⟨none, []⟩).Nodup := by
      rw [PartialStock.keys, Option.map_none, Option.toList_none, List.map_nil, List.append_nil,
        List.append_nil]
      exact h.keys.nodup_iff.mpr keys_nodup
    obtain ⟨p, hchain⟩ := PartialStock.exists_chain h.entries hnew
    refine ⟨p, hchain, PartialStock.complete_eq_ok_iff.mpr ⟨fun key hkey => ?_, ?_⟩⟩
    · have hmember := h.keys.mem_iff.mpr hkey
      exact (PartialStock.chain_keys hchain).mem_iff.mpr (List.mem_append_left _ hmember)
    · exact (PartialStock.chain_agrees_iff hchain).mpr ⟨hnone, h.entries⟩
  · rintro ⟨p, hchain, hcomplete⟩
    obtain ⟨hkeys, hagrees⟩ := PartialStock.complete_eq_ok_iff.mp hcomplete
    have hperm : p.keys.Perm (members.map Prod.fst) := by
      have h := PartialStock.chain_keys hchain
      rwa [PartialStock.keys.eq_def ⟨none, []⟩, Option.map_none, Option.toList_none, List.map_nil,
        List.append_nil, List.append_nil] at h
    have hnodup : p.keys.Nodup := PartialStock.chain_nodup hchain List.nodup_nil
    have hall : p.keys.Perm Stock.keys := (List.perm_ext_iff_of_nodup hnodup keys_nodup).mpr
      fun key => ⟨fun h => PartialStock.keys_subset h, hkeys key⟩
    exact ⟨hperm.symm.trans hall, ((PartialStock.chain_agrees_iff hchain).mp hagrees).2⟩

theorem exists_of_fromDocument {rest : Bytes} (h : fromDocument bytes = .ok (s, rest)) :
    ∃ a members object, Blanks a ∧ ObjectText members object ∧ Completes members s ∧
      bytes = a ++ (object ++ rest) := by
  rw [fromDocument] at h
  split at h
  · cases h
  · next b after hb =>
    obtain ⟨a, ha, -, rfl⟩ := exists_of_skipBlanks hb
    split at h
    · next hopen =>
      obtain rfl : b = 0x7B := isByte_iff.mp hopen
      obtain ⟨⟨p, after'⟩, hmembers, h⟩ := bind_eq_ok_iff.mp h
      obtain ⟨s', hcomplete, heq⟩ := bind_eq_ok_iff.mp h
      obtain ⟨rfl, rfl⟩ := Prod.mk.inj (Except.ok.inj heq)
      obtain ⟨members, inner, hobject, hchain, rfl⟩ :=
        readMembers_sound PartialStock.takes_member hmembers
      exact ⟨a, members, _, ha, hobject, completes_iff_chain.mpr ⟨p, hchain, hcomplete⟩, rfl⟩
    · cases h

theorem fromDocument_blanks {a : Bytes} (ha : Blanks a) :
    fromDocument (a ++ bytes) = fromDocument bytes := by
  rw [fromDocument, fromDocument, skipBlanks_append ha]

theorem Completes.readAll_eq (h : Completes members s) (hdocument : ObjectDocument members bytes) :
    readAll fromDocument bytes = .ok s := by
  obtain ⟨p, hchain, hcomplete⟩ := completes_iff_chain.mp h
  cases hdocument with
  | @mk a object b ha hobject _ hb =>
    have hgives := readsMembers.gives hobject (hchain.folds PartialStock.makes_member)
    have hread : fromDocument (a ++ (object ++ b)) = .ok (s, b) := by
      rw [fromDocument_blanks ha, hgives.reads b hb.ends, hcomplete]
      rfl
    exact readAll_eq_ok hread hb

theorem exists_of_readAll (h : readAll fromDocument bytes = .ok s) :
    ∃ members, ObjectDocument members bytes ∧ Completes members s := by
  obtain ⟨b, hread, hb⟩ := readAll_eq_ok_iff.mp h
  obtain ⟨a, members, object, ha, hobject, hcompletes, rfl⟩ := exists_of_fromDocument hread
  have hvalues : ∀ member ∈ members, ValueText member.2 :=
    fun member hm => (hcompletes.entries member hm).valueText
  exact ⟨members, .mk ha hobject hvalues hb, hcompletes⟩

theorem readAll_eq_ok_iff_completes (hdocument : ObjectDocument members bytes) :
    readAll fromDocument bytes = .ok s ↔ Completes members s := by
  refine ⟨fun h => ?_, fun h => h.readAll_eq hdocument⟩
  obtain ⟨members', hdocument', h⟩ := exists_of_readAll h
  rwa [hdocument.unique hdocument']

section Written

def entries (s : Stock) : List (Text × Json) :=
  (nameKey, .string s.name) :: Field.all.map fun field => (field.name, .number (s.value field))

def written (entry : Text × Json) : Text × Bytes := (entry.1, Utf8.encode entry.2.compact)

theorem document_eq (s : Stock) : s.document = .object s.entries := rfl

theorem exists_completes_written (hs : s.IsFinite) :
    ∃ s', s.RereadAs s' ∧ Completes (s.entries.map written) s' := by
  choose y hy hnumber hread using fun field => exists_numberText aNumber (hs field)
  refine ⟨ofValues s.name y, ⟨rfl, fun field => ?_⟩, ?_, ?_⟩
  · rw [value_ofValues]
    exact hy field
  · rw [entries, List.map_cons, List.map_cons, List.map_map, List.map_map]
    exact .refl _
  · rw [entries, List.map_cons, List.forall_mem_cons, List.map_map, List.forall_mem_map]
    refine ⟨.name (stringText_compact s.name), fun field _ => .value (hnumber field) ?_⟩
    rw [value_ofValues]
    exact hread field

variable {entries : List (Text × Json)}

theorem valueText_written {entry : Text × Json} (h : entry ∈ s.entries) :
    ValueText (written entry).2 := by
  rcases List.mem_cons.mp h with rfl | h
  · exact (stringText_compact s.name).valueText
  · obtain ⟨field, -, rfl⟩ := List.mem_map.mp h
    by_cases hfinite : (s.value field).isFinite = true
    · obtain ⟨-, -, hnumber, -⟩ := exists_numberText aNumber hfinite
      exact .number hnumber
    · rw [written, compact, numberText_of_not_finite hfinite]
      exact .word (by decide)

theorem objectDocument_written (hentries : entries.Perm s.entries) :
    ObjectDocument (entries.map written) (Utf8.encode (Json.object entries).compact) :=
  objectDocument_compact fun _ hentry => valueText_written (hentries.mem_iff.mp hentry)

theorem exists_readAll_written (hs : s.IsFinite) (hentries : entries.Perm s.entries) :
    ∃ s', readAll fromDocument (Utf8.encode (Json.object entries).compact) = .ok s' ∧
      s.RereadAs s' := by
  obtain ⟨s', hreread, hcompletes⟩ := exists_completes_written hs
  have hcompletes' := hcompletes.perm (hentries.map written).symm
  exact ⟨s', hcompletes'.readAll_eq (objectDocument_written hentries), hreread⟩

end Written

section Acceptance

theorem exists_error (h : ∀ members, ¬ObjectDocument members bytes) :
    ∃ e, readAll fromDocument bytes = .error e := by
  cases hread : readAll fromDocument bytes with
  | error e => exact ⟨e, rfl⟩
  | ok s =>
    obtain ⟨members, hdocument, -⟩ := exists_of_readAll hread
    exact absurd hdocument (h members)

theorem not_objectDocument {a v b : Bytes} (ha : Blanks a) (hv : ValueText v)
    (hopen : v.head? ≠ some 0x7B) : ¬ObjectDocument members (a ++ (v ++ b)) := by
  obtain ⟨c, w, rfl, hc⟩ := hv.exists_cons
  intro h
  exact hopen (congrArg some (h.head ha hc))

/-- A document is read as a stock when it is an object with the name and every metric once and
nothing else, each of its kind. The order of the entries makes no difference. -/
theorem fromDocument_accepts :
    (∀ members bytes, ObjectDocument members bytes →
      ((∃ s, readAll fromDocument bytes = .ok s) ↔ Complete members) ∧
        ∀ s, readAll fromDocument bytes = .ok s ↔ Completes members s) ∧
    (∀ members members' bytes bytes', members.Perm members' → ObjectDocument members bytes →
      ObjectDocument members' bytes' →
        ∀ s, readAll fromDocument bytes = .ok s ↔ readAll fromDocument bytes' = .ok s) ∧
    (∀ bytes, (∀ members, ¬ObjectDocument members bytes) →
      ∃ e, readAll fromDocument bytes = .error e) ∧
    (∀ a v b, Blanks a → ValueText v → v.head? ≠ some 0x7B →
      ∃ e, readAll fromDocument (a ++ (v ++ b)) = .error e) ∧
    ∀ s : Stock, s.document = .object s.entries ∧
      ∀ entries : List (Text × Json), s.IsFinite → entries.Perm s.entries →
        ∃ s', readAll fromDocument (Utf8.encode (Json.object entries).compact) = .ok s' ∧
          s'.name = s.name := by
  refine ⟨fun members bytes hdocument => ⟨?_, fun s => readAll_eq_ok_iff_completes hdocument⟩,
    fun members members' bytes bytes' hperm hdocument hdocument' s => ?_,
    fun bytes h => exists_error h,
    fun a v b ha hv hopen => exists_error fun _ => not_objectDocument ha hv hopen,
    fun s => ⟨document_eq s, fun entries hs hentries => ?_⟩⟩
  · rw [← exists_completes_iff]
    exact exists_congr fun s => readAll_eq_ok_iff_completes hdocument
  · rw [readAll_eq_ok_iff_completes hdocument, readAll_eq_ok_iff_completes hdocument']
    exact ⟨fun h => h.perm hperm, fun h => h.perm hperm.symm⟩
  · obtain ⟨s', hread, hreread⟩ := exists_readAll_written hs hentries
    exact ⟨s', hread, hreread.name⟩

theorem fromDocument_accepts_reversed :
    let reversed := oddStock.entries.reverse
    let bytes := Utf8.encode (Json.object reversed).compact
    let nothing := Utf8.encode "null".toList
    oddStock.IsFinite ∧ reversed.Perm oddStock.entries ∧
      ObjectDocument (reversed.map written) bytes ∧ Complete (reversed.map written) ∧
      (∃ s, readAll fromDocument bytes = .ok s ∧ s.name = oddStock.name ∧
        readAll fromDocument (Utf8.encode oddStock.document.compact) = .ok s) ∧
      ValueText nothing ∧ nothing.head? ≠ some 0x7B ∧
      ∃ e, readAll fromDocument nothing = .error e := by
  intro reversed bytes nothing
  obtain ⟨hcomplete, hperm, -, hother, hwritten⟩ := fromDocument_accepts
  have hreversed : reversed.Perm oddStock.entries := List.reverse_perm _
  have hdocument := objectDocument_written hreversed
  have hdocument' := objectDocument_written (.refl oddStock.entries)
  obtain ⟨s, hread, hname⟩ := (hwritten oddStock).2 reversed oddStock_isFinite hreversed
  have hnothing : ValueText nothing := .word (by decide)
  have hopen : nothing.head? ≠ some 0x7B := by decide
  have hread' := (hperm _ _ _ _ (hreversed.map written) hdocument hdocument' s).mp hread
  refine ⟨oddStock_isFinite, hreversed, hdocument, (hcomplete _ _ hdocument).1.mp ⟨s, hread⟩,
    ⟨s, hread, hname, hread'⟩, hnothing, hopen, ?_⟩
  have herror := hother [] nothing [] blanks_nil hnothing hopen
  rwa [List.append_nil, List.nil_append] at herror

end Acceptance

end Stock

end StockScreen
