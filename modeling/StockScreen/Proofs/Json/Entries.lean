import StockScreen.Proofs.Json.Items
import StockScreen.Proofs.Json.Wellformed

namespace StockScreen.Json

open Utf8 (Bytes)

section Steps

variable {σ : Type} {step : σ → Text × Bytes → σ → Prop} {read : σ → Text → Reader σ}
  {s s' : σ} {bytes rest : Bytes} {isFirst : Bool}

inductive Chain (step : σ → Text × Bytes → σ → Prop) : σ → List (Text × Bytes) → σ → Prop where
  | nil (s : σ) : Chain step s [] s
  | cons {s s' s'' : σ} {member : Text × Bytes} {members : List (Text × Bytes)}
    (h : step s member s') (hmembers : Chain step s' members s'') :
    Chain step s (member :: members) s''

theorem exists_of_memberValue {α : Type} {read : Reader α} {x : α}
    (h : memberValue read bytes = .ok (x, rest)) :
    ∃ b after, Blanks b ∧ bytes = b ++ 0x3A :: after ∧ read after = .ok (x, rest) := by
  rw [memberValue] at h
  split at h
  · cases h
  · next after hmark =>
    obtain ⟨b, hb, rfl⟩ := exists_of_expectMark hmark
    exact ⟨b, after, hb, rfl, h⟩

def Takes (read : σ → Text → Reader σ) (step : σ → Text × Bytes → σ → Prop) : Prop :=
  ∀ s key bytes s' rest, read s key bytes = .ok (s', rest) →
    ∃ b c v, Blanks b ∧ Blanks c ∧ step s (key, v) s' ∧ bytes = b ++ 0x3A :: (c ++ (v ++ rest))

theorem exists_of_nextKey_some (h : nextKey isFirst bytes = .ok (some rest)) :
    ∃ lead a, Leads isFirst lead ∧ Blanks a ∧ bytes = lead ++ (a ++ quote :: rest) := by
  rw [nextKey] at h
  split at h
  · cases h
  · next b rest' hb =>
    obtain ⟨d, hd, -, rfl⟩ := exists_of_skipBlanks hb
    split at h
    · cases h
    split at h
    · next hfirst =>
      split at h
      · next hquote =>
        cases h
        subst hfirst
        exact ⟨[], d, .first, hd, by rw [isByte_iff.mp hquote]; rfl⟩
      · cases h
    · next hfirst =>
      obtain rfl : isFirst = false := Bool.eq_false_iff.mpr hfirst
      split at h
      · next hcomma =>
        split at h
        · cases h
        · next c rest'' hc =>
          obtain ⟨a, ha, -, rfl⟩ := exists_of_skipBlanks hc
          split at h
          · next hquote =>
            cases h
            refine ⟨d ++ [0x2C], a, .next hd, ha, ?_⟩
            rw [isByte_iff.mp hcomma, isByte_iff.mp hquote, List.append_assoc]
            rfl
          · cases h
      · cases h

inductive Remainder (isFirst : Bool) : List (Text × Bytes) → Bytes → Prop where
  | close {a : Bytes} (ha : Blanks a) : Remainder isFirst [] (a ++ [0x7D])
  | members {members : List (Text × Bytes)} {lead inner : Bytes} (hlead : Leads isFirst lead)
    (h : MembersText members inner) : Remainder isFirst members (lead ++ (inner ++ [0x7D]))

theorem Remainder.member {key : Text} {a lead spelled b c v tail : Bytes}
    {members : List (Text × Bytes)} (h : Remainder false members tail) (hlead : Leads isFirst lead)
    (ha : Blanks a) (hs : Spells spelled key) (hb : Blanks b) (hc : Blanks c) :
    Remainder isFirst ((key, v) :: members)
      (lead ++ (a ++ quote :: (spelled ++ quote :: (b ++ 0x3A :: (c ++ (v ++ tail)))))) := by
  cases h with
  | close hd =>
    have htext := Remainder.members hlead (.one (.mk (v := v) ha hs hb hc hd))
    simpa only [List.append_assoc, List.cons_append] using htext
  | members hnext hrest =>
    cases hnext with
    | next hd =>
      have htext := Remainder.members hlead (.cons (.mk (v := v) ha hs hb hc hd) hrest)
      simpa only [List.append_assoc, List.cons_append, List.nil_append] using htext

theorem membersLoop_sound (htakes : Takes read step) {fuel : Nat}
    (h : membersLoop read fuel isFirst s bytes = .ok (s', rest)) :
    ∃ members tail, Remainder isFirst members tail ∧ Chain step s members s' ∧
      bytes = tail ++ rest := by
  induction fuel generalizing isFirst s bytes with
  | zero => cases h
  | succ fuel ih =>
    rw [membersLoop] at h
    split at h
    · cases h
    · next hkey =>
      obtain ⟨rest', hmark, heq⟩ := map_eq_ok_iff.mp h
      obtain ⟨rfl, rfl⟩ := Prod.mk.inj heq
      obtain ⟨a, ha, rfl⟩ := exists_of_expectMark hmark
      exact ⟨[], _, .close ha, .nil s, by rw [List.append_assoc]; rfl⟩
    · next hkey =>
      obtain ⟨lead, a, hlead, ha, rfl⟩ := exists_of_nextKey_some hkey
      split at h
      · cases h
      · next key after hstring =>
        obtain ⟨spelled, hs, rfl⟩ := readString_eq_ok_iff.mp hstring
        split at h
        · cases h
        · next next after' hread =>
          obtain ⟨b, c, v, hb, hc, hstep, rfl⟩ := htakes _ _ _ _ _ hread
          obtain ⟨members, tail, htail, hchain, rfl⟩ := ih h
          refine ⟨_, _, htail.member hlead ha hs hb hc, .cons hstep hchain, ?_⟩
          simp only [List.append_assoc, List.cons_append]

theorem readMembers_sound (htakes : Takes read step)
    (h : readMembers read s bytes = .ok (s', rest)) :
    ∃ members inner, ObjectText members (0x7B :: inner) ∧ Chain step s members s' ∧
      bytes = inner ++ rest := by
  obtain ⟨members, tail, htail, hchain, rfl⟩ := membersLoop_sound htakes h
  refine ⟨members, tail, ?_, hchain, rfl⟩
  cases htail with
  | close ha => exact .empty ha
  | members hlead hmembers =>
    cases hlead
    exact .members hmembers

def Makes (read : σ → Text → Reader σ) (step : σ → Text × Bytes → σ → Prop) : Prop :=
  ∀ s key v s', step s (key, v) s' → ∀ b c rest, Blanks b → Blanks c → Ends rest →
    read s key (b ++ 0x3A :: (c ++ (v ++ rest))) = .ok (s', rest)

theorem Chain.folds {members : List (Text × Bytes)} (hmakes : Makes read step)
    (h : Chain step s members s') : Folds read s members s' := by
  induction h with
  | nil s => exact .nil s
  | @cons s s' s'' member members h _ ih => exact .cons (hmakes s member.1 member.2 s' h) ih

end Steps

section Uniqueness

variable {a a' bytes bytes' inner inner' rest rest' v : Bytes} {b b' : UInt8} {key : Text}
  {member member' : Text × Bytes} {members members' : List (Text × Bytes)}

theorem Blanks.unique (ha : Blanks a) (ha' : Blanks a') (hb : isBlank b = false)
    (hb' : isBlank b' = false) (h : a ++ b :: rest = a' ++ b' :: rest') :
    a = a' ∧ b = b' ∧ rest = rest' := by
  have hskip := skipBlanks_append ha (b :: rest)
  rw [h, skipBlanks_append ha', skipBlanks_cons hb, skipBlanks_cons hb'] at hskip
  obtain ⟨rfl, rfl⟩ := List.cons.inj hskip
  exact ⟨List.append_cancel_right h, rfl, rfl⟩

theorem ValueText.exists_cons (hv : ValueText v) : ∃ b w, v = b :: w ∧ isBlank b = false := by
  cases hv with
  | word hw =>
    simp only [List.mem_cons, List.not_mem_nil, or_false] at hw
    rcases hw with rfl | rfl | rfl <;> exact ⟨_, _, rfl, rfl⟩
  | number hn =>
    cases hn with
    | mk hsign hwhole =>
      obtain ⟨d, ds, state, rfl, -, -, hbegin, -⟩ := hwhole.exists_state
      have hd : isBlank d = false := not_blank_of_begins (hbegin [] ▸ Option.some_ne_none _)
      rcases hsign with rfl | rfl
      · exact ⟨d, _, rfl, hd⟩
      · exact ⟨0x2D, _, rfl, rfl⟩
  | _ => exact ⟨_, _, rfl, rfl⟩

theorem ValueText.unique_after {c c' v' : Bytes} (hv : ValueText v) (hv' : ValueText v')
    (hc : Blanks c) (hc' : Blanks c') (hrest : Ends rest) (hrest' : Ends rest')
    (heq : c ++ (v ++ rest) = c' ++ (v' ++ rest')) : v = v' ∧ rest = rest' := by
  obtain ⟨y, w, rfl, hy⟩ := hv.exists_cons
  obtain ⟨y', w', rfl, hy'⟩ := hv'.exists_cons
  rw [List.cons_append, List.cons_append] at heq
  obtain ⟨-, rfl, hafter⟩ := hc.unique hc' hy hy' heq
  refine hv.unique hv' hrest hrest' ?_
  rw [List.cons_append, hafter, List.cons_append]

theorem MemberText.unique (h : MemberText member bytes) (h' : MemberText member' bytes')
    (hv : ValueText member.2) (hv' : ValueText member'.2) (hb : b ∈ [0x2C, 0x7D])
    (hb' : b' ∈ [0x2C, 0x7D]) (heq : bytes ++ b :: rest = bytes' ++ b' :: rest') :
    member = member' ∧ b = b' ∧ rest = rest' := by
  have hends {b : UInt8} (hb : b ∈ ([0x2C, 0x7D] : Bytes)) (rest : Bytes) : Ends (b :: rest) := by
    refine .cons ?_ rest
    simp only [List.mem_cons, List.not_mem_nil, or_false] at hb ⊢
    tauto
  have hblank : ∀ b ∈ ([0x2C, 0x7D] : Bytes), isBlank b = false := by decide
  cases h with
  | @mk key a s x c v d ha hs hx hc hd =>
    cases h' with
    | @mk key' a' s' x' c' v' d' ha' hs' hx' hc' hd' =>
      simp only [List.append_assoc, List.cons_append] at heq
      obtain ⟨-, -, heq⟩ := ha.unique ha' rfl rfl heq
      obtain ⟨rfl, heq⟩ := hs.unique hs' heq
      obtain ⟨-, -, heq⟩ := hx.unique hx' rfl rfl heq
      obtain ⟨hvalue, heq⟩ := hv.unique_after hv' hc hc' ((hends hb rest).blanks hd)
        ((hends hb' rest').blanks hd') heq
      obtain ⟨-, rfl, rfl⟩ := hd.unique hd' (hblank b hb) (hblank b' hb') heq
      exact ⟨congrArg (Prod.mk key) hvalue, rfl, rfl⟩

theorem MembersText.unique (h : MembersText members inner) (h' : MembersText members' inner')
    (hv : ∀ member ∈ members, ValueText member.2) (hv' : ∀ member ∈ members', ValueText member.2)
    (heq : inner ++ 0x7D :: rest = inner' ++ 0x7D :: rest') : members = members' := by
  induction h generalizing members' inner' with
  | @one member bytes h =>
    cases h' with
    | one h' =>
      obtain ⟨rfl, -⟩ := h.unique h' (hv _ List.mem_cons_self) (hv' _ List.mem_cons_self)
        (by decide) (by decide) heq
      rfl
    | cons h' =>
      rw [List.append_assoc] at heq
      obtain ⟨-, hcomma, -⟩ := h.unique h' (hv _ List.mem_cons_self) (hv' _ List.mem_cons_self)
        (by decide) (by decide) heq
      exact absurd hcomma (by decide)
  | @cons member members bytes inner h _ ih =>
    rw [List.append_assoc] at heq
    cases h' with
    | one h' =>
      obtain ⟨-, hcomma, -⟩ := h.unique h' (hv _ List.mem_cons_self) (hv' _ List.mem_cons_self)
        (by decide) (by decide) heq
      exact absurd hcomma (by decide)
    | cons h' hrest' =>
      rw [List.append_assoc] at heq
      obtain ⟨rfl, -, heq⟩ := h.unique h' (hv _ List.mem_cons_self) (hv' _ List.mem_cons_self)
        (by decide) (by decide) heq
      rw [ih hrest' (fun m hm => hv m (List.mem_cons_of_mem _ hm))
        (fun m hm => hv' m (List.mem_cons_of_mem _ hm)) heq]

theorem MembersText.not_close (h : MembersText members inner) (ha : Blanks a) :
    inner ++ rest ≠ a ++ 0x7D :: rest' := by
  have hmember {member : Text × Bytes} {bytes rest : Bytes} (h : MemberText member bytes) :
      bytes ++ rest ≠ a ++ 0x7D :: rest' := by
    cases h with
    | mk ha' =>
      intro heq
      rw [List.append_assoc, List.cons_append] at heq
      obtain ⟨-, hquote, -⟩ := ha'.unique ha rfl rfl heq
      exact absurd hquote (by decide)
  cases h with
  | one h => exact hmember h
  | cons h =>
    rw [List.append_assoc]
    exact hmember h

theorem ObjectText.unique (h : ObjectText members (0x7B :: inner))
    (h' : ObjectText members' (0x7B :: inner')) (hv : ∀ member ∈ members, ValueText member.2)
    (hv' : ∀ member ∈ members', ValueText member.2) (heq : inner ++ rest = inner' ++ rest') :
    members = members' := by
  cases h with
  | empty ha =>
    rw [List.append_assoc] at heq
    cases h' with
    | empty => rfl
    | members h' =>
      rw [List.append_assoc] at heq
      exact absurd heq.symm (h'.not_close ha)
  | members h =>
    rw [List.append_assoc] at heq
    cases h' with
    | empty ha =>
      rw [List.append_assoc] at heq
      exact absurd heq (h.not_close ha)
    | members h' =>
      rw [List.append_assoc] at heq
      exact h.unique h' hv hv' heq

end Uniqueness

section Documents

inductive ObjectDocument : List (Text × Bytes) → Bytes → Prop where
  | mk {members : List (Text × Bytes)} {a object b : Bytes} (ha : Blanks a)
    (h : ObjectText members object) (hvalues : ∀ member ∈ members, ValueText member.2)
    (hb : Blanks b) : ObjectDocument members (a ++ (object ++ b))

variable {members members' : List (Text × Bytes)} {bytes : Bytes}

theorem ObjectDocument.unique (h : ObjectDocument members bytes)
    (h' : ObjectDocument members' bytes) : members = members' := by
  generalize heq : bytes = bytes' at h'
  cases h with
  | mk ha h hv hb =>
    cases h' with
    | mk ha' h' hv' hb' =>
      obtain ⟨inner, rfl⟩ := h.exists_cons
      obtain ⟨inner', rfl⟩ := h'.exists_cons
      obtain ⟨-, -, heq⟩ := ha.unique ha' rfl rfl heq
      exact h.unique h' hv hv' heq

theorem ObjectDocument.head {a rest : Bytes} {b : UInt8} (ha : Blanks a) (hb : isBlank b = false)
    (h : ObjectDocument members (a ++ b :: rest)) : b = 0x7B := by
  generalize heq : a ++ b :: rest = bytes at h
  cases h with
  | mk ha' hobject =>
    obtain ⟨inner, rfl⟩ := hobject.exists_cons
    exact (ha.unique ha' hb rfl heq).2.1

theorem stringText_compact (t : Text) : StringText (Utf8.encode (Json.string t).compact) t := by
  rw [compact, encode_stringText]
  exact .mk (spells_escape t)

theorem objectDocument_compact {entries : List (Text × Json)}
    (hvalues : ∀ entry ∈ entries, ValueText (Utf8.encode entry.2.compact)) :
    ObjectDocument (entries.map fun (key, value) => (key, Utf8.encode value.compact))
      (Utf8.encode (Json.object entries).compact) := by
  have hdocument := ObjectDocument.mk blanks_nil (objectText_compact entries)
    (List.forall_mem_map.mpr hvalues) blanks_nil
  rwa [List.append_nil, List.nil_append] at hdocument

end Documents

end StockScreen.Json
