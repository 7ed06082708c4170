import Mathlib.Data.List.Forall2
import StockScreen.Proofs.Json.Members
import StockScreen.Proofs.Text.Pieces

namespace StockScreen.Json

open Utf8 (Bytes)

section Items

variable {α : Type} {read : Reader α} {a b v rest : Bytes}

inductive ItemsText : List Bytes → Bytes → Prop where
  | one {a v b : Bytes} (ha : Blanks a) (hb : Blanks b) : ItemsText [v] (a ++ (v ++ b))
  | cons {a v b rest : Bytes} {vs : List Bytes} (ha : Blanks a) (hb : Blanks b)
    (hrest : ItemsText vs rest) : ItemsText (v :: vs) (a ++ (v ++ (b ++ 0x2C :: rest)))

inductive ArrayText : List Bytes → Bytes → Prop where
  | empty {a : Bytes} (ha : Blanks a) : ArrayText [] (0x5B :: (a ++ [0x5D]))
  | items {vs : List Bytes} {inner : Bytes} (h : ItemsText vs inner) :
    ArrayText vs (0x5B :: (inner ++ [0x5D]))

structure Gives (read : Reader α) (v : Bytes) (r : Except ReadError α) : Prop where
  begins : ∃ first tail, v = first :: tail ∧ isBlank first = false ∧ isByte ']' first = false
  reads : ∀ rest, Ends rest → read (v ++ rest) = r.map (·, rest)

theorem nextItem_value {isFirst : Bool} {lead : Bytes} {first : UInt8} (h : Leads isFirst lead)
    (ha : Blanks a) (hblank : isBlank first = false) (hclose : isByte ']' first = false) :
    nextItem isFirst (lead ++ (a ++ first :: rest)) = .ok (some (first :: rest)) := by
  cases h with
  | first =>
    rw [List.nil_append, nextItem, skipBlanks_append ha, skipBlanks_cons hblank]
    simp only [hclose]
    rfl
  | next hd =>
    rw [List.append_assoc, nextItem, skipBlanks_append hd, List.singleton_append,
      skipBlanks_cons rfl]
    simp only [skipBlanks_append ha, skipBlanks_cons hblank, hclose]
    rfl

theorem itemsLoop_close (fuel : Nat) (isFirst : Bool) (acc : List α) (ha : Blanks a) :
    itemsLoop read (fuel + 1) isFirst acc (a ++ 0x5D :: rest) = .ok (acc.reverse, rest) := by
  have hitem : nextItem isFirst (a ++ 0x5D :: rest) = .ok none := by
    rw [nextItem, skipBlanks_append ha, skipBlanks_cons rfl]
    rfl
  have hclose : closeArray (a ++ 0x5D :: rest) = .ok rest := expectMark_append ha rfl
  rw [itemsLoop, hitem]
  simp only [hclose]
  rfl

theorem itemsLoop_item {isFirst : Bool} {lead : Bytes} {r : Except ReadError α} (h : Gives read v r)
    (hlead : Leads isFirst lead) (ha : Blanks a) (hrest : Ends rest) (fuel : Nat) (acc : List α) :
    itemsLoop read (fuel + 1) isFirst acc (lead ++ (a ++ (v ++ rest))) =
      r.bind fun x => itemsLoop read fuel false (x :: acc) rest := by
  obtain ⟨first, tail, rfl, hblank, hclose⟩ := h.begins
  have hread := h.reads rest hrest
  rw [List.cons_append] at hread ⊢
  rw [itemsLoop, nextItem_value hlead ha hblank hclose]
  simp only [hread]
  cases r <;> rfl

theorem itemsLoop_text {vs : List Bytes} {rs : List (Except ReadError α)} {inner lead : Bytes}
    {isFirst : Bool} {fuel : Nat} (h : ItemsText vs inner) (hgives : List.Forall₂ (Gives read) vs rs)
    (hlead : Leads isFirst lead) (hfuel : vs.length < fuel) (acc : List α) (rest : Bytes) :
    itemsLoop read fuel isFirst acc (lead ++ (inner ++ 0x5D :: rest)) =
      (rs.mapM id).map fun xs => (acc.reverse ++ xs, rest) := by
  -- A step leaves the blanks after its item, and they lead the next one.
  induction h generalizing isFirst lead rs acc fuel with
  | @one a v b ha hb =>
    obtain ⟨fuel, rfl⟩ : ∃ n, fuel = n + 2 := Nat.exists_eq_add_of_le' hfuel
    cases hgives with
    | @cons _ r _ _ hr hnone =>
      cases hnone
      have hends : Ends (b ++ 0x5D :: rest) := .blanks hb (.cons (by decide) rest)
      rw [List.append_assoc, List.append_assoc, itemsLoop_item hr hlead ha hends]
      cases r with
      | error e => rfl
      | ok x =>
        rw [Except.bind, itemsLoop_close fuel false _ hb, List.reverse_cons]
        rfl
  | @cons a v b inner vs ha hb _ ih =>
    obtain ⟨fuel, rfl⟩ : ∃ n, fuel = n + 1 := Nat.exists_eq_add_of_le' (Nat.one_le_of_lt hfuel)
    cases hgives with
    | @cons _ r _ rs hr hrs =>
      have hends : Ends (b ++ 0x2C :: (inner ++ 0x5D :: rest)) := .blanks hb (.cons (by decide) _)
      rw [List.append_assoc, List.append_assoc, List.append_assoc, List.cons_append,
        itemsLoop_item hr hlead ha hends, List.mapM_cons]
      cases r with
      | error e => rfl
      | ok x =>
        have hnext := ih hrs (.next hb) (Nat.lt_of_succ_lt_succ hfuel) (x :: acc)
        rw [List.append_assoc, List.singleton_append] at hnext
        rw [Except.bind, hnext]
        cases rs.mapM id <;> simp [bind, Except.bind, Except.map, pure, Except.pure]

theorem ItemsText.length_le {vs : List Bytes} {rs : List (Except ReadError α)} {inner : Bytes}
    (h : ItemsText vs inner) (hgives : List.Forall₂ (Gives read) vs rs) :
    vs.length ≤ inner.length := by
  induction h generalizing rs with
  | one =>
    cases hgives with
    | cons hr =>
      obtain ⟨first, tail, rfl, -⟩ := hr.begins
      simp only [List.length_append, List.length_cons, List.length_nil]
      omega
  | cons _ _ _ ih =>
    cases hgives with
    | cons hr hrs =>
      have hlen := ih hrs
      simp only [List.length_append, List.length_cons]
      omega

theorem readArray_text {vs : List Bytes} {rs : List (Except ReadError α)} {bytes : Bytes}
    (h : ArrayText vs bytes) (hgives : List.Forall₂ (Gives read) vs rs) (rest : Bytes) :
    readArray read (bytes ++ rest) = (rs.mapM id).map (·, rest) := by
  cases h with
  | empty ha =>
    cases hgives
    rw [readArray, List.cons_append, skipBlanks_cons rfl, List.append_assoc]
    exact itemsLoop_close _ true [] ha
  | items h =>
    have hlen := h.length_le hgives
    rw [readArray, List.cons_append, skipBlanks_cons rfl, List.append_assoc]
    refine (itemsLoop_text h hgives .first ?_ [] rest).trans ?_
    · simp only [List.length_append]
      omega
    · rfl

end Items

section Faults

variable {σ : Type} {read : σ → Text → Reader σ}

inductive Stops (read : σ → Text → Reader σ) : σ → List (Text × Bytes) → ReadError → Prop where
  | here {s : σ} {key : Text} {v : Bytes} {members : List (Text × Bytes)} {e : ReadError}
    (h : ∀ b c rest, Blanks b → Blanks c → Ends rest →
      read s key (b ++ 0x3A :: (c ++ (v ++ rest))) = .error e) : Stops read s ((key, v) :: members) e
  | later {s s' : σ} {key : Text} {v : Bytes} {members : List (Text × Bytes)} {e : ReadError}
    (h : ∀ b c rest, Blanks b → Blanks c → Ends rest →
      read s key (b ++ 0x3A :: (c ++ (v ++ rest))) = .ok (s', rest))
    (hmembers : Stops read s' members e) : Stops read s ((key, v) :: members) e

theorem membersLoop_fault {s : σ} {key : Text} {v bytes lead rest : Bytes} {isFirst : Bool}
    {e : ReadError} (h : MemberText (key, v) bytes) (hlead : Leads isFirst lead)
    (hread : ∀ b c rest, Blanks b → Blanks c → Ends rest →
      read s key (b ++ 0x3A :: (c ++ (v ++ rest))) = .error e) (hrest : Ends rest) (fuel : Nat) :
    membersLoop read (fuel + 1) isFirst s (lead ++ (bytes ++ rest)) = .error e := by
  cases h with
  | @mk key a spelled b c v d ha hs hb hc hd =>
    simp only [List.append_assoc, List.cons_append]
    rw [membersLoop, nextKey_quote hlead ha]
    simp only [readString_spelled hs, hread b c (d ++ rest) hb hc (hrest.blanks hd)]

theorem membersLoop_stops {members : List (Text × Bytes)} {inner lead : Bytes} {isFirst : Bool}
    {s : σ} {e : ReadError} {fuel : Nat} (h : MembersText members inner)
    (hstops : Stops read s members e) (hlead : Leads isFirst lead) (hfuel : members.length < fuel)
    (rest : Bytes) :
    membersLoop read fuel isFirst s (lead ++ (inner ++ 0x7D :: rest)) = .error e := by
  induction h generalizing isFirst lead s fuel with
  | one h =>
    obtain ⟨fuel, rfl⟩ : ∃ n, fuel = n + 2 := Nat.exists_eq_add_of_le' hfuel
    cases hstops with
    | here hread => exact membersLoop_fault h hlead hread (.cons (by decide) rest) (fuel + 1)
    | later _ hmembers => cases hmembers
  | @cons member members bytes inner h _ ih =>
    obtain ⟨fuel, rfl⟩ : ∃ n, fuel = n + 1 := Nat.exists_eq_add_of_le' (Nat.one_le_of_lt hfuel)
    have hends : Ends (0x2C :: (inner ++ 0x7D :: rest)) := .cons (by decide) _
    rw [List.append_assoc, List.cons_append]
    cases hstops with
    | here hread => exact membersLoop_fault h hlead hread hends fuel
    | later hread hmembers =>
      obtain ⟨d, hd, hloop⟩ := membersLoop_member h hlead hread hends fuel
      have hnext := ih hmembers (.next hd) (Nat.lt_of_succ_lt_succ hfuel)
      rw [hloop, ← hnext, List.append_assoc]
      rfl

theorem readMembers_stops {members : List (Text × Bytes)} {bytes : Bytes} {s : σ} {e : ReadError}
    (h : ObjectText members (0x7B :: bytes)) (hstops : Stops read s members e) (rest : Bytes) :
    readMembers read s (bytes ++ rest) = .error e := by
  cases h with
  | empty => cases hstops
  | members h =>
    rw [readMembers, List.append_assoc]
    refine membersLoop_stops h hstops .first ?_ rest
    have hlen := h.length_le
    simp only [List.length_append]
    omega

end Faults

section Compact

theorem encode_stringText (t : Text) :
    Utf8.encode (stringText t) = quote :: (Utf8.encode (t.flatMap escapeChar) ++ [quote]) := by
  rw [stringText, List.cons_append, Utf8.encode_cons, Utf8.encode_append]
  rfl

theorem itemsText_compact {items : List Json} (hne : items ≠ []) :
    ItemsText (items.map fun item => Utf8.encode item.compact)
      (Utf8.encode (Text.join [','] (compactItems items))) := by
  have hnone : Blanks [] := List.forall_mem_nil _
  have hcomma : Utf8.encode [','] = [0x2C] := by decide
  induction items with
  | nil => exact absurd rfl hne
  | cons item items ih =>
    cases items with
    | nil =>
      have h := ItemsText.one (v := Utf8.encode item.compact) hnone hnone
      rw [List.nil_append, List.append_nil] at h
      rw [compactItems, compactItems, Text.join_singleton]
      exact h
    | cons next items =>
      have hrest : compactItems (next :: items) ≠ [] := List.cons_ne_nil _ _
      have h := ItemsText.cons (v := Utf8.encode item.compact) hnone hnone (ih (List.cons_ne_nil _ _))
      rw [compactItems, Text.join_cons _ _ hrest, Utf8.encode_append _ ([','] ++ _),
        Utf8.encode_append [','], hcomma]
      exact h

theorem arrayText_compact (items : List Json) :
    ArrayText (items.map fun item => Utf8.encode item.compact)
      (Utf8.encode (Json.array items).compact) := by
  have hopen : String.utf8EncodeChar '[' = [0x5B] := by decide
  have hclose : Utf8.encode [']'] = [0x5D] := by decide
  rw [compact, List.cons_append, Utf8.encode_cons, Utf8.encode_append, hopen, hclose]
  by_cases hne : items = []
  · rw [hne]
    exact .empty (List.forall_mem_nil _)
  · exact .items (itemsText_compact hne)

theorem memberText_compact (key : Text) (value : Json) :
    MemberText (key, Utf8.encode value.compact)
      (Utf8.encode (stringText key ++ ':' :: value.compact)) := by
  have hnone : Blanks [] := List.forall_mem_nil _
  have hcolon : String.utf8EncodeChar ':' = [0x3A] := by decide
  have h := MemberText.mk (v := Utf8.encode value.compact) hnone (spells_escape key) hnone hnone hnone
  rw [Utf8.encode_append, Utf8.encode_cons, encode_stringText, hcolon]
  simpa using h

theorem membersText_compact {members : List (Text × Json)} (hne : members ≠ []) :
    MembersText (members.map fun (key, value) => (key, Utf8.encode value.compact))
      (Utf8.encode (Text.join [','] (compactMembers members))) := by
  have hcomma : Utf8.encode [','] = [0x2C] := by decide
  induction members with
  | nil => exact absurd rfl hne
  | cons member members ih =>
    obtain ⟨key, value⟩ := member
    cases members with
    | nil =>
      rw [compactMembers, compactMembers, Text.join_singleton]
      exact .one (memberText_compact key value)
    | cons next members =>
      have hrest : compactMembers (next :: members) ≠ [] := List.cons_ne_nil _ _
      have h := MembersText.cons (memberText_compact key value) (ih (List.cons_ne_nil _ _))
      rw [compactMembers, Text.join_cons _ _ hrest, Utf8.encode_append _ ([','] ++ _),
        Utf8.encode_append [','], hcomma]
      exact h

theorem objectText_compact (members : List (Text × Json)) :
    ObjectText (members.map fun (key, value) => (key, Utf8.encode value.compact))
      (Utf8.encode (Json.object members).compact) := by
  have hopen : String.utf8EncodeChar '\x7b' = [0x7B] := by decide
  have hclose : Utf8.encode ['\x7d'] = [0x7D] := by decide
  rw [compact, List.cons_append, Utf8.encode_cons, Utf8.encode_append, hopen, hclose]
  by_cases hne : members = []
  · rw [hne]
    exact .empty (List.forall_mem_nil _)
  · exact .members (membersText_compact hne)

end Compact

section Objects

variable {α σ : Type} {member : σ → Text → Reader σ} {complete : σ → Except ReadError α}
  {start s : σ} {read : Reader α} {members : List (Text × Bytes)} {bytes : Bytes} {e : ReadError}

def ReadsMembers (read : Reader α) (member : σ → Text → Reader σ) (start : σ)
    (complete : σ → Except ReadError α) : Prop :=
  ∀ bytes, read (0x7B :: bytes) =
    (readMembers member start bytes).bind fun (s, rest) => (complete s).map (·, rest)

theorem ObjectText.exists_cons (h : ObjectText members bytes) : ∃ inner, bytes = 0x7B :: inner := by
  cases h <;> exact ⟨_, rfl⟩

theorem ReadsMembers.gives (hread : ReadsMembers read member start complete)
    (h : ObjectText members bytes) (hfolds : Folds member start members s) :
    Gives read bytes (complete s) := by
  obtain ⟨inner, rfl⟩ := h.exists_cons
  refine ⟨⟨_, inner, rfl, rfl, rfl⟩, fun rest _ => ?_⟩
  rw [List.cons_append, hread, readMembers_object h hfolds rest]
  rfl

theorem ReadsMembers.gives_error (hread : ReadsMembers read member start complete)
    (h : ObjectText members bytes) (hstops : Stops member start members e) :
    Gives read bytes (.error e) := by
  obtain ⟨inner, rfl⟩ := h.exists_cons
  refine ⟨⟨_, inner, rfl, rfl, rfl⟩, fun rest _ => ?_⟩
  rw [List.cons_append, hread, readMembers_stops h hstops rest]
  rfl

end Objects

section Lists

variable {α β : Type} {read : Reader α} {document : β → Json} {xs : List β} {e : ReadError}
  {r : β → Except ReadError α} {good : β → Prop} {related : β → α → Prop}

theorem readAll_array (hgives : ∀ x ∈ xs, Gives read (Utf8.encode (document x).compact) (r x)) :
    readAll (readArray read) (Utf8.encode (Json.array (xs.map document)).compact) = xs.mapM r := by
  have htext := arrayText_compact (xs.map document)
  rw [List.map_map] at htext
  have hall : List.Forall₂ (Gives read)
      (xs.map ((fun item => Utf8.encode item.compact) ∘ document)) (xs.map r) :=
    List.forall₂_map_left_iff.mpr (List.forall₂_map_right_iff.mpr (List.forall₂_same.mpr hgives))
  have hread := readArray_text htext hall []
  rw [List.append_nil, List.mapM_map, Function.id_comp] at hread
  rw [readAll, hread]
  cases xs.mapM r <;> rfl

/-- What a value is read as that is related to the one written, or the fault of one that cannot be
read. -/
inductive Reread (good : Prop) (related : α → Prop) (e : ReadError) : Except ReadError α → Prop where
  | ok {x : α} (h : good) (hx : related x) : Reread good related e (.ok x)
  | error (h : ¬good) : Reread good related e (.error e)

theorem mapM_ok (hr : ∀ x ∈ xs, Reread (good x) (related x) e (r x)) (h : ∀ x ∈ xs, good x) :
    ∃ ys, xs.mapM r = .ok ys ∧ List.Forall₂ related xs ys := by
  induction xs with
  | nil => exact ⟨[], rfl, .nil⟩
  | cons x xs ih =>
    obtain ⟨hx, hxs⟩ := List.forall_mem_cons.mp hr
    obtain ⟨hgood, hgoods⟩ := List.forall_mem_cons.mp h
    obtain ⟨ys, hys, hrelated⟩ := ih hxs hgoods
    rw [List.mapM_cons, hys]
    generalize r x = result at hx
    cases hx with
    | ok _ hy => exact ⟨_, rfl, .cons hy hrelated⟩
    | error hbad => exact absurd hgood hbad

theorem mapM_error (hr : ∀ x ∈ xs, Reread (good x) (related x) e (r x)) (h : ∃ x ∈ xs, ¬good x) :
    xs.mapM r = .error e := by
  induction xs with
  | nil => simp at h
  | cons x xs ih =>
    obtain ⟨hx, hxs⟩ := List.forall_mem_cons.mp hr
    rw [List.mapM_cons]
    generalize r x = result at hx
    cases hx with
    | error => rfl
    | ok hgood =>
      obtain ⟨y, hy, hbad⟩ := h
      rcases List.mem_cons.mp hy with rfl | hy
      · exact absurd hgood hbad
      · rw [ih hxs ⟨y, hy, hbad⟩]
        rfl

end Lists

end StockScreen.Json
