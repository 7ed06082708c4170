import StockScreen.Json.Value
import StockScreen.Proofs.Binary64.Tokens
import StockScreen.Proofs.Text.Pieces

namespace StockScreen.Json

inductive Place where
  | outside
  | inside
  | escaped
  deriving DecidableEq, Repr

def Place.next : Place → Char → Place
  | outside, c => if c = '"' then inside else outside
  | inside, c => if c = '"' then outside else if c = '\\' then escaped else inside
  | escaped, _ => inside

def whiteSpace : Text := [' ', '\t', '\n', '\r']

def squeezeFrom : Place → Text → Text
  | _, [] => []
  | place, c :: rest =>
    if place = .outside ∧ c ∈ whiteSpace then squeezeFrom place rest
    else c :: squeezeFrom (place.next c) rest

def squeeze (t : Text) : Text := squeezeFrom .outside t

section Parts

structure PassesUp (P : Json → Prop) : Prop where
  null : P .null
  bool : ∀ b, P (.bool b)
  number : ∀ x, P (.number x)
  count : ∀ n, P (.count n)
  string : ∀ t, P (.string t)
  array : ∀ items, (∀ item ∈ items, P item) → P (.array items)
  object : ∀ members, (∀ member ∈ members, P member.2) → P (.object members)

variable {P : Json → Prop}

mutual

theorem PassesUp.holds (h : PassesUp P) : (j : Json) → P j
  | .null => h.null
  | .bool b => h.bool b
  | .number x => h.number x
  | .count n => h.count n
  | .string t => h.string t
  | .array items => h.array items (h.holds_items items)
  | .object members => h.object members (h.holds_members members)

theorem PassesUp.holds_items (h : PassesUp P) : (items : List Json) → ∀ item ∈ items, P item
  | [] => List.forall_mem_nil _
  | item :: rest => List.forall_mem_cons.mpr ⟨h.holds item, h.holds_items rest⟩

theorem PassesUp.holds_members (h : PassesUp P) :
    (members : List (Text × Json)) → ∀ member ∈ members, P member.2
  | [] => List.forall_mem_nil _
  | (_, value) :: rest => List.forall_mem_cons.mpr ⟨h.holds value, h.holds_members rest⟩

end

end Parts

section Alphabets

def Plain (c : Char) : Prop := 0x20 ≤ c.toNat ∧ c ≠ '"' ∧ c ≠ '\\'

def Solid (c : Char) : Prop := 0x20 < c.toNat ∧ c ≠ '"'

instance (c : Char) : Decidable (Plain c) := inferInstanceAs (Decidable (_ ∧ _))

instance (c : Char) : Decidable (Solid c) := inferInstanceAs (Decidable (_ ∧ _))

inductive InString : Text → Prop where
  | plain {c : Char} (hc : Plain c) : InString [c]
  | escaped {c : Char} {rest : Text} (hc : 0x20 ≤ c.toNat) (hrest : ∀ d ∈ rest, Plain d) :
      InString ('\\' :: c :: rest)

theorem inString_escapeChar (c : Char) : InString (escapeChar c) := by
  have short {d : Char} (hd : 0x20 ≤ d.toNat) : InString ['\\', d] :=
    .escaped hd (List.forall_mem_nil _)
  have hcode : ∀ n < 0x20, ∀ d ∈ '0' :: '0' :: hexPair n, Plain d := by decide
  rw [escapeChar]
  split
  · exact short (by decide)
  · next hquote =>
    split
    · exact short (by decide)
    · next hbackslash =>
      iterate 5
        split
        · exact short (by decide)
      split
      · next hcontrol => exact .escaped (by decide) (hcode c.toNat hcontrol)
      · next hvisible => exact .plain ⟨Nat.le_of_not_lt hvisible, hquote, hbackslash⟩

theorem solid_null : ∀ c ∈ compact .null, Solid c := by decide

theorem solid_bool (b : Bool) : ∀ c ∈ compact (.bool b), Solid c := by cases b <;> decide

theorem solid_alphabet : ∀ c ∈ Literal.alphabet, Solid c := by decide

theorem solid_numberText (x : Binary64) : ∀ c ∈ numberText x, Solid c := by
  cases x with
  | nan => exact solid_null
  | signed negative m =>
    rw [numberText]
    split
    · exact solid_null
    · next hm =>
      have hne : m.rank ≠ infinityRank := fun h => hm (beq_iff_eq.mpr h)
      obtain ⟨whole, fraction, exponent, hs, -⟩ :=
        Binary64.spelled_document negative (lt_of_le_of_ne m.rank_le hne)
      exact fun c hc => solid_alphabet c (hs.mem_alphabet c hc)

theorem solid_ofNat (n : Nat) : ∀ c ∈ Text.ofNat n, Solid c :=
  fun c hc => solid_alphabet c (Literal.mem_alphabet_of_digits (Binary64.digits_ofNat n) c hc)

end Alphabets

section Squeezing

def Squeezes (t s : Text) : Prop :=
  ∀ rest, squeezeFrom .outside (t ++ rest) = s ++ squeezeFrom .outside rest

theorem Squeezes.append {t t' s s' : Text} (h : Squeezes t s) (h' : Squeezes t' s') :
    Squeezes (t ++ t') (s ++ s') := by
  intro rest
  rw [List.append_assoc, h, h', List.append_assoc]

theorem Squeezes.cons {c : Char} {t s : Text} (h : Squeezes [c] [c]) (h' : Squeezes t s) :
    Squeezes (c :: t) (c :: s) := h.append h'

theorem squeezes_white {t : Text} (ht : ∀ c ∈ t, c ∈ whiteSpace) : Squeezes t [] := by
  intro rest
  induction t with
  | nil => rfl
  | cons c t ih =>
    obtain ⟨hc, ht⟩ := List.forall_mem_cons.mp ht
    rw [List.cons_append, squeezeFrom, if_pos ⟨rfl, hc⟩]
    exact ih ht

theorem squeezes_solid {t : Text} (ht : ∀ c ∈ t, Solid c) : Squeezes t t := by
  have hwhite : ∀ c ∈ whiteSpace, ¬Solid c := by decide
  intro rest
  induction t with
  | nil => rfl
  | cons c t ih =>
    obtain ⟨hc, ht⟩ := List.forall_mem_cons.mp ht
    have hnext : Place.next .outside c = .outside := if_neg hc.2
    rw [List.cons_append, squeezeFrom, if_neg fun h => hwhite c h.2 hc, hnext, ih ht]
    rfl

theorem squeezeFrom_cons {place : Place} (h : place ≠ .outside) (c : Char) (rest : Text) :
    squeezeFrom place (c :: rest) = c :: squeezeFrom (place.next c) rest := by
  rw [squeezeFrom, if_neg fun hp => h hp.1]

theorem squeezeFrom_plain {t : Text} (ht : ∀ c ∈ t, Plain c) (rest : Text) :
    squeezeFrom .inside (t ++ rest) = t ++ squeezeFrom .inside rest := by
  induction t with
  | nil => rfl
  | cons c t ih =>
    obtain ⟨hc, ht⟩ := List.forall_mem_cons.mp ht
    have hnext : Place.next .inside c = .inside := by
      rw [Place.next, if_neg hc.2.1, if_neg hc.2.2]
    rw [List.cons_append, squeezeFrom_cons (by decide), hnext, ih ht]
    rfl

theorem squeezeFrom_inString {t : Text} (h : InString t) (rest : Text) :
    squeezeFrom .inside (t ++ rest) = t ++ squeezeFrom .inside rest := by
  cases h with
  | plain hc => exact squeezeFrom_plain (List.forall_mem_singleton.mpr hc) rest
  | @escaped c tail _ htail =>
    have hnext : Place.next .inside '\\' = .escaped := by decide
    have hafter : Place.next .escaped c = .inside := rfl
    rw [List.cons_append, List.cons_append, squeezeFrom_cons (by decide), hnext,
      squeezeFrom_cons (by decide), hafter, squeezeFrom_plain htail]
    rfl

theorem squeezes_stringText (t : Text) : Squeezes (stringText t) (stringText t) := by
  have hinside (rest : Text) : squeezeFrom .inside (t.flatMap escapeChar ++ '"' :: rest) =
      t.flatMap escapeChar ++ '"' :: squeezeFrom .outside rest := by
    induction t with
    | nil =>
      have hnext : Place.next .inside '"' = .outside := by decide
      rw [List.flatMap_nil, List.nil_append, squeezeFrom_cons (by decide), hnext]
      rfl
    | cons c t ih =>
      rw [List.flatMap_cons, List.append_assoc, squeezeFrom_inString (inString_escapeChar c), ih,
        List.append_assoc]
  intro rest
  have hquote : '"' ∉ whiteSpace := by decide
  have hnext : Place.next .outside '"' = .inside := by decide
  rw [stringText, List.cons_append, List.cons_append, List.append_assoc, squeezeFrom,
    if_neg fun h => hquote h.2, hnext, List.singleton_append, hinside, List.cons_append,
    List.append_assoc, List.singleton_append]

section Blocks

variable {α : Type} {f g : α → Text} {xs : List α}

theorem squeezes_join {sep sep' : Text} (hsep : Squeezes sep sep')
    (h : ∀ x ∈ xs, Squeezes (f x) (g x)) :
    Squeezes (Text.join sep (xs.map f)) (Text.join sep' (xs.map g)) := by
  induction xs with
  | nil => exact fun rest => rfl
  | cons x xs ih =>
    obtain ⟨hx, hxs⟩ := List.forall_mem_cons.mp h
    by_cases hne : xs = []
    · subst hne
      rw [List.map_singleton, List.map_singleton, Text.join_singleton, Text.join_singleton]
      exact hx
    · have hmap {k : α → Text} : xs.map k ≠ [] := fun he => hne (List.map_eq_nil_iff.mp he)
      rw [List.map_cons, List.map_cons, Text.join_cons _ _ hmap, Text.join_cons _ _ hmap]
      exact hx.append (hsep.append (ih hxs))

theorem squeezes_indentation (level : Nat) : Squeezes (indentation level) [] := by
  refine squeezes_white fun c hc => ?_
  rw [List.eq_of_mem_replicate hc]
  decide

theorem squeezes_block {first last : Char} (hfirst : Solid first) (hlast : Solid last)
    (level : Nat) (h : ∀ x ∈ xs, Squeezes (f x) (g x)) :
    Squeezes (block level first last (xs.map f))
      (first :: Text.join [','] (xs.map g) ++ [last]) := by
  have hopen : Squeezes [first] [first] := squeezes_solid (List.forall_mem_singleton.mpr hfirst)
  have hclose : Squeezes [last] [last] := squeezes_solid (List.forall_mem_singleton.mpr hlast)
  have hbreak : Squeezes ['\n'] [] := squeezes_white (by decide)
  cases xs with
  | nil => exact hopen.append hclose
  | cons x xs =>
    have hcomma : Squeezes [',', '\n'] [','] :=
      (squeezes_solid (t := [',']) (by decide)).append hbreak
    have hitems : ∀ y ∈ x :: xs, Squeezes (indentation (level + 1) ++ f y) (g y) :=
      fun y hy => (squeezes_indentation (level + 1)).append (h y hy)
    have hlines := squeezes_join hcomma hitems
    have hend := hbreak.append ((squeezes_indentation level).append hclose)
    rw [block, List.map_map, List.append_assoc]
    · exact hopen.cons (hbreak.append (hlines.append hend))
    · exact List.cons_ne_nil _ _

end Blocks

theorem squeezes_prettyAt :
    PassesUp fun j => ∀ level, Squeezes (prettyAt level j) j.compact := by
  refine ⟨?null, ?bool, ?number, ?count, ?string, ?array, ?object⟩
  case null => exact fun level => squeezes_solid solid_null
  case bool => exact fun b level => squeezes_solid (solid_bool b)
  case number => exact fun x level => squeezes_solid (solid_numberText x)
  case count => exact fun n level => squeezes_solid (solid_ofNat n)
  case string => exact fun t level => squeezes_stringText t
  case array =>
    intro items ih level
    rw [prettyAt, prettyItems_eq_map, compact, compactItems_eq_map]
    exact squeezes_block (by decide) (by decide) level fun item hitem => ih item hitem (level + 1)
  case object =>
    intro members ih level
    have hcolon : Squeezes [':', ' '] [':'] :=
      (squeezes_solid (t := [':']) (by decide)).append (squeezes_white (t := [' ']) (by decide))
    rw [prettyAt, prettyMembers_eq_map, compact, compactMembers_eq_map]
    refine squeezes_block (by decide) (by decide) level fun member hmember => ?_
    exact (squeezes_stringText member.1).append (hcolon.append (ih member hmember (level + 1)))

theorem squeeze_pretty (j : Json) : squeeze j.pretty = j.compact := by
  have h := squeezes_prettyAt.holds j 0 []
  rw [List.append_nil, squeezeFrom, List.append_nil] at h
  exact h

end Squeezing

section Controls

theorem InString.visible {t : Text} (h : InString t) : ∀ c ∈ t, 0x20 ≤ c.toNat := by
  cases h with
  | plain hc => exact List.forall_mem_singleton.mpr hc.1
  | escaped hc hrest =>
    exact List.forall_mem_cons.mpr ⟨by decide, List.forall_mem_cons.mpr
      ⟨hc, fun d hd => (hrest d hd).1⟩⟩

theorem visible_of_solid {t : Text} (h : ∀ c ∈ t, Solid c) : ∀ c ∈ t, 0x20 ≤ c.toNat :=
  fun c hc => (h c hc).1.le

theorem visible_stringText (t : Text) : ∀ c ∈ stringText t, 0x20 ≤ c.toNat := by
  have hquote : 0x20 ≤ '"'.toNat := by decide
  rw [stringText, List.cons_append, List.forall_mem_cons, List.forall_mem_append]
  refine ⟨hquote, fun c hc => ?_, List.forall_mem_singleton.mpr hquote⟩
  obtain ⟨d, -, hcd⟩ := List.mem_flatMap.mp hc
  exact (inString_escapeChar d).visible c hcd

theorem visible_join {sep : Text} {ps : List Text} (hsep : ∀ c ∈ sep, 0x20 ≤ c.toNat)
    (h : ∀ p ∈ ps, ∀ c ∈ p, 0x20 ≤ c.toNat) : ∀ c ∈ Text.join sep ps, 0x20 ≤ c.toNat := by
  induction ps with
  | nil => exact List.forall_mem_nil _
  | cons p ps ih =>
    obtain ⟨hp, hps⟩ := List.forall_mem_cons.mp h
    by_cases hne : ps = []
    · rw [hne, Text.join_singleton]
      exact hp
    · rw [Text.join_cons _ _ hne, List.forall_mem_append, List.forall_mem_append]
      exact ⟨hp, hsep, ih hps⟩

theorem visible_bracketed {first last : Char} {ps : List Text} (hfirst : 0x20 ≤ first.toNat)
    (hlast : 0x20 ≤ last.toNat) (h : ∀ p ∈ ps, ∀ c ∈ p, 0x20 ≤ c.toNat) :
    ∀ c ∈ first :: Text.join [','] ps ++ [last], 0x20 ≤ c.toNat := by
  rw [List.cons_append, List.forall_mem_cons, List.forall_mem_append]
  exact ⟨hfirst, visible_join (by decide) h, List.forall_mem_singleton.mpr hlast⟩

theorem visible_compact : PassesUp fun j => ∀ c ∈ j.compact, 0x20 ≤ c.toNat := by
  refine ⟨?null, ?bool, ?number, ?count, ?string, ?array, ?object⟩
  case null => exact visible_of_solid solid_null
  case bool => exact fun b => visible_of_solid (solid_bool b)
  case number => exact fun x => visible_of_solid (solid_numberText x)
  case count => exact fun n => visible_of_solid (solid_ofNat n)
  case string => exact visible_stringText
  case array =>
    intro items ih
    rw [compact, compactItems_eq_map]
    exact visible_bracketed (by decide) (by decide) (List.forall_mem_map.mpr ih)
  case object =>
    intro members ih
    rw [compact, compactMembers_eq_map]
    refine visible_bracketed (by decide) (by decide) (List.forall_mem_map.mpr fun member hm => ?_)
    exact List.forall_mem_append.mpr ⟨visible_stringText member.1,
      List.forall_mem_cons.mpr ⟨by decide, ih member hm⟩⟩

end Controls

end StockScreen.Json
