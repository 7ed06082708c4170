import StockScreen.Proofs.Json.Grammar

namespace StockScreen.Json

open Utf8 (Bytes)

section Steps

variable {state next : SkipState} {frames : List Frame} {b : UInt8} {rest : Bytes}

def SkipState.IsOutside (state : SkipState) : Prop :=
  state ∈ [.value, .valueOrClose, .keyOrClose, .key, .colon, .afterValue]

instance (state : SkipState) : Decidable state.IsOutside := inferInstanceAs (Decidable (_ ∈ _))

structure SkipState.Expects (state : SkipState) (frames : List Frame) : Prop where
  outside : state.IsOutside
  unfinished : state ≠ .afterValue ∨ frames ≠ []

theorem afterValue_expects {frame : Frame} : SkipState.afterValue.Expects (frame :: frames) :=
  ⟨by decide, .inr (List.cons_ne_nil _ _)⟩

theorem colon_expects : SkipState.colon.Expects frames := ⟨by decide, .inl SkipState.noConfusion⟩

theorem skipLoop_outside (h : state.Expects frames) :
    skipLoop state frames (b :: rest) =
      if isBlank b then skipLoop state frames rest
      else match skipByte state frames b with
        | some (state, frames) => skipLoop state frames rest
        | none => .error .malformed := by
  obtain ⟨houtside, hunfinished⟩ := h
  simp only [SkipState.IsOutside, List.mem_cons, List.not_mem_nil, or_false] at houtside
  rcases houtside with rfl | rfl | rfl | rfl | rfl | rfl
  case inr.inr.inr.inr.inr =>
    obtain ⟨frame, frames, rfl⟩ := List.exists_cons_of_ne_nil (hunfinished.resolve_left (· rfl))
    rfl
  all_goals rfl

theorem skipLoop_blanks (h : state.Expects frames) {a : Bytes} (ha : Blanks a) (rest : Bytes) :
    skipLoop state frames (a ++ rest) = skipLoop state frames rest := by
  induction a with
  | nil => rfl
  | cons b a ih =>
    obtain ⟨hb, ha⟩ := List.forall_mem_cons.mp ha
    rw [List.cons_append, skipLoop_outside h, if_pos (isBlank_iff.mpr hb), ih ha]

theorem skipLoop_byte (h : state.Expects frames) (hb : isBlank b = false)
    {frames' : List Frame} (hnext : skipByte state frames b = some (next, frames')) :
    skipLoop state frames (b :: rest) = skipLoop next frames' rest := by
  rw [skipLoop_outside h, hb, hnext]
  rfl

theorem skipLoop_afterValue (rest : Bytes) : skipLoop .afterValue [] rest = .ok rest := by
  cases rest <;> rfl

theorem skipLoop_number (h : numberStep state b = some next) :
    skipLoop state frames (b :: rest) = skipLoop next frames rest := by
  have hsettle : settle state b = state := by simp [settle, h]
  have hnumber : state.isNumber = true := by cases state <;> first | rfl | cases h
  rw [skipLoop.eq_def]
  simp only [hsettle]
  cases state <;> simp_all [SkipState.isNumber]

theorem skipLoop_word {w : UInt8} {ws : Bytes} :
    skipLoop (.word w ws) frames (w :: ws ++ rest) = skipLoop .afterValue frames rest := by
  induction ws generalizing w with
  | nil =>
    rw [skipLoop.eq_def]
    simp [settle, SkipState.isComplete, afterWord]
  | cons w' ws ih =>
    rw [List.cons_append, skipLoop.eq_def]
    simp [settle, SkipState.isComplete, afterWord]
    exact ih

end Steps

section Strings

variable {s : Bytes}

def afterText (isKey : Bool) : SkipState := if isKey then .colon else .afterValue

theorem Quotable.skip (h : Quotable s) (isKey : Bool) (frames : List Frame) (rest : Bytes) :
    skipLoop (.text isKey) frames (s ++ quote :: rest) =
      skipLoop (afterText isKey) frames rest := by
  induction h with
  | nil =>
    rw [List.nil_append, skipLoop.eq_def]
    simp [settle, SkipState.isComplete, afterText]
  | @plain b s hcontrol hquote hescape _ ih =>
    have hq : isByte '"' b = false := isByte_eq_false hquote
    have hs : isByte '\\' b = false := isByte_eq_false hescape
    rw [List.cons_append, skipLoop.eq_def]
    simp [settle, SkipState.isComplete, hq, hs, UInt8.not_lt.mpr hcontrol, ih]
  | short he _ ih =>
    have he := shortEscape?_eq_some_iff.mpr he
    rw [List.cons_append, List.cons_append, skipLoop.eq_def]
    simp [settle, SkipState.isComplete, not_codeLetter_of_escape he, he, ih]
  | code hn _ ih =>
    have hn := fourHex?_eq_some_iff.mpr hn
    have hu : isByte 'u' 0x75 = true := by decide
    simp only [List.cons_append]
    rw [skipLoop.eq_def]
    simp [settle, SkipState.isComplete, hu, hn, ih]

end Strings

section Numbers

variable {state : SkipState} {frames : List Frame} {rest : Bytes}

theorem isComplete_iff :
    state.isComplete = true ↔ state ∈ [.zero, .whole, .fraction, .exponent] := by
  cases state <;> simp [SkipState.isComplete]

theorem skipLoop_ends (hstate : state.isComplete = true) (hrest : Ends rest) :
    skipLoop state frames rest = skipLoop .afterValue frames rest := by
  rw [isComplete_iff] at hstate
  simp only [List.mem_cons, List.not_mem_nil, or_false] at hstate
  cases rest with
  | nil => rcases hstate with rfl | rfl | rfl | rfl <;> rfl
  | cons b rest =>
    have hb := hrest b rfl
    simp only [isBlank_iff, List.mem_cons, List.not_mem_nil, or_false] at hb
    have hsettle : settle state b = .afterValue := by
      rcases hstate with rfl | rfl | rfl | rfl <;>
        rcases hb with (rfl | rfl | rfl | rfl) | rfl | rfl | rfl <;> rfl
    have hafter : settle .afterValue b = .afterValue := rfl
    rw [skipLoop.eq_def, skipLoop.eq_def]
    simp only [hsettle, hafter]

theorem isByte_of_digit {c : Char} {d : UInt8} (hd : isDigit d = true)
    (hc : isDigit c.toUInt8 = false) : isByte c d = false := by
  refine isByte_eq_false ?_
  rintro rfl
  exact absurd (hc.symm.trans hd) Bool.false_ne_true

inductive Continues : SkipState → SkipState → Prop where
  | whole : Continues .whole .whole
  | point : Continues .point .fraction
  | fraction : Continues .fraction .fraction
  | mark : Continues .exponentMark .exponent
  | sign : Continues .exponentSign .exponent
  | exponent : Continues .exponent .exponent

variable {next : SkipState}

theorem Continues.step (h : Continues state next) {d : UInt8} (hd : isDigit d = true) :
    numberStep state d = some next := by
  have hplus : isByte '+' d = false := isByte_of_digit hd rfl
  have hminus : isByte '-' d = false := isByte_of_digit hd rfl
  cases h <;> simp [numberStep, hd, hplus, hminus]

theorem Continues.self (h : Continues state next) : Continues next next := by
  cases h <;> constructor

theorem Continues.skip (h : Continues state next) {d : UInt8} {ds : Bytes}
    (hds : DigitBytes (d :: ds)) (rest : Bytes) :
    skipLoop state frames (d :: ds ++ rest) = skipLoop next frames rest := by
  induction ds generalizing state d with
  | nil =>
    exact skipLoop_number (h.step hds.head)
  | cons d' ds ih =>
    obtain ⟨hd, hds⟩ := List.forall_mem_cons.mp hds
    rw [List.cons_append, skipLoop_number (h.step (isDigit_iff.mpr hd)), ih h.self hds]

theorem ExponentPart.skip {e : Bytes} (h : ExponentPart e)
    (hstate : state ∈ [.zero, .whole, .fraction]) (hrest : Ends rest) :
    skipLoop state frames (e ++ rest) = skipLoop .afterValue frames rest := by
  simp only [List.mem_cons, List.not_mem_nil, or_false] at hstate
  cases h with
  | none =>
    refine skipLoop_ends ?_ hrest
    rcases hstate with rfl | rfl | rfl <;> rfl
  | @digits e d sign ds he hsign hds =>
    have hmark : numberStep state e = some .exponentMark := by
      rcases hstate with rfl | rfl | rfl <;> rcases he with rfl | rfl <;> rfl
    rw [List.cons_append, skipLoop_number hmark, List.append_assoc]
    have hexponent : skipLoop .exponent frames rest = skipLoop .afterValue frames rest :=
      skipLoop_ends rfl hrest
    rcases hsign with rfl | rfl | rfl
    · exact (Continues.mark.skip hds rest).trans hexponent
    all_goals
      have hsign : skipLoop .exponentSign frames (d :: ds ++ rest) =
        skipLoop .exponent frames rest := Continues.sign.skip hds rest
      exact (skipLoop_number rfl).trans (hsign.trans hexponent)

theorem FractionPart.skip {f e : Bytes} (h : FractionPart f) (he : ExponentPart e)
    (hstate : state ∈ [.zero, .whole]) (hrest : Ends rest) :
    skipLoop state frames (f ++ (e ++ rest)) = skipLoop .afterValue frames rest := by
  simp only [List.mem_cons, List.not_mem_nil, or_false] at hstate
  cases h with
  | none =>
    refine he.skip ?_ hrest
    rcases hstate with rfl | rfl <;> decide
  | digits hds =>
    have hpoint : numberStep state 0x2E = some .point := by
      rcases hstate with rfl | rfl <;> rfl
    rw [List.cons_append, skipLoop_number hpoint, Continues.point.skip hds, he.skip (by decide) hrest]

theorem WholePart.exists_state {w : Bytes} (h : WholePart w) :
    ∃ d ds state, w = d :: ds ∧ state ∈ [SkipState.zero, .whole] ∧
      numberStep .minus d = some state ∧
      (∀ frames, beginValue frames d = some (state, frames)) ∧
      ∀ frames rest, skipLoop state frames (ds ++ rest) = skipLoop state frames rest := by
  cases h with
  | zero => exact ⟨_, _, .zero, rfl, by decide, rfl, fun _ => rfl, fun _ _ => rfl⟩
  | @digits d ds hzero hds =>
    have hd : isDigit d = true := hds.head
    have hz : isByte '0' d = false := isByte_eq_false hzero
    refine ⟨_, _, .whole, rfl, by decide, ?_, fun frames => ?_, fun frames rest => ?_⟩
    · simp [numberStep, hd, hz]
    · have hn : isByte 'n' d = false := isByte_of_digit hd rfl
      have ht : isByte 't' d = false := isByte_of_digit hd rfl
      have hf : isByte 'f' d = false := isByte_of_digit hd rfl
      have hm : isByte '-' d = false := isByte_of_digit hd rfl
      simp [beginValue, hn, ht, hf, hm, hz, hd]
    · cases ds with
      | nil => rfl
      | cons d' ds => exact Continues.whole.skip (fun b hb => hds b (List.mem_cons_of_mem d hb)) rest

end Numbers

section Values

variable {state : SkipState} {frames : List Frame} {rest : Bytes}

def SkipState.AwaitsValue (state : SkipState) : Prop := state = .value ∨ state = .valueOrClose

def SkipState.AwaitsKey (state : SkipState) : Prop := state = .key ∨ state = .keyOrClose

theorem SkipState.AwaitsValue.expects (h : state.AwaitsValue) : state.Expects frames := by
  rcases h with rfl | rfl <;> exact ⟨by decide, .inl SkipState.noConfusion⟩

theorem SkipState.AwaitsKey.expects (h : state.AwaitsKey) : state.Expects frames := by
  rcases h with rfl | rfl <;> exact ⟨by decide, .inl SkipState.noConfusion⟩

theorem not_blank_of_begins {b : UInt8} (h : beginValue frames b ≠ none) : isBlank b = false := by
  refine Bool.eq_false_iff.mpr fun hb => h ?_
  simp only [isBlank_iff, List.mem_cons, List.not_mem_nil, or_false] at hb
  rcases hb with rfl | rfl | rfl | rfl <;> rfl

theorem not_close_of_begins {b : UInt8} (h : beginValue frames b ≠ none) :
    isByte ']' b = false := by
  refine isByte_eq_false fun hb => h ?_
  rw [hb]
  rfl

theorem skipLoop_begin (h : state.AwaitsValue) {next : SkipState} {frames' : List Frame}
    {b : UInt8} (hb : beginValue frames b = some (next, frames')) :
    skipLoop state frames (b :: rest) = skipLoop next frames' rest := by
  have hbegins : beginValue frames b ≠ none := hb ▸ Option.some_ne_none _
  refine skipLoop_byte h.expects (not_blank_of_begins hbegins) ?_
  rcases h with rfl | rfl
  · exact hb
  · simp [skipByte, not_close_of_begins hbegins, hb]

theorem skipLoop_key (h : state.AwaitsKey) :
    skipLoop state frames (quote :: rest) = skipLoop (.text true) frames rest := by
  refine skipLoop_byte h.expects rfl ?_
  rcases h with rfl | rfl <;> rfl

theorem skip_word {w : Text} (hw : w ∈ ["null".toList, "true".toList, "false".toList])
    (h : state.AwaitsValue) :
    skipLoop state frames (Utf8.encode w ++ rest) = skipLoop .afterValue frames rest := by
  simp only [List.mem_cons, List.not_mem_nil, or_false] at hw
  rcases hw with rfl | rfl | rfl <;> exact (skipLoop_begin h rfl).trans skipLoop_word

theorem NumberText.skip {n : Bytes} (hn : NumberText n) (h : state.AwaitsValue)
    (hrest : Ends rest) :
    skipLoop state frames (n ++ rest) = skipLoop .afterValue frames rest := by
  cases hn with
  | @mk sign whole fraction exponent hsign hwhole hfraction hexponent =>
    obtain ⟨d, ds, next, rfl, hnext, hminus, hbegin, hds⟩ := hwhole.exists_state
    have hafter : skipLoop next frames (ds ++ (fraction ++ (exponent ++ rest))) =
        skipLoop .afterValue frames rest :=
      (hds frames _).trans (hfraction.skip hexponent hnext hrest)
    simp only [List.append_assoc, List.cons_append]
    -- The first digit leads to one state, with a sign before it and without.
    rcases hsign with rfl | rfl
    · exact (skipLoop_begin h (hbegin frames)).trans hafter
    · rw [List.cons_append, skipLoop_begin h rfl, List.nil_append, skipLoop_number hminus, hafter]

def Passes : Phrase → Bytes → Prop
  | .value, v => ∀ state frames rest, state.AwaitsValue → Ends rest →
    skipLoop state frames (v ++ rest) = skipLoop .afterValue frames rest
  | .items, inner => ∀ state frames rest, state.AwaitsValue →
    skipLoop state (.array :: frames) (inner ++ 0x5D :: rest) = skipLoop .afterValue frames rest
  | .members, inner => ∀ state frames rest, state.AwaitsKey →
    skipLoop state (.object :: frames) (inner ++ 0x7D :: rest) = skipLoop .afterValue frames rest

theorem Passes.item {a v b : Bytes} (ha : Blanks a) (hv : Passes .value v) (hb : Blanks b)
    (h : state.AwaitsValue) (hrest : Ends rest) {frame : Frame} :
    skipLoop state (frame :: frames) (a ++ (v ++ (b ++ rest))) =
      skipLoop .afterValue (frame :: frames) rest := by
  rw [skipLoop_blanks h.expects ha, hv _ _ _ h (hrest.blanks hb),
    skipLoop_blanks afterValue_expects hb]

theorem Passes.member {a s b c v d : Bytes} (ha : Blanks a) (hs : Quotable s) (hb : Blanks b)
    (hc : Blanks c) (hv : Passes .value v) (hd : Blanks d) (h : state.AwaitsKey)
    (hrest : Ends rest) {frame : Frame} :
    skipLoop state (frame :: frames)
        (a ++ quote :: (s ++ quote :: (b ++ 0x3A :: (c ++ (v ++ (d ++ rest)))))) =
      skipLoop .afterValue (frame :: frames) rest := by
  have hcolon : skipLoop .colon (frame :: frames) (0x3A :: (c ++ (v ++ (d ++ rest)))) =
      skipLoop .value (frame :: frames) (c ++ (v ++ (d ++ rest))) :=
    skipLoop_byte colon_expects rfl rfl
  rw [skipLoop_blanks h.expects ha, skipLoop_key h, hs.skip true, afterText, if_pos rfl,
    skipLoop_blanks colon_expects hb, hcolon, hv.item hc hd (.inl rfl) hrest]

theorem Derives.passes {phrase : Phrase} {bytes : Bytes} (h : Derives phrase bytes) :
    Passes phrase bytes := by
  -- The frames stay general, since every bracket on the way in adds one.
  induction h with
  | word hw => exact fun _ _ _ h _ => skip_word hw h
  | number hn => exact fun _ _ _ h hrest => hn.skip h hrest
  | string hs =>
    intro state frames rest h _
    rw [List.cons_append, List.append_assoc, skipLoop_begin h rfl]
    exact hs.skip false frames rest
  | emptyArray ha =>
    intro state frames rest h _
    rw [List.cons_append, List.append_assoc, skipLoop_begin h rfl,
      skipLoop_blanks (SkipState.AwaitsValue.expects (.inr rfl)) ha]
    exact skipLoop_byte (SkipState.AwaitsValue.expects (.inr rfl)) rfl rfl
  | array _ ih =>
    intro state frames rest h _
    rw [List.cons_append, List.append_assoc, skipLoop_begin h rfl]
    exact ih _ _ _ (.inr rfl)
  | emptyObject ha =>
    intro state frames rest h _
    rw [List.cons_append, List.append_assoc, skipLoop_begin h rfl,
      skipLoop_blanks (SkipState.AwaitsKey.expects (.inr rfl)) ha]
    exact skipLoop_byte (SkipState.AwaitsKey.expects (.inr rfl)) rfl rfl
  | object _ ih =>
    intro state frames rest h _
    rw [List.cons_append, List.append_assoc, skipLoop_begin h rfl]
    exact ih _ _ _ (.inr rfl)
  | item ha _ hb ihv =>
    intro state frames rest h
    simp only [List.append_assoc]
    rw [ihv.item ha hb h (.cons (by decide) rest)]
    exact skipLoop_byte afterValue_expects rfl rfl
  | items ha _ hb _ ihv ihrest =>
    intro state frames rest h
    simp only [List.append_assoc, List.cons_append]
    rw [ihv.item ha hb h (.cons (by decide) _)]
    exact (skipLoop_byte afterValue_expects rfl rfl).trans (ihrest _ _ _ (.inl rfl))
  | member ha hs hb hc _ hd ihv =>
    intro state frames rest h
    simp only [List.append_assoc, List.cons_append]
    rw [ihv.member ha hs hb hc hd h (.cons (by decide) _)]
    exact skipLoop_byte afterValue_expects rfl rfl
  | members ha hs hb hc _ hd _ ihv ihrest =>
    intro state frames rest h
    simp only [List.append_assoc, List.cons_append]
    rw [ihv.member ha hs hb hc hd h (.cons (by decide) _)]
    exact (skipLoop_byte afterValue_expects rfl rfl).trans (ihrest _ _ _ (.inl rfl))

theorem skipValue_value {v : Bytes} (hv : ValueText v) {a : Bytes} (ha : Blanks a)
    (hrest : Ends rest) : skipValue (a ++ (v ++ rest)) = .ok rest := by
  rw [skipValue, skipLoop_blanks (SkipState.AwaitsValue.expects (.inl rfl)) ha,
    hv.passes _ _ _ (.inl rfl) hrest, skipLoop_afterValue]

end Values

end StockScreen.Json
