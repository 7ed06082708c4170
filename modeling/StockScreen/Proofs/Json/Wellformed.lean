import StockScreen.Proofs.Json.Passing
import StockScreen.Proofs.Json.Taking

namespace StockScreen.Json

open Utf8 (Bytes)

section Numbers

inductive Remains : SkipState → Bytes → Prop where
  | minus {w f e : Bytes} (hw : WholePart w) (hf : FractionPart f) (he : ExponentPart e) :
    Remains .minus (w ++ (f ++ e))
  | zero {f e : Bytes} (hf : FractionPart f) (he : ExponentPart e) : Remains .zero (f ++ e)
  | whole {ds f e : Bytes} (hds : DigitBytes ds) (hf : FractionPart f) (he : ExponentPart e) :
    Remains .whole (ds ++ (f ++ e))
  | point {d : UInt8} {ds e : Bytes} (hds : DigitBytes (d :: ds)) (he : ExponentPart e) :
    Remains .point (d :: ds ++ e)
  | fraction {ds e : Bytes} (hds : DigitBytes ds) (he : ExponentPart e) : Remains .fraction (ds ++ e)
  | exponentMark {d : UInt8} {sign ds : Bytes} (hsign : sign = [] ∨ sign = [0x2B] ∨ sign = [0x2D])
    (hds : DigitBytes (d :: ds)) : Remains .exponentMark (sign ++ d :: ds)
  | exponentSign {d : UInt8} {ds : Bytes} (hds : DigitBytes (d :: ds)) :
    Remains .exponentSign (d :: ds)
  | exponent {ds : Bytes} (hds : DigitBytes ds) : Remains .exponent ds

variable {state next : SkipState} {b : UInt8} {n : Bytes}

theorem digitBytes_nil : DigitBytes [] := List.forall_mem_nil _

theorem DigitBytes.cons {ds : Bytes} (hb : isDigit b = true) (hds : DigitBytes ds) :
    DigitBytes (b :: ds) :=
  List.forall_mem_cons.mpr ⟨isDigit_iff.mp hb, hds⟩

theorem remains_nil (h : state.isComplete = true) : Remains state [] := by
  rw [isComplete_iff] at h
  simp only [List.mem_cons, List.not_mem_nil, or_false] at h
  rcases h with rfl | rfl | rfl | rfl
  · exact .zero .none .none
  · exact .whole digitBytes_nil .none .none
  · exact .fraction digitBytes_nil .none
  · exact .exponent digitBytes_nil

theorem isMark_iff : (isByte 'e' b || isByte 'E' b) = true ↔ b = 0x65 ∨ b = 0x45 := by
  rw [Bool.or_eq_true, isByte_iff, isByte_iff]
  rfl

theorem Remains.exponentPart (hb : b = 0x65 ∨ b = 0x45) (h : Remains .exponentMark n) :
    ExponentPart (b :: n) := by
  cases h with
  | exponentMark hsign hds => exact .digits hb hsign hds

theorem Remains.fractionPart (h : Remains .point n) :
    ∃ f e, FractionPart f ∧ ExponentPart e ∧ 0x2E :: n = f ++ e := by
  cases h with
  | point hds he => exact ⟨_, _, .digits hds, he, rfl⟩

theorem Remains.after_whole (h : Remains next n)
    (hstep : (if isByte '.' b then some SkipState.point
      else if isByte 'e' b || isByte 'E' b then some .exponentMark else none) = some next) :
    ∃ f e, FractionPart f ∧ ExponentPart e ∧ b :: n = f ++ e := by
  split at hstep
  · next hb =>
    obtain rfl := Option.some.inj hstep
    obtain rfl : b = 0x2E := isByte_iff.mp hb
    exact h.fractionPart
  · split at hstep
    · next hb =>
      obtain rfl := Option.some.inj hstep
      exact ⟨[], _, .none, h.exponentPart (isMark_iff.mp hb), rfl⟩
    · cases hstep

theorem Remains.after_minus (h : Remains next n) (hstep : numberStep .minus b = some next) :
    ∃ w f e, WholePart w ∧ FractionPart f ∧ ExponentPart e ∧ b :: n = w ++ (f ++ e) := by
  simp only [numberStep] at hstep
  split at hstep
  · next hb =>
    obtain rfl := Option.some.inj hstep
    obtain rfl : b = 0x30 := isByte_iff.mp hb
    cases h with
    | zero hf he => exact ⟨[0x30], _, _, .zero, hf, he, rfl⟩
  · next hzero =>
    split at hstep
    · next hb =>
      obtain rfl := Option.some.inj hstep
      cases h with
      | whole hds hf he =>
        exact ⟨b :: _, _, _, .digits (fun hb' => hzero (isByte_iff.mpr hb')) (hds.cons hb), hf, he,
          rfl⟩
    · cases hstep

theorem Remains.step (h : Remains next n) (hstep : numberStep state b = some next) :
    Remains state (b :: n) := by
  cases state with
  | minus =>
    obtain ⟨w, f, e, hw, hf, he, heq⟩ := h.after_minus hstep
    exact heq ▸ .minus hw hf he
  | zero =>
    obtain ⟨f, e, hf, he, heq⟩ := h.after_whole hstep
    exact heq ▸ .zero hf he
  | whole =>
    simp only [numberStep] at hstep
    split at hstep
    · next hb =>
      obtain rfl := Option.some.inj hstep
      cases h with
      | whole hds hf he => exact .whole (hds.cons hb) hf he
    · obtain ⟨f, e, hf, he, heq⟩ := h.after_whole hstep
      exact heq ▸ .whole digitBytes_nil hf he
  | point =>
    simp only [numberStep] at hstep
    split at hstep
    · next hb =>
      obtain rfl := Option.some.inj hstep
      cases h with
      | fraction hds he => exact .point (hds.cons hb) he
    · cases hstep
  | fraction =>
    simp only [numberStep] at hstep
    split at hstep
    · next hb =>
      obtain rfl := Option.some.inj hstep
      cases h with
      | fraction hds he => exact .fraction (hds.cons hb) he
    · split at hstep
      · next hb =>
        obtain rfl := Option.some.inj hstep
        exact .fraction digitBytes_nil (h.exponentPart (isMark_iff.mp hb))
      · cases hstep
  | exponentMark =>
    simp only [numberStep] at hstep
    split at hstep
    · next hb =>
      obtain rfl := Option.some.inj hstep
      have hsign : b = 0x2B ∨ b = 0x2D := by
        rw [Bool.or_eq_true, isByte_iff, isByte_iff] at hb
        exact hb
      cases h with
      | exponentSign hds =>
        have hb : [b] = [] ∨ [b] = [0x2B] ∨ [b] = [0x2D] := .inr (by simpa using hsign)
        exact .exponentMark hb hds
    · split at hstep
      · next hb =>
        obtain rfl := Option.some.inj hstep
        cases h with
        | exponent hds => exact .exponentMark (.inl rfl) (hds.cons hb)
      · cases hstep
  | exponentSign =>
    simp only [numberStep] at hstep
    split at hstep
    · next hb =>
      obtain rfl := Option.some.inj hstep
      cases h with
      | exponent hds => exact .exponentSign (hds.cons hb)
    · cases hstep
  | exponent =>
    simp only [numberStep] at hstep
    split at hstep
    · next hb =>
      obtain rfl := Option.some.inj hstep
      cases h with
      | exponent hds => exact .exponent (hds.cons hb)
    · cases hstep
  | _ => cases hstep

theorem Remains.signed (h : Remains .minus n) : NumberText (0x2D :: n) := by
  cases h with
  | minus hw hf he => exact .mk (.inr rfl) hw hf he

theorem Remains.unsigned (h : Remains next n) (hstep : numberStep .minus b = some next) :
    NumberText (b :: n) := by
  obtain ⟨w, f, e, hw, hf, he, heq⟩ := h.after_minus hstep
  exact heq ▸ .mk (.inl rfl) hw hf he

end Numbers

section Closing

variable {frames : List Frame} {a b c d s v : Bytes}

theorem blanks_nil : Blanks [] := List.forall_mem_nil _

theorem Blanks.cons {x : UInt8} (hx : isBlank x = true) (ha : Blanks a) : Blanks (x :: a) :=
  List.forall_mem_cons.mpr ⟨isBlank_iff.mp hx, ha⟩

inductive Closes : List Frame → Bytes → Prop where
  | none : Closes [] []
  | array {frames : List Frame} {a c : Bytes} (ha : Blanks a) (hc : Closes frames c) :
    Closes (.array :: frames) (a ++ 0x5D :: c)
  | items {frames : List Frame} {a inner c : Bytes} (ha : Blanks a) (h : Derives .items inner)
    (hc : Closes frames c) : Closes (.array :: frames) (a ++ 0x2C :: (inner ++ 0x5D :: c))
  | object {frames : List Frame} {a c : Bytes} (ha : Blanks a) (hc : Closes frames c) :
    Closes (.object :: frames) (a ++ 0x7D :: c)
  | members {frames : List Frame} {a inner c : Bytes} (ha : Blanks a) (h : Derives .members inner)
    (hc : Closes frames c) : Closes (.object :: frames) (a ++ 0x2C :: (inner ++ 0x7D :: c))

theorem Closes.blank {frame : Frame} {x : UInt8} (h : Closes (frame :: frames) c)
    (hx : isBlank x = true) : Closes (frame :: frames) (x :: c) := by
  cases h with
  | array ha hc => exact .array (ha.cons hx) hc
  | items ha h hc => exact .items (ha.cons hx) h hc
  | object ha hc => exact .object (ha.cons hx) hc
  | members ha h hc => exact .members (ha.cons hx) h hc

theorem Closes.exists_items (h : Closes (.array :: frames) c) (ha : Blanks a) (hv : ValueText v) :
    ∃ inner c', Derives .items inner ∧ Closes frames c' ∧ a ++ (v ++ c) = inner ++ 0x5D :: c' := by
  cases h with
  | array hb hc => exact ⟨_, _, .item ha hv hb, hc, by simp only [List.append_assoc]⟩
  | items hb h hc =>
    exact ⟨_, _, .items ha hv hb h, hc, by simp only [List.append_assoc, List.cons_append]⟩

theorem Closes.exists_members (h : Closes (.object :: frames) d) (ha : Blanks a) (hs : Quotable s)
    (hb : Blanks b) (hc : Blanks c) (hv : ValueText v) :
    ∃ inner d', Derives .members inner ∧ Closes frames d' ∧
      a ++ quote :: (s ++ quote :: (b ++ 0x3A :: (c ++ (v ++ d)))) = inner ++ 0x7D :: d' := by
  cases h with
  | object hd hrest =>
    exact ⟨_, _, .member ha hs hb hc hv hd, hrest,
      by simp only [List.append_assoc, List.cons_append]⟩
  | members hd h hrest =>
    exact ⟨_, _, .members ha hs hb hc hv hd h, hrest,
      by simp only [List.append_assoc, List.cons_append]⟩

end Closing

section Finishing

inductive Finishes : SkipState → List Frame → Bytes → Prop where
  | closes {frames : List Frame} {c : Bytes} (hc : Closes frames c) : Finishes .afterValue frames c
  | value {frames : List Frame} {a v c : Bytes} (ha : Blanks a) (hv : ValueText v)
    (hc : Closes frames c) : Finishes .value frames (a ++ (v ++ c))
  | firstItem {frames : List Frame} {a v c : Bytes} (ha : Blanks a) (hv : ValueText v)
    (hc : Closes frames c) : Finishes .valueOrClose frames (a ++ (v ++ c))
  | noItem {frames : List Frame} {a c : Bytes} (ha : Blanks a) (hc : Closes (frames.drop 1) c) :
    Finishes .valueOrClose frames (a ++ 0x5D :: c)
  | colon {frames : List Frame} {b c v d : Bytes} (hb : Blanks b) (hc : Blanks c)
    (hv : ValueText v) (hd : Closes frames d) :
    Finishes .colon frames (b ++ 0x3A :: (c ++ (v ++ d)))
  | key {frames : List Frame} {a s b c v d : Bytes} (ha : Blanks a) (hs : Quotable s)
    (hb : Blanks b) (hc : Blanks c) (hv : ValueText v) (hd : Closes frames d) :
    Finishes .key frames (a ++ quote :: (s ++ quote :: (b ++ 0x3A :: (c ++ (v ++ d)))))
  | firstKey {frames : List Frame} {a s b c v d : Bytes} (ha : Blanks a) (hs : Quotable s)
    (hb : Blanks b) (hc : Blanks c) (hv : ValueText v) (hd : Closes frames d) :
    Finishes .keyOrClose frames (a ++ quote :: (s ++ quote :: (b ++ 0x3A :: (c ++ (v ++ d)))))
  | noKey {frames : List Frame} {a c : Bytes} (ha : Blanks a) (hc : Closes (frames.drop 1) c) :
    Finishes .keyOrClose frames (a ++ 0x7D :: c)
  | word {frames : List Frame} {w : UInt8} {ws c : Bytes} (hc : Closes frames c) :
    Finishes (.word w ws) frames (w :: (ws ++ c))
  | text {isKey : Bool} {frames : List Frame} {s c : Bytes} (hs : Quotable s)
    (hc : Finishes (afterText isKey) frames c) : Finishes (.text isKey) frames (s ++ quote :: c)
  | number {state : SkipState} {frames : List Frame} {n c : Bytes} (hn : Remains state n)
    (hc : Closes frames c) : Finishes state frames (n ++ c)

variable {state next : SkipState} {frames frames' : List Frame} {b : UInt8} {v : Bytes}

theorem Finishes.blank (h : Finishes state frames v) (hstate : state.Expects frames)
    (hb : isBlank b = true) : Finishes state frames (b :: v) := by
  obtain ⟨houtside, hunfinished⟩ := hstate
  cases h with
  | closes hc =>
    obtain ⟨frame, frames, rfl⟩ := List.exists_cons_of_ne_nil (hunfinished.resolve_left (· rfl))
    exact .closes (hc.blank hb)
  | value ha hv hc => exact .value (ha.cons hb) hv hc
  | firstItem ha hv hc => exact .firstItem (ha.cons hb) hv hc
  | noItem ha hc => exact .noItem (ha.cons hb) hc
  | colon ha hc hv hd => exact .colon (ha.cons hb) hc hv hd
  | key ha hs hb' hc hv hd => exact .key (ha.cons hb) hs hb' hc hv hd
  | firstKey ha hs hb' hc hv hd => exact .firstKey (ha.cons hb) hs hb' hc hv hd
  | noKey ha hc => exact .noKey (ha.cons hb) hc
  | word => exact absurd houtside (by simp [SkipState.IsOutside])
  | text => exact absurd houtside (by simp [SkipState.IsOutside])
  | number hn => cases hn <;> exact absurd houtside (by decide)

theorem Finishes.of_word {w : UInt8} {ws : Bytes} (h : Finishes (afterWord ws) frames v) :
    Finishes (.word w ws) frames (w :: v) := by
  cases ws with
  | nil =>
    cases h with
    | closes hc => exact .word hc
    | number hn => cases hn
  | cons w' ws =>
    cases h with
    | @word _ _ _ c hc =>
      have htext : Finishes (.word w (w' :: ws)) frames (w :: (w' :: ws ++ c)) := .word hc
      exact htext
    | number hn => cases hn

theorem isNumber_of_numberStep (h : numberStep state b = some next) : next.isNumber = true := by
  cases state <;> grind [numberStep, SkipState.isNumber]

theorem Finishes.exists_number (h : Finishes state frames v) (hstate : state.isNumber = true) :
    ∃ n c, Remains state n ∧ Closes frames c ∧ v = n ++ c := by
  cases h with
  | number hn hc => exact ⟨_, _, hn, hc, rfl⟩
  | _ => cases hstate

theorem Finishes.of_number (h : Finishes next frames v) (hstep : numberStep state b = some next) :
    Finishes state frames (b :: v) := by
  obtain ⟨n, c, hn, hc, rfl⟩ := h.exists_number (isNumber_of_numberStep hstep)
  exact .number (hn.step hstep) hc

theorem Finishes.exists_closes (h : Finishes .afterValue frames v) : Closes frames v := by
  cases h with
  | closes hc => exact hc
  | number hn => cases hn

theorem Finishes.of_settle (h : Finishes (settle state b) frames v) : Finishes state frames v := by
  rw [settle] at h
  split at h
  · next hcomplete =>
    simp only [Bool.and_eq_true] at hcomplete
    exact .number (n := []) (remains_nil hcomplete.1.1) h.exists_closes
  · exact h

def Begins (frames : List Frame) (b : UInt8) (v : Bytes) : Prop :=
  ∃ w c, ValueText (b :: w) ∧ Closes frames c ∧ v = w ++ c

theorem Finishes.begins_word {w : Text} {w' : UInt8} {ws : Bytes}
    (h : Finishes (.word w' ws) frames v)
    (hw : w ∈ ["null".toList, "true".toList, "false".toList]) (heq : Utf8.encode w = b :: w' :: ws) :
    Begins frames b v := by
  cases h with
  | word hc =>
    have hv : ValueText (b :: w' :: ws) := heq ▸ .word hw
    exact ⟨w' :: ws, _, hv, hc, rfl⟩
  | number hn => cases hn

theorem Finishes.begins_number (h : Finishes state frames v) (hstate : state.isNumber = true)
    (hn : ∀ n, Remains state n → NumberText (b :: n)) : Begins frames b v := by
  obtain ⟨n, c, hremains, hc, rfl⟩ := h.exists_number hstate
  exact ⟨n, c, .number (hn n hremains), hc, rfl⟩

theorem Finishes.begins_string (h : Finishes (.text false) frames v) : Begins frames quote v := by
  cases h with
  | text hs hc => exact ⟨_, _, .string hs, hc.exists_closes, by rw [List.append_assoc]; rfl⟩
  | number hn => cases hn

theorem Finishes.begins_array (h : Finishes .valueOrClose (.array :: frames) v) :
    Begins frames 0x5B v := by
  cases h with
  | noItem ha hc => exact ⟨_, _, .emptyArray ha, hc, by rw [List.append_assoc]; rfl⟩
  | firstItem ha hv hc =>
    obtain ⟨inner, c, hinner, hc, heq⟩ := hc.exists_items ha hv
    exact ⟨_, _, .array hinner, hc, by rw [heq, List.append_assoc]; rfl⟩
  | number hn => cases hn

theorem Finishes.begins_object (h : Finishes .keyOrClose (.object :: frames) v) :
    Begins frames 0x7B v := by
  cases h with
  | noKey ha hc => exact ⟨_, _, .emptyObject ha, hc, by rw [List.append_assoc]; rfl⟩
  | firstKey ha hs hb hc hv hd =>
    obtain ⟨inner, d, hinner, hd, heq⟩ := hd.exists_members ha hs hb hc hv
    exact ⟨_, _, .object hinner, hd, by rw [heq, List.append_assoc]; rfl⟩
  | number hn => cases hn

theorem Finishes.begins (h : Finishes next frames' v)
    (hb : beginValue frames b = some (next, frames')) : Begins frames b v := by
  simp only [beginValue] at hb
  split at hb
  · next hn =>
    cases hb
    obtain rfl : b = 'n'.toUInt8 := isByte_iff.mp hn
    exact h.begins_word (w := "null".toList) (by decide) rfl
  split at hb
  · next ht =>
    cases hb
    obtain rfl : b = 't'.toUInt8 := isByte_iff.mp ht
    exact h.begins_word (w := "true".toList) (by decide) rfl
  split at hb
  · next hf =>
    cases hb
    obtain rfl : b = 'f'.toUInt8 := isByte_iff.mp hf
    exact h.begins_word (w := "false".toList) (by decide) rfl
  split at hb
  · next hm =>
    cases hb
    obtain rfl : b = 0x2D := isByte_iff.mp hm
    exact h.begins_number rfl fun n hn => hn.signed
  split at hb
  · next hz =>
    cases hb
    exact h.begins_number rfl fun n hn => hn.unsigned (by simp [numberStep, hz])
  split at hb
  · next hz hd =>
    cases hb
    exact h.begins_number rfl fun n hn => hn.unsigned (by simp [numberStep, hz, hd])
  split at hb
  · next hq =>
    cases hb
    obtain rfl : b = quote := isByte_iff.mp hq
    exact h.begins_string
  split at hb
  · next ho =>
    cases hb
    obtain rfl : b = 0x5B := isByte_iff.mp ho
    exact h.begins_array
  split at hb
  · next ho =>
    cases hb
    obtain rfl : b = 0x7B := isByte_iff.mp ho
    exact h.begins_object
  · cases hb

theorem Finishes.closes_item {frame : Frame} (h : Finishes next frames' v)
    (hb : afterItem frame frames b = some (next, frames')) : Closes (frame :: frames) (b :: v) := by
  cases frame with
  | array =>
    simp only [afterItem] at hb
    split at hb
    · next hcomma =>
      cases hb
      obtain rfl : b = 0x2C := isByte_iff.mp hcomma
      cases h with
      | value ha hv hc =>
        obtain ⟨inner, c, hinner, hc, heq⟩ := hc.exists_items ha hv
        exact heq ▸ .items blanks_nil hinner hc
      | number hn => cases hn
    split at hb
    · next hclose =>
      cases hb
      obtain rfl : b = 0x5D := isByte_iff.mp hclose
      exact .array blanks_nil h.exists_closes
    · cases hb
  | object =>
    simp only [afterItem] at hb
    split at hb
    · next hcomma =>
      cases hb
      obtain rfl : b = 0x2C := isByte_iff.mp hcomma
      cases h with
      | key ha hs hb hc hv hd =>
        obtain ⟨inner, d, hinner, hd, heq⟩ := hd.exists_members ha hs hb hc hv
        exact heq ▸ .members blanks_nil hinner hd
      | number hn => cases hn
    split at hb
    · next hclose =>
      cases hb
      obtain rfl : b = 0x7D := isByte_iff.mp hclose
      exact .object blanks_nil h.exists_closes
    · cases hb

theorem Finishes.of_key (h : Finishes (.text true) frames v) :
    ∃ s b c w d, Quotable s ∧ Blanks b ∧ Blanks c ∧ ValueText w ∧ Closes frames d ∧
      v = s ++ quote :: (b ++ 0x3A :: (c ++ (w ++ d))) := by
  cases h with
  | text hs h =>
    cases h with
    | colon hb hc hv hd => exact ⟨_, _, _, _, _, hs, hb, hc, hv, hd, rfl⟩
    | number hn => cases hn
  | number hn => cases hn

theorem Finishes.of_byte (h : Finishes next frames' v)
    (hb : skipByte state frames b = some (next, frames')) : Finishes state frames (b :: v) := by
  cases state with
  | value =>
    obtain ⟨w, c, hw, hc, rfl⟩ := h.begins hb
    exact .value (v := b :: w) blanks_nil hw hc
  | valueOrClose =>
    simp only [skipByte] at hb
    split at hb
    · next hclose =>
      cases hb
      obtain rfl : b = 0x5D := isByte_iff.mp hclose
      exact .noItem blanks_nil h.exists_closes
    · obtain ⟨w, c, hw, hc, rfl⟩ := h.begins hb
      exact .firstItem (v := b :: w) blanks_nil hw hc
  | keyOrClose =>
    simp only [skipByte] at hb
    split at hb
    · next hclose =>
      cases hb
      obtain rfl : b = 0x7D := isByte_iff.mp hclose
      exact .noKey blanks_nil h.exists_closes
    split at hb
    · next hq =>
      cases hb
      obtain rfl : b = quote := isByte_iff.mp hq
      obtain ⟨s, b, c, w, d, hs, hb, hc, hv, hd, rfl⟩ := h.of_key
      exact .firstKey blanks_nil hs hb hc hv hd
    · cases hb
  | key =>
    simp only [skipByte] at hb
    split at hb
    · next hq =>
      cases hb
      obtain rfl : b = quote := isByte_iff.mp hq
      obtain ⟨s, b, c, w, d, hs, hb, hc, hv, hd, rfl⟩ := h.of_key
      exact .key blanks_nil hs hb hc hv hd
    · cases hb
  | colon =>
    simp only [skipByte] at hb
    split at hb
    · next hcolon =>
      cases hb
      obtain rfl : b = 0x3A := isByte_iff.mp hcolon
      cases h with
      | value hc hv hd => exact .colon blanks_nil hc hv hd
      | number hn => cases hn
    · cases hb
  | afterValue =>
    cases frames with
    | nil => cases hb
    | cons frame frames => exact .closes (h.closes_item hb)
  | _ => cases hb

theorem Finishes.of_text {isKey : Bool} {s : Bytes}
    (h : Finishes (.text isKey) frames v)
    (hs : ∀ {s'}, Quotable s' → Quotable (s ++ s')) : Finishes (.text isKey) frames (s ++ v) := by
  cases h with
  | text hs' hc =>
    rw [← List.append_assoc]
    exact .text (hs hs') hc
  | number hn => cases hn

end Finishing

section Running

variable {state : SkipState} {frames : List Frame} {bytes rest : Bytes}

theorem SkipState.expects_of_not (hword : ∀ w ws, state = .word w ws → False)
    (htext : ∀ isKey, state = .text isKey → False) (hnumber : ¬state.isNumber = true)
    (hend : ¬(decide (state = .afterValue) && frames.isEmpty) = true) : state.Expects frames := by
  have hunfinished : state ≠ .afterValue ∨ frames ≠ [] := by
    simpa [Decidable.imp_iff_not_or] using hend
  cases state with
  | word w ws => exact absurd rfl (hword w ws)
  | text isKey => exact absurd rfl (htext isKey)
  | minus | zero | whole | point | fraction | exponentMark | exponentSign | exponent =>
    exact absurd rfl hnumber
  | _ => exact ⟨by decide, hunfinished⟩

theorem exists_finishes (h : skipLoop state frames bytes = .ok rest) :
    ∃ v, bytes = v ++ rest ∧ Finishes state frames v := by
  -- In all other cases of the loop nothing is left, since there is a fault.
  fun_induction skipLoop state frames bytes with
  | case2 state frames hnumber hend =>
    obtain rfl := Except.ok.inj h
    obtain ⟨hstate, hframes⟩ := Bool.and_eq_true_iff.mp hend
    obtain rfl := List.isEmpty_iff.mp hframes
    refine ⟨[], rfl, ?_⟩
    rcases Bool.or_eq_true_iff.mp hstate with hcomplete | hafter
    · exact .number (n := []) (remains_nil hcomplete) .none
    · exact of_decide_eq_true hafter ▸ .closes .none
  | case4 state frames rest' b expected hsettle ih =>
    obtain ⟨v, rfl, hv⟩ := ih h
    exact ⟨b :: v, rfl, (hsettle ▸ hv.of_word : Finishes (settle state b) frames _).of_settle⟩
  | case6 state frames b rest' isKey hsettle hquote ih =>
    obtain ⟨v, rfl, hv⟩ := ih h
    obtain rfl : b = quote := isByte_iff.mp hquote
    have hv : Finishes (settle state quote) frames (quote :: v) := hsettle ▸ .text .nil hv
    exact ⟨_, rfl, hv.of_settle⟩
  | case8 state frames b rest' isKey hsettle hquote hcontrol hescape ih =>
    obtain ⟨v, rfl, hv⟩ := ih h
    have hplain : b ≠ backslash := by
      rintro rfl
      simp at hescape
    have hv : Finishes (settle state b) frames (b :: v) := hsettle ▸ hv.of_text (s := [b])
      (.plain (UInt8.not_lt.mp hcontrol) (fun he => hquote (isByte_iff.mpr he)) hplain)
    exact ⟨_, rfl, hv.of_settle⟩
  | case10 state frames b isKey hsettle _ _ hescape e rest' _ he ih =>
    obtain ⟨v, rfl, hv⟩ := ih h
    obtain rfl : b = backslash := eq_backslash hescape
    obtain ⟨b, hb⟩ := Option.isSome_iff_exists.mp he
    have hv : Finishes (settle state backslash) frames (backslash :: e :: v) :=
      hsettle ▸ hv.of_text (s := [backslash, e]) (.short (shortEscape?_eq_some_iff.mp hb))
    exact ⟨_, rfl, hv.of_settle⟩
  | case12 state frames b isKey hsettle _ _ hescape e hcode h₁ h₂ h₃ h₄ rest' hn ih =>
    obtain ⟨v, rfl, hv⟩ := ih h
    obtain rfl : b = backslash := eq_backslash hescape
    obtain rfl : e = 0x75 := eq_codeLetter hcode
    obtain ⟨n, hn⟩ := Option.isSome_iff_exists.mp hn
    have hv : Finishes (settle state backslash) frames
        (backslash :: 0x75 :: h₁ :: h₂ :: h₃ :: h₄ :: v) :=
      hsettle ▸ hv.of_text (s := [backslash, 0x75, h₁, h₂, h₃, h₄])
        (.code (fourHex?_eq_some_iff.mp hn))
    exact ⟨_, rfl, hv.of_settle⟩
  | case15 state frames b rest' next _ _ _ hstep ih =>
    obtain ⟨v, rfl, hv⟩ := ih h
    exact ⟨_, rfl, (hv.of_number hstep).of_settle⟩
  | case17 state frames b rest' _ _ _ hend =>
    obtain rfl := Except.ok.inj h
    obtain ⟨hafter, hframes⟩ := Bool.and_eq_true_iff.mp hend
    obtain rfl := List.isEmpty_iff.mp hframes
    have hv : Finishes (settle state b) [] [] := of_decide_eq_true hafter ▸ .closes .none
    exact ⟨[], rfl, hv.of_settle⟩
  | case18 state frames b rest' hb hword htext hnumber hend ih =>
    obtain ⟨v, rfl, hv⟩ := ih h
    exact ⟨_, rfl, (hv.blank (SkipState.expects_of_not hword htext hnumber hend) hb).of_settle⟩
  | case19 state frames b rest' _ next frames' _ _ _ _ hbyte ih =>
    obtain ⟨v, rfl, hv⟩ := ih h
    exact ⟨_, rfl, (hv.of_byte hbyte).of_settle⟩
  | _ => cases h

theorem skipValue_sound (h : skipValue bytes = .ok rest) :
    ∃ a v, Blanks a ∧ ValueText v ∧ bytes = a ++ (v ++ rest) := by
  obtain ⟨_, rfl, hv⟩ := exists_finishes h
  cases hv with
  | value ha hv hc =>
    cases hc
    exact ⟨_, _, ha, hv, by simp only [List.append_assoc, List.nil_append]⟩
  | number hn => cases hn

theorem ValueText.unique {v v' rest' : Bytes} (hv : ValueText v) (hv' : ValueText v')
    (hrest : Ends rest) (hrest' : Ends rest') (h : v ++ rest = v' ++ rest') :
    v = v' ∧ rest = rest' := by
  have hread : skipValue (v ++ rest) = .ok rest := skipValue_value hv (List.forall_mem_nil _) hrest
  have hread' : skipValue (v' ++ rest') = .ok rest' :=
    skipValue_value hv' (List.forall_mem_nil _) hrest'
  obtain rfl : rest = rest' := Except.ok.inj (hread.symm.trans (h ▸ hread'))
  exact ⟨List.append_cancel_right h, rfl⟩

end Running

end StockScreen.Json
