import StockScreen.Program.Run
import StockScreen.Proofs.Json.Grammar

namespace StockScreen

namespace Origin

def HeaderValue (origin : Text) : Prop :=
  ∀ b ∈ Utf8.encode origin, b = 0x09 ∨ 0x20 ≤ b ∧ b ≠ 0x7F

instance (origin : Text) : Decidable (HeaderValue origin) :=
  Json.decidableForallByte _ fun b => b = 0x09 ∨ 0x20 ≤ b ∧ b ≠ 0x7F

def IsFirstInvalid (origins : List Text) (origin : Text) : Prop :=
  ∃ before after, origins = before ++ origin :: after ∧ (∀ o ∈ before, HeaderValue o) ∧
    ¬HeaderValue origin

variable {origins : List Text} {origin : Text}

theorem isHeaderByte_iff {b : UInt8} : isHeaderByte b = true ↔ b = 0x09 ∨ 0x20 ≤ b ∧ b ≠ 0x7F := by
  simp [isHeaderByte]

theorem isHeaderValue_iff : isHeaderValue origin = true ↔ HeaderValue origin := by
  simp only [isHeaderValue, List.all_eq_true, isHeaderByte_iff, HeaderValue]

theorem find?_eq_none_iff :
    (origins.find? fun o => !isHeaderValue o) = none ↔ ∀ o ∈ origins, HeaderValue o := by
  simp [List.find?_eq_none, isHeaderValue_iff]

theorem find?_eq_some_iff :
    (origins.find? fun o => !isHeaderValue o) = some origin ↔ IsFirstInvalid origins origin := by
  rw [List.find?_eq_some_iff_append, IsFirstInvalid, Bool.not_eq_true', ← isHeaderValue_iff,
    Bool.not_eq_true]
  simp only [Bool.not_not, isHeaderValue_iff]
  constructor
  · rintro ⟨horigin, before, after, h, hbefore⟩
    exact ⟨before, after, h, hbefore, horigin⟩
  · rintro ⟨before, after, h, hbefore, horigin⟩
    exact ⟨horigin, before, after, h, hbefore⟩

theorem check_eq_ok_iff :
    check origins = .ok () ↔ (∀ o ∈ origins, HeaderValue o) ∧ wildcard ∉ origins := by
  rw [← find?_eq_none_iff, check]
  cases origins.find? fun o => !isHeaderValue o with
  | some origin => simp
  | none => simp

theorem check_eq_invalid_iff :
    check origins = .error (.invalidOrigin origin) ↔ IsFirstInvalid origins origin := by
  rw [← find?_eq_some_iff, check]
  cases origins.find? fun o => !isHeaderValue o with
  | some origin => simp
  | none => by_cases hw : wildcard ∈ origins <;> simp [hw]

theorem check_eq_wildcard_iff :
    check origins = .error .wildcardOrigin ↔
      (∀ o ∈ origins, HeaderValue o) ∧ wildcard ∈ origins := by
  rw [← find?_eq_none_iff, check]
  cases origins.find? fun o => !isHeaderValue o with
  | some origin => simp
  | none => simp

theorem check_cases (origins : List Text) :
    check origins = .ok () ∨ (∃ origin, check origins = .error (.invalidOrigin origin)) ∨
      check origins = .error .wildcardOrigin := by
  rw [check]
  cases origins.find? fun o => !isHeaderValue o with
  | some origin => exact .inr (.inl ⟨origin, rfl⟩)
  | none => by_cases hw : wildcard ∈ origins <;> simp [hw]

end Origin

namespace Service

open Origin

variable {origins : List Text} {d : Dataset}

theorem start_eq_ok_iff :
    start origins d = .ok ⟨d, origins⟩ ↔ check origins = .ok () := by
  rw [start]
  cases check origins <;> simp [Except.map]

theorem start_eq_error_iff {e : StartError} :
    start origins d = .error e ↔ check origins = .error e := by
  rw [start]
  cases check origins <;> simp [Except.map]

/-- A service starts with its origins exactly if all of them are header values and none is the
wildcard. Otherwise the first that is no header value is the error, and if there is none, a wildcard
is. -/
theorem start_checks_origins (origins : List Text) (d : Dataset) :
    (start origins d = .ok ⟨d, origins⟩ ↔
      (∀ o ∈ origins, HeaderValue o) ∧ ['*'] ∉ origins) ∧
    (∀ o, start origins d = .error (.invalidOrigin o) ↔ IsFirstInvalid origins o) ∧
    (start origins d = .error .wildcardOrigin ↔
      (∀ o ∈ origins, HeaderValue o) ∧ ['*'] ∈ origins) ∧
    (start origins d = .ok ⟨d, origins⟩ ∨
      (∃ o, start origins d = .error (.invalidOrigin o)) ∨
      start origins d = .error .wildcardOrigin) := by
  simp only [start_eq_ok_iff, start_eq_error_iff]
  exact ⟨check_eq_ok_iff, fun _ => check_eq_invalid_iff, check_eq_wildcard_iff,
    check_cases origins⟩

theorem start_aborts_at_wildcard :
    (∀ o ∈ [['*']], HeaderValue o) ∧
      start [['*']] (.ofStocks []) ≠ .ok ⟨.ofStocks [], [['*']]⟩ ∧
      (∀ o, start [['*']] (.ofStocks []) ≠ .error (.invalidOrigin o)) ∧
      start [['*']] (.ofStocks []) = .error .wildcardOrigin ∧
      (Failure.ofStart .wildcardOrigin).exitCode = 101 := by
  have hstart : start [['*']] (.ofStocks []) = .error .wildcardOrigin := rfl
  refine ⟨by decide, ?_, fun o => ?_, hstart, rfl⟩
  · rw [hstart]
    simp
  · rw [hstart]
    simp

end Service

end StockScreen
