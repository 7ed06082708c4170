import StockScreen.Proofs.Dataset.Loading
import StockScreen.Proofs.Document.Queries
import StockScreen.Proofs.Service.Screening

namespace StockScreen

open Utf8 (Bytes)
open Json

section Rows

variable {cells : List Text} {texts : List (List Text)} {s : Stock}

/-- A cell that is no number counts as zero, so only a number can make a metric infinite or none. -/
theorem Row.isFinite_iff (h : Row.read cells = .ok s) :
    s.IsFinite ↔ ∀ field x, Binary64.ofText? (Row.cell cells field) = some x → x.isFinite = true := by
  cases Row.means_iff.mpr h with
  | stock _ _ _ _ hvalue =>
    refine forall_congr' fun field => ?_
    obtain ⟨t, ht, hx⟩ := hvalue field
    rw [hx, Row.cell_eq ht]
    cases Binary64.ofText? t.trim with
    | none => exact iff_of_true rfl nofun
    | some x => simp

theorem Dataset.mem_ofRows : s ∈ (ofRows texts).stocks ↔ ∃ cells ∈ texts, Row.read cells = .ok s := by
  have htoOption (outcome : Except SkipReason Stock) :
      outcome.toOption = some s ↔ outcome = .ok s := by
    cases outcome <;> simp [Except.toOption]
  simp only [ofRows, List.mem_filterMap, List.mem_map, exists_exists_and_eq_and, htoOption]

end Rows

namespace Service

variable {service : Service} {r : Request} {listed : List Stock} {query : Option Text}

theorem Selects.subset (h : Selects service r listed query) : listed ⊆ service.dataset.stocks := by
  cases h with
  | all => exact List.Subset.refl _
  | filtered => exact List.filter_subset_self _

theorem Selects.not_acceptsPage (h : Selects service r listed query)
    (htype : (respond service r).header? "content-type".toList = some "application/json".toList) :
    ¬AcceptsPage r := by
  intro hpage
  have hne : some documentType ≠ some pageType := by decide
  exact hne (htype.symm.trans (h.represents.contentType.mpr hpage))

theorem respond_reread {bytes : Bytes} {d : Dataset} (hload : Dataset.ofBytes bytes = .ok d)
    (origins : List Text) {r : Request} {listed : List Stock} {query : Option Text}
    (h : Selects ⟨d, origins⟩ r listed query)
    (htype : (respond ⟨d, origins⟩ r).header? "content-type".toList = some "application/json".toList) :
    let body := Utf8.encode (respond ⟨d, origins⟩ r).body
    body = Utf8.encode (Json.array (listed.map Stock.namedMetrics)).compact ∧
      ((∀ s ∈ listed, s.IsFinite) → ∃ stocks', readAll stocksFromDocument body = .ok stocks' ∧
        List.Forall₂ Stock.RereadAs listed stocks') ∧
      ((∃ s ∈ listed, ¬s.IsFinite) → ∃ cause,
        readAll stocksFromDocument body = .error (.mismatch cause) ∧
          cause.message = "invalid type: null, expected f64".toList) ∧
      ∃ header rows, ∃ texts : List (List Text), Csv.records bytes = header :: rows ∧
        Dataset.textRows rows = texts.map Except.ok ∧
        ∀ s ∈ listed, ∃ cells ∈ texts, Row.read cells = .ok s ∧
          (s.IsFinite ↔
            ∀ field x, Binary64.ofText? (Row.cell cells field) = some x → x.isFinite = true) := by
  intro body
  have hbody : body = Utf8.encode (stocksDocument listed).compact :=
    congrArg Utf8.encode (h.body_document (h.not_acceptsPage htype))
  rw [hbody, ← compact_stocksDocument]
  refine ⟨rfl, readAll_stocksDocument,
    fun h => ⟨_, readAll_stocksDocument_error h, by decide⟩, ?_⟩
  obtain ⟨header, rows, names, texts, hrecords, -, htexts, rfl⟩ := Dataset.ofBytes_eq_ok_iff.mp hload
  refine ⟨header, rows, texts, hrecords, htexts, fun s hs => ?_⟩
  obtain ⟨cells, hcells, hread⟩ := Dataset.mem_ofRows.mp (h.subset hs)
  exact ⟨cells, hcells, hread, Row.isFinite_iff hread⟩

theorem respond_reread_of_overflow :
    let bytes := Utf8.encode "h\nA,1e400,,,,,,,,\nB,1,,,,,,,,".toList
    let one := Stock.capitalized ['B'] (.signed false ⟨0x3FF0000000000000, by decide⟩)
    let d : Dataset := ⟨[.capitalized ['A'] (.signed false .infinity), one], ⟨2, []⟩⟩
    let t := "Market Capitalization < inf".toList
    let r : Request := ⟨"POST".toList, "/filter".toList, [], FilterRequest.plainBody t⟩
    Dataset.ofBytes bytes = .ok d ∧ Selects ⟨d, []⟩ r [one] (some t) ∧
      (respond ⟨d, []⟩ r).header? "content-type".toList = some "application/json".toList ∧
      ∃ stocks', readAll stocksFromDocument (Utf8.encode (respond ⟨d, []⟩ r).body) = .ok stocks' ∧
        List.Forall₂ Stock.RereadAs [one] stocks' := by
  intro bytes one d t r
  have hload : Dataset.ofBytes bytes = .ok d := by decide +kernel
  have hscreen : d.screen t = [one] := by decide +kernel
  have hpage : ¬AcceptsPage r := fun h => absurd (wantsPage_iff.mpr h) (by decide)
  have hselects : Selects ⟨d, []⟩ r (d.screen t) (some t) :=
    .filtered rfl rfl (by decide) (FilterRequest.asksFor_plainBody t).ofBody_eq
  rw [hscreen] at hselects
  have htype := (hselects.represents.document hpage).1
  have hreread := (respond_reread hload [] hselects htype).2.1
  exact ⟨hload, hselects, htype,
    hreread (List.forall_mem_singleton.mpr (Stock.capitalized_isFinite _ rfl))⟩

theorem respond_unreadable :
    let d : Dataset := ⟨[.capitalized ['A'] .nan], ⟨1, []⟩⟩
    let r : Request := ⟨"GET".toList, "/stocks".toList, [], []⟩
    Dataset.ofBytes (Utf8.encode "h\nA,nan,,,,,,,,".toList) = .ok d ∧
      (respond ⟨d, []⟩ r).status = 200 ∧
      (respond ⟨d, []⟩ r).header? "content-type".toList = some "application/json".toList ∧
      readAll stocksFromDocument (Utf8.encode (respond ⟨d, []⟩ r).body) = .error nullFault := by
  decide +kernel

end Service

end StockScreen
