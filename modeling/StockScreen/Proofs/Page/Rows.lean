import StockScreen.Proofs.Page.Rendering

namespace StockScreen

namespace Markup

def cellNames : List Text := ["th".toList, "td".toList]

def rowOpening : Text := "tr".toList

def rowClosing : Text := "/tr".toList

def rowNames : List Text := [rowOpening, rowClosing]

def rowsFrom : List (Text × Text) → List Text × List (List Text)
  | [] => ([], [])
  | (tag, t) :: parts =>
    if tag = rowOpening then ([], (rowsFrom parts).1 :: (rowsFrom parts).2)
    else if tag = rowClosing then ([], (rowsFrom parts).2)
    else if cellNames.contains tag then (unescape t :: (rowsFrom parts).1, (rowsFrom parts).2)
    else rowsFrom parts

def rows (m : Markup) : List (List Text) := (rowsFrom m.parts).2

variable {parts rest : List (Text × Text)} {name : Text}

theorem rowsFrom_other (h : ∀ tag ∈ parts.map Prod.fst, tag ∉ cellNames ∧ tag ∉ rowNames) :
    rowsFrom (parts ++ rest) = rowsFrom rest := by
  induction parts with
  | nil => rfl
  | cons part parts ih =>
    obtain ⟨⟨hcell, hrow⟩, hparts⟩ := List.forall_mem_cons.mp h
    simp only [rowNames, List.mem_cons, List.not_mem_nil, or_false, not_or] at hrow
    rw [List.cons_append, rowsFrom, ih hparts, if_neg hrow.1, if_neg hrow.2,
      if_neg (List.contains_iff_mem.not.mpr hcell)]

theorem rowsFrom_elements (hname : name ∈ cellNames) (cells : List Text) :
    rowsFrom (cells.flatMap (Page.element name) ++ rest) =
      (cells ++ (rowsFrom rest).1, (rowsFrom rest).2) := by
  have hnames : ∀ name ∈ cellNames, '/' :: name ∉ cellNames ∧ '/' :: name ∉ rowNames ∧
      name ∉ rowNames := by decide
  obtain ⟨hend, hend', hname'⟩ := hnames name hname
  simp only [rowNames, List.mem_cons, List.not_mem_nil, or_false, not_or] at hend' hname'
  induction cells with
  | nil => rfl
  | cons cell cells ih =>
    rw [List.flatMap_cons, List.append_assoc, Page.element, List.cons_append, List.cons_append,
      List.nil_append, rowsFrom, rowsFrom, ih, Page.unescape_escape]
    simp only [List.contains_iff_mem, hname, hname', hend, hend', if_true, if_false,
      List.cons_append]

theorem rowsFrom_row (hname : name ∈ cellNames) (cells : List Text) :
    rowsFrom ((rowOpening, []) :: cells.flatMap (Page.element name) ++
      (rowClosing, ['\n']) :: rest) = ([], cells :: (rowsFrom rest).2) := by
  have hne : rowClosing ≠ rowOpening := by decide
  rw [List.cons_append, rowsFrom, rowsFrom_elements hname, rowsFrom, if_pos rfl, if_neg hne,
    if_pos rfl, List.append_nil]

end Markup

namespace Page

open Markup

theorem rowsFrom_front (query : Option Text) (n : Nat) (rest : List (Text × Text)) :
    rowsFrom (openingParts ++ echoParts query ++ countParts n ++ rest) = rowsFrom rest := by
  have hopening : ∀ tag ∈ openingParts.map Prod.fst, tag ∉ cellNames ∧ tag ∉ rowNames := by decide
  have hcount : (countParts n).map Prod.fst = ["p".toList, "/p".toList] := rfl
  refine rowsFrom_other ?_
  rw [List.map_append, List.map_append, hcount]
  simp only [List.forall_mem_append]
  refine ⟨⟨hopening, ?_⟩, by decide⟩
  cases query with
  | none => exact List.forall_mem_nil _
  | some query =>
    have hecho : (echoParts (some query)).map Prod.fst =
        ["p".toList, "code".toList, "/code".toList, "/p".toList] := rfl
    rw [hecho]
    decide

theorem rowsFrom_headings (rest : List (Text × Text)) :
    (rowsFrom (headingParts ++ rest)).2 = Stock.headings :: (rowsFrom rest).2 := by
  have hparts : headingParts ++ rest = [("table".toList, ['\n']), ("thead".toList, ['\n'])] ++
      ((rowOpening, []) :: Stock.headings.flatMap (element "th".toList) ++ (rowClosing, ['\n']) ::
        ([("/thead".toList, ['\n']), ("tbody".toList, ['\n'])] ++ rest)) := by
    simp only [headingParts, List.append_assoc, List.cons_append, List.nil_append]
    rfl
  rw [hparts, rowsFrom_other (by decide), rowsFrom_row (by decide), rowsFrom_other (by decide)]

theorem rowsFrom_rows (stocks : List Stock) (rest : List (Text × Text)) :
    (rowsFrom (stocks.flatMap rowParts ++ rest)).2 =
      stocks.map Stock.texts ++ (rowsFrom rest).2 := by
  induction stocks with
  | nil => rfl
  | cons s stocks ih =>
    have hparts : rowParts s = (rowOpening, []) :: s.texts.flatMap (element "td".toList) ++
        [(rowClosing, ['\n'])] := rfl
    rw [List.flatMap_cons, hparts, List.append_assoc, List.append_assoc, List.singleton_append,
      rowsFrom_row (by decide), ih]
    rfl

theorem rows_render (stocks : List Stock) (query : Option Text) :
    (cut (render stocks query)).rows = Stock.headings :: stocks.map Stock.texts := by
  have hclosing : (rowsFrom closingParts).2 = [] := by decide
  rw [cut_render, layout, rows, List.append_assoc, List.append_assoc, rowsFrom_front,
    rowsFrom_headings, rowsFrom_rows, hclosing, List.append_nil]

end Page

end StockScreen
