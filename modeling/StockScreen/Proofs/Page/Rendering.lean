import StockScreen.Proofs.Binary64.ReadBack
import StockScreen.Proofs.Dataset.Rows
import StockScreen.Proofs.Page.Markup

namespace StockScreen.Page

open Markup

section Layout

def element (name content : Text) : List (Text × Text) :=
  [(name, escape content), ('/' :: name, [])]

def openingParts : List (Text × Text) :=
  [("!DOCTYPE html".toList, ['\n']), ("html".toList, ['\n']), ("head".toList, ['\n']),
    ("meta charset=\"utf-8\"".toList, ['\n']), ("title".toList, "Stocks".toList),
    ("/title".toList, ['\n']), ("/head".toList, ['\n']), ("body".toList, ['\n'])]

def echoParts : Option Text → List (Text × Text)
  | none => []
  | some query =>
    ("p".toList, "Query: ".toList) :: element "code".toList query ++ [("/p".toList, ['\n'])]

def countParts (n : Nat) : List (Text × Text) :=
  [("p".toList, Text.ofNat n ++ " stocks".toList), ("/p".toList, ['\n'])]

def headingParts : List (Text × Text) :=
  [("table".toList, ['\n']), ("thead".toList, ['\n']), ("tr".toList, [])] ++
    Stock.headings.flatMap (element "th".toList) ++
    [("/tr".toList, ['\n']), ("/thead".toList, ['\n']), ("tbody".toList, ['\n'])]

def rowParts (s : Stock) : List (Text × Text) :=
  ("tr".toList, []) :: s.texts.flatMap (element "td".toList) ++ [("/tr".toList, ['\n'])]

def closingParts : List (Text × Text) :=
  [("/tbody".toList, ['\n']), ("/table".toList, ['\n']), ("/body".toList, ['\n']),
    ("/html".toList, ['\n'])]

def layout (stocks : List Stock) (query : Option Text) : Markup :=
  ⟨[], openingParts ++ echoParts query ++ countParts stocks.length ++ headingParts ++
    stocks.flatMap rowParts ++ closingParts⟩

theorem not_special_of_plain (x : Binary64) : ∀ c ∈ x.plain, c ∉ special := by
  have halphabet : ∀ c ∈ Literal.alphabet, c ∉ special := by decide
  obtain ⟨l, hl, -⟩ := x.spelled_plain
  intro c hc
  exact halphabet c (hl.mem_alphabet c hc)

-- Definitions are opened with delta, since their equations would evaluate the literals in them.

theorem text_element (name content : Text) :
    (element name content).flatMap partText =
      '<' :: (name ++ '>' :: (escape content ++ '<' :: '/' :: (name ++ ['>']))) := by
  simp [element, partText]

theorem heading_eq (t : Text) : heading t = (element "th".toList t).flatMap partText := by
  delta heading
  rw [text_element, List.append_assoc]
  rfl

theorem cell_escape (t : Text) : cell (escape t) = (element "td".toList t).flatMap partText := by
  delta cell
  rw [text_element, List.append_assoc]
  rfl

theorem cell_plain (x : Binary64) :
    cell x.plain = (element "td".toList x.plain).flatMap partText := by
  rw [← cell_escape, escape_of_not_special (not_special_of_plain x)]

theorem row_eq (s : Stock) : row s = (rowParts s).flatMap partText := by
  have hcells : (s.texts.flatMap (element "td".toList)).flatMap partText =
      cell (escape s.name) ++ s.values.flatMap fun x => cell x.plain := by
    rw [List.flatMap_assoc, Stock.texts, Stock.values, List.flatMap_cons, List.flatMap_map,
      List.flatMap_map, cell_escape]
    simp only [cell_plain]
  rw [rowParts, List.flatMap_append, List.flatMap_cons, hcells]
  delta row
  simp [partText]

theorem headings_eq : headings = headingParts.flatMap partText := by
  have hcells : (Stock.headings.flatMap (element "th".toList)).flatMap partText =
      (Stock.nameKey :: Field.all.map Field.name).flatMap heading := by
    rw [List.flatMap_assoc, Stock.headings]
    exact List.flatMap_congr fun t _ => (heading_eq t).symm
  rw [headingParts, List.flatMap_append, List.flatMap_append, hcells]
  delta headings
  simp [partText]

theorem echo_some (query : Text) : echo (some query) =
    "<p>Query: <code>".toList ++ escape query ++ "</code></p>\n".toList := rfl

theorem echo_eq (query : Option Text) : echo query = (echoParts query).flatMap partText := by
  cases query with
  | none => rfl
  | some query =>
    rw [echo_some]
    simp [echoParts, element, partText]

theorem count_eq (n : Nat) : count n = (countParts n).flatMap partText := by
  simp [count, countParts, partText]

theorem render_eq (stocks : List Stock) (query : Option Text) :
    render stocks query = (layout stocks query).text := by
  have hhead : head = openingParts.flatMap partText := by
    delta head openingParts
    simp [partText]
  have hfoot : foot = closingParts.flatMap partText := rfl
  have hrows : stocks.flatMap row = (stocks.flatMap rowParts).flatMap partText := by
    rw [List.flatMap_assoc]
    exact List.flatMap_congr fun s _ => row_eq s
  rw [render, hhead, echo_eq, count_eq, headings_eq, hrows, hfoot, layout, text]
  simp only [List.flatMap_append, List.nil_append]

theorem element_clean {name : Text} (hname : '>' ∉ name) (content : Text) :
    ∀ part ∈ element name content, CleanPart part := by
  have hcontent : '<' ∉ escape content := (escaped_escape content).1 '<' (by decide)
  have hclosing : '>' ∉ '/' :: name := List.not_mem_cons_of_ne_of_not_mem (by decide) hname
  rw [element, List.forall_mem_cons, List.forall_mem_singleton]
  exact ⟨⟨hname, hcontent⟩, hclosing, List.not_mem_nil⟩

theorem elements_clean {name : Text} (hname : '>' ∉ name) (contents : List Text) :
    ∀ part ∈ contents.flatMap (element name), CleanPart part :=
  List.forall_mem_flatMap.mpr fun content _ => element_clean hname content

theorem layout_clean (stocks : List Stock) (query : Option Text) : (layout stocks query).Clean := by
  have hopening : ∀ part ∈ openingParts, CleanPart part := by decide
  have hclosing : ∀ part ∈ closingParts, CleanPart part := by decide
  have hecho : ∀ part ∈ echoParts query, CleanPart part := by
    cases query with
    | none => exact List.forall_mem_nil _
    | some query =>
      simp only [echoParts, List.forall_mem_append, List.forall_mem_cons]
      exact ⟨⟨by decide, element_clean (by decide) query⟩, by decide, List.forall_mem_nil _⟩
  have hcount : ∀ part ∈ countParts stocks.length, CleanPart part := by
    have hnat : '<' ∉ Text.ofNat stocks.length := fun h =>
      absurd (Binary64.digits_ofNat _ '<' h) (by decide)
    have htext : '<' ∉ Text.ofNat stocks.length ++ " stocks".toList :=
      List.not_mem_append hnat (by decide)
    have htag : '>' ∉ "p".toList := by decide
    rw [countParts, List.forall_mem_cons, List.forall_mem_singleton]
    exact ⟨⟨htag, htext⟩, by decide⟩
  have hheading : ∀ part ∈ headingParts, CleanPart part := by
    simp only [headingParts, List.forall_mem_append]
    exact ⟨⟨by decide, elements_clean (by decide) _⟩, by decide⟩
  have hrow (s : Stock) : ∀ part ∈ rowParts s, CleanPart part := by
    simp only [rowParts, List.forall_mem_append, List.forall_mem_cons]
    exact ⟨⟨by decide, elements_clean (by decide) _⟩, by decide, List.forall_mem_nil _⟩
  refine ⟨List.not_mem_nil, ?_⟩
  simp only [layout, List.forall_mem_append, List.forall_mem_flatMap]
  exact ⟨⟨⟨⟨⟨hopening, hecho⟩, hcount⟩, hheading⟩, fun s _ => hrow s⟩, hclosing⟩

theorem cut_render (stocks : List Stock) (query : Option Text) :
    cut (render stocks query) = layout stocks query := by
  rw [render_eq, cut_text (layout_clean stocks query)]

end Layout

section Reading

def contentNames : List Text := ["code".toList, "th".toList, "td".toList]

def rowTags : List Text :=
  "tr".toList :: (List.replicate 10 ["td".toList, "/td".toList]).flatten ++ ["/tr".toList]

def tags (n : Nat) (echoed : Bool) : List Text :=
  ["!DOCTYPE html".toList, "html".toList, "head".toList, "meta charset=\"utf-8\"".toList,
    "title".toList, "/title".toList, "/head".toList, "body".toList] ++
  (if echoed then ["p".toList, "code".toList, "/code".toList, "/p".toList] else []) ++
  ["p".toList, "/p".toList, "table".toList, "thead".toList, "tr".toList] ++
  (List.replicate 10 ["th".toList, "/th".toList]).flatten ++
  ["/tr".toList, "/thead".toList, "tbody".toList] ++ (List.replicate n rowTags).flatten ++
  ["/tbody".toList, "/table".toList, "/body".toList, "/html".toList]

def framing (n : Nat) (echoed : Bool) : List Text :=
  [[], ['\n'], ['\n'], ['\n'], ['\n'], "Stocks".toList, ['\n'], ['\n'], ['\n']] ++
  (if echoed then ["Query: ".toList, [], ['\n']] else []) ++
  [Text.ofNat n ++ " stocks".toList, ['\n'], ['\n'], ['\n'], []] ++ List.replicate 10 [] ++
  [['\n'], ['\n'], ['\n']] ++ (List.replicate n ([] :: List.replicate 10 [] ++ [['\n']])).flatten ++
  [['\n'], ['\n'], ['\n'], ['\n']]

def shown (stocks : List Stock) (query : Option Text) : List Text :=
  query.toList ++ Stock.headings ++ stocks.flatMap Stock.texts

theorem flatMap_const {α β : Type} (l : List α) (b : List β) :
    (l.flatMap fun _ => b) = (List.replicate l.length b).flatten := by
  rw [List.flatMap_def, List.map_const']

theorem tags_layout (stocks : List Stock) (query : Option Text) :
    (layout stocks query).tags = tags stocks.length query.isSome := by
  have hrow (s : Stock) : (rowParts s).map Prod.fst = rowTags := rfl
  simp only [Markup.tags, layout, List.map_append, List.map_flatMap, hrow, flatMap_const]
  cases query <;> rfl

theorem textsAfter_layout (p : Text → Bool) (stocks : List Stock) (query : Option Text) :
    textsAfter p (layout stocks query).parts = textsAfter p openingParts ++
      textsAfter p (echoParts query) ++ textsAfter p (countParts stocks.length) ++
      textsAfter p headingParts ++ (stocks.flatMap fun s => textsAfter p (rowParts s)) ++
      textsAfter p closingParts := by
  simp only [layout, textsAfter_append, textsAfter_flatMap]

theorem inside_layout (stocks : List Stock) (query : Option Text) :
    (layout stocks query).inside contentNames = (shown stocks query).map escape := by
  have hrow (s : Stock) : textsAfter (· ∈ contentNames) (rowParts s) =
      s.texts.map escape := rfl
  have hclosing : textsAfter (· ∈ contentNames) closingParts = [] := rfl
  rw [Markup.inside, textsAfter_layout, hclosing, List.append_nil, shown]
  simp only [hrow, List.map_append, List.map_flatMap]
  cases query <;> rfl

theorem outside_layout (stocks : List Stock) (query : Option Text) :
    (layout stocks query).outside contentNames = framing stocks.length query.isSome := by
  have hrow (s : Stock) : textsAfter (· ∉ contentNames) (rowParts s) =
      [] :: List.replicate 10 [] ++ [['\n']] := rfl
  rw [Markup.outside, textsAfter_layout]
  simp only [hrow, flatMap_const]
  cases query <;> rfl

theorem inside_cells (stocks : List Stock) (query : Option Text) :
    (layout stocks query).inside ["td".toList] = (stocks.flatMap Stock.texts).map escape := by
  have hrow (s : Stock) : textsAfter (· ∈ ["td".toList]) (rowParts s) =
      s.texts.map escape := rfl
  have hclosing : textsAfter (· ∈ ["td".toList]) closingParts = [] := rfl
  rw [Markup.inside, textsAfter_layout, hclosing, List.append_nil]
  simp only [hrow, List.map_flatMap]
  cases query <;> rfl

theorem inside_code (stocks : List Stock) (query : Option Text) :
    (layout stocks query).inside ["code".toList] = query.toList.map escape := by
  have hrow (s : Stock) : textsAfter (· ∈ ["code".toList]) (rowParts s) = [] := rfl
  rw [Markup.inside, textsAfter_layout]
  simp only [hrow, flatMap_const, List.flatten_replicate_nil]
  cases query <;> rfl

theorem inside_paragraphs (stocks : List Stock) (query : Option Text) :
    (layout stocks query).inside ["p".toList] =
      (query.toList.map fun _ => "Query: ".toList) ++
        [Text.ofNat stocks.length ++ " stocks".toList] := by
  have hrow (s : Stock) : textsAfter (· ∈ ["p".toList]) (rowParts s) = [] := rfl
  rw [Markup.inside, textsAfter_layout]
  simp only [hrow, flatMap_const, List.flatten_replicate_nil]
  cases query <;> rfl

theorem map_unescape_escape (contents : List Text) :
    (contents.map escape).map unescape = contents := by
  rw [List.map_map]
  exact (List.map_congr_left fun t _ => unescape_escape t).trans (List.map_id _)

theorem plain_injective : Function.Injective Binary64.plain := by
  intro x y h
  have hx := x.ofText?_plain
  rw [h, y.ofText?_plain] at hx
  exact (Option.some.inj hx).symm

theorem texts_injective : Function.Injective Stock.texts := by
  intro s t h
  obtain ⟨hname, hplain⟩ := List.cons.inj h
  have hvalues : Field.all.map s.value = Field.all.map t.value :=
    List.map_injective_iff.mpr plain_injective hplain
  refine Stock.eq_of_values hname fun field => ?_
  exact List.map_inj_left.mp hvalues field field.mem_all

theorem flatMap_texts_injective {stocks stocks' : List Stock}
    (h : stocks.flatMap Stock.texts = stocks'.flatMap Stock.texts) : stocks = stocks' := by
  induction stocks generalizing stocks' with
  | nil =>
    cases stocks' with
    | nil => rfl
    | cons s' stocks' => cases h
  | cons s stocks ih =>
    cases stocks' with
    | nil => cases h
    | cons s' stocks' =>
      rw [List.flatMap_cons, List.flatMap_cons] at h
      have hlen : s.texts.length = s'.texts.length := rfl
      obtain ⟨hs, hstocks⟩ := List.append_inj h hlen
      rw [texts_injective hs, ih hstocks]

theorem length_tags (n : Nat) (echoed : Bool) :
    (tags n echoed).length = 40 + 22 * n + if echoed then 4 else 0 := by
  cases echoed <;> simp [tags, rowTags] <;> omega

/-- A row has more tags than the echo of a query, so their number tells the two apart. -/
theorem tags_length_injective {n n' : Nat} {echoed echoed' : Bool}
    (h : (tags n echoed).length = (tags n' echoed').length) : echoed = echoed' := by
  rw [length_tags, length_tags] at h
  cases echoed <;> cases echoed' <;> simp at h ⊢ <;> omega

theorem shown_injective {stocks stocks' : List Stock} {query query' : Option Text}
    (hquery : query.isSome = query'.isSome) (h : shown stocks query = shown stocks' query') :
    stocks = stocks' ∧ query = query' := by
  rw [shown, shown, List.append_assoc, List.append_assoc] at h
  have hlen : query.toList.length = query'.toList.length := by
    rw [Option.length_toList, Option.length_toList, hquery]
  obtain ⟨hecho, hcells⟩ := List.append_inj h hlen
  refine ⟨flatMap_texts_injective (List.append_cancel_left hcells), ?_⟩
  exact Option.head?_toList.symm.trans ((congrArg List.head? hecho).trans Option.head?_toList)

/-- A page is cut into a frame fixed by the number of rows and the presence of a query, and what it
shows, which tells all about the stocks and the query. -/
theorem render_faithful (stocks : List Stock) (query : Option Text) :
    (cut (render stocks query)).text = render stocks query ∧
    (cut (render stocks query)).tags = tags stocks.length query.isSome ∧
    ((cut (render stocks query)).inside contentNames).map unescape = shown stocks query ∧
    (cut (render stocks query)).outside contentNames = framing stocks.length query.isSome ∧
    (∀ t ∈ (cut (render stocks query)).inside contentNames, Escaped t) ∧
    ∀ stocks' query', render stocks' query' = render stocks query →
      stocks' = stocks ∧ query' = query := by
  have hshown (stocks : List Stock) (query : Option Text) :
      ((cut (render stocks query)).inside contentNames).map unescape = shown stocks query := by
    rw [cut_render, inside_layout, map_unescape_escape]
  have htags (stocks : List Stock) (query : Option Text) :
      (cut (render stocks query)).tags = tags stocks.length query.isSome := by
    rw [cut_render, tags_layout]
  refine ⟨?_, htags stocks query, hshown stocks query, ?_, ?_, ?_⟩
  · rw [cut_render, render_eq]
  · rw [cut_render, outside_layout]
  · rw [cut_render, inside_layout]
    intro t ht
    obtain ⟨content, -, rfl⟩ := List.mem_map.mp ht
    exact escaped_escape content
  · intro stocks' query' h
    -- Equal pages have equal tags and show the same, and that tells the stocks and the query.
    have hlen : (tags stocks'.length query'.isSome).length =
        (tags stocks.length query.isSome).length := by
      rw [← htags, ← htags, h]
    refine shown_injective (tags_length_injective hlen) ?_
    rw [← hshown, ← hshown, h]

theorem render_faithful_of_entity :
    render [Stock.ofValues "&lt;".toList fun _ => .zero] none ≠
      render [Stock.ofValues "<".toList fun _ => .zero] none := by
  intro h
  have hstocks := ((render_faithful _ none).2.2.2.2.2 _ _ h).1
  have hnames := congrArg (List.map Stock.name) hstocks
  exact absurd hnames (by decide)

end Reading

end StockScreen.Page
