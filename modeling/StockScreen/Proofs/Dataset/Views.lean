import StockScreen.Proofs.Dataset.Loading
import StockScreen.Proofs.Document.Completeness
import StockScreen.Proofs.Listing.Columns
import StockScreen.Proofs.Page.Rows
import StockScreen.Proofs.Query.Pasting

namespace StockScreen

open Utf8 (Bytes encode)

/-- The number in the column of a field; zero stands for a text that is none, but for the market
capitalization. -/
inductive Row.Gives (cells : List Text) (field : Field) : Binary64 → Prop where
  | number {t : Text} {x : Binary64} (ht : cells[field.index.val + 1]? = some t)
    (hx : Binary64.ofText? t.trim = some x) : Gives cells field x
  | zero {t : Text} (ht : cells[field.index.val + 1]? = some t)
    (hnone : Binary64.ofText? t.trim = none) (hfield : field ≠ .marketCap) :
    Gives cells field .zero

theorem Row.Means.gives {cells : List Text} {s : Stock} (h : Row.Means cells (.ok s))
    (field : Field) : Row.Gives cells field (s.value field) := by
  generalize houtcome : (Except.ok s : Except SkipReason Stock) = outcome at h
  cases h with
  | tooFewColumns => cases houtcome
  | invalidMarketCap => cases houtcome
  | @stock cap s' _ hcap hnumber _ hvalue =>
    obtain rfl := Except.ok.inj houtcome
    obtain ⟨t, ht, hx⟩ := hvalue field
    cases hread : Binary64.ofText? t.trim with
    | some x =>
      rw [hx, hread]
      exact .number ht hread
    | none =>
      rw [hx, hread]
      refine .zero ht hread ?_
      -- A row whose market capitalization is no number came to no stock.
      rintro rfl
      obtain rfl := Option.some.inj (hcap.symm.trans ht)
      exact hnumber hread

theorem Binary64.ofText?_numberText {x : Binary64} (hx : x.isFinite = true) :
    ofText? (Json.numberText x) = some x := by
  obtain ⟨l, hs, hv, -⟩ := (Shown.document hx).exists_spelled
  rw [ofText?, Literal.read?_eq_some_iff.mpr hs, Option.map_some, hv]

namespace Stock

open Json Text

structure Under (head row : List Text) (heading t : Text) : Prop where
  mem : heading ∈ head
  below : ∀ k : Nat, head[k]? = some heading → row[k]? = some t

structure Shows (s : Stock) (field : Field) (x : Binary64) : Prop where
  condition : ∀ op threshold,
    Condition.test? ⟨field.name, op, threshold⟩ s = some (op.compare x threshold)
  entry : ∃ entries, s.document = .object entries ∧
    ∀ v, (field.name, v) ∈ entries ↔ v = .number x
  document : ∃ members, ObjectDocument members (encode s.document.compact) ∧
    (∀ members', ObjectDocument members' (encode s.document.compact) → members' = members) ∧
    ∀ v, (field.name, v) ∈ members ↔ v = encode (numberText x)
  page : ∀ listed query (place : Nat), listed[place]? = some s → ∃ head row,
    (Markup.cut (Page.render listed query)).rows[0]? = some head ∧
    (Markup.cut (Page.render listed query)).rows[place + 1]? = some row ∧
    Under head row field.name x.plain
  table : ∀ listed lines (place : Nat), Table.stocks listed = some lines → listed[place]? = some s →
    ∃ top line offset, lines[0]? = some top ∧ lines[place + 1]? = some line ∧
      StandsAt field.name top offset ∧ StandsAt x.plain line offset

variable {s : Stock} {field : Field}

theorem mem_entries_iff {v : Json} : (field.name, v) ∈ s.entries ↔ v = .number (s.value field) := by
  rw [entries, List.mem_cons, List.mem_map]
  constructor
  · rintro (h | ⟨g, -, h⟩)
    · exact absurd (Prod.mk.inj h).1 (name_ne_nameKey field)
    · obtain ⟨hname, rfl⟩ := Prod.mk.inj h
      rw [Field.name_injective hname]
  · rintro rfl
    exact .inr ⟨field, field.mem_all, rfl⟩

theorem mem_written_iff {v : Bytes} :
    (field.name, v) ∈ s.entries.map written ↔ v = encode (numberText (s.value field)) := by
  rw [List.mem_map]
  constructor
  · rintro ⟨⟨key, json⟩, hentry, h⟩
    obtain ⟨rfl, rfl⟩ := Prod.mk.inj h
    rw [mem_entries_iff.mp hentry]
    rfl
  · rintro rfl
    exact ⟨_, mem_entries_iff.mpr rfl, rfl⟩

theorem under_texts (s : Stock) (field : Field) :
    Under headings s.texts field.name (s.value field).plain where
  mem := List.mem_cons_of_mem _ (List.mem_map_of_mem field.mem_all)
  below k hk := by
    cases k with
    | zero => exact absurd (Option.some.inj hk).symm (name_ne_nameKey field)
    | succ k =>
      have hname : (Field.all.map Field.name)[k]? = some field.name := hk
      have hfield : Field.all[k]? = some field := by
        obtain ⟨g, hg, hname⟩ := Option.map_eq_some_iff.mp (List.getElem?_map.symm.trans hname)
        rw [hg, Field.name_injective hname]
      rw [texts, List.getElem?_cons_succ, List.getElem?_map, hfield]
      rfl

theorem shows_value (s : Stock) (field : Field) : s.Shows field (s.value field) where
  condition op threshold := by
    rw [Condition.test?, Condition.known?, Field.named?_name, Option.map_some]
  entry := ⟨s.entries, document_eq s, fun _ => mem_entries_iff⟩
  document := by
    have hdocument := objectDocument_written (.refl s.entries)
    exact ⟨s.entries.map written, hdocument, fun _ h => h.unique hdocument,
      fun _ => mem_written_iff⟩
  page listed query place hs := by
    refine ⟨headings, s.texts, ?_, ?_, under_texts s field⟩
    · rw [Page.rows_render, List.getElem?_cons_zero]
    · rw [Page.rows_render, List.getElem?_cons_succ, List.getElem?_map, hs, Option.map_some]
  table listed lines place hlines hs := by
    obtain ⟨hmem, hbelow⟩ := under_texts s field
    obtain ⟨k, hk⟩ := List.mem_iff_getElem?.mp hmem
    exact Table.stocks_shows hlines hs hk (hbelow k hk)

end Stock

namespace Dataset

/-- Whatever loads, every view of a stock has the numbers of the row that it came from, under the
names of their fields. There is a table unless a name is too long for one, and a text that names no
field is resolved to none. -/
theorem ofBytes_views {bytes : Bytes} {d : Dataset} (h : ofBytes bytes = .ok d) :
    (∃ header rows, ∃ texts : List (List Text), Csv.records bytes = header :: rows ∧
      textRows rows = texts.map Except.ok ∧
      List.Forall₂ (fun row s => Row.read row.1 = .ok s ∧
          ∀ field, ∃ x, Row.Gives row.1 field x ∧ Stock.Shows s field x)
        ((texts.zipIdx 1).filter fun row => row.2 ∉ d.report.skipped.map SkippedRow.row)
        d.stocks) ∧
    (∀ listed, Table.stocks listed = none ↔ ∃ s ∈ listed, Table.widthLimit < s.name.length) ∧
    (∀ x : Binary64, Binary64.ofText? x.plain = some x ∧
      (x.isFinite = true → Binary64.ofText? (Json.numberText x) = some x) ∧
      (¬x.isFinite = true → Json.numberText x = "null".toList)) ∧
    ∀ text, (∀ field, Field.name field ≠ text) → Field.named? text = none ∧
      ∀ op threshold s, Condition.test? ⟨text, op, threshold⟩ s = none := by
  obtain ⟨header, rows, names, texts, hrecords, -, htexts, rfl⟩ := ofBytes_eq_ok_iff.mp h
  refine ⟨⟨header, rows, texts, hrecords, htexts, ?_⟩, fun listed => Table.stocks_eq_none_iff,
    fun x => ⟨x.ofText?_plain, Binary64.ofText?_numberText, Json.numberText_of_not_finite⟩,
    fun text htext => ?_⟩
  · exact (entered_ofRows texts).stocks_from.imp fun row s hmeans =>
      ⟨Row.means_iff.mp hmeans, fun field => ⟨_, hmeans.gives field, s.shows_value field⟩⟩
  · have hnone : Field.named? text = none :=
      Option.eq_none_iff_forall_ne_some.mpr fun field hfield =>
        htext field (Field.named?_eq_some_iff.mp hfield)
    exact ⟨hnone, fun op threshold s => by rw [Condition.test?, Condition.known?, hnone]; rfl⟩

def mixedText : Text := "h\nA  B, inf,x,-0,nan,-inf,,0,.0,infinity\n".toList

def mixed : Stock := .ofValues "A  B".toList fun
  | .marketCap | .grossMargin => .signed false .infinity
  | .returnOnEquity => .signed true .zero
  | .debtEquity => .nan
  | .dividendYield => .signed true .infinity
  | _ => .zero

theorem ofBytes_views_mixed :
    ofBytes (encode mixedText) = .ok ⟨[mixed], ⟨1, []⟩⟩ ∧
      (∃ cells, Row.read cells = .ok mixed ∧
        ∀ field, ∃ x, Row.Gives cells field x ∧ mixed.Shows field x) ∧
      Table.stocks [mixed] ≠ none ∧
      (∀ field, Field.name field ≠ Stock.nameKey) ∧ Field.named? Stock.nameKey = none := by
  have h : ofBytes (encode mixedText) = .ok ⟨[mixed], ⟨1, []⟩⟩ := by decide +kernel
  obtain ⟨⟨header, rows, texts, -, -, hrows⟩, htable, -, hnames⟩ := ofBytes_views h
  obtain ⟨row, -, hviews, -, -⟩ := List.forall₂_cons_right_iff.mp hrows
  refine ⟨h, ⟨row.1, hviews⟩, fun hnone => ?_, Stock.name_ne_nameKey,
    (hnames _ Stock.name_ne_nameKey).1⟩
  obtain ⟨s, hs, hwide⟩ := (htable [mixed]).mp hnone
  obtain rfl := List.mem_singleton.mp hs
  exact absurd hwide (by decide)

section Wide

variable {name : Text}

def named (h : ∀ c ∈ name, c ∉ Csv.special) : Csv.WrittenTable where
  mark := false
  blankLines := []
  header := ⟨List.replicate 2 ⟨['h'], false, fun _ => by decide⟩, by simp, by simp⟩
  wide := by simp
  rows := [(⟨.lineFeed, []⟩, ⟨⟨name, false, fun _ => h⟩ ::
    List.replicate 9 ⟨['0'], false, fun _ => by decide⟩, by simp, by simp⟩)]
  closing := [.lineFeed]

theorem text_named (h : ∀ c ∈ name, c ∉ Csv.special) : (named h).text =
    "h,h\n".toList ++ (name ++ ",0,0,0,0,0,0,0,0,0\n".toList) := by
  simp [named, Csv.WrittenTable.text, Csv.WrittenTable.body, Csv.WrittenRow.text,
    Csv.WrittenCell.text, Csv.blankText, Csv.LineBreak.text, Csv.LineEnd.text, Text.join,
    List.intercalate]

theorem read_named (name : Text) : Row.read (name :: List.replicate 9 ['0']) =
    .ok (.ofValues name fun _ => .zero) := by
  refine Row.read_of_means (.stock (Nat.le_refl 10) rfl (by decide) rfl fun field => ?_)
  have hzero : (Binary64.ofText? (Text.trim ['0'])).getD .zero = .zero := by decide
  rw [Stock.value_ofValues, ← hzero]
  exact ⟨['0'], by cases field <;> rfl, rfl⟩

theorem ofBytes_named (h : ∀ c ∈ name, c ∉ Csv.special) :
    ofBytes (encode ("h,h\n".toList ++ (name ++ ",0,0,0,0,0,0,0,0,0\n".toList))) =
      .ok ⟨[.ofValues name fun _ => .zero], ⟨1, []⟩⟩ := by
  have hcontents : (named h).contents = [name :: List.replicate 9 ['0']] := rfl
  rw [← text_named h, ofBytes_text, hcontents, ofRows, List.map_singleton, read_named]
  rfl

theorem ofBytes_wide :
    ∃ d, ofBytes (encode ("h,h\n".toList ++
        (List.replicate 65536 'n' ++ ",0,0,0,0,0,0,0,0,0\n".toList))) = .ok d ∧
      d.stocks = [.ofValues (List.replicate 65536 'n') fun _ => .zero] ∧
      Table.stocks d.stocks = none := by
  have hname : ∀ c ∈ List.replicate 65536 'n', c ∉ Csv.special := by
    intro c hc
    rw [List.eq_of_mem_replicate hc]
    decide
  have hlong : Table.widthLimit < (List.replicate 65536 'n').length := by
    rw [List.length_replicate, Table.widthLimit]
    decide
  exact ⟨_, ofBytes_named hname, rfl,
    Table.stocks_eq_none_iff.mpr ⟨_, List.mem_singleton_self _, hlong⟩⟩

end Wide

end Dataset

end StockScreen
