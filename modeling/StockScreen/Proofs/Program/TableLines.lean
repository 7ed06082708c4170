import StockScreen.Proofs.Listing.Formats
import StockScreen.Proofs.Program.Outcomes

namespace StockScreen

namespace Text

def breaks : List Char := ['\n', '\x0b', '\x0c', '\r', '\u0085', '\u2028', '\u2029']

theorem count_ofLines (c : Char) (lines : List Text) :
    (ofLines lines).count c =
      (if c = '\n' then lines.length else 0) + (lines.map (List.count c)).sum := by
  induction lines with
  | nil => simp [ofLines]
  | cons line lines ih =>
    have hcons : ofLines (line :: lines) = line ++ ('\n' :: ofLines lines) := by
      rw [ofLines, List.flatMap_cons, List.append_assoc]
      rfl
    rw [hcons, List.count_append, List.count_cons, ih, List.map_cons, List.sum_cons,
      List.length_cons]
    by_cases hc : c = '\n'
    · simp only [hc, BEq.rfl, ↓reduceIte]
      omega
    · have hbeq : ('\n' == c) = false := beq_false_of_ne (Ne.symm hc)
      simp only [hc, hbeq, Bool.false_eq_true, ↓reduceIte]
      omega

theorem sum_count_eq_zero_iff {α : Type} (f : α → Text) {l : List α} {c : Char} :
    (l.map fun x => (f x).count c).sum = 0 ↔ ∀ x ∈ l, c ∉ f x := by
  rw [List.sum_eq_zero_iff_forall_eq_nat, List.forall_mem_map]
  simp only [List.count_eq_zero]

theorem split_ofLines_iff {lines : List Text} :
    split ['\n'] (ofLines lines) = lines ++ [[]] ↔ ∀ line ∈ lines, '\n' ∉ line := by
  have hu : Unbordered ['\n'] := by decide
  refine ⟨fun h line hline hbreak => ?_, split_ofLines⟩
  have hmem : line ∈ split ['\n'] (ofLines lines) := h ▸ List.mem_append_left [[]] hline
  exact not_infix_of_mem_split hu hmem ((List.singleton_infix_iff _ _).mpr hbreak)

end Text

namespace Table

open Text

variable {ws : List Nat} {cells : List Text} {line : Text} {rows : List (List Text)} {lines : List Text}
  {listed : List Stock} {c : Char}

theorem Laid.count (h : Laid ws cells line) (hc : c ≠ ' ') :
    line.count c = (cells.map (List.count c)).sum := by
  induction h with
  | last => simp
  | @next w n ws cells cell line hw hrest ih =>
    have hspace : ' ' ≠ c := Ne.symm hc
    rw [List.count_append, List.count_append, List.count_replicate, ih, List.map_cons, List.sum_cons]
    simp [hspace]

theorem space_not_break : ' ' ∉ breaks := by decide

theorem count_headings : ∀ c ∈ breaks, (Stock.headings.map (List.count c)).sum = 0 := by decide

theorem count_texts (hc : c ∈ breaks) (s : Stock) :
    (s.texts.map (List.count c)).sum = s.name.count c := by
  have halphabet : ∀ c ∈ breaks, c ∉ Literal.alphabet := by decide
  have hmetrics : ((Field.all.map fun field => (s.value field).plain).map (List.count c)).sum = 0 := by
    rw [List.map_map]
    exact (sum_count_eq_zero_iff fun field => (s.value field).plain).mpr fun field _ hx =>
      halphabet c hc (Binary64.mem_alphabet_of_mem_plain hx)
  rw [Stock.texts, List.map_cons, List.sum_cons, hmetrics, Nat.add_zero]

theorem count_rows (h : List.Forall₂ (Laid ws) rows lines) (hc : c ≠ ' ') :
    (lines.map (List.count c)).sum = (rows.map fun row => (row.map (List.count c)).sum).sum := by
  induction h with
  | nil => rfl
  | cons hrow _ ih => rw [List.map_cons, List.sum_cons, hrow.count hc, ih, List.map_cons, List.sum_cons]

theorem count_lines (h : List.Forall₂ (Laid ws) (Stock.headings :: listed.map Stock.texts) lines)
    (hc : c ∈ breaks) :
    (lines.map (List.count c)).sum = (listed.map fun s => s.name.count c).sum := by
  have hspace : c ≠ ' ' := fun he => space_not_break (he ▸ hc)
  rw [count_rows h hspace, List.map_cons, List.sum_cons, count_headings c hc, Nat.zero_add,
    List.map_map]
  exact congrArg List.sum (List.map_congr_left fun s _ => count_texts hc s)

theorem not_break_iff (h : List.Forall₂ (Laid ws) (Stock.headings :: listed.map Stock.texts) lines)
    (hc : c ∈ breaks) : (∀ line ∈ lines, c ∉ line) ↔ ∀ s ∈ listed, c ∉ s.name := by
  have hlines : (lines.map (List.count c)).sum = 0 ↔ ∀ line ∈ lines, c ∉ line :=
    sum_count_eq_zero_iff fun line => line
  rw [← hlines, ← sum_count_eq_zero_iff Stock.name, count_lines h hc]

theorem exists_laid (h : ∀ s ∈ listed, s.name.length ≤ widthLimit) :
    ∃ ws lines, stocks listed = some lines ∧
      List.Forall₂ (Laid ws) (Stock.headings :: listed.map Stock.texts) lines := by
  refine ⟨widths (headings :: listed.map cells), _, stocks_eq_some h, ?_⟩
  rw [← rows_eq]
  exact forall₂_map (rows_laid listed)

end Table

namespace Outcome

open Text Table

variable {bytes : Utf8.Bytes} {d : Dataset} {listed : List Stock}

/-- What is written of a dataset that has loaded is a line of headings and a line for each stock that
is listed, unless a name is too long for a table. They are the lines of the output exactly if no name
has a line feed inside, and any other break in it comes from a name too. -/
theorem run_table_lines (world : World) (i : Invocation)
    (hfile : world.files i.dataset = .ok (.file bytes)) (hload : Dataset.ofBytes bytes = .ok d)
    (hformat : i.format = .table) (hsink : world.sink = .ready)
    (hlisted : i.action = .stocks ∧ listed = d.stocks ∨
      ∃ t, i.action = .filter t ∧ listed = d.screen t) :
    ((∃ s ∈ listed, widthLimit < s.name.length) →
      (run world i).output = [] ∧ (run world i).failure = some .columnTooWide) ∧
    ((∀ s ∈ listed, s.name.length ≤ widthLimit) → ∃ ws lines,
      (run world i).exit = 0 ∧ (run world i).output = ofLines lines ∧
      List.Forall₂ (Laid ws) (Stock.headings :: listed.map Stock.texts) lines ∧
      (split ['\n'] (run world i).output = lines ++ [[]] ↔ ∀ s ∈ listed, '\n' ∉ s.name) ∧
      ∀ c ∈ breaks, (run world i).output.count c =
        (if c = '\n' then 1 + listed.length else 0) +
          (listed.map fun s => s.name.count c).sum) := by
  obtain ⟨listing, hmakes, hcontent⟩ : ∃ listing, i.action.Makes (.ok d) listing ∧
      listing.content = .stocks listed := by
    rcases hlisted with ⟨haction, rfl⟩ | ⟨t, haction, rfl⟩
    · exact ⟨.all d, haction ▸ .stocks, rfl⟩
    · exact ⟨.filter d t, haction ▸ .filter, rfl⟩
  have hends := run_makes (((Dataset.ofPath_file hfile).trans hload).symm ▸ hmakes)
  constructor
  · intro hwide
    rw [hends.aborts ⟨hformat, listed, hcontent, hwide⟩]
    exact ⟨rfl, rfl⟩
  · intro hfits
    have htable : ¬listing.content.TooWide i.format := by
      rintro ⟨-, listed', hlisted', s, hs, hwide⟩
      obtain rfl := Content.stocks.inj (hcontent.symm.trans hlisted')
      exact absurd (hfits s hs) (Nat.not_le_of_lt hwide)
    obtain ⟨text, htext, hrun⟩ := hends.succeeds hsink htable
    obtain ⟨ws, lines, hlines, hlaid⟩ := exists_laid hfits
    rw [hcontent, hformat, Content.text?_table, hlines, Option.map_some] at htext
    obtain rfl := Option.some.inj htext
    have hlength : lines.length = listed.length + 1 := by simpa using hlaid.length_eq.symm
    rw [hrun]
    refine ⟨ws, lines, rfl, rfl, hlaid, ?_, fun c hc => ?_⟩
    · rw [split_ofLines_iff, not_break_iff hlaid (by decide)]
    · rw [count_ofLines, count_lines hlaid hc, hlength, Nat.add_comm 1]

def unbrokenTable : Text := "h\n\"A\rB\",nan,0,0,0,0,0,0,0,0\n\"\",inf,0,0,0,0,0,0,0,0".toList

def unbrokenDataset : Dataset :=
  ⟨[.ofValues "A\rB".toList fun field => if field = .marketCap then .nan else .zero,
    .ofValues [] fun field => if field = .marketCap then .signed false .infinity else .zero], ⟨2, []⟩⟩

theorem run_table_lines_of_carriage_return :
    Dataset.ofBytes (Utf8.encode unbrokenTable) = .ok unbrokenDataset ∧
      ∃ lines, (run (fileWorld unbrokenTable) ⟨.table, false, ['d'], .stocks⟩).output = ofLines lines ∧
        split ['\n'] (run (fileWorld unbrokenTable) ⟨.table, false, ['d'], .stocks⟩).output =
          lines ++ [[]] ∧
        lines.length = 3 ∧
        (run (fileWorld unbrokenTable) ⟨.table, false, ['d'], .stocks⟩).output.count '\r' = 1 := by
  have hload : Dataset.ofBytes (Utf8.encode unbrokenTable) = .ok unbrokenDataset := by
    decide +kernel
  have hnames : ∀ s ∈ unbrokenDataset.stocks, s.name.length ≤ widthLimit ∧ '\n' ∉ s.name := by decide
  obtain ⟨ws, lines, -, houtput, hlaid, hsplit, hcount⟩ :=
    (run_table_lines (fileWorld unbrokenTable) ⟨.table, false, ['d'], .stocks⟩ rfl hload rfl rfl
      (.inl ⟨rfl, rfl⟩)).2 fun s hs => (hnames s hs).1
  exact ⟨hload, lines, houtput, hsplit.mpr fun s hs => (hnames s hs).2, hlaid.length_eq.symm,
    hcount '\r' (by decide)⟩

def brokenTable : Text := "h\n\"A\nB\",0,0,0,0,0,0,0,0,0".toList

theorem run_breaks_line_in_name :
    Dataset.ofBytes (Utf8.encode brokenTable) =
        .ok ⟨[.ofValues "A\nB".toList fun _ => .zero], ⟨1, []⟩⟩ ∧
      (run (fileWorld brokenTable) ⟨.table, false, ['d'], .stocks⟩).exit = 0 ∧
      (run (fileWorld brokenTable) ⟨.table, false, ['d'], .stocks⟩).output.count '\n' = 3 ∧
      (split ['\n'] (run (fileWorld brokenTable) ⟨.table, false, ['d'], .stocks⟩).output)[1]? =
        some ['A'] := by
  decide +kernel

end Outcome

end StockScreen
