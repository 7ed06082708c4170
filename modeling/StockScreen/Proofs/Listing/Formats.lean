import StockScreen.Listing.Output
import StockScreen.Proofs.Json.Squeezing

namespace StockScreen

theorem Text.split_ofLines {lines : List Text} (h : ∀ line ∈ lines, '\n' ∉ line) :
    split ['\n'] (ofLines lines) = lines ++ [[]] := by
  have hu : Unbordered ['\n'] := by decide
  induction lines with
  | nil => rfl
  | cons line lines ih =>
    obtain ⟨hline, hlines⟩ := List.forall_mem_cons.mp h
    have hbreak : ¬['\n'] <:+: line :=
      fun hi => hline (hi.subset List.mem_cons_self)
    have hcons : ofLines (line :: lines) = line ++ (['\n'] ++ ofLines lines) := by
      rw [ofLines, List.flatMap_cons, List.append_assoc]
      rfl
    rw [hcons, split_append hu hbreak, ih hlines, List.cons_append]

namespace Content

def count : Content → Nat
  | stocks listed => listed.length
  | report r => r.query.length
  | fields names => names.length

/-- The array that stands on lines, an item on each: the document, or the conditions in that of a
report. -/
inductive Spreads : Content → Json → Prop where
  | stocks {listed : List Stock} : Spreads (.stocks listed) (stocks listed).document
  | conditions {r : Report} {members : List (Text × Json)} {conditions : Json}
      (hdocument : (report r).document = .object members)
      (hmember : members.lookup "conditions".toList = some conditions) :
      Spreads (.report r) conditions
  | fields {names : List Text} : Spreads (.fields names) (fields names).document

theorem length_lines (content : Content) : content.lines.length = content.count := by
  cases content <;> exact List.length_map _

theorem spreads_lines (content : Content) : content.Spreads (.array content.lines) := by
  cases content with
  | stocks listed => exact .stocks
  | report r => exact .conditions rfl rfl
  | fields names => exact .fields

theorem compact_lines (content : Content) :
    (Json.array content.lines).compact =
      '[' :: Text.join [','] (content.lines.map Json.compact) ++ [']'] := by
  rw [Json.compact, Json.compactItems_eq_map]

theorem not_break {line : Text} {content : Content} (h : line ∈ content.lines.map Json.compact) :
    '\n' ∉ line ∧ '\r' ∉ line := by
  obtain ⟨j, -, rfl⟩ := List.mem_map.mp h
  constructor
  · intro hc
    exact absurd (Json.visible_compact.holds j _ hc) (by decide)
  · intro hc
    exact absurd (Json.visible_compact.holds j _ hc) (by decide)

theorem text?_lines (content : Content) (pretty : Bool) :
    content.text? .lines pretty = some (Text.ofLines (content.lines.map Json.compact)) := rfl

theorem text?_json (content : Content) (pretty : Bool) :
    content.text? .json pretty =
      some ((if pretty then content.document.pretty else content.document.compact) ++ ['\n']) :=
  congrArg some (List.append_nil _)

/-- The pretty document is the compact one with white space outside strings. The lines are as many
as the stocks, names or conditions, no line has a break inside, and joined by commas in brackets
they are the compact document, or the conditions in that of a report. -/
theorem formats_agree (content : Content) (pretty : Bool) :
    content.text? .json pretty =
        some ((if pretty then content.document.pretty else content.document.compact) ++ ['\n']) ∧
      Json.squeeze content.document.pretty = content.document.compact ∧
      ∃ lines output array, content.text? .lines pretty = some output ∧
        Text.split ['\n'] output = lines ++ [[]] ∧ lines.length = content.count ∧
        (∀ line ∈ lines, '\n' ∉ line ∧ '\r' ∉ line) ∧
        content.Spreads array ∧ array.compact = '[' :: Text.join [','] lines ++ [']'] ∧
        (content.count = 0 → output = [] ∧ array.compact = ['[', ']']) := by
  refine ⟨text?_json content pretty, Json.squeeze_pretty _, content.lines.map Json.compact, _, _,
    text?_lines content pretty, Text.split_ofLines fun line h => (not_break h).1, ?_,
    fun line h => not_break h, spreads_lines content, compact_lines content, ?_⟩
  · rw [List.length_map, length_lines]
  · intro hnone
    have hnil : content.lines = [] :=
      List.length_eq_zero_iff.mp ((length_lines content).trans hnone)
    rw [hnil]
    exact ⟨rfl, rfl⟩

theorem formats_agree_of_break_in_name :
    (∃ line, (stocks [.ofValues ['A', '\n', '"'] fun _ => .nan]).text? .lines true =
        some (line ++ ['\n']) ∧ '\n' ∉ line) ∧
      (stocks []).text? .lines true = some [] ∧ (report ⟨[], []⟩).text? .lines true = some [] := by
  have hempty (content : Content) (hnone : content.count = 0) :
      content.text? .lines true = some [] := by
    obtain ⟨-, -, lines, output, array, houtput, -, -, -, -, -, hnil⟩ := formats_agree content true
    rw [houtput, (hnil hnone).1]
  refine ⟨?_, hempty _ rfl, hempty _ rfl⟩
  obtain ⟨-, -, lines, output, array, houtput, hsplit, hone, hbreak, -⟩ :=
    formats_agree (stocks [.ofValues ['A', '\n', '"'] fun _ => .nan]) true
  obtain ⟨line, rfl⟩ := List.length_eq_one_iff.mp hone
  have hu : Text.Unbordered ['\n'] := by decide
  have hjoin := Text.join_split hu output
  rw [hsplit, List.singleton_append, Text.join_cons _ _ (List.cons_ne_nil _ _),
    Text.join_singleton, List.append_nil] at hjoin
  exact ⟨line, hjoin ▸ houtput, (hbreak line List.mem_cons_self).1⟩

end Content

end StockScreen
