import Mathlib.Data.List.Perm.Basic
import StockScreen.Proofs.Query.Keeping

namespace StockScreen

open Text

section Selection

variable {α : Type}

/-- `selected` is what stands at the positions of `xs` that have the property, in their order. -/
def IsSelection (has : α → Prop) (xs selected : List α) : Prop :=
  ∃ positions : List Nat, positions.Pairwise (· < ·) ∧
    (∀ k, k ∈ positions ↔ ∃ x, xs[k]? = some x ∧ has x) ∧
    selected.map some = positions.map fun k => xs[k]?

theorem zipIdx_increasing (xs : List α) (first : Nat) :
    (xs.zipIdx first).Pairwise fun x y => x.2 < y.2 := by
  have h : ((xs.zipIdx first).map Prod.snd).Pairwise (· < ·) := by
    rw [List.zipIdx_map_snd]
    exact List.pairwise_lt_range' 1
  exact List.pairwise_map.mp h

theorem isSelection_filter (p : α → Bool) (xs : List α) :
    IsSelection (fun x => p x = true) xs (xs.filter p) := by
  refine ⟨(xs.zipIdx.filter fun x => p x.1).map Prod.snd, ?_, fun k => ?_, ?_⟩
  · exact List.pairwise_map.mpr ((zipIdx_increasing xs 0).filter _)
  · simp [List.mem_zipIdx_iff_getElem?]
  · have hfilter : xs.filter p = (xs.zipIdx.filter fun x => p x.1).map Prod.fst := by
      conv_lhs => rw [← List.zipIdx_map_fst 0 xs, List.filter_map]
      rfl
    rw [hfilter, List.map_map, List.map_map]
    apply List.map_congr_left
    intro x hx
    exact (List.mem_zipIdx_iff_getElem?.mp (List.mem_of_mem_filter hx)).symm

end Selection

theorem Condition.known_of_test? {c : Condition} {s : Stock} (h : c.test? s = some true) :
    ∃ field : Field, field.name = c.field := by
  obtain ⟨field, hf, -⟩ := Option.map_eq_some_iff.mp h
  exact ⟨field, Field.named?_eq_some_iff.mp hf⟩

namespace Query

variable {p q : Query} {s : Stock} {stocks : List Stock}

theorem accepts_iff : q.accepts s = true ↔ ∀ c ∈ q, c.test? s = some true := by
  simp [accepts, Option.getD_eq_iff]

theorem accepts_flatMap_iff {α : Type} {query : α → Query} {xs : List α} :
    Query.accepts (xs.flatMap query) s = true ↔
      ∀ x ∈ xs, ∀ c ∈ query x, c.test? s = some true := by
  rw [accepts_iff, List.forall_mem_flatMap]

theorem accepts_congr (h : ∀ c, c ∈ p ↔ c ∈ q) : p.accepts = q.accepts := by
  funext s
  rw [Bool.eq_iff_iff, accepts_iff, accepts_iff]
  exact forall_congr' fun c => by rw [h c]

theorem screen_of_unknown {c : Condition} (hc : c ∈ q) (h : ∀ field : Field, field.name ≠ c.field) :
    q.screen stocks = [] := by
  rw [screen, List.filter_eq_nil_iff]
  intro s _ hs
  obtain ⟨field, hf⟩ := Condition.known_of_test? (accepts_iff.mp hs c hc)
  exact h field hf

theorem screen_nil (stocks : List Stock) : Query.screen [] stocks = stocks :=
  List.filter_eq_self.mpr fun _ _ => rfl

theorem screen_flatMap {α : Type} (query : α → Query) (xs : List α) (stocks : List Stock) :
    Query.screen (xs.flatMap query) stocks =
      xs.foldl (fun narrowed x => (query x).screen narrowed) stocks := by
  induction xs generalizing stocks with
  | nil => exact screen_nil stocks
  | cons x xs ih => rw [List.flatMap_cons, screen_append, ih, List.foldl_cons]

theorem ofText_join (ts : List Text) :
    Query.ofText (join (' ' :: conjunction ++ [' ']) ts) = ts.flatMap Query.ofText := by
  have hspace : Blanks [' '] := by decide
  by_cases hne : ts = []
  · rw [hne]
    rfl
  · exact congrArg Report.query (Report.ofText_join hspace hspace hne)

theorem ofText_eq_nil_iff {t : Text} :
    Query.ofText t = [] ↔ ∀ segment ∈ Report.segments t, ∀ c : Condition, ¬c.StatedBy segment := by
  rw [ofText, Report.ofText, List.filterMap_eq_nil_iff]
  refine forall₂_congr fun segment _ => ?_
  rw [Option.eq_none_iff_forall_ne_some]
  exact forall_congr' fun c => not_congr Report.kept?_eq_some_iff

end Query

namespace Dataset

/-- The conjunction of query texts selects what remains when the stocks are narrowed by one text
after the other, whatever the order. That is the stocks at the positions where all conditions pass,
so none at all if a field is unknown, and all of them if no segment is a condition. -/
theorem screen_join (d : Dataset) {texts order : List Text} (h : order.Perm texts) :
    d.screen (join (' ' :: Query.conjunction ++ [' ']) texts) =
        order.foldl (fun narrowed t => (Query.ofText t).screen narrowed) d.stocks ∧
      IsSelection (fun s => ∀ t ∈ texts, ∀ c ∈ Query.ofText t, c.test? s = some true) d.stocks
        (d.screen (join (' ' :: Query.conjunction ++ [' ']) texts)) ∧
      ((∃ t ∈ texts, ∃ c ∈ Query.ofText t, ∀ field : Field, field.name ≠ c.field) →
        d.screen (join (' ' :: Query.conjunction ++ [' ']) texts) = []) ∧
      ((∀ t ∈ texts, ∀ segment ∈ Report.segments t, ∀ c : Condition, ¬c.StatedBy segment) →
        d.screen (join (' ' :: Query.conjunction ++ [' ']) texts) = d.stocks) := by
  rw [Dataset.screen, Query.ofText_join]
  refine ⟨?_, ?_, ?_, ?_⟩
  · have hmem : ∀ c, c ∈ texts.flatMap Query.ofText ↔ c ∈ order.flatMap Query.ofText := by
      intro c
      simp only [List.mem_flatMap, h.mem_iff]
    rw [Query.screen, Query.accepts_congr hmem]
    exact Query.screen_flatMap Query.ofText order d.stocks
  · simp only [← Query.accepts_flatMap_iff]
    exact isSelection_filter _ d.stocks
  · rintro ⟨t, ht, c, hc, hunknown⟩
    exact Query.screen_of_unknown (List.mem_flatMap.mpr ⟨t, ht, hc⟩) hunknown
  · intro hnone
    have hnil : texts.flatMap Query.ofText = [] :=
      List.flatMap_eq_nil_iff.mpr fun t ht => Query.ofText_eq_nil_iff.mpr (hnone t ht)
    rw [hnil, Query.screen_nil]

theorem screen_join_of_nan :
    ["<".toList, "ROE>inf".toList, "ROE>inf".toList].Perm
        ["ROE>inf".toList, "<".toList, "ROE>inf".toList] ∧
      (ofStocks [.ofValues ['A'] fun _ => .nan, .ofValues ['B'] fun _ => .zero]).screen
        "ROE>inf AND < AND ROE>inf".toList = [.ofValues ['A'] fun _ => .nan] ∧
      (ofStocks [.ofValues ['A'] fun _ => .nan, .ofValues ['B'] fun _ => .zero]).screen
        "ROE>inf AND Beta>NaN".toList = [] ∧
      (ofStocks [.ofValues ['A'] fun _ => .nan, .ofValues ['B'] fun _ => .zero]).screen
        "< AND Beta".toList = [.ofValues ['A'] fun _ => .nan, .ofValues ['B'] fun _ => .zero] := by
  have hperm : ["<".toList, "ROE>inf".toList, "ROE>inf".toList].Perm
      ["ROE>inf".toList, "<".toList, "ROE>inf".toList] := List.Perm.swap _ _ _
  have hbeta : (⟨"Beta".toList, .above, .nan⟩ : Condition) ∈ Query.ofText "Beta>NaN".toList := by
    decide
  have hunknown : ∀ field : Field, field.name ≠ "Beta".toList := by
    intro field
    cases field <;> decide
  have hnone : ∀ t ∈ ["<".toList, "Beta".toList], ∀ segment ∈ Report.segments t,
      ∀ c : Condition, ¬c.StatedBy segment := by
    intro t ht
    apply Query.ofText_eq_nil_iff.mp
    revert t
    decide
  refine ⟨hperm, ?_, ?_, ?_⟩
  · exact (screen_join _ hperm).1.trans (by decide)
  · exact (screen_join _ (List.Perm.refl ["ROE>inf".toList, "Beta>NaN".toList])).2.2.1
      ⟨_, List.mem_cons_of_mem _ List.mem_cons_self, _, hbeta, hunknown⟩
  · exact (screen_join _ (List.Perm.refl ["<".toList, "Beta".toList])).2.2.2 hnone

end Dataset

end StockScreen
