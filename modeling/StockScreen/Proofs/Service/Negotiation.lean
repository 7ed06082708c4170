import StockScreen.Proofs.Page.Rendering
import StockScreen.Proofs.Text.Pieces
import StockScreen.Service.Routes

namespace StockScreen

open Utf8 (Bytes)
open Markup

section Representations

def Page.countLine (n : Nat) : Text := Text.ofNat n ++ " stocks".toList

structure Page.Shows (page : Text) (listed : List Stock) (query : Option Text) : Prop where
  tags : (cut page).tags = Page.tags listed.length query.isSome
  cells : ((cut page).inside ["td".toList]).map unescape =
    listed.flatMap fun s => s.name :: s.values.map Binary64.plain
  count : (cut page).inside ["p".toList] =
    (query.toList.map fun _ => "Query: ".toList) ++ [countLine listed.length]
  query : ((cut page).inside ["code".toList]).map unescape = query.toList

theorem Page.shows_render (listed : List Stock) (query : Option Text) :
    Page.Shows (render listed query) listed query := by
  refine ⟨?_, ?_, ?_, ?_⟩
  · rw [cut_render, tags_layout]
  · rw [cut_render, inside_cells, map_unescape_escape]
    rfl
  · rw [cut_render, inside_paragraphs]
    rfl
  · rw [cut_render, inside_code, map_unescape_escape]

def Stock.metricDocument (x : Binary64) : Json := if x.isFinite then .number x else .null

def Stock.namedMetrics (s : Stock) : Json :=
  .object ((nameKey, .string s.name) ::
    Field.all.map fun field => (field.name, metricDocument (s.value field)))

theorem Json.compact_metricDocument (x : Binary64) :
    (Stock.metricDocument x).compact = (Json.number x).compact := by
  rw [Stock.metricDocument]
  cases x with
  | nan => rfl
  | signed negative m =>
    by_cases hm : m.isInfinite = true <;> simp [Binary64.isFinite, compact, numberText, hm]

theorem Stock.compact_namedMetrics (s : Stock) : s.namedMetrics.compact = s.document.compact := by
  simp only [namedMetrics, document, Json.compact, Json.compactMembers_eq_map, List.map_cons,
    List.map_map, Function.comp_def, Json.compact_metricDocument]

theorem compact_stocksDocument (listed : List Stock) :
    (stocksDocument listed).compact = (Json.array (listed.map Stock.namedMetrics)).compact := by
  simp only [stocksDocument, Json.compact, Json.compactItems_eq_map, List.map_map,
    Function.comp_def, Stock.compact_namedMetrics]

end Representations

namespace Service

section Headers

def AcceptsPage (r : Request) : Prop :=
  ∃ value ∈ r.headerValues "accept".toList,
    (∀ b ∈ value, b = 0x09 ∨ 0x20 ≤ b ∧ b < 0x7F) ∧ Utf8.encode "text/html".toList <:+: value

theorem isVisible_iff {b : UInt8} : isVisible b = true ↔ b = 0x09 ∨ 0x20 ≤ b ∧ b < 0x7F := by
  simp [isVisible]

theorem wantsPage_iff {r : Request} : wantsPage r = true ↔ AcceptsPage r := by
  have hword : "text/html".toList.map Char.toUInt8 = Utf8.encode "text/html".toList := by decide
  simp only [wantsPage, mentionsPage, AcceptsPage, List.any_eq_true, Bool.and_eq_true,
    List.all_eq_true, isVisible_iff, occursIn_iff, hword]

theorem originHeaders_cases (service : Service) (r : Request) :
    originHeaders service r = [] ∨
      ∃ origin, originHeaders service r = [("access-control-allow-origin".toList, origin)] := by
  rw [originHeaders]
  split
  · next origin _ => exact .inr ⟨origin, rfl⟩
  · exact .inl rfl

theorem header?_contentType (a : Answer) (service : Service) (r : Request) :
    (a.response service r []).header? "content-type".toList = a.contentType := by
  obtain ⟨status, contentType, body⟩ := a
  rw [Response.header?, Answer.response]
  rcases originHeaders_cases service r with h | ⟨origin, h⟩ <;> rw [h] <;>
    cases contentType <;> rfl

end Headers

section Listings

inductive Selects (service : Service) (r : Request) : List Stock → Option Text → Prop where
  | all (hmethod : r.method = "GET".toList) (hpath : r.path = "/stocks".toList) :
    Selects service r service.dataset.stocks none
  | filtered {query : Text} (hmethod : r.method = "POST".toList) (hpath : r.path = "/filter".toList)
    (hlength : r.body.length ≤ bodyLimit) (hquery : FilterRequest.ofBody r.body = .ok query) :
    Selects service r (service.dataset.screen query) (some query)

structure Represents (r : Request) (response : Response) (listed : List Stock)
    (query : Option Text) : Prop where
  status : response.status = 200
  contentType :
    response.header? "content-type".toList = some "text/html; charset=utf-8".toList ↔ AcceptsPage r
  page : AcceptsPage r → Page.Shows response.body listed query
  document : ¬AcceptsPage r → response.header? "content-type".toList = some "application/json".toList ∧
    response.body = (Json.array (listed.map Stock.namedMetrics)).compact

variable {service : Service} {r : Request} {listed : List Stock} {query : Option Text}

theorem body_response {a : Answer} {allow : List (Text × Text)} (h : r.method ≠ "HEAD".toList) :
    (a.response service r allow).body = a.body := if_neg h

theorem respond_route {route : Route} (hpath : Route.ofPath? r.path = some route)
    (hoptions : r.method ≠ "OPTIONS".toList) (haccepts : route.accepts r.method = true) :
    respond service r = (route.answer service r).response service r [] := by
  rw [respond, if_neg hoptions, hpath]
  exact if_pos haccepts

theorem respond_stocks (hmethod : r.method = "GET".toList) (hpath : r.path = "/stocks".toList) :
    respond service r =
      (answerStocks r service.dataset.stocks none).response service r [] := by
  have hroute : Route.ofPath? r.path = some .stocks := by rw [hpath]; rfl
  refine respond_route hroute ?_ ?_ <;> rw [hmethod] <;> decide

theorem respond_filter (hmethod : r.method = "POST".toList) (hpath : r.path = "/filter".toList) :
    respond service r = (answerFilter service r).response service r [] := by
  have hroute : Route.ofPath? r.path = some .filter := by rw [hpath]; rfl
  refine respond_route hroute ?_ ?_ <;> rw [hmethod] <;> decide

theorem Selects.respond_eq (h : Selects service r listed query) :
    respond service r = (answerStocks r listed query).response service r [] := by
  cases h with
  | all hmethod hpath => exact respond_stocks hmethod hpath
  | filtered hmethod hpath hlength hquery =>
    rw [respond_filter hmethod hpath, answerFilter, if_neg (Nat.not_lt.mpr hlength), hquery]

theorem Selects.method_ne_head (h : Selects service r listed query) :
    r.method ≠ "HEAD".toList := by
  cases h with
  | all hmethod => rw [hmethod]; decide
  | filtered hmethod => rw [hmethod]; decide

theorem answerStocks_page (h : AcceptsPage r) :
    answerStocks r listed query = ⟨200, some pageType, Page.render listed query⟩ :=
  if_pos (wantsPage_iff.mpr h)

theorem answerStocks_document (h : ¬AcceptsPage r) :
    answerStocks r listed query = .ofDocument 200 (stocksDocument listed) :=
  if_neg fun hwants => h (wantsPage_iff.mp hwants)

theorem Selects.body_eq (h : Selects service r listed query) :
    (respond service r).body = (answerStocks r listed query).body := by
  rw [h.respond_eq, body_response h.method_ne_head]

theorem Selects.contentType_eq (h : Selects service r listed query) :
    (respond service r).header? "content-type".toList =
      (answerStocks r listed query).contentType := by
  rw [h.respond_eq, header?_contentType]

theorem Selects.status_eq (h : Selects service r listed query) :
    (respond service r).status = 200 := by
  rw [h.respond_eq, answerStocks]
  split <;> rfl

theorem Selects.represents (h : Selects service r listed query) :
    Represents r (respond service r) listed query := by
  have htype : some documentType ≠ some pageType := by decide
  by_cases hpage : AcceptsPage r
  · refine ⟨h.status_eq, ?_, fun _ => ?_, fun hnot => absurd hpage hnot⟩
    · rw [h.contentType_eq, answerStocks_page hpage]
      exact iff_of_true rfl hpage
    · rw [h.body_eq, answerStocks_page hpage]
      exact Page.shows_render listed query
  · refine ⟨h.status_eq, ?_, fun hyes => absurd hyes hpage, fun _ => ⟨?_, ?_⟩⟩
    · rw [h.contentType_eq, answerStocks_document hpage]
      exact iff_of_false htype hpage
    · rw [h.contentType_eq, answerStocks_document hpage]
      rfl
    · rw [h.body_eq, answerStocks_document hpage]
      exact compact_stocksDocument listed

end Listings

end Service

end StockScreen
