import StockScreen.Proofs.Program.Outcomes
import StockScreen.Proofs.Query.Narrowing
import StockScreen.Proofs.Service.Bodies
import StockScreen.Proofs.Service.Negotiation

namespace StockScreen

open Utf8 (Bytes)

section Commands

structure Prints (world : World) (arguments : List Text) (action : Action) (d : Dataset) :
    Prop where
  arguments : ∃ path, Arguments.read world.environment arguments = .ok ⟨.json, false, path, action⟩ ∧
    Dataset.ofPath world.files path = .ok d
  sink : world.sink = .ready

variable {world : World} {arguments : List Text} {d : Dataset}

theorem Outcome.ofExecution_document (path : Text) (action : Action) {e : Execution}
    {listing : Listing} (h : e.result = .ok (some listing)) :
    (ofExecution .ready ⟨.json, false, path, action⟩ e).exit = 0 ∧
      (ofExecution .ready ⟨.json, false, path, action⟩ e).output =
        listing.content.document.compact ++ ['\n'] := by
  simp only [ofExecution, h, Content.text?, Content.textLines, Text.ofLines, Option.map_some,
    List.flatMap_singleton]
  exact ⟨rfl, rfl⟩

theorem Transcript.run_document {action : Action} {listing : Listing}
    (h : Prints world arguments action d)
    (hrun : ∀ path, Dataset.ofPath world.files path = .ok d →
      (Execution.run world ⟨.json, false, path, action⟩).result = .ok (some listing))
    (stamp : Text) :
    (Transcript.run world stamp arguments).exit = 0 ∧
      (Transcript.run world stamp arguments).output =
        listing.content.document.compact ++ ['\n'] := by
  obtain ⟨path, hread, hdataset⟩ := h.arguments
  have houtcome := Outcome.ofExecution_document path action (hrun path hdataset)
  rw [Transcript.run, hread]
  simp only [Outcome.run, h.sink]
  exact houtcome

theorem Transcript.run_stocks (h : Prints world arguments .stocks d) (stamp : Text) :
    (Transcript.run world stamp arguments).exit = 0 ∧
      (Transcript.run world stamp arguments).output =
        (Listing.all d).content.document.compact ++ ['\n'] :=
  run_document h (fun _ hdataset => Execution.withDataset_ok hdataset [] Listing.all) stamp

theorem Transcript.run_filter {t : Text} (h : Prints world arguments (.filter t) d) (stamp : Text) :
    (Transcript.run world stamp arguments).exit = 0 ∧
      (Transcript.run world stamp arguments).output =
        (Listing.filter d t).content.document.compact ++ ['\n'] :=
  run_document h (fun _ hdataset => Execution.withDataset_ok hdataset (Execution.queryEvents t)
    fun d => Listing.filter d t) stamp

end Commands

namespace Service

section Screening

structure GetsStocks (r : Request) : Prop where
  method : r.method = "GET".toList
  path : r.path = "/stocks".toList
  document : ¬AcceptsPage r

structure PostsFilter (r : Request) (t : Text) : Prop where
  method : r.method = "POST".toList
  path : r.path = "/filter".toList
  length : r.body.length ≤ 2097152
  body : FilterRequest.AsksFor r.body t
  document : ¬AcceptsPage r

structure GetsHealth (r : Request) : Prop where
  method : r.method = "GET".toList
  path : r.path = "/health".toList

variable {service : Service} {r : Request} {t : Text}

theorem Selects.body_document {listed : List Stock} {query : Option Text}
    (h : Selects service r listed query) (hpage : ¬AcceptsPage r) :
    (respond service r).body = (stocksDocument listed).compact := by
  rw [h.body_eq, answerStocks_document hpage]
  rfl

theorem Selects.body_metrics {listed : List Stock} {query : Option Text}
    (h : Selects service r listed query) (hpage : ¬AcceptsPage r) :
    (respond service r).body = (Json.array (listed.map Stock.namedMetrics)).compact :=
  (h.represents.document hpage).2

theorem GetsStocks.selects (h : GetsStocks r) : Selects service r service.dataset.stocks none :=
  .all h.method h.path

theorem PostsFilter.selects (h : PostsFilter r t) :
    Selects service r (service.dataset.screen t) (some t) :=
  .filtered h.method h.path h.length h.body.ofBody_eq

theorem GetsHealth.answer_eq (h : GetsHealth r) :
    (respond service r).status = 200 ∧ (respond service r).body =
      (Json.object [("status".toList, .string "ok".toList), ("version".toList, .string version),
        ("stocks".toList, .count service.dataset.stocks.length)]).compact := by
  have hroute : Route.ofPath? r.path = some .health := by rw [h.path]; rfl
  have hoptions : r.method ≠ "OPTIONS".toList := by rw [h.method]; decide
  have haccepts : Route.health.accepts r.method = true := by rw [h.method]; decide
  have hhead : r.method ≠ "HEAD".toList := by rw [h.method]; decide
  rw [respond_route hroute hoptions haccepts, body_response hhead]
  exact ⟨rfl, rfl⟩

theorem respond_screens_as_commands (service : Service) (t : Text) :
    FilterRequest.AsksFor (FilterRequest.plainBody t) t ∧
    (∀ body ∈ FilterRequest.nothingBodies, FilterRequest.AsksFor (Utf8.encode body) []) ∧
    (Listing.filter service.dataset t).content = .stocks (service.dataset.screen t) ∧
    (Listing.all service.dataset).content = .stocks service.dataset.stocks ∧
    (∀ r, PostsFilter r t → (respond service r).status = 200 ∧
      (respond service r).body =
        (Json.array ((service.dataset.screen t).map Stock.namedMetrics)).compact ∧
      (respond service r).body = (Listing.filter service.dataset t).content.document.compact ∧
      (t = [] ∨ Query.ofText t = [] →
        (respond service r).body = (Listing.all service.dataset).content.document.compact)) ∧
    (∀ r, GetsStocks r → (respond service r).status = 200 ∧
      (respond service r).body =
        (Json.array (service.dataset.stocks.map Stock.namedMetrics)).compact ∧
      (respond service r).body = (Listing.all service.dataset).content.document.compact) ∧
    (∀ world stamp arguments, Prints world arguments (.filter t) service.dataset →
      (Transcript.run world stamp arguments).exit = 0 ∧
      (Transcript.run world stamp arguments).output =
        (Listing.filter service.dataset t).content.document.compact ++ ['\n']) ∧
    (∀ world stamp arguments, Prints world arguments .stocks service.dataset →
      (Transcript.run world stamp arguments).exit = 0 ∧
      (Transcript.run world stamp arguments).output =
        (Listing.all service.dataset).content.document.compact ++ ['\n']) ∧
    ∀ r, GetsHealth r → (respond service r).status = 200 ∧ (respond service r).body =
      (Json.object [("status".toList, .string "ok".toList), ("version".toList, .string version),
        ("stocks".toList, .count service.dataset.stocks.length)]).compact := by
  refine ⟨FilterRequest.asksFor_plainBody t, fun _ h => FilterRequest.asksFor_nothing h, rfl, rfl,
    fun r h => ⟨h.selects.status_eq, h.selects.body_metrics h.document,
      h.selects.body_document h.document, fun hnothing => ?_⟩,
    fun r h => ⟨h.selects.status_eq, h.selects.body_metrics h.document,
      h.selects.body_document h.document⟩,
    fun _ stamp _ h => Transcript.run_filter h stamp,
    fun _ stamp _ h => Transcript.run_stocks h stamp, fun r h => h.answer_eq⟩
  have hquery : Query.ofText t = [] := by
    rcases hnothing with rfl | hquery
    · decide
    · exact hquery
  rw [h.selects.body_document h.document, Dataset.screen, hquery, Query.screen_nil]
  rfl

theorem respond_screens_as_commands_of_escapes :
    let service : Service := ⟨Dataset.ofStocks [Stock.ofValues "A".toList fun _ => .zero], []⟩
    let r : Request := ⟨"POST".toList, "/filter".toList, [], FilterRequest.escapedBody⟩
    PostsFilter r "/\n".toList ∧
      (respond service r).body = (Listing.all service.dataset).content.document.compact ∧
      (respond service r).body =
        "[\x7b\"Stock Name\":\"A\",\"Market Capitalization\":0.0,\"P/E Ratio\":0.0,".toList ++
        "\"ROE\":0.0,\"Debt/Equity Ratio\":0.0,\"Dividend Yield\":0.0,".toList ++
        "\"Revenue Growth\":0.0,\"EPS Growth\":0.0,\"Current Ratio\":0.0,".toList ++
        "\"Gross Margin\":0.0\x7d]".toList := by
  intro service r
  have hpage : ¬AcceptsPage r := fun h => absurd (wantsPage_iff.mpr h) (by decide)
  have h : PostsFilter r "/\n".toList :=
    ⟨rfl, rfl, by decide, FilterRequest.asksFor_escapedBody, hpage⟩
  obtain ⟨-, -, -, -, hposts, -⟩ := respond_screens_as_commands service "/\n".toList
  obtain ⟨-, hmetrics, -, hall⟩ := hposts r h
  exact ⟨h, hall (.inr (by decide)), hmetrics.trans (by decide +kernel)⟩

end Screening

end Service

end StockScreen
