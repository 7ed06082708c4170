import StockScreen.Proofs.Dataset.Views
import StockScreen.Proofs.Listing.Alignment
import StockScreen.Proofs.Listing.Warnings
import StockScreen.Proofs.Service.Starting

namespace StockScreen

open Origin

inductive Action.NeedsDataset : Action → Prop where
  | serve {address : Address} {origins : List Text} : NeedsDataset (.serve address origins)
  | stocks : NeedsDataset .stocks
  | filter {query : Text} : NeedsDataset (.filter query)

inductive Action.Makes : Action → Except DatasetError Dataset → Listing → Prop where
  | stocks {d : Dataset} : Makes .stocks (.ok d) (.all d)
  | filter {d : Dataset} {query : Text} : Makes (.filter query) (.ok d) (.filter d query)
  | parse {loaded : Except DatasetError Dataset} {query : Text} :
    Makes (.parse query) loaded (.parse query)
  | fields {loaded : Except DatasetError Dataset} : Makes .fields loaded .fields

theorem Dataset.ofPath_file {files : Files} {path : Text} {bytes : Utf8.Bytes}
    (h : files path = .ok (.file bytes)) : ofPath files path = ofBytes bytes := by
  simp only [ofPath, loadingPath, h, ofBytes]

namespace Execution

variable {files : Files} {world : World} {path : Text} {d : Dataset} {e : DatasetError}
  {i : Invocation}

theorem withDataset_ok (h : Dataset.ofPath files path = .ok d) (query : List Event)
    (list : Dataset → Listing) :
    (withDataset files path query list).result = .ok (some (list d)) := by
  have hload : Dataset.ofLoading (Dataset.loadingPath files path) = .ok d := h
  simp only [withDataset, hload]

theorem withDataset_error (h : Dataset.ofPath files path = .error e) (query : List Event)
    (list : Dataset → Listing) :
    withDataset files path query list =
      ⟨loadEvents path (Dataset.loadingPath files path), .error (.dataset e)⟩ := by
  have hload : Dataset.ofLoading (Dataset.loadingPath files path) = .error e := h
  simp only [withDataset, hload]

section Serving

variable {address : Address} {origins : List Text}

theorem startPath_error (h : Dataset.ofPath files path = .error e) (origins : List Text) :
    Service.startPath files path origins = .error (.dataset e) := by
  simp only [Service.startPath, h]

theorem startPath_ok (h : Dataset.ofPath files path = .ok d) (origins : List Text) :
    Service.startPath files path origins = Service.start origins d := by
  simp only [Service.startPath, h]

theorem serve_error {cause : StartError}
    (h : Service.startPath world.files path (grantedOrigins origins) = .error cause) :
    serve world path address origins =
      ⟨loadEvents path (Dataset.loadingPath world.files path), .error (.ofStart cause)⟩ := by
  simp only [serve, h]

theorem serve_unbound {service : Service} {reason : Text}
    (h : Service.startPath world.files path (grantedOrigins origins) = .ok service)
    (hbind : world.bind address = .error reason) :
    (serve world path address origins).result = .error (.server (.cannotBind address reason)) := by
  simp only [serve, h, hbind, Failure.ofStart]

theorem serve_bound {service : Service}
    (h : Service.startPath world.files path (grantedOrigins origins) = .ok service)
    (hbind : world.bind address = .ok ()) :
    (serve world path address origins).result = .ok none := by
  simp only [serve, h, hbind]

end Serving

theorem run_serve {address : Address} {origins : List Text}
    (haction : i.action = .serve address origins) (world : World) :
    run world i = serve world i.dataset address origins := by
  rw [run, haction]

theorem run_error (h : Dataset.ofPath world.files i.dataset = .error e)
    (hneeds : i.action.NeedsDataset) :
    run world i =
      ⟨loadEvents i.dataset (Dataset.loadingPath world.files i.dataset), .error (.dataset e)⟩ := by
  obtain ⟨format, pretty, path, action⟩ := i
  cases hneeds with
  | serve => exact serve_error (startPath_error h _)
  | stocks => exact withDataset_error h _ _
  | filter => exact withDataset_error h _ _

theorem run_makes {listing : Listing}
    (h : i.action.Makes (Dataset.ofPath world.files i.dataset) listing) :
    (run world i).result = .ok (some listing) := by
  obtain ⟨format, pretty, path, action⟩ := i
  generalize hload : Dataset.ofPath world.files path = loaded at h
  cases h with
  | stocks => exact withDataset_ok hload _ _
  | filter => exact withDataset_ok hload _ _
  | parse => rfl
  | fields => rfl

end Execution

namespace Outcome

variable {sink : Sink} {world : World} {i : Invocation} {e : Execution} {listing : Listing}

structure Writes (o : Outcome) (sink : Sink) (i : Invocation) (listing : Listing) : Prop where
  succeeds : sink = .ready → ¬listing.content.TooWide i.format →
    ∃ text, listing.content.text? i.format i.pretty = some text ∧
      o = ⟨0, text, listing.warnings.map ("warning: ".toList ++ ·), none⟩
  refused : ∀ reason, sink.refusal? = some reason → ¬listing.content.TooWide i.format →
    ∃ text, listing.content.text? i.format i.pretty = some text ∧
      o = if text = [] then ⟨0, [], listing.warnings.map ("warning: ".toList ++ ·), none⟩
        else ⟨10, [], listing.warnings.map ("warning: ".toList ++ ·), some (.output reason)⟩
  aborts : listing.content.TooWide i.format →
    o = ⟨101, [], listing.warnings.map ("warning: ".toList ++ ·), some .columnTooWide⟩

structure Serves (o : Outcome) (world : World) (address : Address) (origins : List Text) : Prop where
  invalid : ∀ origin, IsFirstInvalid origins origin →
    o = ⟨6, [], [], some (.server (.invalidOrigin origin))⟩
  wildcard : (∀ origin ∈ origins, HeaderValue origin) → ['*'] ∈ origins →
    o = ⟨101, [], [], some (.server .wildcardOrigin)⟩
  unbound : (∀ origin ∈ origins, HeaderValue origin) → ['*'] ∉ origins →
    ∀ reason, world.bind address = .error reason →
      o = ⟨6, [], [], some (.server (.cannotBind address reason))⟩
  stopped : (∀ origin ∈ origins, HeaderValue origin) → ['*'] ∉ origins →
    world.bind address = .ok () → o = ⟨0, [], [], none⟩

theorem ofExecution_error {failure : Failure} (h : e.result = .error failure) :
    ofExecution sink i e = failed failure [] := by
  simp only [ofExecution, h]

theorem ofExecution_stopped (h : e.result = .ok none) :
    ofExecution sink i e = ⟨0, [], [], none⟩ := by
  simp only [ofExecution, h]

theorem ofExecution_written {text : Text} (h : e.result = .ok (some listing))
    (htext : listing.content.text? i.format i.pretty = some text) :
    ofExecution sink i e = write sink text (listing.warnings.map ("warning: ".toList ++ ·)) := by
  simp only [ofExecution, h, htext]

theorem ofExecution_unwritten (h : e.result = .ok (some listing))
    (htext : listing.content.text? i.format i.pretty = none) :
    ofExecution sink i e =
      failed .columnTooWide (listing.warnings.map ("warning: ".toList ++ ·)) := by
  simp only [ofExecution, h, htext]

theorem write_refused {reason : Text} (h : sink.refusal? = some reason) (text : Text)
    (warnings : List Text) :
    write sink text warnings =
      if text = [] then ⟨0, [], warnings, none⟩ else failed (.output reason) warnings := by
  cases text <;> simp [write, h]

theorem writes_ofExecution (h : e.result = .ok (some listing)) :
    (ofExecution sink i e).Writes sink i listing := by
  have htext : ¬listing.content.TooWide i.format →
      ∃ text, listing.content.text? i.format i.pretty = some text := by
    intro hfits
    rw [← Content.text?_eq_none_iff i.pretty] at hfits
    exact Option.ne_none_iff_exists'.mp hfits
  constructor
  · rintro rfl hfits
    obtain ⟨text, htext⟩ := htext hfits
    exact ⟨text, htext, ofExecution_written h htext⟩
  · intro reason hreason hfits
    obtain ⟨text, htext⟩ := htext hfits
    exact ⟨text, htext, (ofExecution_written h htext).trans (write_refused hreason text _)⟩
  · intro hwide
    exact ofExecution_unwritten h ((Content.text?_eq_none_iff i.pretty).mpr hwide)

theorem run_makes {listing : Listing}
    (h : i.action.Makes (Dataset.ofPath world.files i.dataset) listing) :
    (run world i).Writes world.sink i listing := writes_ofExecution (Execution.run_makes h)

theorem run_serves {d : Dataset} {address : Address} {origins : List Text}
    (hload : Dataset.ofPath world.files i.dataset = .ok d)
    (haction : i.action = .serve address origins) :
    (run world i).Serves world address (Execution.grantedOrigins origins) := by
  have hrun := Execution.run_serve haction world
  have hstart := Execution.startPath_ok hload (Execution.grantedOrigins origins)
  have hfails {cause : StartError}
      (hcheck : check (Execution.grantedOrigins origins) = .error cause) :
      run world i = failed (.ofStart cause) [] := by
    refine ofExecution_error ?_
    rw [hrun, Execution.serve_error (hstart.trans (Service.start_eq_error_iff.mpr hcheck))]
  have hstarts (hvalid : ∀ origin ∈ Execution.grantedOrigins origins, HeaderValue origin)
      (hwildcard : ['*'] ∉ Execution.grantedOrigins origins) :
      Service.startPath world.files i.dataset (Execution.grantedOrigins origins) =
        .ok ⟨d, Execution.grantedOrigins origins⟩ :=
    hstart.trans (Service.start_eq_ok_iff.mpr (check_eq_ok_iff.mpr ⟨hvalid, hwildcard⟩))
  constructor
  · intro origin horigin
    exact hfails (check_eq_invalid_iff.mpr horigin)
  · intro hvalid hwildcard
    exact hfails (check_eq_wildcard_iff.mpr ⟨hvalid, hwildcard⟩)
  · intro hvalid hwildcard reason hbind
    have hresult : (Execution.run world i).result =
        .error (.server (.cannotBind address reason)) := by
      rw [hrun, Execution.serve_unbound (hstarts hvalid hwildcard) hbind]
    exact ofExecution_error hresult
  · intro hvalid hwildcard hbind
    refine ofExecution_stopped ?_
    rw [hrun, Execution.serve_bound (hstarts hvalid hwildcard) hbind]

theorem run_alone (hneeds : ¬i.action.NeedsDataset) (hsink : world.sink = .ready) :
    (run world i).exit = 0 ∧ (run world i).failure = none ∧
      ∀ files path, run { world with files := files } { i with dataset := path } = run world i := by
  have hends (listing : Listing)
      (hmakes : i.action.Makes (Dataset.ofPath world.files i.dataset) listing)
      (hstocks : ∀ listed, listing.content ≠ .stocks listed) :
      (run world i).exit = 0 ∧ (run world i).failure = none := by
    have hfits : ¬listing.content.TooWide i.format :=
      fun ⟨_, listed, hlisted, _⟩ => hstocks listed hlisted
    obtain ⟨text, -, hrun⟩ := (run_makes hmakes).succeeds hsink hfits
    rw [hrun]
    exact ⟨rfl, rfl⟩
  cases haction : i.action with
  | serve => exact absurd (haction ▸ .serve) hneeds
  | stocks => exact absurd (haction ▸ .stocks) hneeds
  | filter => exact absurd (haction ▸ .filter) hneeds
  | parse query =>
    obtain ⟨hexit, hfailure⟩ :=
      hends (.parse query) (haction ▸ .parse) fun _ => Content.noConfusion
    exact ⟨hexit, hfailure, fun _ _ => by simp only [run, Execution.run, haction, ofExecution]⟩
  | fields =>
    obtain ⟨hexit, hfailure⟩ :=
      hends .fields (haction ▸ .fields) fun _ => Content.noConfusion
    exact ⟨hexit, hfailure, fun _ _ => by simp only [run, Execution.run, haction, ofExecution]⟩

/-- A dataset that does not load decides how a run ends that needs it, before origins, address and
standard output do. One that loads is listed or served, and a run that needs none ends alike with
any. -/
theorem run_settles_dataset_first (world : World) (i : Invocation) :
    (∀ e, Dataset.ofPath world.files i.dataset = .error e → i.action.NeedsDataset →
      run world i = ⟨3, [], [], some (.dataset e)⟩ ∧ (Failure.dataset e).message = e.message ∧
      (Execution.run world i).events =
        Execution.loadEvents i.dataset (Dataset.loadingPath world.files i.dataset)) ∧
    (∀ listing, i.action.Makes (Dataset.ofPath world.files i.dataset) listing →
      (run world i).Writes world.sink i listing) ∧
    (∀ d, Dataset.ofPath world.files i.dataset = .ok d →
      ∀ address origins, i.action = .serve address origins →
        (run world i).Serves world address (Execution.grantedOrigins origins)) ∧
    (¬i.action.NeedsDataset → world.sink = .ready →
      (run world i).exit = 0 ∧ (run world i).failure = none ∧
      ∀ files path, run { world with files := files } { i with dataset := path } = run world i) := by
  refine ⟨fun e hload hneeds => ?_, fun _ hmakes => run_makes hmakes,
    fun _ hload _ _ haction => run_serves hload haction, run_alone⟩
  have hrun := Execution.run_error hload hneeds
  exact ⟨ofExecution_error (congrArg Execution.result hrun), rfl, congrArg Execution.events hrun⟩

def faulty (folder : Folder) : World :=
  ⟨Folder.files folder, fun _ => none, fun _ => .error "in use".toList, .full⟩

theorem run_settles_dataset_first_of_faults :
    Dataset.ofPath (faulty []).files ['d'] = .error (.cannotOpen ['d'] .notFound) ∧
      run (faulty []) ⟨.table, false, ['d'], .serve defaultAddress [['\n']]⟩ =
        ⟨3, [], [], some (.dataset (.cannotOpen ['d'] .notFound))⟩ ∧
      run (faulty []) ⟨.json, true, ['d'], .filter ['=']⟩ =
        ⟨3, [], [], some (.dataset (.cannotOpen ['d'] .notFound))⟩ ∧
      Dataset.ofPath (faulty [(['d'], Utf8.encode ['h'])]).files ['d'] = .ok (.ofStocks []) ∧
      run (faulty [(['d'], Utf8.encode ['h'])]) ⟨.table, false, ['d'],
        .serve defaultAddress [['\n']]⟩ = ⟨6, [], [], some (.server (.invalidOrigin ['\n']))⟩ ∧
      run (faulty [(['d'], Utf8.encode ['h'])]) ⟨.lines, false, ['d'], .stocks⟩ =
        ⟨0, [], [], none⟩ := by
  have hmissing : Dataset.ofPath (faulty []).files ['d'] = .error (.cannotOpen ['d'] .notFound) := by
    decide +kernel
  have hload : Dataset.ofPath (faulty [(['d'], Utf8.encode ['h'])]).files ['d'] =
      .ok (.ofStocks []) := by decide +kernel
  have hinvalid : IsFirstInvalid [['\n']] ['\n'] := ⟨[], [], rfl, List.forall_mem_nil _, by decide⟩
  have hfits : ¬(Listing.all (.ofStocks [])).content.TooWide .lines := fun h => absurd h.1 nofun
  have hmakes : Action.stocks.Makes (Dataset.ofPath (faulty [(['d'], Utf8.encode ['h'])]).files ['d'])
      (.all (.ofStocks [])) := hload ▸ .stocks
  obtain ⟨text, htext, hlisted⟩ := ((run_settles_dataset_first (faulty [(['d'], Utf8.encode ['h'])])
    ⟨.lines, false, ['d'], .stocks⟩).2.1 _ hmakes).refused _ rfl hfits
  obtain rfl : text = [] := (Option.some.inj htext).symm
  exact ⟨hmissing, ((run_settles_dataset_first _ _).1 _ hmissing .serve).1,
    ((run_settles_dataset_first _ _).1 _ hmissing .filter).1, hload,
    ((run_settles_dataset_first _ _).2.2.1 _ hload _ [['\n']] rfl).invalid _ hinvalid, hlisted⟩

section Wide

variable {name : Text}

def fileWorld (t : Text) : World :=
  ⟨fun _ => .ok (.file (Utf8.encode t)), fun _ => none, fun _ => .ok (), .ready⟩

def namedTable (name : Text) : Text := "h,h\n".toList ++ (name ++ ",0,0,0,0,0,0,0,0,0\n".toList)

theorem ofPath_namedTable (hname : ∀ c ∈ name, c ∉ Csv.special) (path : Text) :
    Dataset.ofPath (fileWorld (namedTable name)).files path =
      .ok ⟨[.ofValues name fun _ => .zero], ⟨1, []⟩⟩ :=
  (Dataset.ofPath_file rfl).trans (Dataset.ofBytes_named hname)

theorem run_of_wide_name (hname : ∀ c ∈ name, c ∉ Csv.special)
    (hwide : Table.widthLimit < name.length) :
    (run (fileWorld (namedTable name)) ⟨.table, false, defaultDataset, .filter []⟩).exit = 101 := by
  have hmakes : (Action.filter []).Makes
      (Dataset.ofPath (fileWorld (namedTable name)).files defaultDataset)
      (.filter ⟨[.ofValues name fun _ => .zero], ⟨1, []⟩⟩ []) :=
    ofPath_namedTable hname defaultDataset ▸ .filter
  have hnothing : Query.ofText [] = [] := by decide
  have hlisted : (Listing.filter ⟨[.ofValues name fun _ => .zero], ⟨1, []⟩⟩ []).content =
      .stocks [.ofValues name fun _ => .zero] := by
    rw [Listing.content_filter, Dataset.screen, hnothing, Query.screen_nil]
  have hends : (run (fileWorld (namedTable name)) ⟨.table, false, defaultDataset, .filter []⟩).Writes
      .ready ⟨.table, false, defaultDataset, .filter []⟩ _ := run_makes hmakes
  rw [hends.aborts ⟨rfl, _, hlisted, _, List.mem_singleton_self _, hwide⟩]

theorem run_aborts_at_wide_name :
    (∃ d, Dataset.ofPath (fileWorld (namedTable (List.replicate 65536 'n'))).files defaultDataset =
        .ok d) ∧
      (run (fileWorld (namedTable (List.replicate 65536 'n')))
        ⟨.table, false, defaultDataset, .filter []⟩).exit = 101 := by
  have hname : ∀ c ∈ List.replicate 65536 'n', c ∉ Csv.special := by
    intro c hc
    rw [List.eq_of_mem_replicate hc]
    decide
  exact ⟨⟨_, ofPath_namedTable hname _⟩,
    run_of_wide_name hname (Table.widthLimit_lt_length 'n')⟩

end Wide

end Outcome

end StockScreen
