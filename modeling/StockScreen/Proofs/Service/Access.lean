import StockScreen.Proofs.Text.Encoding
import StockScreen.Service.Routes

namespace StockScreen

open Utf8 (Bytes)

theorem Utf8.encode_injective : Function.Injective encode := by
  intro s t h
  have hs := decode_encode s
  rw [h, decode_encode t] at hs
  exact (Except.ok.inj hs).symm

def Response.headerValues (r : Response) (name : Text) : List Text :=
  r.headers.filterMap fun header => if header.1 = name then some header.2 else none

def Request.origin? (r : Request) : Option Bytes := (r.headerValues "origin".toList).head?

namespace Origin

variable {origins : List Text} {origin : Text} {value : Bytes}

theorem granted?_eq_some_iff :
    granted? origins value = some origin ↔ origin ∈ origins ∧ Utf8.encode origin = value := by
  constructor
  · intro h
    exact ⟨List.mem_of_find?_eq_some h, by simpa using List.find?_some h⟩
  · rintro ⟨hmem, rfl⟩
    cases h : granted? origins (Utf8.encode origin) with
    | none => simpa using List.find?_eq_none.mp h origin hmem
    | some origin' =>
      have hbytes : Utf8.encode origin' = Utf8.encode origin := by simpa using List.find?_some h
      rw [Utf8.encode_injective hbytes]

theorem wildcard_not_mem (h : check origins = .ok ()) : wildcard ∉ origins := by
  intro hmem
  rw [check] at h
  cases hfind : origins.find? fun origin => !isHeaderValue origin <;> simp [hfind, hmem] at h

end Origin

namespace Service

open Origin

def grantKey : Text := "access-control-allow-origin".toList

def credentialsKey : Text := "access-control-allow-credentials".toList

section Headers

variable {service : Service} {r : Request} {headers headers' : List (Text × Text)}

def NeutralKey (key : Text) : Prop := key ≠ grantKey ∧ key ≠ credentialsKey

instance (key : Text) : Decidable (NeutralKey key) := inferInstanceAs (Decidable (_ ∧ _))

def Neutral (headers : List (Text × Text)) : Prop := ∀ header ∈ headers, NeutralKey header.1

theorem neutral_nil : Neutral [] := List.forall_mem_nil _

theorem neutral_singleton {key : Text} (h : NeutralKey key) (value : Text) :
    Neutral [(key, value)] :=
  List.forall_mem_singleton.mpr h

theorem Neutral.append (h : Neutral headers) (h' : Neutral headers') :
    Neutral (headers ++ headers') :=
  List.forall_mem_append.mpr ⟨h, h'⟩

theorem Neutral.values_eq_nil (h : Neutral headers) {name : Text} (hname : ¬NeutralKey name) :
    (headers.filterMap fun header => if header.1 = name then some header.2 else none) = [] := by
  refine List.filterMap_eq_nil_iff.mpr fun header hheader => if_neg ?_
  rintro rfl
  exact hname (h header hheader)

theorem neutral_allowHeaders (route : Option Route) : Neutral (allowHeaders route) := by
  cases route with
  | none => exact neutral_nil
  | some route => exact neutral_singleton (by decide) route.allowed

theorem neutral_lengthHeader (body : Text) : Neutral [lengthHeader body] :=
  neutral_singleton (by decide) _

theorem neutral_varyHeader : Neutral [varyHeader] := neutral_singleton (by decide) _

theorem exists_preflight_headers (service : Service) (r : Request) :
    ∃ before after, Neutral before ∧ Neutral after ∧ (answerPreflight service r).headers =
      credentialsHeader :: (before ++ originHeaders service r ++ after) := by
  have hbefore : Neutral ([("access-control-allow-headers".toList, "origin,content-type,accept".toList)] ++
      [("access-control-allow-methods".toList, "GET,POST,OPTIONS".toList)]) :=
    (neutral_singleton (by decide) _).append (neutral_singleton (by decide) _)
  have hafter : Neutral (allowHeaders (Route.ofPath? r.path) ++ ([lengthHeader []] ++ [varyHeader])) :=
    (neutral_allowHeaders _).append ((neutral_lengthHeader _).append neutral_varyHeader)
  refine ⟨_, _, hbefore, hafter, ?_⟩
  simp only [answerPreflight, List.cons_append, List.append_assoc, List.nil_append]

theorem exists_answer_headers (a : Answer) (service : Service) (r : Request)
    {allow : List (Text × Text)} (hallow : Neutral allow) :
    ∃ before after, Neutral before ∧ Neutral after ∧ (a.response service r allow).headers =
      credentialsHeader :: (before ++ originHeaders service r ++ after) := by
  obtain ⟨status, contentType, body⟩ := a
  have hlength : Neutral (allow ++ [lengthHeader body]) := hallow.append (neutral_lengthHeader body)
  cases contentType with
  | none =>
    refine ⟨[], _, neutral_nil, hlength.append neutral_varyHeader, ?_⟩
    simp [Answer.response]
  | some t =>
    have htype : Neutral [("content-type".toList, t)] := neutral_singleton (by decide) t
    refine ⟨[], _, neutral_nil, hlength.append (htype.append neutral_varyHeader), ?_⟩
    simp [Answer.response]

theorem exists_headers (service : Service) (r : Request) :
    ∃ before after, Neutral before ∧ Neutral after ∧ (respond service r).headers =
      credentialsHeader :: (before ++ originHeaders service r ++ after) := by
  rw [respond]
  split
  · exact exists_preflight_headers service r
  · split
    · exact exists_answer_headers _ service r neutral_nil
    · split
      · exact exists_answer_headers _ service r neutral_nil
      · exact exists_answer_headers _ service r (neutral_allowHeaders _)

theorem originHeaders_eq (service : Service) (r : Request) :
    originHeaders service r =
      (r.origin?.bind (granted? service.origins)).toList.map fun origin => (grantKey, origin) := by
  rw [originHeaders, Request.origin?]
  cases (r.headerValues "origin".toList).head?.bind (granted? service.origins) <;> rfl

theorem headerValues_respond (service : Service) (r : Request) {name : Text}
    (hname : ¬NeutralKey name) :
    (respond service r).headerValues name = (credentialsHeader :: originHeaders service r).filterMap
      fun header => if header.1 = name then some header.2 else none := by
  obtain ⟨before, after, hbefore, hafter, h⟩ := exists_headers service r
  rw [Response.headerValues, h, ← List.singleton_append, List.filterMap_append,
    List.filterMap_append, List.filterMap_append, hbefore.values_eq_nil hname,
    hafter.values_eq_nil hname, List.nil_append, List.append_nil, ← List.filterMap_append,
    List.singleton_append]

theorem grantValues_respond (service : Service) (r : Request) :
    (respond service r).headerValues grantKey =
      (r.origin?.bind (granted? service.origins)).toList := by
  have hcredentials : credentialsHeader.1 ≠ grantKey := by decide
  rw [headerValues_respond service r (by decide), originHeaders_eq]
  cases r.origin?.bind (granted? service.origins) <;> simp [hcredentials]

theorem credentialsValues_respond (service : Service) (r : Request) :
    (respond service r).headerValues credentialsKey = ["true".toList] := by
  have hgrant : grantKey ≠ credentialsKey := by decide
  have hvalue : credentialsHeader = (credentialsKey, "true".toList) := rfl
  rw [headerValues_respond service r (by decide), originHeaders_eq, hvalue]
  cases r.origin?.bind (granted? service.origins) <;> simp [hgrant]

end Headers

variable {origins : List Text} {d d' : Dataset} {service service' : Service}

theorem origins_of_start (h : start origins d = .ok service) :
    service.origins = origins ∧ check origins = .ok () := by
  rw [start] at h
  cases hcheck : check origins with
  | error e => simp [hcheck, Except.map] at h
  | ok _ =>
    rw [hcheck] at h
    exact ⟨congrArg Service.origins (Except.ok.inj h).symm, rfl⟩

/-- A response grants access exactly if the request comes from a listed origin, and then to that
origin alone, never to all by a wildcard. Requests with the same first origin are granted the same,
whatever else they hold and whatever stocks there are, and credentials are always allowed. -/
theorem respond_grants (h : start origins d = .ok service) (r : Request) :
    ((respond service r).headerValues grantKey ≠ [] ↔
      ∃ origin ∈ origins, r.origin? = some (Utf8.encode origin)) ∧
    (∀ origin ∈ (respond service r).headerValues grantKey,
      (respond service r).headerValues grantKey = [origin] ∧ origin ∈ origins ∧
        r.origin? = some (Utf8.encode origin) ∧ origin ≠ ['*']) ∧
    (∀ d' service' r', start origins d' = .ok service' → r'.origin? = r.origin? →
      (respond service' r').headerValues grantKey = (respond service r).headerValues grantKey) ∧
    (respond service r).headerValues credentialsKey = ["true".toList] := by
  obtain ⟨horigins, hcheck⟩ := origins_of_start h
  have hgranted (origin : Text) : r.origin?.bind (granted? origins) = some origin ↔
      origin ∈ origins ∧ r.origin? = some (Utf8.encode origin) := by
    rw [Option.bind_eq_some_iff]
    simp only [granted?_eq_some_iff]
    constructor
    · rintro ⟨value, hvalue, hmem, rfl⟩
      exact ⟨hmem, hvalue⟩
    · rintro ⟨hmem, hvalue⟩
      exact ⟨_, hvalue, hmem, rfl⟩
  refine ⟨?_, fun origin horigin => ?_, fun d' service' r' h' hsame => ?_,
    credentialsValues_respond service r⟩
  · rw [grantValues_respond, horigins, ne_eq, Option.toList_eq_nil_iff, ← ne_eq,
      Option.ne_none_iff_exists']
    exact exists_congr hgranted
  · rw [grantValues_respond, horigins, Option.mem_toList] at horigin
    obtain ⟨hmem, hvalue⟩ := (hgranted origin).mp horigin
    refine ⟨?_, hmem, hvalue, ?_⟩
    · rw [grantValues_respond, horigins, horigin]
      rfl
    · rintro rfl
      exact wildcard_not_mem hcheck hmem
  · rw [grantValues_respond, grantValues_respond, horigins, (origins_of_start h').1, hsame]

theorem respond_grants_first_origin :
    let origins := ["http://a".toList, "http://a.b".toList]
    let service : Service := ⟨.ofStocks [], origins⟩
    let fromOrigins (values : List Text) : Request :=
      ⟨"DELETE".toList, "/filter".toList,
        values.map fun value => ("Origin".toList, Utf8.encode value), []⟩
    start origins (.ofStocks []) = .ok service ∧
      (respond service (fromOrigins ["http://a.b".toList, "http://a".toList])).headerValues
        grantKey = ["http://a.b".toList] ∧
      (respond service (fromOrigins ["http://A".toList, "http://a".toList])).headerValues
        grantKey = [] := by
  intro origins service fromOrigins
  have hstart : start origins (.ofStocks []) = .ok service := rfl
  have hfirst : (fromOrigins ["http://a.b".toList, "http://a".toList]).origin? =
      some (Utf8.encode "http://a.b".toList) := by decide
  have hother : ∀ origin ∈ origins, (fromOrigins ["http://A".toList, "http://a".toList]).origin? ≠
      some (Utf8.encode origin) := by decide
  obtain ⟨hsome, hgrants, -⟩ :=
    respond_grants hstart (fromOrigins ["http://a.b".toList, "http://a".toList])
  obtain ⟨-, hgrants', -⟩ :=
    respond_grants hstart (fromOrigins ["http://A".toList, "http://a".toList])
  refine ⟨hstart, ?_, ?_⟩
  · obtain ⟨origin, horigin⟩ := List.exists_mem_of_ne_nil _ (hsome.mpr ⟨_, by decide, hfirst⟩)
    obtain ⟨heq, -, hvalue, -⟩ := hgrants origin horigin
    rw [heq, Utf8.encode_injective (Option.some.inj (hvalue.symm.trans hfirst))]
  · refine List.eq_nil_iff_forall_not_mem.mpr fun origin horigin => ?_
    obtain ⟨-, hmem, hvalue, -⟩ := hgrants' origin horigin
    exact hother origin hmem hvalue

end Service

end StockScreen
