import CommonDataLayer.CdlSite.Route
import CommonDataLayer.Foundations.Runs

/-! # The site and its address

The route that is shown changes with every page, and the address with it.

* `setQuery`, `selectSchema`: what the sidebar writes. `setQuery_shareable_iff`: the search texts
  that survive.
* `Site`: the session history of the browser and the route that is shown. `shows_address_iff`: a
  reload never shows another page exactly as long as all routes that are pushed are shareable.
-/
namespace CommonDataLayer.CdlSite
open Unicode UrlEncoding UrlParameters TransitionSystem
set_option autoImplicit false

variable {route : SchemasRoute}

/-! ## The sidebar of the schemas page -/

def setQuery (route : SchemasRoute) (query : JsString) : SchemasRoute :=
  { route with query := some query }

def selectSchema (route : SchemasRoute) (schemaId : JsString) : SchemasRoute :=
  { route with id := some schemaId, version := none }

theorem texts_append (route : SchemasRoute) : route.texts =
    [route.id, route.version].filterMap truthy ++ [route.query].filterMap truthy := by
  rw [← List.filterMap_append]
  rfl

theorem texts_setQuery {query : JsString} (hquery : query ≠ []) :
    (setQuery route query).texts = [route.id, route.version].filterMap truthy ++ [query] := by
  have hlast : [some query].filterMap truthy = [query] :=
    List.filterMap_cons_some (truthy_eq_some.mpr ⟨rfl, hquery⟩)
  rw [← hlast, ← List.filterMap_append]
  rfl

/-- The search texts that can be typed into a page without its link losing them. -/
theorem setQuery_shareable_iff {query : JsString} (h : route.Shareable) (hquery : query ≠ []) :
    (setQuery route query).Shareable ↔ WellFormed query ∧ Plain (scalarValues query) ∧
      (route.creating ≠ some true → ¬ EndsInBlank (scalarValues query)) := by
  have htexts : (setQuery route query).texts =
      [route.id, route.version].filterMap truthy ++ [query] := texts_setQuery hquery
  constructor
  · intro hset
    have hmem : query ∈ (setQuery route query).texts :=
      htexts ▸ List.mem_append_right _ List.mem_cons_self
    exact ⟨hset.wellFormed query hmem, hset.plain query hmem, fun hnot =>
      hset.ends hnot query (htexts ▸ List.getLast?_concat)⟩
  · rintro ⟨hwell, hplain, hends⟩
    have hothers : ∀ text ∈ [route.id, route.version].filterMap truthy, text ∈ route.texts :=
      fun text htext => texts_append route ▸ List.mem_append_left _ htext
    refine ⟨?_, ?_, fun hnot text htext => ?_⟩
    · rw [htexts, List.forall_mem_append, List.forall_mem_singleton]
      exact ⟨fun text htext => h.wellFormed text (hothers text htext), hwell⟩
    · rw [htexts, List.forall_mem_append, List.forall_mem_singleton]
      exact ⟨fun text htext => h.plain text (hothers text htext), hplain⟩
    · rw [htexts, List.getLast?_concat] at htext
      exact Option.some.inj htext ▸ hends hnot

theorem not_endsInBlank_name {name : List Char} (h : IsName name) : ¬ EndsInBlank name := by
  rintro ⟨c, hc, hblank⟩
  have hbounds := bounds_of_not_inFragmentSet (isNameChar_iff.mp (h c (List.mem_of_getLast? hc))).1
  rw [isBlank, decide_eq_true_iff] at hblank
  omega

/-- A schema whose identifier is a name can always be selected. -/
theorem selectSchema_shareable {name : List Char} (h : route.Shareable) (hname : IsName name) :
    (selectSchema route (utf16 name)).Shareable := by
  have htexts : (selectSchema route (utf16 name)).texts =
      [some (utf16 name)].filterMap truthy ++ [route.query].filterMap truthy := by
    show ([some (utf16 name)] ++ ([none] ++ [route.query])).filterMap truthy = _
    rw [List.filterMap_append, List.filterMap_append]
    rfl
  have hid : ∀ text ∈ [some (utf16 name)].filterMap truthy, text = utf16 name := by
    intro text htext
    obtain ⟨value, hvalue, hsome⟩ := List.mem_filterMap.mp htext
    rw [List.mem_singleton.mp hvalue] at hsome
    exact (Option.some.inj (truthy_eq_some.mp hsome).1).symm
  have hquery : ∀ text ∈ [route.query].filterMap truthy, text ∈ route.texts := fun text htext =>
    texts_append route ▸ List.mem_append_right _ htext
  refine ⟨?_, ?_, fun hnot text htext => ?_⟩
  · rw [htexts, List.forall_mem_append]
    exact ⟨fun text htext => hid text htext ▸ wellFormed_utf16 name, fun text htext =>
      h.wellFormed text (hquery text htext)⟩
  · rw [htexts, List.forall_mem_append]
    refine ⟨fun text htext => ?_, fun text htext => h.plain text (hquery text htext)⟩
    rw [hid text htext, scalarValues_utf16]
    exact plain_name hname
  · have hends := h.ends hnot
    rw [texts_append] at hends
    rw [htexts] at htext
    cases hlast : [route.query].filterMap truthy with
    | nil =>
      rw [hlast, List.append_nil] at htext
      rw [hid text (List.mem_of_getLast? htext), scalarValues_utf16]
      exact not_endsInBlank_name hname
    | cons query more =>
      rw [hlast, List.getLast?_append_of_ne_nil _ (List.cons_ne_nil _ _)] at htext hends
      exact hends text htext

/-! ## The history of the browser -/

/-- The hashes of the session history around the current one, and the route that is shown. -/
structure Site where
  back : List JsString
  hash : JsString
  forward : List JsString
  shown : Option Route

inductive Visit where
  | push (target : Route)
  | replace (target : Route)
  | goBack
  | goForward
  | reload

namespace Site

/-- The site is opened with this hash. -/
def opened (hash : JsString) : Site :=
  { back := [], hash := hash, forward := [], shown := parseCurrentRoute hash }

def push (s : Site) (target : Route) (hash : JsString) : Site :=
  { back := s.hash :: s.back, hash := hash, forward := [], shown := some target }

def replace (s : Site) (target : Route) (hash : JsString) : Site :=
  { s with hash := hash, shown := some target }

/-- `onpopstate`, one entry back. -/
def goBack (s : Site) (hash : JsString) (earlier : List JsString) : Site where
  back := earlier
  hash := hash
  forward := s.hash :: s.forward
  shown := parseCurrentRoute hash

def goForward (s : Site) (hash : JsString) (later : List JsString) : Site where
  back := s.hash :: s.back
  hash := hash
  forward := later
  shown := parseCurrentRoute hash

inductive Step : Site → Visit → Site → Prop where
  | push {s : Site} {target : Route} {hash : JsString}
      (address : hashOf (routeToString target) = some hash) :
      Step s (.push target) (s.push target hash)
  | replace {s : Site} {target : Route} {hash : JsString}
      (address : hashOf (routeToString target) = some hash) :
      Step s (.replace target) (s.replace target hash)
  | goBack {s : Site} {hash : JsString} {earlier : List JsString} (entry : s.back = hash :: earlier) :
      Step s .goBack (s.goBack hash earlier)
  | goForward {s : Site} {hash : JsString} {later : List JsString} (entry : s.forward = hash :: later) :
      Step s .goForward (s.goForward hash later)
  | reload {s : Site} : Step s .reload { s with shown := parseCurrentRoute s.hash }

/-- A reload shows the route that is shown already. -/
def ShowsAddress (s : Site) : Prop :=
  (parseCurrentRoute s.hash).map Route.normal = s.shown.map Route.normal

end Site

def Visit.Shareable : Visit → Prop
  | .push target => CdlSite.Shareable target
  | .replace target => CdlSite.Shareable target
  | _ => True

namespace Site

variable {s s' : Site} {visit : Visit} {ts : List (Transition Site Visit)} {hash : JsString}

/-- After a route was written the address shows it exactly if it is shareable. -/
theorem showsAddress_iff {target : Route} (haddress : hashOf (routeToString target) = some hash)
    (hhash : s.hash = hash) (hshown : s.shown = some target) :
    s.ShowsAddress ↔ CdlSite.Shareable target := by
  rw [← roundTrips_iff, ShowsAddress, RoundTrips, CdlSite.reload, haddress, Option.bind_some, hhash,
    hshown, Option.map_some]

theorem step_showsAddress (hstep : Step s visit s') (h : visit.Shareable) : s'.ShowsAddress := by
  cases hstep with
  | push address => exact (showsAddress_iff address rfl rfl).mpr h
  | replace address => exact (showsAddress_iff address rfl rfl).mpr h
  | goBack _ => rfl
  | goForward _ => rfl
  | reload => rfl

theorem step_not_showsAddress (hstep : Step s visit s') (h : ¬ visit.Shareable) :
    ¬ s'.ShowsAddress := by
  cases hstep with
  | push address => exact fun hshows => h ((showsAddress_iff address rfl rfl).mp hshows)
  | replace address => exact fun hshows => h ((showsAddress_iff address rfl rfl).mp hshows)
  | goBack _ => exact absurd trivial h
  | goForward _ => exact absurd trivial h
  | reload => exact absurd trivial h

/-- In every run, a reload never shows another route exactly as long as all routes that were pushed
can be shared. -/
theorem shows_address_iff (hrun : Run Step (opened hash) ts s) :
    (∀ s ∈ states (opened hash) ts, s.ShowsAddress) ↔ ∀ t ∈ ts, t.label.Shareable := by
  have hopened : (opened hash).ShowsAddress := rfl
  have hstep : ∀ s visit s', ShowsAddress s → Step s visit s' → visit.Shareable → s'.ShowsAddress :=
    fun _ _ _ _ hstep hok => step_showsAddress hstep hok
  exact hrun.states_iff hopened (fun _ h => h) hstep
    fun _ _ _ _ hstep hbad => step_not_showsAddress hstep hbad

/-- There is a hash for every route, so pushing never fails. -/
theorem exists_hash (target : Route) : ∃ hash, hashOf (routeToString target) = some hash := by
  cases target with
  | home => exact ⟨js "#/", by decide⟩
  | insert => exact ⟨js "#/insert", by decide⟩
  | settings => exact ⟨js "#/settings", by decide⟩
  | query type =>
    refine ⟨routeToString (.query type), ?_⟩
    rcases type with _ | _ | _ | _ <;> decide
  | schemas route =>
    have hreload := reload_schemas route
    rw [CdlSite.reload, Option.bind_eq_some_iff] at hreload
    obtain ⟨hash, haddress, -⟩ := hreload
    exact ⟨hash, haddress⟩

end Site
end CommonDataLayer.CdlSite
