import CommonDataLayer.Foundations.UrlParameters

/-! # Routes of the site

The site keeps its current page in `location.hash`. A route is written there as a text, and read
back when the page is reloaded, when a link is opened and when the user goes back.

* `routeToString`, `parseCurrentRoute`: the two directions. The first writes the values as they are,
  the second reads them with `URLSearchParams`.
* `RoundTrips`: reading the hash that a route has left gives this route.
* `Shareable`: the condition on its texts under which it does, `roundTrips_iff`.
-/
namespace CommonDataLayer.CdlSite
open Unicode UrlEncoding UrlParameters
set_option autoImplicit false

/-- A string of JavaScript is any list of 16-bit units. -/
abbrev JsString := List UInt16

def js (text : String) : JsString := utf16 text.toList

inductive QueryType where
  | single
  | multiple
  | schema
  deriving DecidableEq, Repr

def QueryType.text : QueryType → JsString
  | single => js "single"
  | multiple => js "multiple"
  | schema => js "schema"

def QueryType.ofText (text : JsString) : Option QueryType :=
  [single, multiple, schema].find? (·.text = text)

structure SchemasRoute where
  id : Option JsString
  query : Option JsString
  version : Option JsString
  creating : Option Bool
  deriving DecidableEq, Repr

inductive Route where
  | home
  | insert
  | settings
  | query (type : Option QueryType)
  | schemas (route : SchemasRoute)
  deriving DecidableEq, Repr

/-! ## Writing and reading a route -/

/-- An empty string is as good as none. -/
def truthy (text : Option JsString) : Option JsString := text.filter (· ≠ [])

def SchemasRoute.fields (route : SchemasRoute) : List (String × Option JsString) :=
  [("id", route.id), ("version", route.version), ("query", route.query),
    ("creating", if route.creating = some true then some (js "true") else none)]

def present (field : String × Option JsString) : Option (String × JsString) :=
  (truthy field.2).map (field.1, ·)

def SchemasRoute.params (route : SchemasRoute) : List (String × JsString) :=
  route.fields.filterMap present

def assignment (param : String × JsString) : JsString := js param.1 ++ js "=" ++ param.2

def routeToString : Route → JsString
  | .home => js "#/"
  | .insert => js "#/insert"
  | .settings => js "#/settings"
  | .query none => js "#/query"
  | .query (some type) => js "#/query?by=" ++ type.text
  | .schemas route =>
    if route.params.isEmpty then js "#/schemas"
    else js "#/schemas?" ++ (js "&").intercalate (route.params.map assignment)

/-- `new URLSearchParams(init)` takes the text of its string. -/
def urlSearchParams (init : JsString) : List (List Char × List Char) :=
  searchParams (scalarValues init)

/-- `params.get(name)`. -/
def getParam (params : List (List Char × List Char)) (name : String) : Option JsString :=
  (params.lookup name.toList).map utf16

def SchemasRoute.ofParams (params : List (List Char × List Char)) : SchemasRoute where
  id := truthy (getParam params "id")
  query := truthy (getParam params "query")
  version := truthy (getParam params "version")
  creating := some (getParam params "creating" = some (js "true"))

def parseCurrentRoute (hash : JsString) : Option Route :=
  let params := urlSearchParams (((hash.splitOn 0x3F)[1]?).getD [])
  if hash = [] ∨ hash = js "#/" then some .home
  else if (js "#/insert").isPrefixOf hash then some .insert
  else if (js "#/query").isPrefixOf hash then
    some (.query ((truthy (getParam params "by")).bind QueryType.ofText))
  else if (js "#/settings").isPrefixOf hash then some .settings
  else if (js "#/schemas").isPrefixOf hash then some (.schemas (.ofParams params))
  else none

/-- `location.hash` after `pushState` or `replaceState` with this string. -/
def hashOf (url : JsString) : Option JsString := (locationHash (scalarValues url)).map utf16

def reload (route : Route) : Option Route := (hashOf (routeToString route)).bind parseCurrentRoute

/-- Empty strings, `undefined` and `creating: false` all mean absent. -/
def SchemasRoute.normal (route : SchemasRoute) : SchemasRoute where
  id := truthy route.id
  query := truthy route.query
  version := truthy route.version
  creating := route.creating.filter (· = true)

def Route.normal : Route → Route
  | .schemas route => .schemas route.normal
  | route => route

def RoundTrips (route : Route) : Prop := (reload route).map Route.normal = some route.normal

instance (route : Route) : Decidable (RoundTrips route) := inferInstanceAs (Decidable (_ = _))

/-- The texts of a route that are there, in the order of its link. -/
def SchemasRoute.texts (route : SchemasRoute) : List JsString :=
  [route.id, route.version, route.query].filterMap truthy

structure SchemasRoute.Shareable (route : SchemasRoute) : Prop where
  wellFormed : ∀ text ∈ route.texts, WellFormed text
  plain : ∀ text ∈ route.texts, Plain (scalarValues text)
  ends : route.creating ≠ some true →
    ∀ text ∈ route.texts.getLast?, ¬ EndsInBlank (scalarValues text)

def Shareable : Route → Prop
  | .schemas route => route.Shareable
  | _ => True

variable {route : SchemasRoute} {params : List (String × JsString)}

/-! ## What is read from the link of a schemas page -/

/-- The parameters as texts. -/
def textParams (params : List (String × JsString)) : List (List Char × List Char) :=
  params.map fun param => (param.1.toList, scalarValues param.2)

theorem scalarValues_assignment (param : String × JsString) (rest : JsString) :
    scalarValues (assignment param ++ rest) =
      param.1.toList ++ '=' :: scalarValues (param.2 ++ rest) := by
  have hequals : "=".toList = ['='] := by decide
  rw [assignment, List.append_assoc, List.append_assoc, js, scalarValues_utf16_append, js,
    scalarValues_utf16_append, hequals, List.singleton_append]

theorem scalarValues_link (params : List (String × JsString)) :
    scalarValues ((js "&").intercalate (params.map assignment)) = queryText (textParams params) := by
  induction params with
  | nil => rfl
  | cons param params ih =>
    cases params with
    | nil =>
      have hparam := scalarValues_assignment param []
      rw [List.append_nil, List.append_nil] at hparam
      rw [textParams, List.map_singleton, List.map_singleton, queryText_singleton,
        List.intercalate_singleton, hparam]
    | cons next params =>
      have hsplit : (js "&").intercalate ((param :: next :: params).map assignment) =
          assignment param ++ 0x26 :: (js "&").intercalate ((next :: params).map assignment) := by
        rw [List.map_cons, List.map_cons, List.intercalate_cons_cons, List.append_assoc]
        rfl
      -- the ampersand keeps the two sides apart, whatever unit the value ends with
      have hlow : ¬ IsLow 0x26 := by decide
      have hhigh : ¬ IsHigh 0x26 := by decide
      rw [hsplit, scalarValues_assignment, scalarValues_append hlow, scalarValues_cons hhigh, ih]
      exact queryText_cons.symm

theorem takeWhile_utf16 (text : List Char) :
    (utf16 text).takeWhile (· ≠ 0x3F) = utf16 (text.takeWhile (· ≠ '?')) := by
  have hother : ∀ c, 0x3F ∈ utf16Char c → c = '?' := fun _ h => eq_of_mem_utf16Char (by decide) h
  exact takeWhile_flatMap (by decide) hother text

/-- The parameters in the hash of a schemas page. -/
theorem urlSearchParams_hash (query : List Char) :
    urlSearchParams (((js "#/schemas" ++ utf16 ('?' :: percentEncode (sent query))).splitOn
      0x3F)[1]?.getD []) = readParams query := by
  have hquestion : utf16 ('?' :: percentEncode (sent query)) =
      0x3F :: utf16 (percentEncode (sent query)) := rfl
  have hpath : 0x3F ∉ js "#/schemas" := by decide
  rw [hquestion, splitOn_second hpath, Option.getD_some, takeWhile_utf16, urlSearchParams,
    scalarValues_utf16, readParams]

theorem parseCurrentRoute_schemas (rest : JsString) :
    parseCurrentRoute (js "#/schemas" ++ rest) = some (.schemas (.ofParams
      (urlSearchParams (((js "#/schemas" ++ rest).splitOn 0x3F)[1]?.getD [])))) := by
  have hhome : ¬ (js "#/schemas" ++ rest = [] ∨ js "#/schemas" ++ rest = js "#/") := by
    rintro (h | h)
    · cases h
    · cases h
  have hinsert : (js "#/insert").isPrefixOf (js "#/schemas" ++ rest) = false := rfl
  have hquery : (js "#/query").isPrefixOf (js "#/schemas" ++ rest) = false := rfl
  have hsettings : (js "#/settings").isPrefixOf (js "#/schemas" ++ rest) = false := rfl
  have hschemas : (js "#/schemas").isPrefixOf (js "#/schemas" ++ rest) = true := rfl
  unfold parseCurrentRoute
  rw [if_neg hhome, hinsert, hquery, hsettings, hschemas]
  rfl

theorem reload_schemas (route : SchemasRoute) :
    reload (.schemas route) =
      some (.schemas (.ofParams (readParams (queryText (textParams route.params))))) := by
  cases hparams : route.params with
  | nil =>
    have hlink : routeToString (.schemas route) = js "#/schemas" := by
      rw [routeToString, hparams]
      rfl
    have hhash : hashOf (js "#/schemas") = some (js "#/schemas" ++ []) := by decide
    rw [reload, hlink, hhash, Option.bind_some, parseCurrentRoute_schemas]
    rfl
  | cons param params =>
    have hlink : routeToString (.schemas route) =
        js "#/schemas?" ++ (js "&").intercalate ((param :: params).map assignment) := by
      rw [routeToString, hparams]
      rfl
    have hname : IsName "/schemas".toList := by decide
    have hpath : ∀ c ∈ "/schemas".toList, inFragmentSet c = false := fun c hc =>
      (isNameChar_iff.mp (hname c hc)).1
    have hquestion : "#/schemas?".toList ++ queryText (textParams (param :: params)) =
        '#' :: "/schemas".toList ++ '?' :: queryText (textParams (param :: params)) := rfl
    have hutf16 : ∀ rest, utf16 ('#' :: "/schemas".toList ++ '?' :: rest) =
        js "#/schemas" ++ utf16 ('?' :: rest) := fun _ => List.flatMap_append
    rw [reload, hlink, hashOf, js, scalarValues_utf16_append, scalarValues_link, hquestion,
      locationHash_query hpath, Option.map_some, Option.bind_some, hutf16, parseCurrentRoute_schemas,
      urlSearchParams_hash]

/-! ## When a route comes back -/

theorem truthy_eq_some {value : Option JsString} {text : JsString} :
    truthy value = some text ↔ value = some text ∧ text ≠ [] := by
  rw [truthy, Option.filter_eq_some_iff, decide_eq_true_iff]

theorem truthy_truthy (value : Option JsString) : truthy (truthy value) = truthy value := by
  rw [truthy, truthy, Option.filter_filter]
  simp

theorem present_eq_some {field : String × Option JsString} {param : String × JsString} :
    present field = some param ↔ param.1 = field.1 ∧ truthy field.2 = some param.2 := by
  rw [present, Option.map_eq_some_iff]
  constructor
  · rintro ⟨text, htext, rfl⟩
    exact ⟨rfl, htext⟩
  · rintro ⟨hname, htext⟩
    exact ⟨param.2, htext, by rw [← hname]⟩

theorem names_sublist (fields : List (String × Option JsString)) :
    List.Sublist ((fields.filterMap present).map (·.1)) (fields.map (·.1)) := by
  induction fields with
  | nil => exact List.Sublist.slnil
  | cons field fields ih =>
    cases hpresent : present field with
    | none =>
      rw [List.filterMap_cons_none hpresent, List.map_cons]
      exact ih.cons _
    | some param =>
      rw [List.filterMap_cons_some hpresent, List.map_cons, List.map_cons,
        (present_eq_some.mp hpresent).1]
      exact ih.cons_cons _

theorem lookup_present {fields : List (String × Option JsString)} (hnodup : (fields.map (·.1)).Nodup)
    (name : String) :
    (fields.filterMap present).lookup name = (fields.lookup name).bind truthy := by
  induction fields with
  | nil => rfl
  | cons field fields ih =>
    obtain ⟨fieldName, value⟩ := field
    rw [List.map_cons, List.nodup_cons] at hnodup
    by_cases hname : name = fieldName
    · subst hname
      rw [List.lookup_cons_self, Option.bind_some]
      cases hvalue : truthy value with
      | none =>
        have hpresent : present (name, value) = none := by rw [present, hvalue]; rfl
        have hrest : fields.lookup name = none := by
          refine List.lookup_eq_none_iff.mpr fun field hfield => bne_iff_ne.mpr ?_
          rintro rfl
          exact hnodup.1 (List.mem_map.mpr ⟨field, hfield, rfl⟩)
        rw [List.filterMap_cons_none hpresent, ih hnodup.2, hrest, Option.bind_none]
      | some text =>
        have hpresent : present (name, value) = some (name, text) := by rw [present, hvalue]; rfl
        rw [List.filterMap_cons_some hpresent, List.lookup_cons_self]
    · have hne : (name == fieldName) = false := beq_eq_false_iff_ne.mpr hname
      have hskip : ((fieldName, value) :: fields).lookup name = fields.lookup name := by
        rw [List.lookup_cons, hne]
      rw [hskip, ← ih hnodup.2]
      cases hpresent : present (fieldName, value) with
      | none => rw [List.filterMap_cons_none hpresent]
      | some param =>
        have hparam : (name == param.1) = false := by rw [(present_eq_some.mp hpresent).1, hne]
        rw [List.filterMap_cons_some hpresent, List.lookup_cons, hparam]

/-- The names of the parameters, in their order. -/
theorem names_fields (route : SchemasRoute) :
    route.fields.map (·.1) = ["id", "version", "query", "creating"] := rfl

theorem isName_textParams (route : SchemasRoute) : ∀ p ∈ textParams route.params, IsName p.1 := by
  intro p hp
  obtain ⟨param, hparam, rfl⟩ := List.mem_map.mp hp
  have hmem := (names_sublist route.fields).subset (List.mem_map_of_mem hparam)
  rw [names_fields] at hmem
  have hnames : ∀ name ∈ ["id", "version", "query", "creating"], IsName name.toList := by decide
  exact hnames _ hmem

theorem nodup_textParams (route : SchemasRoute) : ((textParams route.params).map (·.1)).Nodup := by
  have hsublist := (names_sublist route.fields).map String.toList
  have hnodup : (["id", "version", "query", "creating"].map String.toList).Nodup := by decide
  rw [names_fields] at hsublist
  rw [textParams, List.map_map]
  have hmap : route.params.map ((·.1) ∘ fun param => (param.1.toList, scalarValues param.2)) =
      (route.params.map (·.1)).map String.toList := by rw [List.map_map]; rfl
  rw [hmap]
  exact hnodup.sublist hsublist

theorem getParam_eq_some {found : List (List Char × List Char)} {name : String} {text : JsString} :
    getParam found name = some text ↔
      found.lookup name.toList = some (scalarValues text) ∧ WellFormed text := by
  rw [getParam, Option.map_eq_some_iff]
  constructor
  · rintro ⟨chars, hlookup, hutf16⟩
    obtain ⟨rfl, hwell⟩ := utf16_eq_iff.mp hutf16
    exact ⟨hlookup, hwell⟩
  · rintro ⟨hlookup, hwell⟩
    exact ⟨_, hlookup, hwell⟩

theorem getParam_textParams (hwell : ∀ param ∈ params, WellFormed param.2) (name : String) :
    getParam (textParams params) name = params.lookup name := by
  induction params with
  | nil => rfl
  | cons param params ih =>
    rw [List.forall_mem_cons] at hwell
    have hrest := ih hwell.2
    obtain ⟨paramName, text⟩ := param
    unfold getParam textParams at hrest ⊢
    by_cases hname : name = paramName
    · subst hname
      rw [List.map_cons, List.lookup_cons_self, List.lookup_cons_self]
      exact congrArg some hwell.1
    · have hne : (name == paramName) = false := beq_eq_false_iff_ne.mpr hname
      have hchars : (name.toList == paramName.toList) = false :=
        beq_eq_false_iff_ne.mpr fun h => hname (String.toList_inj.mp h)
      rw [List.map_cons, List.lookup_cons, List.lookup_cons, hne, hchars, hrest]

theorem filter_eq_iff {found : Option JsString} {creating : Option Bool} :
    (some (decide (found = some (js "true")))).filter (· = true) = creating.filter (· = true) ↔
      (found = some (js "true") ↔ creating = some true) := by
  by_cases hfound : found = some (js "true") <;> rcases creating with _ | _ | _ <;>
    simp [hfound, Option.filter]

/-- What a schemas page reads is the same route. -/
theorem normal_ofParams_iff {found : List (List Char × List Char)} :
    (SchemasRoute.ofParams found).normal = route.normal ↔
      (truthy (getParam found "id") = truthy route.id ∧
        truthy (getParam found "query") = truthy route.query ∧
        truthy (getParam found "version") = truthy route.version) ∧
      (getParam found "creating" = some (js "true") ↔ route.creating = some true) := by
  rw [← filter_eq_iff]
  simp only [SchemasRoute.normal, SchemasRoute.ofParams, truthy_truthy, SchemasRoute.mk.injEq,
    and_assoc]

/-- A route comes back exactly if each of its parameters does. -/
theorem roundTrips_iff_params : RoundTrips (.schemas route) ↔
    Survives (textParams route.params) ∧ ∀ param ∈ route.params, WellFormed param.2 := by
  have hreload : RoundTrips (.schemas route) ↔
      (SchemasRoute.ofParams (readParams (queryText (textParams route.params)))).normal =
        route.normal := by
    rw [RoundTrips, reload_schemas, Option.map_some, Option.some.injEq]
    exact Route.schemas.injEq _ _ ▸ Iff.rfl
  rw [hreload, normal_ofParams_iff]
  constructor
  · rintro ⟨⟨hid, hquery, hversion⟩, hcreating⟩
    have hread : ∀ param ∈ route.params,
        getParam (readParams (queryText (textParams route.params))) param.1 = some param.2 := by
      intro param hparam
      obtain ⟨field, hfield, hpresent⟩ := List.mem_filterMap.mp hparam
      obtain ⟨hname, hvalue⟩ := present_eq_some.mp hpresent
      simp only [SchemasRoute.fields, List.mem_cons, List.not_mem_nil, or_false] at hfield
      rw [hname]
      obtain rfl | rfl | rfl | rfl := hfield
      · exact (truthy_eq_some.mp (hid.trans hvalue)).1
      · exact (truthy_eq_some.mp (hversion.trans hvalue)).1
      · exact (truthy_eq_some.mp (hquery.trans hvalue)).1
      · obtain ⟨hflag, -⟩ := truthy_eq_some.mp hvalue
        split at hflag
        · next hset => exact (hcreating.mpr hset).trans hflag
        · cases hflag
    refine ⟨(readParams_iff (isName_textParams route) (nodup_textParams route)).mp fun p hp => ?_,
      fun param hparam => (getParam_eq_some.mp (hread param hparam)).2⟩
    obtain ⟨param, hparam, rfl⟩ := List.mem_map.mp hp
    exact (getParam_eq_some.mp (hread param hparam)).1
  · rintro ⟨hsurvives, hwell⟩
    have hlookup : ∀ name, getParam (textParams route.params) name =
        (route.fields.lookup name).bind truthy := fun name =>
      (getParam_textParams hwell name).trans (lookup_present (by rw [names_fields]; decide) name)
    have hcreating : getParam (textParams route.params) "creating" =
        truthy (if route.creating = some true then some (js "true") else none) := hlookup "creating"
    rw [readParams_queryText (isName_textParams route) hsurvives, hcreating]
    refine ⟨⟨?_, ?_, ?_⟩, ?_⟩
    · exact (congrArg truthy (hlookup "id")).trans (truthy_truthy route.id)
    · exact (congrArg truthy (hlookup "query")).trans (truthy_truthy route.query)
    · exact (congrArg truthy (hlookup "version")).trans (truthy_truthy route.version)
    · rw [truthy_eq_some]
      split
      · next hset => exact iff_of_true ⟨rfl, by decide⟩ hset
      · next hset => exact iff_of_false (fun h => by cases h.1) hset

/-! ## The condition on the texts -/

theorem values_params (route : SchemasRoute) : route.params.map (·.2) =
    route.texts ++ if route.creating = some true then [js "true"] else [] := by
  have hvalue : ∀ field, (present field).map (·.2) = truthy field.2 := by
    intro field
    rw [present, Option.map_map]
    exact Option.map_id'
  have hfields : route.fields.map (·.2) = [route.id, route.version, route.query] ++
      [if route.creating = some true then some (js "true") else none] := rfl
  have hvalues : route.fields.filterMap (fun field => truthy field.2) =
      (route.fields.map (·.2)).filterMap truthy := List.filterMap_map.symm
  rw [SchemasRoute.params, List.map_filterMap, List.filterMap_congr fun field _ => hvalue field,
    hvalues, hfields, List.filterMap_append, SchemasRoute.texts]
  split
  · rfl
  · rfl

theorem survives_textParams : Survives (textParams params) ↔
    (∀ text ∈ params.map (·.2), Plain (scalarValues text)) ∧
      ∀ text ∈ (params.map (·.2)).getLast?, ¬ EndsInBlank (scalarValues text) := by
  have hplain : (∀ p ∈ textParams params, Plain p.2) ↔
      ∀ text ∈ params.map (·.2), Plain (scalarValues text) := by
    rw [textParams, List.forall_mem_map, List.forall_mem_map]
  have hends : (∀ p ∈ (textParams params).getLast?, ¬ EndsInBlank p.2) ↔
      ∀ text ∈ (params.map (·.2)).getLast?, ¬ EndsInBlank (scalarValues text) := by
    rw [textParams, List.getLast?_map, List.getLast?_map]
    cases params.getLast? <;> simp
  rw [← hplain, ← hends]
  exact ⟨fun h => ⟨h.plain, h.ends⟩, fun h => ⟨h.1, h.2⟩⟩

theorem plain_true : Plain "true".toList :=
  plain_name (by decide)

theorem shareable_iff_params : route.Shareable ↔
    Survives (textParams route.params) ∧ ∀ param ∈ route.params, WellFormed param.2 := by
  have hwell : (∀ param ∈ route.params, WellFormed param.2) ↔
      ∀ text ∈ route.params.map (·.2), WellFormed text := by rw [List.forall_mem_map]
  rw [survives_textParams, hwell, values_params]
  by_cases hcreating : route.creating = some true
  · have htrue : scalarValues (js "true") = "true".toList := scalarValues_utf16 _
    have hends : ¬ EndsInBlank "true".toList := by
      rintro ⟨c, hc, hblank⟩
      cases hc
      cases hblank
    rw [if_pos hcreating, List.forall_mem_append, List.forall_mem_append, List.forall_mem_singleton,
      List.forall_mem_singleton, List.getLast?_concat, htrue]
    constructor
    · intro h
      exact ⟨⟨⟨h.plain, plain_true⟩, fun text htext => Option.some.inj htext ▸ htrue ▸ hends⟩,
        h.wellFormed, wellFormed_utf16 _⟩
    · rintro ⟨⟨⟨hplain, -⟩, -⟩, hwellFormed, -⟩
      exact ⟨hwellFormed, hplain, fun hnot => absurd hcreating hnot⟩
  · rw [if_neg hcreating, List.append_nil]
    exact ⟨fun h => ⟨⟨h.plain, h.ends hcreating⟩, h.wellFormed⟩, fun h => ⟨h.2, h.1.1, fun _ => h.1.2⟩⟩

/-- Reading the hash that a route has left gives the route back exactly if it is shareable. -/
theorem roundTrips_iff (route : Route) : RoundTrips route ↔ Shareable route := by
  cases route with
  | home => exact iff_of_true (by decide) trivial
  | insert => exact iff_of_true (by decide) trivial
  | settings => exact iff_of_true (by decide) trivial
  | query type =>
    refine iff_of_true ?_ trivial
    rcases type with _ | _ | _ | _ <;> decide
  | schemas route => exact roundTrips_iff_params.trans shareable_iff_params.symm

/-- A search for `a&b` is a search for `a` after a reload. -/
theorem reload_ampersand :
    reload (.schemas { id := none, query := some (js "a&b"), version := none, creating := none }) =
        some (.schemas { id := none, query := some (js "a"), version := none, creating := some false }) ∧
      ¬ ∀ route, RoundTrips route := by
  refine ⟨by decide, fun h => ?_⟩
  have hlost : ¬ RoundTrips (.schemas
    { id := none, query := some (js "a&b"), version := none, creating := none }) := by decide
  exact hlost (h _)

end CommonDataLayer.CdlSite
