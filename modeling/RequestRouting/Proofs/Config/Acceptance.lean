import Mathlib
import RequestRouting.Proofs.Config.Decoding

/-!
Which documents are configurations.

A document is one just when each of its known fields is absent or of the right shape (`Acceptable`). Unknown keys
and surplus items can be left out, whatever they hold, and change nothing, not even the error (`essential`).
-/

namespace RequestRouting

open Toml

namespace Config

/-! ## Shapes -/

/-- A table whose base path and message are absent or strings, or an array whose first two items are. -/
inductive RoutingShape : Value → Prop
  | table {entries : Entries} : (∀ w ∈ entries.lookup "base_path", w.IsString) →
    (∀ w ∈ entries.lookup "not_found", w.IsString) → RoutingShape (.table entries)
  | array {items : List Value} : (∀ w ∈ items[0]?, w.IsString) → (∀ w ∈ items[1]?, w.IsString) →
    RoutingShape (.array items)

/-- A table with string values. -/
inductive TypesShape : Value → Prop
  | table {entries : Entries} : (∀ e ∈ entries, e.2.IsString) → TypesShape (.table entries)

/-- A table with a pattern and a script that are strings, and methods that are absent or an array of strings; or an
array that begins with an array of strings and two strings. -/
inductive RouteShape : Value → Prop
  | table {entries : Entries} {pattern script : Value} : entries.lookup "pattern" = some pattern →
    pattern.IsString → entries.lookup "script" = some script → script.IsString →
    (∀ w ∈ entries.lookup "methods", w.IsStrings) → RouteShape (.table entries)
  | array {methods pattern script : Value} {rest : List Value} : methods.IsStrings → pattern.IsString →
    script.IsString → RouteShape (.array (methods :: pattern :: script :: rest))

inductive RoutesShape : Value → Prop
  | array {items : List Value} : (∀ w ∈ items, RouteShape w) → RoutesShape (.array items)

/-- Whether each known field is absent or of its shape. -/
structure Acceptable (entries : Entries) : Prop where
  routing : ∀ v ∈ entries.lookup "routing", RoutingShape v
  types : ∀ v ∈ entries.lookup "types", TypesShape v
  routes : ∀ v ∈ entries.lookup "routes", RoutesShape v

/-! ## What has a shape gives something -/

theorem exists_eq_map_string_iff {found : Option Value} :
    (∃ o : Option String, found = o.map .string) ↔ ∀ w ∈ found, w.IsString := by
  simp only [← orDefault_optional_iff, OrDefault.exists_iff]
  refine forall₂_congr fun w _ => ?_
  constructor
  · exact fun ⟨_, s, hs, _⟩ => ⟨s, hs⟩
  · exact fun ⟨s, hs⟩ => ⟨some s, s, hs, rfl⟩

theorem exists_routing_iff {v : Value} : (∃ c : RoutingConfig, c.GivenBy v) ↔ RoutingShape v := by
  have hfields : (∃ c : RoutingConfig, c.GivenBy v) ↔ ¬v.IsScalar ∧
      (∀ w ∈ v.field? "base_path" 0, w.IsString) ∧ ∀ w ∈ v.field? "not_found" 1, w.IsString := by
    constructor
    · exact fun ⟨c, h⟩ => ⟨h.shape, OrDefault.exists_iff.1 ⟨_, h.basePath⟩, exists_eq_map_string_iff.1 ⟨_, h.notFound⟩⟩
    · intro ⟨hshape, hbase, hnotFound⟩
      obtain ⟨basePath, hbase⟩ := OrDefault.exists_iff.2 hbase
      obtain ⟨notFound, hnotFound⟩ := exists_eq_map_string_iff.2 hnotFound
      exact ⟨⟨basePath, notFound⟩, hshape, hbase, hnotFound⟩
  rw [hfields]
  constructor
  · intro ⟨hshape, hbase, hnotFound⟩
    cases v with
    | table entries => exact .table hbase hnotFound
    | array items => exact .array hbase hnotFound
    | string | integer | float | boolean | datetime => exact absurd trivial hshape
  · rintro (⟨hbase, hnotFound⟩ | ⟨hbase, hnotFound⟩)
    · exact ⟨id, hbase, hnotFound⟩
    · exact ⟨id, hbase, hnotFound⟩

theorem exists_types_iff {v : Value} (hv : v.Regular) : (∃ types, GivesTypes v types) ↔ TypesShape v := by
  constructor
  · rintro ⟨types, entries, rfl, -, hperm⟩
    exact .table fun e he => isString_of_mem_typeEntries (hperm.subset he)
  · rintro ⟨hstrings⟩
    obtain ⟨pairs, rfl⟩ := exists_eq_typeEntries hstrings
    exact ⟨_, givesTypes_ofList hv⟩

theorem exists_route_iff {v : Value} : (∃ r : RouteConfig, r.GivenBy v) ↔ RouteShape v := by
  constructor
  · rintro ⟨r, hmethods, hpattern, hscript⟩
    have hstrings : ∀ w ∈ v.field? "methods" 0, w.IsStrings :=
      fun w hw => isStrings_iff.2 (OrDefault.exists_iff.1 ⟨_, hmethods⟩ w hw)
    cases v with
    | table entries => exact .table hpattern ⟨_, rfl⟩ hscript ⟨_, rfl⟩ hstrings
    | array items =>
      -- The script stands at the third place, so there are three items.
      rcases items with _ | ⟨m, _ | ⟨p, _ | ⟨s, rest⟩⟩⟩
      · cases hpattern
      · cases hpattern
      · cases hscript
      · exact .array (hstrings m rfl) ⟨_, Option.some.inj hpattern⟩ ⟨_, Option.some.inj hscript⟩
    | string | integer | float | boolean | datetime => cases hpattern
  · rintro (⟨hpattern, ⟨p, rfl⟩, hscript, ⟨s, rfl⟩, hmethods⟩ | ⟨hmethods, ⟨p, rfl⟩, ⟨s, rfl⟩⟩)
    · obtain ⟨ss, hss⟩ := OrDefault.exists_iff.2 fun w hw => isStrings_iff.1 (hmethods w hw)
      exact ⟨⟨ss, p, s⟩, hss, hpattern, hscript⟩
    · obtain ⟨ss, rfl⟩ := isStrings_iff.1 hmethods
      exact ⟨⟨ss, p, s⟩, rfl, rfl, rfl⟩

theorem exists_routes_iff {v : Value} : (∃ routes, GivesRoutes v routes) ↔ RoutesShape v := by
  constructor
  · rintro ⟨routes, items, rfl, hroutes⟩
    exact .array fun w hw => exists_route_iff.1 (exists_forall₂_iff.1 ⟨routes, hroutes⟩ w hw)
  · rintro ⟨hitems⟩
    obtain ⟨routes, hroutes⟩ := exists_forall₂_iff.2 fun w hw => exists_route_iff.2 (hitems w hw)
    exact ⟨routes, _, rfl, hroutes⟩

/-- The entries of a document give a configuration just when they are acceptable. -/
theorem exists_givenBy_iff {entries : Entries} (h : (Value.table entries).Regular) :
    (∃ c : Config, c.GivenBy entries) ↔ Acceptable entries := by
  have hfields : (∃ c : Config, c.GivenBy entries) ↔
      (∀ v ∈ entries.lookup "routing", ∃ r : RoutingConfig, r.GivenBy v) ∧
        (∀ v ∈ entries.lookup "types", ∃ types, GivesTypes v types) ∧
          ∀ v ∈ entries.lookup "routes", ∃ routes, GivesRoutes v routes := by
    constructor
    · exact fun ⟨c, hc⟩ => ⟨OrDefault.exists_iff.1 ⟨_, hc.routing⟩, OrDefault.exists_iff.1 ⟨_, hc.types⟩,
        OrDefault.exists_iff.1 ⟨_, hc.routes⟩⟩
    · intro ⟨hrouting, htypes, hroutes⟩
      obtain ⟨routing, hrouting⟩ := OrDefault.exists_iff.2 hrouting
      obtain ⟨types, htypes⟩ := OrDefault.exists_iff.2 htypes
      obtain ⟨routes, hroutes⟩ := OrDefault.exists_iff.2 hroutes
      exact ⟨⟨routing, types, routes⟩, hrouting, htypes, hroutes⟩
  rw [hfields]
  constructor
  · exact fun ⟨hrouting, htypes, hroutes⟩ => ⟨fun v hv => exists_routing_iff.1 (hrouting v hv),
      fun v hv => (exists_types_iff (h.lookup hv)).1 (htypes v hv), fun v hv => exists_routes_iff.1 (hroutes v hv)⟩
  · exact fun ⟨hrouting, htypes, hroutes⟩ => ⟨fun v hv => exists_routing_iff.2 (hrouting v hv),
      fun v hv => (exists_types_iff (h.lookup hv)).2 (htypes v hv), fun v hv => exists_routes_iff.2 (hroutes v hv)⟩

end Config

/-! ## What has no influence -/

/-- A value with only the fields of these names: as a table, those under them, and as an array, that many. -/
def Toml.Value.onlyFields (names : List String) : Value → Value
  | .table entries => .table (entries.filter fun e => e.1 ∈ names)
  | .array items => .array (items.take names.length)
  | v => v

def Toml.Value.mapItems (f : Value → Value) : Value → Value
  | .array items => .array (items.map f)
  | v => v

namespace Config

/-- What can be known of a field of the document. -/
def essentialField (key : String) (v : Value) : Value :=
  if key = "routing" then v.onlyFields ["base_path", "not_found"]
  else if key = "routes" then v.mapItems (Value.onlyFields ["methods", "pattern", "script"])
  else v

/-- The entries of a document without unknown keys and surplus items. -/
def essential (entries : Entries) : Entries :=
  (entries.filter fun e => e.1 ∈ ["routing", "types", "routes"]).map fun e => (e.1, essentialField e.1 e.2)

theorem foldlM_onlyFields {σ ε : Type} {step : σ → String × Value → Except ε σ} {names : List String}
    (h : ∀ s e, e.1 ∉ names → step s e = .ok s) (entries : Entries) (s : σ) :
    (entries.filter fun e => e.1 ∈ names).foldlM step s = entries.foldlM step s := by
  rw [List.foldlM_filter]
  congr 1
  funext s e
  by_cases hname : e.1 ∈ names
  · rw [if_pos (decide_eq_true hname)]
  · rw [if_neg (mt of_decide_eq_true hname), h s e hname]
    rfl

theorem decodeRouting_onlyFields (v : Value) :
    decodeRouting (v.onlyFields ["base_path", "not_found"]) = decodeRouting v := by
  cases v with
  | table entries =>
    refine foldlM_onlyFields (fun (c : RoutingConfig) e hname => ?_) entries {}
    simp only [List.mem_cons, List.not_mem_nil, or_false, not_or] at hname
    simp only [routingEntry, if_neg hname.1, if_neg hname.2]
    rfl
  | array items => rcases items with _ | ⟨b, _ | ⟨n, rest⟩⟩ <;> rfl
  | string | integer | float | boolean | datetime => rfl

theorem decodeRoute_onlyFields (v : Value) :
    decodeRoute (v.onlyFields ["methods", "pattern", "script"]) = decodeRoute v := by
  cases v with
  | table entries =>
    refine congrArg (· >>= RouteFields.route) (foldlM_onlyFields (fun (f : RouteFields) e hname => ?_) entries {})
    simp only [List.mem_cons, List.not_mem_nil, or_false, not_or] at hname
    simp only [routeEntry, if_neg hname.1, if_neg hname.2.1, if_neg hname.2.2]
    rfl
  | array items => rcases items with _ | ⟨m, _ | ⟨p, _ | ⟨s, rest⟩⟩⟩ <;> rfl
  | string | integer | float | boolean | datetime => rfl

theorem decodeRoutes_onlyFields (v : Value) :
    decodeRoutes (v.mapItems (Value.onlyFields ["methods", "pattern", "script"])) = decodeRoutes v := by
  cases v with
  | array items =>
    show (items.map _).mapM decodeRoute = items.mapM decodeRoute
    rw [List.mapM_map]
    exact congrArg items.mapM (funext decodeRoute_onlyFields)
  | string | integer | float | boolean | datetime | table => rfl

theorem entry_essentialField (c : Config) (key : String) (v : Value) :
    entry c key (essentialField key v) = entry c key v := by
  by_cases hrouting : key = "routing"
  · subst hrouting
    show (decodeRouting (v.onlyFields _) >>= _) = (decodeRouting v >>= _)
    rw [decodeRouting_onlyFields]
  · by_cases hroutes : key = "routes"
    · subst hroutes
      show (decodeRoutes (v.mapItems _) >>= _) = (decodeRoutes v >>= _)
      rw [decodeRoutes_onlyFields]
    · rw [essentialField, if_neg hrouting, if_neg hroutes]

/-- Unknown keys and surplus items do not matter, whatever they hold. -/
theorem ofEntries_essential (entries : Entries) : ofEntries (essential entries) = ofEntries entries := by
  rw [ofEntries, essential, List.foldlM_map]
  -- What is left out within a field makes no difference to it, so only the unknown keys remain.
  simp only [entry_essentialField]
  refine foldlM_onlyFields (fun (c : Config) e hname => ?_) entries {}
  simp only [List.mem_cons, List.not_mem_nil, or_false, not_or] at hname
  simp only [entry, if_neg hname.1, if_neg hname.2.1, if_neg hname.2.2]
  rfl

/-! ## Documents -/

theorem ofToml_eq_ok_iff {text : String} {entries : Entries} (hparse : parse? text = some (.table entries))
    {c : Config} : ofToml text = .ok c ↔ ofEntries entries = .ok c := by
  rw [ofToml, hparse]
  dsimp only
  cases ofEntries entries with
  | ok c' => rw [Except.ok.injEq, Except.ok.injEq]
  | error cause => exact ⟨nofun, nofun⟩

/-- Documents that differ only in unknown keys and surplus items give the same, be it a configuration or an error. -/
theorem ofToml_congr {text text' : String} {entries entries' : Entries}
    (hparse : parse? text = some (.table entries)) (hparse' : parse? text' = some (.table entries'))
    (h : essential entries' = essential entries) : ofToml text' = ofToml text := by
  have hsame : ofEntries entries' = ofEntries entries := by
    rw [← ofEntries_essential, h, ofEntries_essential]
  rw [ofToml, ofToml, hparse, hparse']
  dsimp only
  rw [hsame]

/-- A document without dates and times is a configuration just when each known field is absent or of its shape. It is
then the one that the document gives, with the defaults of the fields that are absent, and with the routes in order.
Documents that differ from it only in unknown keys and surplus items give the same. -/
theorem ofToml_of_undated {text : String} {doc : Value} (hparse : parse? text = some doc) (hundated : doc.Undated) :
    ∃ entries, doc = .table entries ∧ ((∃ c, ofToml text = .ok c) ↔ Acceptable entries) ∧
      (∀ c, ofToml text = .ok c ↔ c.GivenBy entries) ∧
      ∀ text' entries', parse? text' = some (.table entries') → essential entries' = essential entries →
        ofToml text' = ofToml text := by
  obtain ⟨entries, rfl, hkeys⟩ := exists_table_of_parse? hparse
  have hregular : (Value.table entries).Regular := ⟨hkeys, hundated⟩
  have hgives : ∀ c, ofToml text = .ok c ↔ c.GivenBy entries :=
    fun c => (ofToml_eq_ok_iff hparse).trans (ofEntries_eq_ok_iff hregular)
  refine ⟨entries, rfl, ?_, hgives, fun text' entries' hparse' h => ofToml_congr hparse hparse' h⟩
  rw [exists_congr hgives]
  exact exists_givenBy_iff hregular

/-- A document with unknown keys and surplus items. -/
def surplusText : String :=
  "title = 1\nrouting = [\"/app\", \"none\", 3]\n" ++
    "routes = [\x7bpattern = \"/b\", script = \"b\", weight = 2\x7d, [[\"PUT\"], \"/a\", \"a\", 1]]\n"

def surplusEntries : Entries :=
  [("title", .integer 1), ("routing", .array [.string "/app", .string "none", .integer 3]),
    ("routes", .array [.table [("pattern", .string "/b"), ("script", .string "b"), ("weight", .integer 2)],
      .array [strings ["PUT"], .string "/a", .string "a", .integer 1]])]

theorem ofToml_surplusText : parse? surplusText = some (.table surplusEntries) ∧
    (Value.table surplusEntries).Undated ∧
    ofToml surplusText = .ok
      { routing := { basePath := "/app", notFound := some "none" },
        routes := [{ pattern := "/b", script := "b" }, { methods := ["PUT"], pattern := "/a", script := "a" }] } := by
  have hparse : parse? surplusText = some (.table surplusEntries) := by cbv
  have hundated : (Value.table surplusEntries).Undated := by simp [surplusEntries, strings]
  obtain ⟨entries, hentries, -, hgives, -⟩ := ofToml_of_undated hparse hundated
  obtain rfl := Value.table.inj hentries
  have hrouting : RoutingConfig.GivenBy { basePath := "/app", notFound := some "none" }
      (.array [.string "/app", .string "none", .integer 3]) := ⟨id, rfl, rfl⟩
  refine ⟨hparse, hundated, (hgives _).2 ⟨hrouting, rfl, _, rfl, ?_⟩⟩
  exact .cons ⟨rfl, rfl, rfl⟩ (.cons ⟨rfl, rfl, rfl⟩ .nil)

end Config

end RequestRouting
