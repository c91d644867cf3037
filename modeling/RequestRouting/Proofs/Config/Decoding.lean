import Mathlib.Data.List.Perm.Basic
import Mathlib.Data.Set.List
import RequestRouting.Config.File
import RequestRouting.Proofs.Config.Forms
import RequestRouting.Proofs.Results
import RequestRouting.Proofs.SortedPairs
import RequestRouting.Proofs.Toml.Keys

/-!
What a document is decoded to.

Each field of the configuration is what the document gives, or its default where the document gives nothing
(`GivenBy`); no document is decoded to anything else, and each that gives a configuration is decoded to it
(`ofEntries_eq_ok_iff`).
-/

namespace RequestRouting

open Toml

/-! ## Values -/

namespace Toml.Value

/-- Whether there is no date or time within a value. -/
inductive Undated : Value → Prop
  | string (s : String) : Undated (.string s)
  | integer (n : Int) : Undated (.integer n)
  | float (x : Binary64) : Undated (.float x)
  | boolean (b : Bool) : Undated (.boolean b)
  | array {items} : (∀ v ∈ items, Undated v) → Undated (.array items)
  | table {entries} : (∀ e ∈ entries, Undated e.2) → Undated (.table entries)

attribute [simp] Undated.string Undated.integer Undated.float Undated.boolean

@[simp] theorem undated_array_iff {items : List Value} : (Value.array items).Undated ↔ ∀ v ∈ items, v.Undated := by
  refine ⟨fun h => ?_, .array⟩
  cases h with
  | array h => exact h

@[simp] theorem undated_table_iff {entries : Entries} :
    (Value.table entries).Undated ↔ ∀ e ∈ entries, e.2.Undated := by
  refine ⟨fun h => ?_, .table⟩
  cases h with
  | table h => exact h

/-- A value without dates and times in which no table has a key twice. -/
structure Regular (v : Value) : Prop where
  keys : v.DistinctKeys
  undated : v.Undated

theorem Regular.item {items : List Value} (h : (Value.array items).Regular) {v : Value} (hv : v ∈ items) :
    v.Regular :=
  ⟨distinctKeys_array_iff.1 h.keys v hv, undated_array_iff.1 h.undated v hv⟩

theorem Regular.nodup {entries : Entries} (h : (Value.table entries).Regular) : (entries.map (·.1)).Nodup :=
  (distinctKeys_table_iff.1 h.keys).1

theorem Regular.lookup {entries : Entries} (h : (Value.table entries).Regular) {key : String} {v : Value}
    (hv : entries.lookup key = some v) : v.Regular := by
  have hmem := (lookup_eq_some_iff_mem h.nodup).1 hv
  exact ⟨(distinctKeys_table_iff.1 h.keys).2 _ hmem, undated_table_iff.1 h.undated _ hmem⟩

/-- The value of a field, which stands under its name in a table and at its place in an array. -/
def field? (v : Value) (name : String) (place : Nat) : Option Value :=
  match v with
  | .table entries => entries.lookup name
  | .array items => items[place]?
  | _ => none

end Toml.Value

/-! ## Fields -/

/-- Whether a field is what is given for it, or its default if nothing is given. -/
def OrDefault {α : Type} (given : Value → α → Prop) (default : α) : Option Value → α → Prop
  | none, x => x = default
  | some v, x => given v x

namespace OrDefault

variable {α : Type} {given given' : Value → α → Prop} {default : α} {found : Option Value}

theorem congr (h : ∀ v ∈ found, ∀ x, given v x ↔ given' v x) (x : α) :
    OrDefault given default found x ↔ OrDefault given' default found x := by
  cases found with
  | none => exact Iff.rfl
  | some v => exact h v rfl x

theorem unique (h : ∀ v x y, given v x → given v y → x = y) {x y : α} (hx : OrDefault given default found x)
    (hy : OrDefault given default found y) : x = y := by
  cases found with
  | none => exact hx.trans hy.symm
  | some v => exact h v x y hx hy

theorem exists_iff : (∃ x, OrDefault given default found x) ↔ ∀ v ∈ found, ∃ x, given v x := by
  cases found with
  | none => exact ⟨fun _ => nofun, fun _ => ⟨default, rfl⟩⟩
  | some v => exact ⟨fun h _ hv => Option.some.inj hv ▸ h, fun h => h v rfl⟩

end OrDefault

section

variable {σ α ε : Type} {step : σ → String × Value → Except ε σ} {entries : Entries} {s s' : σ}

/-- Whether taking in entries gives a field what is under its key, and changes it in no other way. -/
def TakesField (step : σ → String × Value → Except ε σ) (key : String) (given : Value → α → Prop)
    (get : σ → α) : Prop :=
  ∀ s e s', step s e = .ok s' → if e.1 = key then given e.2 (get s') else get s' = get s

/-- Where no key comes twice, a field ends up with what is under its key, or with what it had. -/
theorem TakesField.foldlM {key : String} {given : Value → α → Prop} {get : σ → α} (h : TakesField step key given get)
    (hkeys : (entries.map (·.1)).Nodup) (hfold : entries.foldlM step s = .ok s') :
    OrDefault given (get s) (entries.lookup key) (get s') := by
  induction entries generalizing s with
  | nil =>
    obtain rfl := Except.ok.inj hfold
    exact rfl
  | cons e rest ih =>
    obtain ⟨name, v⟩ := e
    obtain ⟨s₁, hstep, hrest⟩ := bind_eq_ok_iff.1 hfold
    rw [List.map_cons, List.nodup_cons] at hkeys
    have hfield := h s (name, v) s₁ hstep
    have hmore := ih hkeys.2 hrest
    by_cases hname : name = key
    · subst hname
      -- The rest does not have the key again, so it leaves the field as it is.
      have hnone : rest.lookup name = none := by
        rw [List.lookup_eq_none_iff]
        intro p hp
        rw [bne_iff_ne]
        rintro rfl
        exact hkeys.1 (List.mem_map.2 ⟨p, hp, rfl⟩)
      rw [hnone] at hmore
      rw [if_pos rfl] at hfield
      rw [List.lookup_cons_self, show get s' = get s₁ from hmore]
      exact hfield
    · rw [if_neg hname] at hfield
      rw [List.lookup_cons, beq_false_of_ne (Ne.symm hname), ← hfield]
      exact hmore

/-- Taking in entries gives just what the fields say, if they leave no choice and each entry can be taken in. -/
theorem foldlM_eq_ok_iff {P : σ → Prop} (htakes : ∀ s', entries.foldlM step s = .ok s' → P s')
    (hunique : ∀ s' s'', P s' → P s'' → s' = s'')
    (hstep : ∀ s', P s' → ∀ e ∈ entries, ∀ s, ∃ s'', step s e = .ok s'') :
    entries.foldlM step s = .ok s' ↔ P s' := by
  refine ⟨htakes s', fun h => ?_⟩
  obtain ⟨s'', hfold⟩ := exists_foldlM_eq_ok (hstep s' h) s
  rw [hfold, hunique s'' s' (htakes s'' hfold) h]

end

/-! ## What a document gives -/

/-- Whether a value gives this for routing: a table or an array, with the fields or nothing in their place. -/
structure RoutingConfig.GivenBy (c : RoutingConfig) (v : Value) : Prop where
  shape : ¬v.IsScalar
  basePath : OrDefault (fun w s => w = .string s) "" (v.field? "base_path" 0) c.basePath
  notFound : v.field? "not_found" 1 = c.notFound.map .string

/-- Whether a value gives this route. Only its methods have a default. -/
structure RouteConfig.GivenBy (r : RouteConfig) (v : Value) : Prop where
  methods : OrDefault (fun w ss => w = strings ss) ["GET"] (v.field? "methods" 0) r.methods
  pattern : v.field? "pattern" 1 = some (.string r.pattern)
  script : v.field? "script" 2 = some (.string r.script)

namespace Config

/-- The types that a table gives are its entries, sorted by name. -/
def GivesTypes (v : Value) (types : List (String × String)) : Prop :=
  ∃ entries, v = .table entries ∧ SortedPairs.Sorted types ∧ entries.Perm (typeEntries types)

/-- The items of an array give the routes in their order. -/
def GivesRoutes (v : Value) (routes : List RouteConfig) : Prop :=
  ∃ items, v = .array items ∧ List.Forall₂ (fun w r => r.GivenBy w) items routes

/-- Whether the entries of a document give the configuration: each field as it stands there, or its default. -/
structure GivenBy (c : Config) (entries : Entries) : Prop where
  routing : OrDefault (fun v r => r.GivenBy v) {} (entries.lookup "routing") c.routing
  types : OrDefault GivesTypes [] (entries.lookup "types") c.types
  routes : OrDefault GivesRoutes [] (entries.lookup "routes") c.routes

end Config

/-! ## Strings -/

def Toml.Value.IsString (v : Value) : Prop := ∃ s, v = .string s

def Toml.Value.IsStrings (v : Value) : Prop := ∃ items, v = .array items ∧ ∀ w ∈ items, w.IsString

namespace Config

/-- What holds of each item of a list holds of a list that they are made from. -/
theorem exists_map_eq {α β : Type} {f : α → β} {ys : List β} (h : ∀ y ∈ ys, ∃ x, y = f x) :
    ∃ xs : List α, ys = xs.map f := by
  have hrange : ys ∈ Set.range (List.map f) := by
    rw [Set.range_list_map]
    exact fun y hy => (h y hy).imp fun _ hx => hx.symm
  exact hrange.imp fun _ hxs => hxs.symm

theorem isStrings_iff {v : Value} : v.IsStrings ↔ ∃ ss, v = strings ss := by
  constructor
  · rintro ⟨items, rfl, hitems⟩
    exact (exists_map_eq hitems).imp fun _ => congrArg Value.array
  · rintro ⟨ss, rfl⟩
    exact ⟨_, rfl, List.forall_mem_map.2 fun s _ => ⟨s, rfl⟩⟩

/-- A field that may be left out has a value just when what is found has its form. -/
theorem orDefault_iff {α : Type} {wrap : α → Value} {default x : α} {found : Option Value} :
    OrDefault (fun w x => w = wrap x) default found x ↔ ∃ o : Option α, found = o.map wrap ∧ x = o.getD default := by
  cases found with
  | none =>
    constructor
    · exact fun h => ⟨none, rfl, h⟩
    · rintro ⟨o, ho, rfl⟩
      rw [Option.map_eq_none_iff.1 ho.symm]
      rfl
  | some w =>
    constructor
    · exact fun h => ⟨some x, congrArg some h, rfl⟩
    · rintro ⟨o, ho, rfl⟩
      obtain ⟨y, rfl, rfl⟩ := Option.map_eq_some_iff.1 ho.symm
      exact rfl

theorem orDefault_optional_iff {α : Type} {wrap : α → Value} {found : Option Value} {o : Option α} :
    OrDefault (fun w o => ∃ x, w = wrap x ∧ o = some x) none found o ↔ found = o.map wrap := by
  cases found with
  | none => exact Option.map_eq_none_iff.symm.trans eq_comm
  | some w =>
    rw [eq_comm, Option.map_eq_some_iff]
    exact exists_congr fun x => ⟨fun h => ⟨h.2, h.1.symm⟩, fun h => ⟨h.2.symm, h.1⟩⟩

/-! ## Routing -/

theorem routingEntry_eq_ok_iff {c c' : RoutingConfig} {e : String × Value} :
    routingEntry c e.1 e.2 = .ok c' ↔
      if e.1 = "base_path" then ∃ s, e.2 = .string s ∧ { c with basePath := s } = c'
      else if e.1 = "not_found" then ∃ s, e.2 = .string s ∧ { c with notFound := some s } = c'
      else c = c' := by
  unfold routingEntry
  split_ifs
  · simp [bind_eq_ok_iff, decodeString_eq_ok_iff, pure, Except.pure]
  · simp [bind_eq_ok_iff, decodeString_eq_ok_iff, pure, Except.pure]
  · simp [pure, Except.pure]

theorem takesField_basePath : TakesField (fun c e => routingEntry c e.1 e.2) "base_path"
    (fun w s => w = .string s) RoutingConfig.basePath := by
  intro c e c' h
  grind [routingEntry_eq_ok_iff]

theorem takesField_notFound : TakesField (fun c e => routingEntry c e.1 e.2) "not_found"
    (fun w o => ∃ s, w = .string s ∧ o = some s) RoutingConfig.notFound := by
  intro c e c' h
  grind [routingEntry_eq_ok_iff]

theorem exists_routingEntry {e : String × Value} (hbase : e.1 = "base_path" → e.2.IsString)
    (hnotFound : e.1 = "not_found" → e.2.IsString) (c : RoutingConfig) :
    ∃ c', routingEntry c e.1 e.2 = .ok c' := by
  simp only [routingEntry_eq_ok_iff]
  split_ifs with h h'
  · exact (hbase h).elim fun s hs => ⟨_, s, hs, rfl⟩
  · exact (hnotFound h').elim fun s hs => ⟨_, s, hs, rfl⟩
  · exact ⟨c, rfl⟩

theorem foldlM_routingEntry {entries : Entries} (hkeys : (entries.map (·.1)).Nodup) {c : RoutingConfig} :
    entries.foldlM (fun c e => routingEntry c e.1 e.2) {} = .ok c ↔
      OrDefault (fun w s => w = .string s) "" (entries.lookup "base_path") c.basePath ∧
        entries.lookup "not_found" = c.notFound.map .string := by
  apply foldlM_eq_ok_iff
  · exact fun c h =>
      ⟨takesField_basePath.foldlM hkeys h, orDefault_optional_iff.1 (takesField_notFound.foldlM hkeys h)⟩
  · rintro ⟨basePath, notFound⟩ ⟨basePath', notFound'⟩ ⟨hbase, hnotFound⟩ ⟨hbase', hnotFound'⟩
    have hsame := hbase.unique (fun _ _ _ h h' => Value.string.inj (h.symm.trans h')) hbase'
    have hsame' := Option.map_injective (fun _ _ => Value.string.inj) (hnotFound.symm.trans hnotFound')
    exact congrArg₂ RoutingConfig.mk hsame hsame'
  · intro c ⟨hbase, hnotFound⟩ e he c
    have hlookup := (lookup_eq_some_iff_mem hkeys).2 he
    refine exists_routingEntry (fun hkey => ?_) (fun hkey => ?_) c
    · rw [← hkey, hlookup] at hbase
      exact ⟨_, hbase⟩
    · rw [← hkey, hlookup] at hnotFound
      exact (Option.map_eq_some_iff.1 hnotFound.symm).imp fun s hs => hs.2.symm

theorem routingItems_eq_ok_iff {items : List Value} {c : RoutingConfig} : routingItems items = .ok c ↔
    OrDefault (fun w s => w = .string s) "" items[0]? c.basePath ∧ items[1]? = c.notFound.map .string := by
  obtain ⟨basePath, notFound⟩ := c
  unfold routingItems
  split
  next => simp [OrDefault, pure, Except.pure, eq_comm]
  next b => simp [OrDefault, bind_eq_ok_iff, decodeString_eq_ok_iff, pure, Except.pure, @eq_comm _ notFound]
  next b n rest =>
    simp [OrDefault, bind_eq_ok_iff, decodeString_eq_ok_iff, pure, Except.pure, @eq_comm _ notFound,
      @eq_comm _ n, and_comm]

/-- A value is taken for routing just when it gives it. -/
theorem decodeRouting_eq_ok_iff {v : Value} (hv : v.Regular) {c : RoutingConfig} :
    decodeRouting v = .ok c ↔ c.GivenBy v := by
  cases v with
  | table entries =>
    refine (foldlM_routingEntry hv.nodup).trans ⟨fun h => ⟨id, h.1, h.2⟩, fun h => ⟨h.basePath, h.notFound⟩⟩
  | array items =>
    refine routingItems_eq_ok_iff.trans ⟨fun h => ⟨id, h.1, h.2⟩, fun h => ⟨h.basePath, h.notFound⟩⟩
  | datetime text => cases hv.undated
  | string | integer | float | boolean => exact ⟨nofun, fun h => absurd trivial h.shape⟩

/-! ## Types -/

theorem exists_eq_typeEntries {entries : Entries} (h : ∀ e ∈ entries, e.2.IsString) :
    ∃ types, entries = typeEntries types := by
  apply exists_map_eq
  intro e he
  obtain ⟨s, hs⟩ := h e he
  exact ⟨(e.1, s), Prod.ext rfl hs⟩

theorem isString_of_mem_typeEntries {types : List (String × String)} {e : String × Value}
    (h : e ∈ typeEntries types) : e.2.IsString := by
  obtain ⟨p, -, rfl⟩ := List.mem_map.1 h
  exact ⟨p.2, rfl⟩

theorem typeEntries_perm_iff {types types' : List (String × String)} :
    (typeEntries types).Perm (typeEntries types') ↔ types.Perm types' := by
  apply List.map_perm_map_iff
  intro p q h
  obtain ⟨hname, hvalue⟩ := Prod.mk.inj h
  exact Prod.ext hname (Value.string.inj hvalue)

theorem GivesTypes.decodeTypes_eq {v : Value} {types : List (String × String)} (h : GivesTypes v types) :
    decodeTypes v = .ok types := by
  obtain ⟨entries, rfl, hsorted, hperm⟩ := h
  obtain ⟨pairs, rfl⟩ := exists_eq_typeEntries fun e he => isString_of_mem_typeEntries (hperm.subset he)
  exact decodeTypes_typeEntries hsorted (typeEntries_perm_iff.1 hperm)

theorem givesTypes_ofList {pairs : List (String × String)} (h : (Value.table (typeEntries pairs)).Regular) :
    GivesTypes (.table (typeEntries pairs)) (SortedPairs.ofList pairs) := by
  have hnodup : (pairs.map (·.1)).Nodup := by
    have hkeys := h.nodup
    rwa [typeEntries, List.map_map] at hkeys
  exact ⟨_, rfl, SortedPairs.sorted_ofList pairs, typeEntries_perm_iff.2 (SortedPairs.ofList_perm hnodup).symm⟩

/-- A table is taken for types just when its values are strings, and the types are then its entries. -/
theorem decodeTypes_eq_ok_iff {v : Value} (hv : v.Regular) {types : List (String × String)} :
    decodeTypes v = .ok types ↔ GivesTypes v types := by
  refine ⟨fun h => ?_, GivesTypes.decodeTypes_eq⟩
  cases v with
  | table entries =>
    have hstrings : ∀ e ∈ entries, e.2.IsString := by
      intro e he
      obtain ⟨types, types', hstep⟩ := exists_step_of_foldlM h he
      obtain ⟨s, hs, -⟩ := bind_eq_ok_iff.1 hstep
      exact ⟨s, decodeString_eq_ok_iff.1 hs⟩
    obtain ⟨pairs, rfl⟩ := exists_eq_typeEntries hstrings
    have hgives := givesTypes_ofList hv
    obtain rfl := Except.ok.inj (h.symm.trans hgives.decodeTypes_eq)
    exact hgives
  | datetime text => cases hv.undated
  | string | integer | float | boolean | array => cases h

/-! ## Routes -/

theorem routeEntry_eq_ok_iff {f f' : RouteFields} {e : String × Value} :
    routeEntry f e.1 e.2 = .ok f' ↔
      if e.1 = "methods" then ∃ ss, e.2 = strings ss ∧ { f with methods := some ss } = f'
      else if e.1 = "pattern" then ∃ s, e.2 = .string s ∧ { f with pattern := some s } = f'
      else if e.1 = "script" then ∃ s, e.2 = .string s ∧ { f with script := some s } = f'
      else f = f' := by
  unfold routeEntry
  split_ifs
  · simp [bind_eq_ok_iff, decodeStrings_eq_ok_iff, pure, Except.pure]
  · simp [bind_eq_ok_iff, decodeString_eq_ok_iff, pure, Except.pure]
  · simp [bind_eq_ok_iff, decodeString_eq_ok_iff, pure, Except.pure]
  · simp [pure, Except.pure]

theorem takesField_methods : TakesField (fun f e => routeEntry f e.1 e.2) "methods"
    (fun w o => ∃ ss, w = strings ss ∧ o = some ss) RouteFields.methods := by
  intro f e f' h
  grind [routeEntry_eq_ok_iff]

theorem takesField_pattern : TakesField (fun f e => routeEntry f e.1 e.2) "pattern"
    (fun w o => ∃ s, w = .string s ∧ o = some s) RouteFields.pattern := by
  intro f e f' h
  grind [routeEntry_eq_ok_iff]

theorem takesField_script : TakesField (fun f e => routeEntry f e.1 e.2) "script"
    (fun w o => ∃ s, w = .string s ∧ o = some s) RouteFields.script := by
  intro f e f' h
  grind [routeEntry_eq_ok_iff]

theorem exists_routeEntry {e : String × Value} (hmethods : e.1 = "methods" → ∃ ss, e.2 = strings ss)
    (hpattern : e.1 = "pattern" → e.2.IsString) (hscript : e.1 = "script" → e.2.IsString) (f : RouteFields) :
    ∃ f', routeEntry f e.1 e.2 = .ok f' := by
  simp only [routeEntry_eq_ok_iff]
  split_ifs with h₁ h₂ h₃
  · exact (hmethods h₁).elim fun ss hss => ⟨_, ss, hss, rfl⟩
  · exact (hpattern h₂).elim fun s hs => ⟨_, s, hs, rfl⟩
  · exact (hscript h₃).elim fun s hs => ⟨_, s, hs, rfl⟩
  · exact ⟨f, rfl⟩

theorem strings_injective : Function.Injective strings :=
  fun _ _ h => List.map_injective_iff.2 (fun _ _ => Value.string.inj) (Value.array.inj h)

theorem foldlM_routeEntry {entries : Entries} (hkeys : (entries.map (·.1)).Nodup) {f : RouteFields} :
    entries.foldlM (fun f e => routeEntry f e.1 e.2) {} = .ok f ↔
      entries.lookup "methods" = f.methods.map strings ∧ entries.lookup "pattern" = f.pattern.map .string ∧
        entries.lookup "script" = f.script.map .string := by
  apply foldlM_eq_ok_iff
  · exact fun f h => ⟨orDefault_optional_iff.1 (takesField_methods.foldlM hkeys h),
      orDefault_optional_iff.1 (takesField_pattern.foldlM hkeys h),
      orDefault_optional_iff.1 (takesField_script.foldlM hkeys h)⟩
  · rintro ⟨methods, pattern, script⟩ ⟨methods', pattern', script'⟩ ⟨hm, hp, hs⟩ ⟨hm', hp', hs'⟩
    have hstring : Function.Injective Value.string := fun _ _ => Value.string.inj
    rw [RouteFields.mk.injEq]
    exact ⟨Option.map_injective strings_injective (hm.symm.trans hm'),
      Option.map_injective hstring (hp.symm.trans hp'), Option.map_injective hstring (hs.symm.trans hs')⟩
  · intro f ⟨hmethods, hpattern, hscript⟩ e he f
    have hlookup := (lookup_eq_some_iff_mem hkeys).2 he
    have hgiven : ∀ {α : Type} {wrap : α → Value} {o : Option α}, entries.lookup e.1 = o.map wrap →
        ∃ x, e.2 = wrap x := by
      intro α wrap o h
      exact (Option.map_eq_some_iff.1 (h.symm.trans hlookup)).imp fun x hx => hx.2.symm
    refine exists_routeEntry (fun hkey => ?_) (fun hkey => ?_) (fun hkey => ?_) f
    · exact hgiven (hkey ▸ hmethods)
    · exact hgiven (hkey ▸ hpattern)
    · exact hgiven (hkey ▸ hscript)

theorem RouteFields.route_eq_ok_iff {f : RouteFields} {r : RouteConfig} : f.route = .ok r ↔
    r.methods = f.methods.getD ["GET"] ∧ f.pattern = some r.pattern ∧ f.script = some r.script := by
  obtain ⟨methods, pattern, script⟩ := f
  obtain ⟨methods', pattern', script'⟩ := r
  cases pattern <;> cases script <;> simp [route, eq_comm]

theorem routeItems_eq_ok_iff {items : List Value} {r : RouteConfig} : routeItems items = .ok r ↔
    items[0]? = some (strings r.methods) ∧ items[1]? = some (.string r.pattern) ∧
      items[2]? = some (.string r.script) := by
  obtain ⟨methods, pattern, script⟩ := r
  rcases items with _ | ⟨m, _ | ⟨p, _ | ⟨s, rest⟩⟩⟩ <;>
    simp [routeItems, bind_eq_ok_iff, decodeString_eq_ok_iff, decodeStrings_eq_ok_iff, pure, Except.pure, throw,
      throwThe, MonadExceptOf.throw]

/-- A value is taken for a route just when it gives it. -/
theorem decodeRoute_eq_ok_iff {v : Value} (hv : v.Regular) {r : RouteConfig} :
    decodeRoute v = .ok r ↔ r.GivenBy v := by
  cases v with
  | table entries =>
    show (entries.foldlM (fun f e => routeEntry f e.1 e.2) {} >>= RouteFields.route) = .ok r ↔ _
    simp only [bind_eq_ok_iff, foldlM_routeEntry hv.nodup, RouteFields.route_eq_ok_iff]
    constructor
    · intro ⟨f, ⟨hm, hp, hs⟩, hmethods, hpattern, hscript⟩
      rw [hpattern] at hp
      rw [hscript] at hs
      exact ⟨orDefault_iff.2 ⟨f.methods, hm, hmethods⟩, hp, hs⟩
    · intro ⟨hmethods, hpattern, hscript⟩
      obtain ⟨o, ho, hmethods⟩ := orDefault_iff.1 hmethods
      exact ⟨⟨o, some r.pattern, some r.script⟩, ⟨ho, hpattern, hscript⟩, hmethods, rfl, rfl⟩
  | array items =>
    refine routeItems_eq_ok_iff.trans ⟨fun h => ⟨?_, h.2.1, h.2.2⟩, fun h => ⟨?_, h.pattern, h.script⟩⟩
    · show OrDefault _ _ items[0]? _
      rw [h.1]
      exact rfl
    · -- There are items behind the first, so its place is taken.
      have hmethods : OrDefault (fun w ss => w = strings ss) ["GET"] items[0]? r.methods := h.methods
      have hpattern : items[1]? = some (.string r.pattern) := h.pattern
      cases items with
      | nil => cases hpattern
      | cons m rest => exact congrArg some hmethods
  | datetime text => cases hv.undated
  | string | integer | float | boolean => exact ⟨nofun, fun h => nomatch h.pattern⟩

/-- An array is taken for routes just when each item gives one. -/
theorem decodeRoutes_eq_ok_iff {v : Value} (hv : v.Regular) {routes : List RouteConfig} :
    decodeRoutes v = .ok routes ↔ GivesRoutes v routes := by
  constructor
  · intro h
    cases v with
    | array items =>
      have hitems := (List.forall₂_and_left (p := (· ∈ items)) _ _).2 ⟨fun _ => id, mapM_eq_ok_iff.1 h⟩
      exact ⟨items, rfl, hitems.imp fun w r hw => (decodeRoute_eq_ok_iff (hv.item hw.1)).1 hw.2⟩
    | string | integer | float | boolean | datetime | table => cases h
  · rintro ⟨items, rfl, hitems⟩
    have hgiven := (List.forall₂_and_left (p := (· ∈ items)) _ _).2 ⟨fun _ => id, hitems⟩
    exact mapM_eq_ok_iff.2 (hgiven.imp fun w r hw => (decodeRoute_eq_ok_iff (hv.item hw.1)).2 hw.2)

/-! ## The whole -/

theorem entry_eq_ok_iff {c c' : Config} {e : String × Value} :
    entry c e.1 e.2 = .ok c' ↔
      if e.1 = "routing" then ∃ r, decodeRouting e.2 = .ok r ∧ { c with routing := r } = c'
      else if e.1 = "types" then ∃ types, decodeTypes e.2 = .ok types ∧ { c with types } = c'
      else if e.1 = "routes" then ∃ routes, decodeRoutes e.2 = .ok routes ∧ { c with routes } = c'
      else c = c' := by
  unfold entry
  split_ifs
  · simp [bind_eq_ok_iff, pure, Except.pure]
  · simp [bind_eq_ok_iff, pure, Except.pure]
  · simp [bind_eq_ok_iff, pure, Except.pure]
  · simp [pure, Except.pure]

theorem takesField_routing : TakesField (fun c e => entry c e.1 e.2) "routing"
    (fun v r => decodeRouting v = .ok r) Config.routing := by
  intro c e c' h
  grind [entry_eq_ok_iff]

theorem takesField_types : TakesField (fun c e => entry c e.1 e.2) "types"
    (fun v types => decodeTypes v = .ok types) Config.types := by
  intro c e c' h
  grind [entry_eq_ok_iff]

theorem takesField_routes : TakesField (fun c e => entry c e.1 e.2) "routes"
    (fun v routes => decodeRoutes v = .ok routes) Config.routes := by
  intro c e c' h
  grind [entry_eq_ok_iff]

theorem exists_entry {e : String × Value} (hrouting : e.1 = "routing" → ∃ r, decodeRouting e.2 = .ok r)
    (htypes : e.1 = "types" → ∃ types, decodeTypes e.2 = .ok types)
    (hroutes : e.1 = "routes" → ∃ routes, decodeRoutes e.2 = .ok routes) (c : Config) :
    ∃ c', entry c e.1 e.2 = .ok c' := by
  simp only [entry_eq_ok_iff]
  split_ifs with h₁ h₂ h₃
  · exact (hrouting h₁).elim fun r hr => ⟨_, r, hr, rfl⟩
  · exact (htypes h₂).elim fun types h => ⟨_, types, h, rfl⟩
  · exact (hroutes h₃).elim fun routes h => ⟨_, routes, h, rfl⟩
  · exact ⟨c, rfl⟩

/-- The fields of a configuration are decoded one by one. -/
theorem ofEntries_eq_ok_iff_fields {entries : Entries} (hkeys : (entries.map (·.1)).Nodup) {c : Config} :
    ofEntries entries = .ok c ↔
      OrDefault (fun v r => decodeRouting v = .ok r) {} (entries.lookup "routing") c.routing ∧
        OrDefault (fun v types => decodeTypes v = .ok types) [] (entries.lookup "types") c.types ∧
          OrDefault (fun v routes => decodeRoutes v = .ok routes) [] (entries.lookup "routes") c.routes := by
  apply foldlM_eq_ok_iff
  · exact fun c h => ⟨takesField_routing.foldlM hkeys h, takesField_types.foldlM hkeys h,
      takesField_routes.foldlM hkeys h⟩
  · rintro ⟨routing, types, routes⟩ ⟨routing', types', routes'⟩ ⟨hr, ht, hs⟩ ⟨hr', ht', hs'⟩
    rw [Config.mk.injEq]
    exact ⟨hr.unique (fun _ _ _ h h' => Except.ok.inj (h.symm.trans h')) hr',
      ht.unique (fun _ _ _ h h' => Except.ok.inj (h.symm.trans h')) ht',
      hs.unique (fun _ _ _ h h' => Except.ok.inj (h.symm.trans h')) hs'⟩
  · intro c ⟨hrouting, htypes, hroutes⟩ e he c
    have hlookup := (lookup_eq_some_iff_mem hkeys).2 he
    refine exists_entry (fun hkey => ?_) (fun hkey => ?_) (fun hkey => ?_) c
    · exact OrDefault.exists_iff.1 ⟨_, hrouting⟩ e.2 (hkey ▸ hlookup)
    · exact OrDefault.exists_iff.1 ⟨_, htypes⟩ e.2 (hkey ▸ hlookup)
    · exact OrDefault.exists_iff.1 ⟨_, hroutes⟩ e.2 (hkey ▸ hlookup)

/-- The entries of a document are taken for a configuration just when they give it. -/
theorem ofEntries_eq_ok_iff {entries : Entries} (h : (Value.table entries).Regular) {c : Config} :
    ofEntries entries = .ok c ↔ c.GivenBy entries := by
  rw [ofEntries_eq_ok_iff_fields h.nodup,
    OrDefault.congr fun _ hv _ => decodeRouting_eq_ok_iff (h.lookup hv),
    OrDefault.congr fun _ hv _ => decodeTypes_eq_ok_iff (h.lookup hv),
    OrDefault.congr fun _ hv _ => decodeRoutes_eq_ok_iff (h.lookup hv)]
  exact ⟨fun h => ⟨h.1, h.2.1, h.2.2⟩, fun h => ⟨h.routing, h.types, h.routes⟩⟩

end Config

end RequestRouting
