import Mathlib.Data.List.Forall2
import RequestRouting.Config.File
import RequestRouting.Proofs.Results
import RequestRouting.Proofs.SortedPairs
import RequestRouting.Proofs.Toml.Blocks

/-!
The forms of a configuration.

A configuration may be written in tables, with each route under a header of its own, or by position, with arrays
of fields at the top. What has its default may be left out in tables. The entries of a document in either form are
taken in as the configuration (`InTables.ofEntries_eq`, `ByPosition.ofEntries_eq`).
-/

namespace RequestRouting

open Toml

/-! ## What a configuration is written as -/

/-- Something that may be left out where it has its default. -/
inductive Omissible {α : Type} (isDefault : Prop) (x : α) : List α → Prop
  | written : Omissible isDefault x [x]
  | leftOut (h : isDefault) : Omissible isDefault x []

/-- An array of strings. -/
def strings (ss : List String) : Value := .array (ss.map .string)

namespace RoutingConfig

/-- The entries of the routing table. A message is written only where there is one. -/
inductive Table (c : RoutingConfig) : Entries → Prop
  | intro {base : Entries} (hbase : Omissible (c.basePath = "") ("base_path", .string c.basePath) base) :
      Table c (base ++ (c.notFound.map fun m => ("not_found", Value.string m)).toList)

/-- The fields in order. -/
def items (c : RoutingConfig) : Value := strings (c.basePath :: c.notFound.toList)

end RoutingConfig

namespace RouteConfig

/-- The entries of the table of a route. -/
inductive Table (r : RouteConfig) : Entries → Prop
  | intro {methods : Entries} (hmethods : Omissible (r.methods = ["GET"]) ("methods", strings r.methods) methods) :
      Table r (methods ++ [("pattern", .string r.pattern), ("script", .string r.script)])

/-- The fields in order. -/
def items (r : RouteConfig) : Value := .array [strings r.methods, .string r.pattern, .string r.script]

end RouteConfig

namespace Config

def typeEntries (types : List (String × String)) : Entries := types.map fun p => (p.1, .string p.2)

/-- The table of types, in any order. -/
inductive TypesBlock (types : List (String × String)) : List Block → Prop
  | intro {pairs : List (String × String)} {bs : List Block} (hpairs : pairs.Perm types)
      (h : Omissible (types = []) (.table "types" (typeEntries pairs)) bs) : TypesBlock types bs

inductive RoutingBlock (c : RoutingConfig) : List Block → Prop
  | intro {es : Entries} {bs : List Block} (hes : c.Table es)
      (h : Omissible (c = {}) (.table "routing" es) bs) : RoutingBlock c bs

/-- Routes in tables, one under each header, in order. That there are none may be said at the top. -/
inductive RouteBlocks (routes : List RouteConfig) : Entries → List Block → Prop
  | none {top : Entries} (hroutes : routes = []) (h : Omissible (routes = []) ("routes", .array []) top) :
      RouteBlocks routes top []
  | some {tables : List Entries} (hroutes : routes ≠ []) (h : List.Forall₂ RouteConfig.Table routes tables) :
      RouteBlocks routes [] [.series "routes" tables]

/-- The contents of a file with the configuration in tables. -/
inductive InTables (c : Config) : Contents → Prop
  | intro {top : Entries} {routing types routes : List Block} (hrouting : RoutingBlock c.routing routing)
      (htypes : TypesBlock c.types types) (hroutes : RouteBlocks c.routes top routes) :
      InTables c { top, blocks := routing ++ types ++ routes }

/-- The contents of a file with routing and routes by position. -/
inductive ByPosition (c : Config) : Contents → Prop
  | intro {types : List Block} (htypes : TypesBlock c.types types) :
      ByPosition c
        { top := [("routing", c.routing.items), ("routes", .array (c.routes.map RouteConfig.items))]
          blocks := types }

end Config

/-! ## Fields -/

section

variable {α σ ε : Type} {isDefault : Prop} {x : α} {xs : List α}

/-- Taking in what may be left out. -/
theorem Omissible.foldlM_eq_ok (h : Omissible isDefault x xs) {f : σ → α → Except ε σ} {s s' : σ}
    (hx : f s x = .ok s') (hdefault : isDefault → s = s') : xs.foldlM f s = .ok s' := by
  cases h with
  | written =>
    rw [List.foldlM_cons, hx]
    rfl
  | leftOut h =>
    rw [hdefault h]
    rfl

theorem Omissible.sublist (h : Omissible isDefault x xs) : xs.Sublist [x] := by
  cases h with
  | written => exact .refl _
  | leftOut => exact List.nil_sublist _

theorem Omissible.forall_mem {P : α → Prop} (h : Omissible isDefault x xs) (hx : P x) : ∀ y ∈ xs, P y := by
  intro y hy
  rw [List.mem_singleton.1 (h.sublist.subset hy)]
  exact hx

theorem Omissible.map {β : Type} (h : Omissible isDefault x xs) (f : α → β) :
    Omissible isDefault (f x) (xs.map f) := by
  cases h with
  | written => exact .written
  | leftOut h => exact .leftOut h

end

theorem RoutingConfig.Table.nodup {c : RoutingConfig} {es : Entries} (h : c.Table es) : (es.map (·.1)).Nodup := by
  cases h with
  | @intro base hbase =>
    have hnotFound : (c.notFound.map fun m => ("not_found", Value.string m)).toList.map (·.1) |>.Sublist
        ["not_found"] := by
      cases c.notFound with
      | none => exact List.nil_sublist _
      | some m => exact .refl _
    have hnames := (hbase.sublist.map (·.1)).append hnotFound
    rw [← List.map_append] at hnames
    exact hnames.nodup (show ["base_path", "not_found"].Nodup by decide)

theorem RouteConfig.Table.nodup {r : RouteConfig} {es : Entries} (h : r.Table es) : (es.map (·.1)).Nodup := by
  cases h with
  | intro hmethods =>
    have hentries := hmethods.sublist.append
      (.refl [("pattern", .string r.pattern), ("script", .string r.script)])
    have hnames := hentries.map (·.1)
    exact hnames.nodup (show ["methods", "pattern", "script"].Nodup by decide)

namespace Config

/-! ## Decoding -/

theorem decodeString_eq_ok_iff {expected : Expected} {v : Value} {s : String} :
    decodeString expected v = .ok s ↔ v = .string s := by
  cases v with
  | string t =>
    rw [decodeString, Except.ok.injEq, Value.string.injEq]
  | integer | float | boolean | datetime | array | table => exact ⟨nofun, nofun⟩

theorem decodeStrings_eq_ok_iff {v : Value} {ss : List String} : decodeStrings v = .ok ss ↔ v = strings ss := by
  cases v with
  | array items =>
    rw [decodeStrings, mapM_eq_ok_iff, strings, Value.array.injEq]
    simp only [decodeString_eq_ok_iff]
    rw [← List.forall₂_map_right_iff, List.forall₂_eq_eq_eq]
  | string | integer | float | boolean | datetime | table => exact ⟨nofun, nofun⟩

theorem decodeStrings_strings (ss : List String) : decodeStrings (strings ss) = .ok ss :=
  decodeStrings_eq_ok_iff.2 rfl

theorem decodeRouting_table {c : RoutingConfig} {es : Entries} (h : c.Table es) :
    decodeRouting (.table es) = .ok c := by
  cases h with
  | intro hbase =>
    obtain ⟨basePath, notFound⟩ := c
    have hfold : List.foldlM (fun c (e : String × Value) => routingEntry c e.1 e.2) {} _ =
        Except.ok { basePath } :=
      hbase.foldlM_eq_ok rfl fun h => congrArg (RoutingConfig.mk · none) (Eq.symm h)
    show List.foldlM (fun c (e : String × Value) => routingEntry c e.1 e.2) {} _ = _
    rw [List.foldlM_append, hfold]
    cases notFound <;> rfl

theorem decodeRouting_items (c : RoutingConfig) : decodeRouting c.items = .ok c := by
  obtain ⟨basePath, notFound⟩ := c
  cases notFound <;> rfl

theorem decodeTypes_typeEntries {types pairs : List (String × String)} (h : SortedPairs.Sorted types)
    (hpairs : pairs.Perm types) : decodeTypes (.table (typeEntries pairs)) = .ok types := by
  rw [← h.ofList_eq_of_perm hpairs]
  suffices hfold : ∀ m : List (String × String),
      (typeEntries pairs).foldlM (fun types e => do
        return SortedPairs.insert e.1 (← decodeString .string e.2) types) m =
      (.ok (pairs.foldl (fun m p => SortedPairs.insert p.1 p.2 m) m) : Except DataError _) from hfold []
  clear hpairs
  induction pairs with
  | nil => exact fun m => rfl
  | cons p pairs ih => exact fun m => ih (SortedPairs.insert p.1 p.2 m)

theorem decodeRoute_table {r : RouteConfig} {es : Entries} (h : r.Table es) : decodeRoute (.table es) = .ok r := by
  obtain ⟨methods, pattern, script⟩ := r
  cases h with
  | intro hmethods =>
    cases hmethods with
    | leftOut h =>
      rw [show methods = ["GET"] from h]
      rfl
    | written =>
      have hmethods : routeEntry {} "methods" (strings methods) = .ok { methods := some methods } := by
        show (decodeStrings (strings methods) >>= _) = _
        rw [decodeStrings_strings]
        rfl
      show (List.foldlM (fun f (e : String × Value) => routeEntry f e.1 e.2) {} (_ :: _) >>= _) = _
      rw [List.foldlM_cons, hmethods]
      rfl

theorem decodeRoute_items (r : RouteConfig) : decodeRoute r.items = .ok r := by
  obtain ⟨methods, pattern, script⟩ := r
  show (decodeStrings (strings methods) >>= _) = _
  rw [decodeStrings_strings]
  rfl

theorem decodeRoutes_tables {routes : List RouteConfig} {tables : List Entries}
    (h : List.Forall₂ RouteConfig.Table routes tables) :
    decodeRoutes (.array (tables.map .table)) = .ok routes := by
  refine mapM_eq_ok_iff.2 (List.forall₂_map_left_iff.2 ?_)
  exact h.flip.imp fun _ _ => decodeRoute_table

theorem decodeRoutes_items (routes : List RouteConfig) :
    decodeRoutes (.array (routes.map RouteConfig.items)) = .ok routes := by
  refine mapM_eq_ok_iff.2 (List.forall₂_map_left_iff.2 ?_)
  exact List.forall₂_same.2 fun r _ => decodeRoute_items r

/-! ## Entries of the whole -/

section

variable {c : Config} {v : Value}

theorem entry_routing {routing : RoutingConfig} (h : decodeRouting v = .ok routing) :
    entry c "routing" v = .ok { c with routing } := by
  show (decodeRouting v >>= _) = _
  rw [h]
  rfl

theorem entry_types {types : List (String × String)} (h : decodeTypes v = .ok types) :
    entry c "types" v = .ok { c with types } := by
  show (decodeTypes v >>= _) = _
  rw [h]
  rfl

theorem entry_routes {routes : List RouteConfig} (h : decodeRoutes v = .ok routes) :
    entry c "routes" v = .ok { c with routes } := by
  show (decodeRoutes v >>= _) = _
  rw [h]
  rfl

end

/-- Taking in entries in order. -/
def takeEntries (c : Config) (es : Entries) : Except DataError Config := es.foldlM (fun c e => entry c e.1 e.2) c

theorem takeEntries_append {c c' : Config} {es : Entries} (h : c.takeEntries es = .ok c') (es' : Entries) :
    c.takeEntries (es ++ es') = c'.takeEntries es' := by
  rw [takeEntries, List.foldlM_append, show es.foldlM _ c = _ from h]
  rfl

theorem takeEntries_cons {c c' : Config} {e : String × Value} (h : entry c e.1 e.2 = .ok c') (es : Entries) :
    c.takeEntries (e :: es) = c'.takeEntries es := by
  rw [takeEntries, List.foldlM_cons, h]
  rfl

/-- The entries that blocks stand for. -/
def blockEntries (bs : List Block) : Entries := bs.map fun b => (b.name, b.value)

theorem RoutingBlock.takeEntries {c : Config} {r : RoutingConfig} {bs : List Block} (h : RoutingBlock r bs)
    (hc : c.routing = {}) : c.takeEntries (blockEntries bs) = .ok { c with routing := r } := by
  cases h with
  | intro hes h =>
    refine (h.map _).foldlM_eq_ok (entry_routing (decodeRouting_table hes)) fun hr => ?_
    rw [hr, ← hc]

theorem TypesBlock.takeEntries {c : Config} {types : List (String × String)} {bs : List Block}
    (h : TypesBlock types bs) (hsorted : SortedPairs.Sorted types) (hc : c.types = []) :
    c.takeEntries (blockEntries bs) = .ok { c with types } := by
  cases h with
  | intro hpairs h =>
    refine (h.map _).foldlM_eq_ok (entry_types (decodeTypes_typeEntries hsorted hpairs)) fun htypes => ?_
    rw [htypes, ← hc]

theorem blockEntries_append (bs bs' : List Block) :
    blockEntries (bs ++ bs') = blockEntries bs ++ blockEntries bs' :=
  List.map_append

/-- What the top and the last blocks say of the routes. -/
theorem RouteBlocks.takeEntries {routes : List RouteConfig} {top : Entries} {bs : List Block}
    (h : RouteBlocks routes top bs) : takeEntries {} top = .ok {} ∧
      ∀ c : Config, c.routes = [] → c.takeEntries (blockEntries bs) = .ok { c with routes } := by
  cases h with
  | none hroutes h =>
    refine ⟨h.foldlM_eq_ok rfl fun _ => rfl, fun c hc => ?_⟩
    rw [hroutes, ← hc]
    rfl
  | some hroutes h =>
    refine ⟨rfl, fun c _ => ?_⟩
    exact takeEntries_cons (entry_routes (decodeRoutes_tables h)) []

theorem InTables.ofEntries_eq {c : Config} {contents : Contents} (h : c.InTables contents)
    (hsorted : SortedPairs.Sorted c.types) : ofEntries contents.entries = .ok c := by
  cases h with
  | @intro top routing types routes hrouting htypes hroutes =>
    obtain ⟨htop, hlast⟩ := hroutes.takeEntries
    show takeEntries {} (top ++ blockEntries (routing ++ types ++ routes)) = _
    rw [takeEntries_append htop, blockEntries_append, blockEntries_append, List.append_assoc,
      takeEntries_append (hrouting.takeEntries rfl), takeEntries_append (htypes.takeEntries hsorted rfl),
      hlast _ rfl]

theorem ByPosition.ofEntries_eq {c : Config} {contents : Contents} (h : c.ByPosition contents)
    (hsorted : SortedPairs.Sorted c.types) : ofEntries contents.entries = .ok c := by
  cases h with
  | @intro types htypes =>
    have htop : takeEntries {}
        [("routing", c.routing.items), ("routes", .array (c.routes.map RouteConfig.items))] =
        .ok { routing := c.routing, routes := c.routes } :=
      (takeEntries_cons (entry_routing (decodeRouting_items c.routing)) _).trans
        (takeEntries_cons (entry_routes (decodeRoutes_items c.routes)) [])
    show takeEntries {} (_ ++ blockEntries types) = _
    rw [takeEntries_append htop, htypes.takeEntries hsorted rfl]

end Config

end RequestRouting
