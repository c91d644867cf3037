import RequestRouting.Proofs.Config.Forms
import RequestRouting.Proofs.Text.Utf8
import RequestRouting.Proofs.Toml.Writing

/-!
Reading back a configuration that was written.

A configuration in tables or by position is a document in which no name comes twice. In whatever spelling and
layout such a document is written, the file is read as the configuration (`ofFile_written`).
-/

namespace RequestRouting.Config

open Toml

/-- Whether a text is the configuration written in tables. -/
def WrittenInTables (c : Config) (text : List Char) : Prop :=
  ∃ contents, c.InTables contents ∧ Layout contents.lines text

/-- Whether a text is the configuration written by position. -/
def WrittenByPosition (c : Config) (text : List Char) : Prop :=
  ∃ contents, c.ByPosition contents ∧ Layout contents.lines text

/-! ## Names -/

theorem RoutingBlock.names_sublist {r : RoutingConfig} {bs : List Block} (h : RoutingBlock r bs) :
    (bs.map Block.name).Sublist ["routing"] := by
  cases h with
  | intro _ h => exact h.sublist.map Block.name

theorem TypesBlock.names_sublist {types : List (String × String)} {bs : List Block} (h : TypesBlock types bs) :
    (bs.map Block.name).Sublist ["types"] := by
  cases h with
  | intro _ h => exact h.sublist.map Block.name

theorem RoutingBlock.proper {r : RoutingConfig} {bs : List Block} (h : RoutingBlock r bs) :
    ∀ b ∈ bs, b.Proper := by
  cases h with
  | intro hes h => exact h.forall_mem hes.nodup

theorem TypesBlock.proper {types : List (String × String)} {bs : List Block} (h : TypesBlock types bs)
    (hsorted : SortedPairs.Sorted types) : ∀ b ∈ bs, b.Proper := by
  cases h with
  | intro hpairs h =>
    refine h.forall_mem (P := Block.Proper) ?_
    rw [Block.Proper, typeEntries, List.map_map]
    exact (hpairs.map Prod.fst).nodup_iff.2 hsorted.nodup

theorem nodup_of_tables {routes : List RouteConfig} {tables : List Entries}
    (h : List.Forall₂ RouteConfig.Table routes tables) : ∀ es ∈ tables, (es.map (·.1)).Nodup := by
  induction h with
  | nil => exact nofun
  | cons hr _ ih => exact List.forall_mem_cons.2 ⟨hr.nodup, ih⟩

theorem RouteBlocks.proper {routes : List RouteConfig} {top : Entries} {bs : List Block}
    (h : RouteBlocks routes top bs) : ∀ b ∈ bs, b.Proper := by
  cases h with
  | none => exact nofun
  | @some tables hroutes h =>
    intro b hb
    have htables : tables ≠ [] := by
      rintro rfl
      exact hroutes (List.forall₂_nil_right_iff.1 h)
    rw [List.mem_singleton.1 hb]
    exact ⟨htables, nodup_of_tables h⟩

theorem InTables.proper {c : Config} {contents : Contents} (h : c.InTables contents)
    (hsorted : SortedPairs.Sorted c.types) : contents.Proper := by
  cases h with
  | @intro top routing types routes hrouting htypes hroutes =>
    have hmiddle := hrouting.names_sublist.append htypes.names_sublist
    constructor
    · rw [Contents.map_fst_entries, List.map_append, List.map_append]
      -- The routes have their name at the top or in the last block.
      cases hroutes with
      | none _ h =>
        have hnames := (h.sublist.map (·.1)).append (hmiddle.append (List.nil_sublist []))
        exact hnames.nodup (show ["routes", "routing", "types"].Nodup by decide)
      | some =>
        have hnames := hmiddle.append (List.Sublist.refl ["routes"])
        exact hnames.nodup (show ["routing", "types", "routes"].Nodup by decide)
    · simp only [List.mem_append]
      rintro b ((hb | hb) | hb)
      · exact hrouting.proper b hb
      · exact htypes.proper hsorted b hb
      · exact hroutes.proper b hb

theorem ByPosition.proper {c : Config} {contents : Contents} (h : c.ByPosition contents)
    (hsorted : SortedPairs.Sorted c.types) : contents.Proper := by
  cases h with
  | intro htypes =>
    refine ⟨?_, htypes.proper hsorted⟩
    have hnames := (List.Sublist.refl ["routing", "routes"]).append htypes.names_sublist
    rw [Contents.map_fst_entries]
    exact hnames.nodup (by decide)

/-! ## Files -/

/-- A line has a sign that is no blank. -/
theorem exists_not_blank {l : Line} {t : List Char} (h : LineSpelling l t) :
    ∃ c ∈ t, Unicode.isBlank c = false := by
  cases h with
  | entry => exact ⟨'=', by simp, by decide⟩
  | table => exact ⟨'[', by simp, by decide⟩
  | series => exact ⟨'[', by simp, by decide⟩

/-- A blank text has no lines. -/
theorem eq_nil_of_blank {lines : List Line} {text : List Char} (h : Layout lines text)
    (hblank : ∀ c ∈ text, Unicode.isBlank c) : lines = [] := by
  induction h with
  | nil => rfl
  | blank _ _ _ ih => exact ih fun c hc => hblank c (List.mem_append_right _ (List.mem_append_right _ hc))
  | line hl =>
    obtain ⟨c, hc, hne⟩ := exists_not_blank hl
    exact absurd (hblank c (List.mem_append_left _ hc)) (Bool.eq_false_iff.1 hne)
  | last hl =>
    obtain ⟨c, hc, hne⟩ := exists_not_blank hl
    exact absurd (hblank c hc) (Bool.eq_false_iff.1 hne)

/-- A file with the entries of a configuration gives that configuration. -/
theorem ofFile_of_layout {c : Config} {contents : Contents} (hproper : contents.Proper)
    (hentries : ofEntries contents.entries = .ok c) {text : List Char} (h : Layout contents.lines text) :
    ofFile (.bytes (Text.utf8 text)) = .ok c := by
  have hread : ofToml (String.ofList text) = .ok c := by
    rw [ofToml, hproper.parse?_ofList h]
    simp only [hentries]
  rw [ofFile, Text.ofUtf8?_utf8]
  show (if text.all Unicode.isBlank then .ok {} else ofToml (String.ofList text)) = _
  split
  · -- A blank text is an empty document, which gives the same.
    rename_i hblank
    have hlines := h.parse?_ofList
    rw [eq_nil_of_blank h (List.all_eq_true.1 hblank)] at hlines
    rw [← hread, ofToml, hlines]
    rfl
  · exact hread

/-! ## Writing -/

theorem plain_strings (n : Nat) (ss : List String) : (strings ss).Plain (n + 1) := by
  apply Value.Plain.array
  intro v hv
  obtain ⟨s, -, rfl⟩ := List.mem_map.1 hv
  exact .string s

theorem plain_routingTable {r : RoutingConfig} {es : Entries} (h : r.Table es) : ∀ e ∈ es, e.2.Plain 3 := by
  cases h with
  | intro hbase =>
    intro e he
    rcases List.mem_append.1 he with he | he
    · exact hbase.forall_mem (P := fun e => e.2.Plain 3) (.string _) e he
    · obtain ⟨m, -, rfl⟩ := Option.map_eq_some_iff.1 (Option.mem_toList.1 he)
      exact .string m

theorem plain_routeTable {r : RouteConfig} {es : Entries} (h : r.Table es) : ∀ e ∈ es, e.2.Plain 3 := by
  cases h with
  | intro hmethods =>
    intro e he
    rcases List.mem_append.1 he with he | he
    · exact hmethods.forall_mem (P := fun e => e.2.Plain 3) (plain_strings 2 r.methods) e he
    · simp only [List.mem_cons, List.not_mem_nil, or_false] at he
      rcases he with rfl | rfl <;> exact .string _

theorem plain_routeTables {routes : List RouteConfig} {tables : List Entries}
    (h : List.Forall₂ RouteConfig.Table routes tables) : ∀ es ∈ tables, ∀ e ∈ es, e.2.Plain 3 := by
  induction h with
  | nil => exact nofun
  | cons hr _ ih => exact List.forall_mem_cons.2 ⟨plain_routeTable hr, ih⟩

theorem plain_routeItems (r : RouteConfig) : r.items.Plain 2 := by
  apply Value.Plain.array
  simp only [List.forall_mem_cons, List.not_mem_nil]
  exact ⟨plain_strings 0 r.methods, .string _, .string _, nofun⟩

theorem RoutingBlock.plain {r : RoutingConfig} {bs : List Block} (h : RoutingBlock r bs) :
    ∀ b ∈ bs, b.Plain 3 := by
  cases h with
  | intro hes h => exact h.forall_mem (plain_routingTable hes)

theorem RouteBlocks.plain {routes : List RouteConfig} {top : Entries} {bs : List Block}
    (h : RouteBlocks routes top bs) : ∀ b ∈ bs, b.Plain 3 := by
  cases h with
  | none => exact nofun
  | some _ h =>
    intro b hb
    rw [List.mem_singleton.1 hb]
    exact plain_routeTables h

theorem TypesBlock.plain {types : List (String × String)} {bs : List Block} (h : TypesBlock types bs) :
    ∀ b ∈ bs, b.Plain 3 := by
  cases h with
  | intro _ h =>
    refine h.forall_mem fun e he => ?_
    obtain ⟨p, -, rfl⟩ := List.mem_map.1 he
    exact .string p.2

theorem InTables.plain {c : Config} {contents : Contents} (h : c.InTables contents) : contents.Plain 3 := by
  cases h with
  | intro hrouting htypes hroutes =>
    constructor
    · cases hroutes with
      | none _ h => exact h.forall_mem (.array nofun)
      | some => exact nofun
    · simp only [List.mem_append]
      rintro b ((hb | hb) | hb)
      · exact hrouting.plain b hb
      · exact htypes.plain b hb
      · exact hroutes.plain b hb

theorem ByPosition.plain {c : Config} {contents : Contents} (h : c.ByPosition contents) : contents.Plain 3 := by
  cases h with
  | intro htypes =>
    refine ⟨?_, htypes.plain⟩
    simp only [List.forall_mem_cons, List.not_mem_nil]
    refine ⟨plain_strings 2 _, .array fun v hv => ?_, nofun⟩
    obtain ⟨r, -, rfl⟩ := List.mem_map.1 hv
    exact plain_routeItems r

theorem exists_inTables (c : Config) : ∃ contents, c.InTables contents := by
  have hrouting : ∃ bs, RoutingBlock c.routing bs := ⟨_, .intro (.intro .written) .written⟩
  have htypes : ∃ bs, TypesBlock c.types bs := ⟨_, .intro (.refl c.types) .written⟩
  have hroutes : ∃ top bs, RouteBlocks c.routes top bs := by
    by_cases hnone : c.routes = []
    · exact ⟨_, _, .none hnone .written⟩
    · have htables := List.forall₂_map_right_iff.2 (List.forall₂_same.2 fun r (_ : r ∈ c.routes) =>
        RouteConfig.Table.intro (r := r) .written)
      exact ⟨_, _, .some hnone htables⟩
  obtain ⟨routing, hrouting⟩ := hrouting
  obtain ⟨types, htypes⟩ := htypes
  obtain ⟨top, routes, hroutes⟩ := hroutes
  exact ⟨_, .intro hrouting htypes hroutes⟩

/-- Every configuration can be written in tables and by position, and whatever way it is written in, it is read
back. -/
theorem ofFile_written {c : Config} (h : SortedPairs.Sorted c.types) :
    (∃ text, c.WrittenInTables text) ∧ (∃ text, c.WrittenByPosition text) ∧
      ∀ text, c.WrittenInTables text ∨ c.WrittenByPosition text → ofFile (.bytes (Text.utf8 text)) = .ok c := by
  refine ⟨?_, ?_, ?_⟩
  · obtain ⟨contents, hcontents⟩ := exists_inTables c
    exact ⟨_, contents, hcontents, hcontents.plain.layout_write (by decide)⟩
  · have hcontents : c.ByPosition _ := .intro (.intro (.refl c.types) .written)
    exact ⟨_, _, hcontents, hcontents.plain.layout_write (by decide)⟩
  · rintro text (⟨contents, hcontents, hlayout⟩ | ⟨contents, hcontents, hlayout⟩)
    · exact ofFile_of_layout (hcontents.proper h) (hcontents.ofEntries_eq h) hlayout
    · exact ofFile_of_layout (hcontents.proper h) (hcontents.ofEntries_eq h) hlayout

/-- Quotes, backslashes and control characters, a type with an empty tag, a route without methods, and in tables
the base path and the methods left out where they have their defaults. -/
theorem ofFile_written_escapes : ∃ (c : Config) (text₁ text₂ : List Char),
    c = {
      routing := { notFound := some "a\"b\\c\n\u0001é" }
      types := [("", "[a-z]+"), ("s\"", "\t")]
      routes := [⟨[], "/[i:id]", "x.rs"⟩, ⟨["GET"], "", "é\x7f"⟩] } ∧
    text₁ = [
      r#"[routing]"#,
      r#"not_found = "a\"b\\c\u000a\u0001é""#,
      r#"[types]"#,
      r#""s\"" = "\u0009""#,
      r#""" = "[a-z]+""#,
      r#"[[routes]]"#,
      r#"methods = []"#,
      r#"pattern = "/[i:id]""#,
      r#"script = "x.rs""#,
      r#"[[routes]]"#,
      r#"pattern = """#,
      r#"script = "é\u007f""#].flatMap (fun line => line.toList ++ ['\n']) ∧
    text₂ = [
      r#"routing = ["", "a\"b\\c\u000a\u0001é"]"#,
      r#"routes = [[[], "/[i:id]", "x.rs"], [["GET"], "", "é\u007f"]]"#,
      r#"[types]"#,
      r#""" = "[a-z]+""#,
      r#""s\"" = "\u0009""#].flatMap (fun line => line.toList ++ ['\n']) ∧
    SortedPairs.Sorted c.types ∧ c.WrittenInTables text₁ ∧ c.WrittenByPosition text₂ ∧
    ofFile (.bytes (Text.utf8 text₁)) = .ok c ∧ ofFile (.bytes (Text.utf8 text₂)) = .ok c := by
  obtain ⟨c, hc⟩ : ∃ c : Config, c = {
      routing := { notFound := some "a\"b\\c\n\u0001é" }
      types := [("", "[a-z]+"), ("s\"", "\t")]
      routes := [⟨[], "/[i:id]", "x.rs"⟩, ⟨["GET"], "", "é\x7f"⟩] } := ⟨_, rfl⟩
  have hsorted : SortedPairs.Sorted c.types := by
    rw [hc]
    decide
  have htables : c.InTables {
      blocks := [
        .table "routing" [("not_found", .string "a\"b\\c\n\u0001é")],
        .table "types" (typeEntries [("s\"", "\t"), ("", "[a-z]+")]),
        .series "routes" [
          [("methods", strings []), ("pattern", .string "/[i:id]"), ("script", .string "x.rs")],
          [("pattern", .string ""), ("script", .string "é\x7f")]]] } := by
    rw [hc]
    refine @InTables.intro _ [] [_] [_] [_] (.intro (.intro (.leftOut rfl)) .written)
      (.intro (.swap ..) .written) (.some (by decide) ?_)
    exact .cons (.intro .written) (.cons (.intro (.leftOut rfl)) .nil)
  have hposition : c.ByPosition {
      top := [("routing", strings ["", "a\"b\\c\n\u0001é"]), ("routes", .array [
        .array [strings [], .string "/[i:id]", .string "x.rs"],
        .array [strings ["GET"], .string "", .string "é\x7f"]])]
      blocks := [.table "types" (typeEntries [("", "[a-z]+"), ("s\"", "\t")])] } := by
    rw [hc]
    exact .intro (.intro (.refl _) .written)
  have htext₁ := htables.plain.layout_write (by decide)
  have htext₂ := hposition.plain.layout_write (by decide)
  obtain ⟨-, -, hread⟩ := ofFile_written hsorted
  refine ⟨c, _, _, hc, ?_, ?_, hsorted, ⟨_, htables, htext₁⟩, ⟨_, hposition, htext₂⟩,
    hread _ (.inl ⟨_, htables, htext₁⟩), hread _ (.inr ⟨_, hposition, htext₂⟩)⟩
  · decide +kernel
  · decide +kernel

end RequestRouting.Config
