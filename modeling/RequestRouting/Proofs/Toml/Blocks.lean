import RequestRouting.Proofs.Toml.Layout

/-!
Documents block by block.

A document has keys with values at its top, and then blocks: tables under their headers, and series of tables.
Where no name comes twice, such a document is read as the table of all of them (`Contents.Proper.parse?_ofList`).
-/

namespace RequestRouting.Toml

/-! ## Blocks -/

/-- Keys with their values, in order. -/
abbrev Entries := List (String × Value)

/-- What stands under one name: a table, or the tables of a series. -/
inductive Block where
  | table (name : String) (entries : Entries)
  | series (name : String) (tables : List Entries)

/-- What a document holds: entries at its top, and then blocks. -/
structure Contents where
  top : Entries := []
  blocks : List Block := []

def entryLines (es : Entries) : List Line := es.map fun e => .entry e.1 e.2

namespace Block

def name : Block → String
  | table name _ | series name _ => name

def value : Block → Value
  | table _ es => .table es
  | series _ tables => .array (tables.map .table)

/-- Each table stands under a header of its own. -/
def lines : Block → List Line
  | table name es => .table name :: entryLines es
  | series name tables => tables.flatMap fun es => .series name :: entryLines es

/-- No table has a key twice, and a series has tables. -/
def Proper : Block → Prop
  | table _ es => (es.map (·.1)).Nodup
  | series _ tables => tables ≠ [] ∧ ∀ es ∈ tables, (es.map (·.1)).Nodup

end Block

namespace Contents

def lines (c : Contents) : List Line := entryLines c.top ++ c.blocks.flatMap Block.lines

/-- The entries of the whole. -/
def entries (c : Contents) : Entries := c.top ++ c.blocks.map fun b => (b.name, b.value)

theorem map_fst_entries (c : Contents) :
    c.entries.map (·.1) = c.top.map (·.1) ++ c.blocks.map Block.name := by
  rw [entries, List.map_append, List.map_map]
  rfl

/-- No name comes twice, here or in a block. -/
structure Proper (c : Contents) : Prop where
  names : (c.entries.map (·.1)).Nodup
  blocks : ∀ b ∈ c.blocks, b.Proper

end Contents

/-! ## Tables that are being read -/

/-- Entries as they stand in a table that is being read. -/
def leaves (es : Entries) : List (String × Node) := es.map fun e => (e.1, .leaf e.2)

/-- A block as it stands in a table that is being read. -/
def Block.node : Block → Node
  | table _ es => .table false false (leaves es)
  | series _ tables => .series (tables.map leaves)

section

variable {key : String} {ns : List (String × Node)}

theorem map_fst_leaves (es : Entries) : (leaves es).map (·.1) = es.map (·.1) := by
  rw [leaves, List.map_map]
  rfl

theorem entryValues_leaves (es : Entries) : entryValues (leaves es) = es := by
  rw [entryValues_eq_map, leaves, List.map_map]
  exact List.map_id es

theorem entryValues_append (ns ms : List (String × Node)) :
    entryValues (ns ++ ms) = entryValues ns ++ entryValues ms := by
  rw [entryValues_eq_map, entryValues_eq_map, entryValues_eq_map, List.map_append]

theorem Block.value_node (b : Block) : b.node.value = b.value := by
  cases b with
  | table name es => exact congrArg Value.table (entryValues_leaves es)
  | series name tables =>
    refine congrArg Value.array ?_
    rw [seriesValues_eq_map, List.map_map]
    exact List.map_congr_left fun es _ => congrArg Value.table (entryValues_leaves es)

theorem entryValues_blocks (bs : List Block) :
    entryValues (bs.map fun b => (b.name, b.node)) = bs.map fun b => (b.name, b.value) := by
  rw [entryValues_eq_map, List.map_map]
  exact List.map_congr_left fun b _ => congrArg (b.name, ·) b.value_node

theorem fst_ne_of_not_mem (h : key ∉ ns.map (·.1)) : ∀ e ∈ ns, ¬(e.1 == key) = true :=
  fun e he hkey => h (List.mem_map.2 ⟨e, he, beq_iff_eq.1 hkey⟩)

namespace OpenTable

theorem get?_eq_none {t : OpenTable} (h : key ∉ t.entries.map (·.1)) : t.get? key = none := by
  rw [get?, List.find?_eq_none.2 (fst_ne_of_not_mem h)]
  rfl

theorem set_new {t : OpenTable} (h : key ∉ t.entries.map (·.1)) (n : Node) :
    t.set key n = { t with entries := t.entries ++ [(key, n)] } := by
  rw [set, List.any_eq_false.2 (fst_ne_of_not_mem h)]
  rfl

/-- The entry behind those with other keys. -/
theorem get?_last (h : key ∉ ns.map (·.1)) (n : Node) :
    OpenTable.get? { entries := ns ++ [(key, n)] } key = some n := by
  have hlast : [(key, n)].find? (·.1 == key) = some (key, n) :=
    List.find?_cons_of_pos (beq_self_eq_true key)
  rw [get?, List.find?_append, List.find?_eq_none.2 (fst_ne_of_not_mem h), hlast]
  rfl

theorem set_last (h : key ∉ ns.map (·.1)) (n m : Node) :
    OpenTable.set { entries := ns ++ [(key, n)] } key m = { entries := ns ++ [(key, m)] } := by
  have hany : (ns ++ [(key, n)]).any (·.1 == key) := by
    rw [List.any_append, List.any_cons, beq_self_eq_true, Bool.true_or, Bool.or_true]
  have hmap : (ns.map fun e => if e.1 == key then (key, m) else e) = ns :=
    (List.map_congr_left fun e he => if_neg (fst_ne_of_not_mem h e he)).trans (List.map_id ns)
  rw [set, if_pos hany, List.map_append, hmap]
  simp only [List.map_cons, List.map_nil, beq_self_eq_true, if_true]

end OpenTable

/-! ## Running lines -/

variable {d : Document} {name : String} {es : Entries}

/-- The document with more entries at the end of the open table. -/
def Document.extend (d : Document) (ns : List (String × Node)) : Document :=
  { d with current := { d.current with entries := d.current.entries ++ ns } }

theorem Document.extend_extend (ns ms : List (String × Node)) : (d.extend ns).extend ms = d.extend (ns ++ ms) := by
  simp only [extend, List.append_assoc]

theorem Document.addValue_new (hdotted : d.current.dotted = false) (hkey : key ∉ d.current.entries.map (·.1))
    (v : Value) : d.addValue [] key v = some (d.extend [(key, .leaf v)]) := by
  simp only [addValue, extend, OpenTable.addValue, OpenTable.update, OpenTable.change, hdotted,
    OpenTable.get?_eq_none hkey, OpenTable.set_new hkey]
  rfl

/-- The entries of a table are put behind those that it has. -/
theorem run_entryLines (hdotted : d.current.dotted = false)
    (h : (d.current.entries.map (·.1) ++ es.map (·.1)).Nodup) :
    (entryLines es).foldlM Line.run d = some (d.extend (leaves es)) := by
  induction es generalizing d with
  | nil =>
    rw [Document.extend, leaves, List.map_nil, List.append_nil]
    rfl
  | cons e es ih =>
    have hkey : e.1 ∉ d.current.entries.map (·.1) := by
      intro hmem
      exact (List.nodup_append.1 h).2.2 _ hmem _ List.mem_cons_self rfl
    have hrest : ((d.extend [(e.1, .leaf e.2)]).current.entries.map (·.1) ++ es.map (·.1)).Nodup := by
      rwa [Document.extend, List.map_append, List.append_assoc]
    show (d.addValue [] e.1 e.2).bind ((entryLines es).foldlM Line.run) = _
    rw [d.addValue_new hdotted hkey, Option.bind_some, ih (d := d.extend _) hdotted hrest, Document.extend_extend]
    rfl

/-! ## Running blocks -/

/-- Whether the root has the entries, once the open table is put in its place. -/
def Document.Holds (d : Document) (ns : List (String × Node)) : Prop := d.close = some { entries := ns }

/-- The document below the header of a table that is new. -/
def Document.atTable (ns : List (String × Node)) (name : String) : Document :=
  { root := { entries := ns }, path := [name] }

/-- The document below the header of another table of a series. -/
def Document.atSeries (ns : List (String × Node)) (name : String) (ts : List (List (String × Node))) : Document :=
  { root := { entries := ns ++ [(name, .series ts)] }, path := [name], inSeries := true }

section

variable {ts : List (List (String × Node))} (hname : name ∉ ns.map (·.1))
include hname

theorem Document.Holds.openTable (h : d.Holds ns) : d.openTable [] name = some (.atTable ns name) := by
  have hget : OpenTable.get? { entries := ns } name = none := OpenTable.get?_eq_none hname
  simp only [Document.openTable, show d.close = _ from h, Option.bind_eq_bind, Option.bind_some, OpenTable.change,
    hget]
  rfl

theorem Document.holds_atTable (t : OpenTable) :
    Document.Holds { atTable ns name with current := t } (ns ++ [(name, t.node)]) := by
  have hset : OpenTable.set { entries := ns } name t.node = _ := OpenTable.set_new hname t.node
  simp only [Document.Holds, Document.close, atTable, List.getLast?_singleton, List.dropLast_singleton,
    OpenTable.update, OpenTable.change, hset]
  rfl

/-- A series is new for its first table, and stays for the next ones. -/
theorem Document.Holds.openSeries_new (h : d.Holds ns) : d.openSeries [] name = some (.atSeries ns name []) := by
  have hget : OpenTable.get? { entries := ns } name = none := OpenTable.get?_eq_none hname
  have hset : OpenTable.set { entries := ns } name (.series []) = _ := OpenTable.set_new hname _
  simp only [Document.openSeries, show d.close = _ from h, Option.bind_eq_bind, Option.bind_some, OpenTable.update,
    OpenTable.change, hget, hset]
  rfl

theorem Document.Holds.openSeries_last (h : d.Holds (ns ++ [(name, .series ts)])) :
    d.openSeries [] name = some (.atSeries ns name ts) := by
  simp only [Document.openSeries, show d.close = _ from h, Option.bind_eq_bind, Option.bind_some, OpenTable.update,
    OpenTable.change, OpenTable.get?_last hname]
  rfl

theorem Document.holds_atSeries (t : OpenTable) :
    Document.Holds { atSeries ns name ts with current := t } (ns ++ [(name, .series (ts ++ [t.entries]))]) := by
  simp only [Document.Holds, Document.close, atSeries, List.getLast?_singleton, List.dropLast_singleton,
    OpenTable.update, OpenTable.change, OpenTable.get?_last hname, OpenTable.set_last hname]
  rfl

end

/-- Whether running lines takes every document that holds some entries to one that holds others. -/
def Leads (lines : List Line) (ns ms : List (String × Node)) : Prop :=
  ∀ d : Document, d.Holds ns → ∃ d', lines.foldlM Line.run d = some d' ∧ d'.Holds ms

theorem Leads.refl (ns : List (String × Node)) : Leads [] ns ns := fun d hd => ⟨d, rfl, hd⟩

theorem Leads.append {lines lines' : List Line} {ms ks : List (String × Node)} (h : Leads lines ns ms)
    (h' : Leads lines' ms ks) : Leads (lines ++ lines') ns ks := by
  intro d hd
  obtain ⟨d₁, hrun, hd₁⟩ := h d hd
  obtain ⟨d₂, hrun', hd₂⟩ := h' d₁ hd₁
  refine ⟨d₂, ?_, hd₂⟩
  rw [List.foldlM_append, hrun]
  exact hrun'

theorem leads_table (hname : name ∉ ns.map (·.1)) (hes : (es.map (·.1)).Nodup) :
    Leads (.table name :: entryLines es) ns (ns ++ [(name, .table false false (leaves es))]) := by
  intro d hd
  have hrun := run_entryLines (d := .atTable ns name) rfl hes
  refine ⟨_, ?_, Document.holds_atTable hname { entries := leaves es }⟩
  show (d.openTable [] name).bind ((entryLines es).foldlM Line.run) = _
  rw [hd.openTable hname]
  exact hrun

theorem run_seriesTable {ts : List (List (String × Node))} (hname : name ∉ ns.map (·.1))
    (hes : (es.map (·.1)).Nodup) (hopen : d.openSeries [] name = some (.atSeries ns name ts)) :
    ∃ d', (Line.series name :: entryLines es).foldlM Line.run d = some d' ∧
      d'.Holds (ns ++ [(name, .series (ts ++ [leaves es]))]) := by
  have hrun := run_entryLines (d := .atSeries ns name ts) rfl hes
  refine ⟨_, ?_, Document.holds_atSeries hname { entries := leaves es }⟩
  show (d.openSeries [] name).bind ((entryLines es).foldlM Line.run) = _
  rw [hopen]
  exact hrun

theorem leads_seriesTables {tables : List Entries} (hname : name ∉ ns.map (·.1))
    (htables : ∀ es ∈ tables, (es.map (·.1)).Nodup) (ts : List (List (String × Node))) :
    Leads (tables.flatMap fun es => .series name :: entryLines es) (ns ++ [(name, .series ts)])
      (ns ++ [(name, .series (ts ++ tables.map leaves))]) := by
  induction tables generalizing ts with
  | nil =>
    rw [List.map_nil, List.append_nil]
    exact .refl _
  | cons es tables ih =>
    have hfirst : Leads (.series name :: entryLines es) (ns ++ [(name, .series ts)])
        (ns ++ [(name, .series (ts ++ [leaves es]))]) :=
      fun d hd => run_seriesTable hname (htables es List.mem_cons_self) (hd.openSeries_last hname)
    have hrest := ih (fun es hes => htables es (List.mem_cons_of_mem _ hes)) (ts ++ [leaves es])
    rw [List.append_assoc] at hrest
    exact hfirst.append hrest

/-- A block is put behind what there is. -/
theorem Block.Proper.leads {b : Block} (h : b.Proper) (hname : b.name ∉ ns.map (·.1)) :
    Leads b.lines ns (ns ++ [(b.name, b.node)]) := by
  cases b with
  | table name es => exact leads_table hname h
  | series name tables =>
    -- The first header makes the series, and the others find it.
    obtain ⟨hne, htables⟩ := h
    obtain ⟨es, tables, rfl⟩ := List.exists_cons_of_ne_nil hne
    have hfirst : Leads (.series name :: entryLines es) ns (ns ++ [(name, .series [leaves es])]) :=
      fun d hd => run_seriesTable hname (htables es List.mem_cons_self) (hd.openSeries_new hname)
    have hrest := leads_seriesTables hname (fun es hes => htables es (List.mem_cons_of_mem _ hes)) [leaves es]
    exact hfirst.append hrest

theorem leads_blocks {bs : List Block} (hnames : (ns.map (·.1) ++ bs.map Block.name).Nodup)
    (h : ∀ b ∈ bs, b.Proper) :
    Leads (bs.flatMap Block.lines) ns (ns ++ bs.map fun b => (b.name, b.node)) := by
  induction bs generalizing ns with
  | nil =>
    rw [List.map_nil, List.append_nil]
    exact .refl _
  | cons b bs ih =>
    have hname : b.name ∉ ns.map (·.1) :=
      fun hmem => (List.nodup_append.1 hnames).2.2 _ hmem _ List.mem_cons_self rfl
    have hfirst := (h b List.mem_cons_self).leads hname
    have hnames' : ((ns ++ [(b.name, b.node)]).map (·.1) ++ bs.map Block.name).Nodup := by
      rwa [List.map_append, List.append_assoc]
    have hrest := ih hnames' fun b hb => h b (List.mem_cons_of_mem _ hb)
    rw [List.append_assoc] at hrest
    exact hfirst.append hrest

/-- A document in which no name comes twice is read as the table of its contents. -/
theorem Contents.Proper.parse?_ofList {c : Contents} (h : c.Proper) {cs : List Char} (hcs : Layout c.lines cs) :
    parse? (String.ofList cs) = some (.table c.entries) := by
  have hnames := h.names
  rw [map_fst_entries] at hnames
  have htop : (entryLines c.top).foldlM Line.run {} = some { current := { entries := leaves c.top } } :=
    run_entryLines rfl (List.nodup_append.1 hnames).1
  have hleads : Leads (c.blocks.flatMap Block.lines) (leaves c.top) _ :=
    leads_blocks ((map_fst_leaves c.top).symm ▸ hnames) h.blocks
  obtain ⟨d, hrun, hd⟩ := hleads { current := { entries := leaves c.top } } rfl
  rw [hcs.parse?_ofList, lines, List.foldlM_append, htop, Option.bind_eq_bind, Option.bind_some, hrun,
    Option.bind_some, Document.value?, show d.close = _ from hd]
  show some (Value.table (entryValues _)) = _
  rw [entryValues_append, entryValues_leaves, entryValues_blocks]
  rfl

end

end RequestRouting.Toml
