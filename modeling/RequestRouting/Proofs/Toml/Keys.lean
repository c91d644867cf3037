import Mathlib.Data.List.Nodup
import RequestRouting.Toml.Parser

/-!
Keys of a document that is read.

No table of a document has a key twice, however it was put together: by a header, by headers with doubled brackets, by
dotted keys or between braces (`exists_table_of_parse?`). While a document is read this holds of the tables that are
open, and every change of a table keeps it.
-/

namespace RequestRouting.Toml

/-! ## Values -/

namespace Value

/-- Whether a value holds no other values. -/
def IsScalar : Value → Prop
  | .array _ | .table _ => False
  | _ => True

/-- Whether no table within a value has a key twice. -/
inductive DistinctKeys : Value → Prop
  | scalar {v} : v.IsScalar → DistinctKeys v
  | array {items} : (∀ v ∈ items, DistinctKeys v) → DistinctKeys (.array items)
  | table {entries} : (entries.map (·.1)).Nodup → (∀ e ∈ entries, DistinctKeys e.2) →
    DistinctKeys (.table entries)

theorem distinctKeys_array_iff {items : List Value} :
    (Value.array items).DistinctKeys ↔ ∀ v ∈ items, v.DistinctKeys := by
  constructor
  · intro h
    cases h with
    | scalar h => exact h.elim
    | array h => exact h
  · exact .array

theorem distinctKeys_table_iff {entries : List (String × Value)} : (Value.table entries).DistinctKeys ↔
    (entries.map (·.1)).Nodup ∧ ∀ e ∈ entries, e.2.DistinctKeys := by
  constructor
  · intro h
    cases h with
    | scalar h => exact h.elim
    | table hkeys h => exact ⟨hkeys, h⟩
  · exact fun h => .table h.1 h.2

end Value

/-! ## What is read -/

/-- Whether all that is read, if anything is, has a property. -/
def Yields {α : Type} (P : α → Prop) (x : Option α) : Prop := ∀ a, x = some a → P a

namespace Yields

variable {α β : Type} {P : α → Prop} {Q : β → Prop}

theorem none : Yields P none := nofun

theorem some {a : α} (h : P a) : Yields P (some a) := fun _ heq => Option.some.inj heq ▸ h

theorem bind {x : Option α} {f : α → Option β} (hx : Yields P x) (hf : ∀ a, P a → Yields Q (f a)) :
    Yields Q (x >>= f) := by
  cases x with
  | none => exact none
  | some a => exact hf a (hx a rfl)

/-- Something of which nothing need be known is read first. -/
theorem after {x : Option α} {f : α → Option β} (hf : ∀ a, Yields Q (f a)) : Yields Q (x >>= f) := by
  cases x with
  | none => exact none
  | some a => exact hf a

theorem map {x : Option α} {f : α → β} (hx : Yields P x) (hf : ∀ a, P a → Q (f a)) : Yields Q (x.map f) := by
  cases x with
  | none => exact none
  | some a => exact some (hf a (hx a rfl))

end Yields

/-- A value that holds no other values, with the text behind it. -/
abbrev ReadsScalar (x : Option (Value × List Char)) : Prop := Yields (fun p => p.1.IsScalar) x

theorem readsScalar_float? (negative : Bool) (digits : List Char) (exponent : Int) (rest : List Char) :
    ReadsScalar (float? negative digits exponent rest) := by
  unfold float?
  split
  · exact .none
  · exact .some trivial

theorem readsScalar_integer? (n : Int) (rest : List Char) : ReadsScalar (integer? n rest) := by
  unfold integer?
  split
  · exact .some trivial
  · exact .none

theorem readsScalar_unsignedNumber? (negative : Bool) (cs : List Char) :
    ReadsScalar (unsignedNumber? negative cs) := by
  unfold unsignedNumber?
  split
  · exact .some trivial
  · exact .some trivial
  · refine .after fun whole => ?_
    dsimp only
    split
    · refine .after fun fraction => ?_
      split
      iterate 2 exact .after fun _ => readsScalar_float? _ _ _ _
      exact readsScalar_float? _ _ _ _
    iterate 2 exact .after fun _ => readsScalar_float? _ _ _ _
    exact readsScalar_integer? _ _

theorem readsScalar_number? (cs : List Char) : ReadsScalar (number? cs) := by
  unfold number?
  split
  iterate 3 exact .after fun _ => readsScalar_integer? _ _
  exact readsScalar_unsignedNumber? _ _

theorem readsScalar_scalarValue? (cs : List Char) : ReadsScalar (scalarValue? cs) := by
  unfold scalarValue?
  split
  next => exact .none
  next c r =>
    split
    · exact .map (P := fun _ => True) (fun _ _ => trivial) fun _ _ => trivial
    split
    next => exact .some trivial
    next => exact .some trivial
    next =>
      split
      · exact .map (P := fun _ => True) (fun _ _ => trivial) fun _ _ => trivial
      · exact readsScalar_number? _

/-! ## Tables that are being read -/

/-- Whether the entries of a table that is being read have different keys, and so have the tables within them. -/
structure DistinctEntries (entries : List (String × Node)) : Prop where
  keys : (entries.map (·.1)).Nodup
  values : ∀ e ∈ entries, e.2.value.DistinctKeys

theorem distinctEntries_nil : DistinctEntries [] := ⟨List.nodup_nil, nofun⟩

theorem distinctKeys_entryValues_iff {entries : List (String × Node)} :
    (Value.table (entryValues entries)).DistinctKeys ↔ DistinctEntries entries := by
  have hkeys : (entries.map fun e => (e.1, e.2.value)).map (·.1) = entries.map (·.1) := by
    rw [List.map_map]
    rfl
  rw [Value.distinctKeys_table_iff, entryValues_eq_map, hkeys, List.forall_mem_map]
  exact ⟨fun h => ⟨h.1, h.2⟩, fun h => ⟨h.keys, h.values⟩⟩

theorem distinctKeys_series_iff {tables : List (List (String × Node))} :
    (Node.series tables).value.DistinctKeys ↔ ∀ entries ∈ tables, DistinctEntries entries := by
  rw [Node.value, Value.distinctKeys_array_iff, seriesValues_eq_map, List.forall_mem_map]
  simp only [distinctKeys_entryValues_iff]

namespace OpenTable

/-- Whether no key comes twice in a table that is being read, or in a table within it. -/
def DistinctKeys (t : OpenTable) : Prop := DistinctEntries t.entries

variable {t : OpenTable} {key : String} {n : Node}

theorem DistinctKeys.node (h : t.DistinctKeys) : t.node.value.DistinctKeys := distinctKeys_entryValues_iff.2 h

theorem DistinctKeys.get? (h : t.DistinctKeys) (hn : t.get? key = some n) : n.value.DistinctKeys := by
  obtain ⟨e, he, rfl⟩ := Option.map_eq_some_iff.1 hn
  exact h.values e (List.mem_of_find?_eq_some he)

theorem DistinctKeys.set (h : t.DistinctKeys) (key : String) (hn : n.value.DistinctKeys) :
    (t.set key n).DistinctKeys := by
  unfold OpenTable.set
  split
  next =>
    have hkeys : (t.entries.map fun e => if e.1 == key then (key, n) else e).map (·.1) =
        t.entries.map (·.1) := by
      rw [List.map_map]
      refine List.map_congr_left fun e _ => ?_
      by_cases he : e.1 = key <;> simp [he]
    refine ⟨hkeys ▸ h.keys, List.forall_mem_map.2 fun e he => ?_⟩
    split
    · exact hn
    · exact h.values e he
  next hnew =>
    have hkey : key ∉ t.entries.map (·.1) := by simpa using hnew
    refine ⟨?_, List.forall_mem_append.2 ⟨h.values, List.forall_mem_singleton.2 hn⟩⟩
    rw [List.map_append]
    exact List.concat_eq_append ▸ h.keys.concat hkey

theorem DistinctKeys.erase (h : t.DistinctKeys) (key : String) : (t.erase key).DistinctKeys :=
  ⟨h.keys.sublist (List.filter_sublist.map _), fun e he => h.values e (List.mem_filter.1 he).1⟩

/-- Changing the table at the end of a path keeps the keys of all tables different, if it does so with that table. -/
theorem DistinctKeys.change {α : Type} {P : α → Prop} {f : OpenTable → Option (OpenTable × α)} (dotted : Bool)
    (hf : ∀ t : OpenTable, t.DistinctKeys → Yields (fun p => p.1.DistinctKeys ∧ P p.2) (f t))
    (path : List String) (h : t.DistinctKeys) :
    Yields (fun p => p.1.DistinctKeys ∧ P p.2) (t.change dotted f path) := by
  induction path generalizing t with
  | nil => exact hf t h
  | cons key path ih =>
    rw [OpenTable.change]
    split
    next =>
      have hinner := ih (t := { implied := true, dotted }) distinctEntries_nil
      exact hinner.bind fun p hp => .some ⟨h.set key hp.1.node, hp.2⟩
    next => exact .none
    next implied isDotted entries hget =>
      split
      · exact .none
      · have hinner := ih (t := ⟨implied, isDotted, entries⟩) (distinctKeys_entryValues_iff.1 (h.get? hget))
        exact hinner.bind fun p hp => .some ⟨h.set key hp.1.node, hp.2⟩
    next tables hget =>
      -- The last table of a series is changed, and the others stay as they are.
      have htables := distinctKeys_series_iff.1 (h.get? hget)
      split
      · exact .none
      next entries hlast =>
        have hinner := ih (t := { entries }) (htables entries (List.mem_of_getLast? hlast))
        refine hinner.bind fun p hp => .some ⟨h.set key (distinctKeys_series_iff.2 ?_), hp.2⟩
        rw [List.forall_mem_append]
        exact ⟨fun es hes => htables es (List.dropLast_subset _ hes), List.forall_mem_singleton.2 hp.1⟩

theorem DistinctKeys.update {f : OpenTable → Option OpenTable} (dotted : Bool)
    (hf : ∀ t : OpenTable, t.DistinctKeys → Yields DistinctKeys (f t)) (path : List String) (h : t.DistinctKeys) :
    Yields DistinctKeys (t.update dotted path f) := by
  refine (change (P := fun _ => True) dotted (fun inner hinner => ?_) path h).map fun p hp => hp.1
  exact (hf inner hinner).map fun changed hchanged => ⟨hchanged, trivial⟩

theorem DistinctKeys.addValue (h : t.DistinctKeys) (path : List String) (key : String) {v : Value}
    (hv : v.DistinctKeys) : Yields DistinctKeys (t.addValue path key v) := by
  refine h.update true (fun inner hinner => ?_) path
  split
  · exact .none
  · exact .some (hinner.set key (n := .leaf v) hv)

end OpenTable

/-! ## Inline tables and arrays -/

theorem distinctKeys_inlineTable? {pairs : List ((List String × String) × Value)}
    (h : ∀ p ∈ pairs, p.2.DistinctKeys) : Yields Value.DistinctKeys (inlineTable? pairs) := by
  suffices hfold : ∀ t : OpenTable, t.DistinctKeys → Yields OpenTable.DistinctKeys
      (pairs.foldlM (fun t p => t.addValue p.1.1 p.1.2 p.2) t) from
    (hfold {} distinctEntries_nil).map fun t ht => ht.node
  induction pairs with
  | nil => exact fun t ht => .some ht
  | cons p pairs ih =>
    rw [List.forall_mem_cons] at h
    exact fun t ht => (ht.addValue p.1.1 p.1.2 h.1).bind fun t ht => ih h.2 t ht

theorem distinctKeys_value? (fuel : Nat) :
    (∀ depth cs, Yields (fun p => p.1.DistinctKeys) (value? fuel depth cs)) ∧
    (∀ depth cs, Yields (fun p => ∀ v ∈ p.1, v.DistinctKeys) (items? fuel depth cs)) ∧
    ∀ depth cs, Yields (fun p => ∀ e ∈ p.1, e.2.DistinctKeys) (pairs? fuel depth cs) := by
  induction fuel with
  | zero => exact ⟨fun _ _ => .none, fun _ _ => .none, fun _ _ => .none⟩
  | succ fuel ih =>
    obtain ⟨hvalue, hitems, hpairs⟩ := ih
    refine ⟨fun depth cs => ?_, fun depth cs => ?_, fun depth cs => ?_⟩
    · unfold value?
      split
      next r =>
        split
        · exact .none
        · exact (hitems _ r).bind fun p hp => .some (.array hp)
      next r =>
        split
        · exact .none
        split
        next => exact (distinctKeys_inlineTable? (List.forall_mem_nil _)).bind fun v hv => .some hv
        next => exact (hpairs _ _).bind fun p hp => (distinctKeys_inlineTable? hp).bind fun v hv => .some hv
      next => exact fun p hp => .scalar (readsScalar_scalarValue? cs p hp)
    · unfold items?
      refine .after fun cs => ?_
      split
      next => exact .some nofun
      next =>
        refine (hvalue depth _).bind fun p hp => .after fun rest => ?_
        split
        next rest =>
          exact (hitems depth rest).bind fun q hq => .some (List.forall_mem_cons.2 ⟨hp, hq⟩)
        next => exact .some (List.forall_mem_singleton.2 hp)
        next => exact .none
    · unfold pairs?
      refine .after fun key => ?_
      dsimp only
      split
      next rest =>
        refine (hvalue depth _).bind fun p hp => ?_
        split
        next rest _ =>
          refine (hpairs depth rest).bind fun q hq => .some ?_
          show ∀ e ∈ (key.1, p.1) :: q.1, e.2.DistinctKeys
          exact List.forall_mem_cons.2 ⟨hp, hq⟩
        next =>
          refine .some ?_
          show ∀ e ∈ [(key.1, p.1)], e.2.DistinctKeys
          exact List.forall_mem_singleton.2 hp
        next => exact .none
      next => exact .none

/-! ## Lines -/

/-- Whether the tables of a document so far have different keys. -/
structure Document.DistinctKeys (d : Document) : Prop where
  root : d.root.DistinctKeys
  current : d.current.DistinctKeys

namespace Document.DistinctKeys

variable {d : Document}

theorem close (h : d.DistinctKeys) : Yields OpenTable.DistinctKeys d.close := by
  unfold Document.close
  split
  next => exact .some h.current
  next key _ =>
    refine h.root.update false (fun parent hparent => ?_) _
    split
    · split
      next tables hget =>
        have htables := distinctKeys_series_iff.1 (hparent.get? hget)
        have hmore : (Node.series (tables ++ [d.current.entries])).value.DistinctKeys := by
          rw [distinctKeys_series_iff, List.forall_mem_append]
          exact ⟨htables, List.forall_mem_singleton.2 h.current⟩
        exact .some (hparent.set key hmore)
      next => exact .none
    · exact .some (hparent.set key h.current.node)

theorem openTable (h : d.DistinctKeys) (path : List String) (key : String) :
    Yields DistinctKeys (d.openTable path key) := by
  refine h.close.bind fun root hroot => ?_
  refine (hroot.change (P := OpenTable.DistinctKeys) false (fun parent hparent => ?_) path).bind
    fun p hp => .some ⟨hp.1, hp.2⟩
  split
  next => exact .some ⟨hparent, distinctEntries_nil⟩
  next entries hget => exact .some ⟨hparent.erase key, distinctKeys_entryValues_iff.1 (hparent.get? hget)⟩
  next => exact .none

theorem openSeries (h : d.DistinctKeys) (path : List String) (key : String) :
    Yields DistinctKeys (d.openSeries path key) := by
  refine h.close.bind fun root hroot => ?_
  refine (hroot.update false (fun parent hparent => ?_) path).bind fun root hroot =>
    .some ⟨hroot, distinctEntries_nil⟩
  split
  next => exact .some (hparent.set key (distinctKeys_series_iff.2 nofun))
  next => exact .some hparent
  next => exact .none

theorem addValue (h : d.DistinctKeys) (path : List String) (key : String) {v : Value} (hv : v.DistinctKeys) :
    Yields DistinctKeys (d.addValue path key v) :=
  (h.current.addValue path key hv).bind fun _ hcurrent => .some ⟨h.root, hcurrent⟩

theorem lines? (h : d.DistinctKeys) (fuel : Nat) (cs : List Char) : Yields DistinctKeys (lines? fuel d cs) := by
  induction fuel generalizing d cs with
  | zero => exact .some h
  | succ fuel ih =>
    unfold Toml.lines?
    split
    next => exact .some h
    next => exact .after fun rest => ih h rest
    next r _ => exact ih h r
    next => exact .after fun rest => ih h rest
    next r =>
      refine .after fun key => ?_
      dsimp only
      split
      next rest => exact (h.openSeries _ _).bind fun d hd => .after fun rest => ih hd rest
      next => exact .none
    next r =>
      refine .after fun key => ?_
      dsimp only
      split
      next rest => exact (h.openTable _ _).bind fun d hd => .after fun rest => ih hd rest
      next => exact .none
    next =>
      refine .after fun key => ?_
      dsimp only
      split
      next rest =>
        refine ((distinctKeys_value? _).1 0 _).bind fun p hp => ?_
        exact (h.addValue _ _ hp).bind fun d hd => .after fun rest => ih hd rest
      next => exact .none

end Document.DistinctKeys

/-- A document is a table, and no table in it has a key twice. -/
theorem exists_table_of_parse? {text : String} {doc : Value} (h : parse? text = some doc) :
    ∃ entries, doc = .table entries ∧ doc.DistinctKeys := by
  obtain ⟨d, hlines, hdoc⟩ := Option.bind_eq_some_iff.1 h
  obtain ⟨root, hclose, rfl⟩ := Option.map_eq_some_iff.1 hdoc
  have hempty : Document.DistinctKeys {} := ⟨distinctEntries_nil, distinctEntries_nil⟩
  have hroot := (hempty.lines? _ _ d hlines).close root hclose
  exact ⟨entryValues root.entries, rfl, hroot.node⟩

end RequestRouting.Toml
