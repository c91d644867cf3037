import RequestRouting.Proofs.Pattern.Division
import RequestRouting.Proofs.Pattern.Names
import RequestRouting.Proofs.Regex.Shift
import RequestRouting.Proofs.Table.Conservation

/-!
Patterns behind a literal text.

Text that stands for itself is put in front of a pattern. If that makes no difference to whether the pattern is too
big, it is accepted if it was before, and takes from a path with the same text in front the parameters that it takes
from the path alone (`PlainFront.isOk_compile`, `PlainFront.takes?_eq`): the text in front ends before the first
slash or placeholder of the pattern, and the rest of the expression finds behind it what it finds at the start of
the path.
-/

namespace RequestRouting

open Regex
open Regex.Parser (isMeta namesFault?)

/-! ## Segments -/

/-- Text in front of a pattern that begins no placeholder, and ends with no sign that might belong to one. -/
structure Fronts (front : List Char) : Prop where
  bracket : '[' ∉ front
  last : ∀ s : Separator, front.getLast? ≠ some s.char

theorem Fronts.at?_eq_none {c : Char} {front : List Char} (h : Fronts (c :: front))
    (rest : List Char) : Placeholder.at? (c :: (front ++ rest)) = none := by
  refine Placeholder.at?_eq_none_iff.2 ⟨fun hopens => ?_, fun s hs hopens => ?_⟩
  · exact h.bracket (Option.some.inj hopens.head? ▸ List.mem_cons_self)
  · cases front with
    | nil => exact h.last s (congrArg some hs)
    | cons d front =>
      exact h.bracket (Option.some.inj hopens.head? ▸ List.mem_cons_of_mem _ List.mem_cons_self)

theorem Fronts.tail {c : Char} {front : List Char} (h : Fronts (c :: front)) : Fronts front := by
  refine ⟨fun hmem => h.bracket (List.mem_cons_of_mem c hmem), fun s hs => h.last s ?_⟩
  rw [List.getLast?_cons, hs]
  rfl

/-- Such a text is text of the pattern. -/
theorem Fronts.scan_append {front : List Char} (h : Fronts front) (rest : List Char) :
    Segment.scan 0 (front ++ rest) = front.map .char ++ Segment.scan 0 rest := by
  induction front with
  | nil => rfl
  | cons c front ih =>
    rw [List.cons_append, Segment.scan_of_none (h.at?_eq_none rest), ih h.tail]
    rfl

/-! ## Patterns with builtin types -/

theorem mem_placeholders_iff {pattern : String} {p : Placeholder} :
    p ∈ placeholders pattern ↔ Segment.hole p ∈ segments pattern := by
  rw [placeholders, List.mem_filterMap]
  constructor
  · intro ⟨seg, hseg, hp⟩
    cases seg with
    | char c => cases hp
    | hole q => exact Option.some.inj hp ▸ hseg
  · exact fun h => ⟨_, h, rfl⟩

/-- A pattern with plain text between its placeholders, whose types are builtin with their builtin fragments, and
whose names do not end before their closing angle. -/
structure BuiltinPattern (types : TypeRegistry) (pattern : String) : Prop where
  text : ∀ c, Segment.char c ∈ segments pattern → isMeta c = false
  tags : ∀ p ∈ placeholders pattern, (p.tag, types.resolve p.tag) ∈ TypeRegistry.builtinTypes
  names : ∀ p ∈ placeholders pattern, ∀ name, p.name = some name → '>' ∉ name.toList

/-- Whether a segment is plain text, or a placeholder with a builtin type and such a name. -/
def Segment.isBuiltin (types : TypeRegistry) : Segment → Bool
  | char c => !isMeta c
  | hole p => (p.tag, types.resolve p.tag) ∈ TypeRegistry.builtinTypes &&
      p.name.all fun name => '>' ∉ name.toList

theorem builtinPattern_iff {types : TypeRegistry} {pattern : String} :
    BuiltinPattern types pattern ↔ ∀ seg ∈ segments pattern, seg.isBuiltin types := by
  constructor
  · intro h seg hseg
    cases seg with
    | char c => simp [Segment.isBuiltin, h.text c hseg]
    | hole p =>
      have hp := mem_placeholders_iff.2 hseg
      have hnames := h.names p hp
      simp only [Segment.isBuiltin, h.tags p hp, decide_true, Bool.true_and]
      cases hname : p.name with
      | none => rfl
      | some name => exact decide_eq_true (hnames name hname)
  · intro h
    refine ⟨fun c hc => ?_, fun p hp => ?_, fun p hp name hname => ?_⟩
    · simpa [Segment.isBuiltin] using h _ hc
    · have hseg := h _ (mem_placeholders_iff.1 hp)
      rw [Segment.isBuiltin, Bool.and_eq_true, decide_eq_true_eq] at hseg
      exact hseg.1
    · have hseg := h _ (mem_placeholders_iff.1 hp)
      rw [Segment.isBuiltin, Bool.and_eq_true, hname] at hseg
      exact of_decide_eq_true hseg.2

instance (types : TypeRegistry) (pattern : String) : Decidable (BuiltinPattern types pattern) :=
  decidable_of_iff _ builtinPattern_iff.symm

theorem Run.exists_of_mem {tag fragment : String} (h : (tag, fragment) ∈ TypeRegistry.builtinTypes) :
    ∃ r : Run, tag = r.tag ∧ fragment = r.fragment := by
  simp only [TypeRegistry.builtinTypes, List.mem_cons, Prod.mk.injEq, List.not_mem_nil, or_false] at h
  rcases h with h | h | h | h | h | h
  · exact ⟨.digits, h⟩
  · exact ⟨.alphanumeric, h⟩
  · exact ⟨.hexadecimal, h⟩
  · exact ⟨.shortest, h⟩
  · exact ⟨.longest, h⟩
  · exact ⟨.part, h⟩

/-- Pieces without alternatives. -/
def OfRuns (ps : List Piece) : Prop := ∀ p k, Piece.hole p k ∈ ps → ∃ r, k = .run r

theorem exists_reads {types : TypeRegistry} {segs : List Segment}
    (htext : ∀ c, Segment.char c ∈ segs → isMeta c = false)
    (htags : ∀ p, Segment.hole p ∈ segs →
      (p.tag, types.resolve p.tag) ∈ TypeRegistry.builtinTypes) :
    ∃ ps, Reads types segs ps ∧ OfRuns ps ∧ ∀ p k, Piece.hole p k ∈ ps → Segment.hole p ∈ segs := by
  induction segs with
  | nil => exact ⟨[], .nil, nofun, nofun⟩
  | cons seg segs ih =>
    obtain ⟨ps, hreads, hruns, hmem⟩ := ih (fun c hc => htext c (List.mem_cons_of_mem _ hc))
      fun p hp => htags p (List.mem_cons_of_mem _ hp)
    cases seg with
    | char c =>
      refine ⟨.lit c :: ps, .char (htext c List.mem_cons_self) hreads, fun p k h => ?_, fun p k h => ?_⟩
      · exact hruns p k ((List.mem_cons.1 h).resolve_left nofun)
      · exact List.mem_cons_of_mem _ (hmem p k ((List.mem_cons.1 h).resolve_left nofun))
    | hole p =>
      obtain ⟨r, htag, hfragment⟩ := Run.exists_of_mem (htags p List.mem_cons_self)
      refine ⟨.hole p (.run r) :: ps, .hole ⟨htag, hfragment⟩ hreads, fun q k h => ?_, fun q k h => ?_⟩
      · rcases List.mem_cons.1 h with heq | h
        · cases heq
          exact ⟨r, rfl⟩
        · exact hruns q k h
      · rcases List.mem_cons.1 h with heq | h
        · cases heq
          exact List.mem_cons_self
        · exact List.mem_cons_of_mem _ (hmem q k h)

/-- Plain text in front of segments is read as it stands. -/
theorem Reads.append_plain {types : TypeRegistry} {segs : List Segment} {ps : List Piece} {front : List Char}
    (h : Reads types segs ps) (hfront : ∀ c ∈ front, isMeta c = false) :
    Reads types (front.map .char ++ segs) (front.map .lit ++ ps) := by
  induction front with
  | nil => exact h
  | cons c front ih =>
    exact .char (hfront c List.mem_cons_self) (ih fun d hd => hfront d (List.mem_cons_of_mem c hd))

theorem BuiltinPattern.exists_reads {types : TypeRegistry} {pattern : String}
    (h : BuiltinPattern types pattern) : ∃ ps, Reads types (segments pattern) ps ∧ OfRuns ps ∧
      ∀ name ∈ ps.filterMap Piece.name?, '>' ∉ name.toList := by
  obtain ⟨ps, hreads, hruns, hmem⟩ := RequestRouting.exists_reads h.text
    fun p hp => h.tags p (mem_placeholders_iff.2 hp)
  refine ⟨ps, hreads, hruns, fun name hname => ?_⟩
  obtain ⟨piece, hpiece, hname⟩ := List.mem_filterMap.1 hname
  cases piece with
  | lit c => cases hname
  | hole p k => exact h.names p (mem_placeholders_iff.2 (hmem p k hpiece)) name hname

/-! ## Expressions -/

theorem forward_ofRev {es : List Expr} (h : ∀ e ∈ es, e.Forward) : (Expr.ofRev es).Forward := by
  induction es with
  | nil => exact trivial
  | cons e es ih =>
    cases es with
    | nil => exact h e List.mem_cons_self
    | cons f es =>
      exact ⟨ih fun e he => h e (List.mem_cons_of_mem _ he), h e List.mem_cons_self⟩

theorem forward_marked {e : Expr} (h : e.Forward) (optional : Bool) : (e.marked optional).Forward := by
  cases optional with
  | false => exact h
  | true => exact ⟨h, nofun⟩

/-- Pieces without alternatives look at nothing before them. -/
theorem OfRuns.forward {ps : List Piece} (h : OfRuns ps) (i : Nat) :
    ∀ e ∈ placed Piece.expr i ps, e.Forward := by
  induction ps generalizing i with
  | nil => exact nofun
  | cons piece ps ih =>
    have hrest : OfRuns ps := fun p k hp => h p k (List.mem_cons_of_mem _ hp)
    rw [placed, List.forall_mem_cons]
    refine ⟨?_, ih hrest _⟩
    cases piece with
    | lit c => exact trivial
    | hole p k =>
      obtain ⟨r, rfl⟩ := h p k List.mem_cons_self
      have hvalue : (Expr.group (i + 1) (Kind.run r).expr).Forward := ⟨trivial, fun _ => rfl⟩
      apply forward_marked
      apply forward_ofRev
      rw [List.forall_mem_cons]
      refine ⟨forward_marked hvalue p.optional, fun e he => ?_⟩
      obtain ⟨c, -, rfl⟩ := List.mem_map.1 he
      exact trivial

variable {α : Type} {front : List Char} {ps : List Piece}

theorem placed_append_lits (f : Nat → Piece → α) (front : List Char) (ps : List Piece) :
    placed f 0 (front.map .lit ++ ps) = front.map (fun c => f 0 (.lit c)) ++ placed f 0 ps := by
  induction front with
  | nil => rfl
  | cons c front ih =>
    show f 0 (.lit c) :: placed f 0 (front.map .lit ++ ps) = _
    rw [ih]
    rfl

theorem entries_append_lits (front : List Char) (ps : List Piece) :
    entries 0 (front.map .lit ++ ps) = entries 0 ps := by
  rw [entries, placed_append_lits, List.flatten_append, entries]
  have hnone : (front.map fun c => Piece.entry 0 (.lit c)).flatten = [] := by
    simp [Piece.entry, Piece.name?]
  rw [hnone, List.nil_append]

/-- A search for pieces behind a text takes the text, and then finds what it finds for the pieces. -/
theorem search_append_lits (h : OfRuns ps) (text : List Char) :
    search (wholeExpr (front.map .lit ++ ps)) (front ++ text) =
      (search (wholeExpr ps) text).map (.behind front.length) := by
  have hforward : ∀ e ∈ .look .textEnd :: (placed Piece.expr 0 ps).reverse, e.Forward := by
    rw [List.forall_mem_cons]
    exact ⟨rfl, fun e he => h.forward 0 e (List.mem_reverse.1 he)⟩
  have hbehind : wholeExpr (front.map .lit ++ ps) = .fromStart
      ((.look .textEnd :: (placed Piece.expr 0 ps).reverse) ++ front.reverse.map .letter) := by
    rw [wholeExpr, placed_append_lits, List.reverse_append, ← List.map_reverse]
    rfl
  rw [hbehind, search_behind hforward]
  rfl

/-! ## Size -/

theorem Regex.Expr.leastStates_ofRev (es : List Expr) :
    (ofRev es).leastStates = (es.map leastStates).sum := by
  induction es with
  | nil => rfl
  | cons e rest ih =>
    cases rest with
    | nil => rfl
    | cons f rest =>
      rw [List.map_cons, List.sum_cons, ← ih, Nat.add_comm]
      rfl

theorem Regex.Expr.leastStates_letter_pos (c : Char) : 0 < (letter c).leastStates := by
  have hsingle : (CharSet.single c.toNat).onlyMember? = some c.toNat := if_pos rfl
  rw [letter, leastStates, hsingle]
  exact Char.utf8Size_pos _

/-- Each character of a text in front of pieces takes a state. -/
theorem length_le_leastStates (front : List Char) (ps : List Piece) :
    front.length ≤ (wholeExpr (front.map .lit ++ ps)).leastStates := by
  have hletters := List.length_le_sum_of_one_le (front.map fun c => (Expr.letter c).leastStates) fun n hn => by
    obtain ⟨c, -, rfl⟩ := List.mem_map.1 hn
    exact Expr.leastStates_letter_pos c
  have hfront : (front.map fun c => Piece.expr 0 (.lit c)).map Expr.leastStates =
      front.map fun c => (Expr.letter c).leastStates := List.map_map
  rw [List.length_map] at hletters
  -- The whole has a state more for each end of the text, and those of the pieces.
  rw [wholeExpr, Expr.leastStates_ofRev, placed_append_lits]
  simp only [List.map_cons, List.map_append, List.map_reverse, List.sum_cons, List.sum_append,
    List.sum_reverse, hfront]
  omega

/-! ## Parameters -/

theorem Regex.Match.group?_behind (m : Match) (k i : Nat) :
    (m.behind k).group? i = (m.group? i).map (·.shift k) := by
  rw [group?, group?, Match.behind, shiftGroups, List.find?_map, Option.map_map, Option.map_map]
  rfl

theorem filterMap_group?_behind (names : List (String × Nat)) (m : Match) (front text : List Char) :
    (names.filterMap fun entry => ((m.behind front.length).group? entry.2).map fun span =>
        (entry.1, String.ofList (span.slice (front ++ text)))) =
      names.filterMap fun entry => (m.group? entry.2).map fun span =>
        (entry.1, String.ofList (span.slice text)) := by
  apply List.filterMap_congr
  intro entry _
  rw [m.group?_behind, Option.map_map]
  congr 1
  funext span
  rw [Function.comp_apply, span.slice_shift]

theorem captures_behind {front : String} {ps : List Piece} (hps : OfRuns ps)
    {c' c : CompiledPattern} (hexpr' : c'.regex.expr = wholeExpr (front.toList.map .lit ++ ps))
    (hexpr : c.regex.expr = wholeExpr ps) (hnames : c'.regex.names = c.regex.names)
    (path : String) : c'.captures (front ++ path) = c.captures path := by
  rw [CompiledPattern.captures, CompiledPattern.captures, Regex.find?, Regex.find?, hexpr', hexpr,
    String.toList_append, search_append_lits hps, Option.map_map]
  congr 1
  funext m
  rw [Function.comp_apply, Regex.namedTexts, Regex.namedTexts, hnames, String.toList_append,
    filterMap_group?_behind]

/-- Plain text that does not end with a slash. -/
structure PlainFront (front : String) : Prop where
  plain : ∀ c ∈ front.toList, isMeta c = false
  last : front.toList.getLast? ≠ some '/'

namespace PlainFront

variable {types : TypeRegistry} {pattern text : String}

theorem fronts {front : String} (h : PlainFront front) : Fronts front.toList where
  bracket hmem := absurd (h.plain '[' hmem) (by decide)
  last s hs := by
    cases s with
    | slash => exact h.last hs
    | dot => exact absurd (h.plain '.' (List.mem_of_getLast? hs)) (by decide)

/-- The pieces of a pattern behind the text are the characters of the text and those of the pattern. -/
theorem reads {front : String} (h : PlainFront front) {ps : List Piece}
    (hreads : Reads types (segments pattern) ps) :
    Reads types (segments (front ++ pattern)) (front.toList.map .lit ++ ps) := by
  rw [segments, String.toList_append, h.fronts.scan_append]
  exact hreads.append_plain h.plain

theorem filterMap_name? (cs : List Char) (ps : List Piece) :
    (cs.map Piece.lit ++ ps).filterMap Piece.name? = ps.filterMap Piece.name? := by
  have hnone : (cs.map Piece.lit).filterMap Piece.name? = [] := by
    simp [Piece.name?]
  rw [List.filterMap_append, hnone, List.nil_append]

/-- With 32 octets for each state, a pattern behind a text that fills the limit by itself is too big. -/
theorem isTooBig_of_length {front : String} (h : PlainFront front) {ps : List Piece}
    (hreadable : Readable types pattern ps) (hlength : sizeLimit < 32 * front.toList.length) :
    CompiledPattern.isTooBig (front ++ pattern) types := by
  have hnames := filterMap_name? front.toList ps
  have hwhole : Readable types (front ++ pattern) (front.toList.map .lit ++ ps) :=
    ⟨h.reads hreadable.reads, hnames.symm ▸ hreadable.names, hnames.symm ▸ hreadable.nodup⟩
  have hstates := length_le_leastStates front.toList ps
  rw [CompiledPattern.isTooBig_of_read hwhole.read, Regex.isTooBig, decide_eq_true_iff]
  exact Nat.lt_of_lt_of_le hlength (Nat.mul_le_mul_left 32 hstates)

section

variable [ProgramSize] {front : String}

/-- Behind plain text the same patterns are accepted, if the limit makes no difference. -/
theorem isOk_compile (h : PlainFront front) (hpattern : BuiltinPattern types pattern)
    (hsize : CompiledPattern.isTooBig (front ++ pattern) types = CompiledPattern.isTooBig pattern types) :
    (CompiledPattern.compile (front ++ pattern) types).isOk =
      (CompiledPattern.compile pattern types).isOk := by
  obtain ⟨ps, hreads, -, hangle⟩ := hpattern.exists_reads
  have hnames := filterMap_name? front.toList ps
  rw [(h.reads hreads).compile_eq (hnames ▸ hangle), hreads.compile_eq hangle, hnames, hsize]
  -- With or without the text in front the names and the size are the same, and nothing else counts.
  cases namesFault? [] (ps.filterMap Piece.name?) with
  | some e => rfl
  | none => cases CompiledPattern.isTooBig pattern types <;> rfl

/-- And they take the same parameters from a path behind the text as from the path alone. -/
theorem takes?_eq (h : PlainFront front) (hpattern : BuiltinPattern types pattern)
    (hsize : CompiledPattern.isTooBig (front ++ pattern) types = CompiledPattern.isTooBig pattern types)
    (path : String) : takes? types (front ++ pattern) (front ++ path) = takes? types pattern path := by
  obtain ⟨ps, hreads, hruns, hangle⟩ := hpattern.exists_reads
  have hnames := filterMap_name? front.toList ps
  rw [takes?, takes?, (h.reads hreads).compile_eq (hnames ▸ hangle), hreads.compile_eq hangle, hnames,
    hsize]
  cases namesFault? [] (ps.filterMap Piece.name?) with
  | some e => rfl
  | none =>
    cases CompiledPattern.isTooBig pattern types with
    | true => rfl
    | false => exact captures_behind hruns rfl rfl (entries_append_lits front.toList ps) path

end

end PlainFront

end RequestRouting
