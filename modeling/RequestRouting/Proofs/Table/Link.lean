import RequestRouting.Proofs.Path
import RequestRouting.Proofs.Pattern.PlainMatch
import RequestRouting.Proofs.Table.History

/-!
Links: paths that are built from a pattern and sent back to the table.

Where each value stands between slashes, a path says by itself what the values are (`Fits.unique`). So a
request for a link gets back the values that the link was built from (`Plain.captures_link`), however the
link was escaped.
-/

namespace RequestRouting

/-! ## Patterns for links -/

/-- Whether a run ends where a part of the path does. -/
def Run.inPart : Run → Bool
  | .digits | .alphanumeric | .hexadecimal | .part => true
  | .shortest | .longest => false

theorem Run.ne_slash {r : Run} (hr : r.inPart) {c : Char} (hc : r.takes c) : c ≠ '/' := by
  rintro rfl
  cases r with
  | digits => exact absurd hc (by decide)
  | alphanumeric => exact absurd hc (by decide)
  | hexadecimal => exact absurd hc (by decide)
  | shortest => exact absurd hr (by decide)
  | longest => exact absurd hr (by decide)
  | part => exact absurd hc (by decide)

/-- A placeholder after a slash that has a name and is never left out. -/
structure Placeholder.InLink (p : Placeholder) : Prop where
  separator : p.separator = some .slash
  named : p.name.isSome
  required : ¬p.optional

/-- Whether a text at the start of the pieces begins with a slash. -/
def opensWithSlash : List Piece → Prop
  | .lit c :: _ => c = '/'
  | _ => True

/-- Whether each placeholder takes a value from one part of the path, and what stands after it begins with a
slash. -/
inductive Linkable : List Piece → Prop
  | nil : Linkable []
  | lit {c ps} : Linkable ps → Linkable (.lit c :: ps)
  | hole {p r ps} : Placeholder.InLink p → Run.inPart r → opensWithSlash ps → Linkable ps →
      Linkable (.hole p (.run r) :: ps)

variable {p : Placeholder} {k : Kind} {ps : List Piece} {w path : List Char}
  {vs : List (Option (List Char))}

theorem Placeholder.InLink.fits_iff (hp : p.InLink) {v : Option (List Char)} :
    p.Fits k w v ↔ ∃ value, w = '/' :: value ∧ v = some value ∧ k.Takes value := by
  have hlead : p.lead = ['/'] := by rw [lead, hp.separator]; rfl
  constructor
  · intro h
    cases h with
    | @value value hv => exact ⟨value, by rw [hlead]; rfl, rfl, hv⟩
    | bare ho => exact absurd ho hp.required
    | absent ho => exact absurd ho hp.required
  · intro ⟨value, hw, hv, htakes⟩
    subst hw hv
    have hfits : p.Fits k (p.lead ++ value) (some value) := .value htakes
    rwa [hlead] at hfits

theorem fits_hole_iff : Fits (.hole p k :: ps) path vs ↔
    ∃ w v rest us, path = w ++ rest ∧ vs = v :: us ∧ p.Fits k w v ∧ Fits ps rest us := by
  constructor
  · intro h
    cases h with
    | hole hv hrest => exact ⟨_, _, _, _, rfl, rfl, hv, hrest⟩
  · intro ⟨w, v, rest, us, hpath, hvs, hv, hrest⟩
    subst hpath hvs
    exact .hole hv hrest

/-! ## The values of a link -/

-- What follows a value ends it: there is nothing left, or a slash.
theorem slash_of_fits (h : Linkable ps) (hopen : opensWithSlash ps) (hfits : Fits ps path vs) :
    path = [] ∨ ∃ rest, path = '/' :: rest := by
  cases hfits with
  | nil => exact Or.inl rfl
  | @lit c ps path vs _ =>
    rw [show c = '/' from hopen]
    exact Or.inr ⟨path, rfl⟩
  | hole hv _ =>
    cases h with
    | hole hp _ _ _ =>
      obtain ⟨value, hw, -⟩ := hp.fits_iff.1 hv
      rw [hw]
      exact Or.inr ⟨_, rfl⟩

theorem takeWhile_value {v rest : List Char} (hv : ∀ c ∈ v, c ≠ '/')
    (hrest : rest = [] ∨ ∃ tail, rest = '/' :: tail) : (v ++ rest).takeWhile (· != '/') = v := by
  rw [List.takeWhile_append_of_pos (by simpa using hv)]
  rcases hrest with hrest | ⟨tail, hrest⟩
  · rw [hrest, List.takeWhile_nil, List.append_nil]
  · rw [hrest, List.takeWhile_cons_of_neg (by decide), List.append_nil]

/-- A path is made in one way of the pieces of a link. -/
theorem Fits.unique {us : List (Option (List Char))} (h : Linkable ps) (hvs : Fits ps path vs)
    (hus : Fits ps path us) : vs = us := by
  induction h generalizing path vs us with
  | nil =>
    cases hvs
    cases hus
    rfl
  | lit _ ih =>
    cases hvs with
    | lit hvs =>
      cases hus with
      | lit hus => exact ih hvs hus
  | @hole p r ps hp hr hopen h ih =>
    obtain ⟨w, v, rest, vs, rfl, rfl, hv, hrest⟩ := fits_hole_iff.1 hvs
    obtain ⟨w', v', rest', us, hpath, rfl, hv', hrest'⟩ := fits_hole_iff.1 hus
    obtain ⟨value, rfl, rfl, htakes⟩ := hp.fits_iff.1 hv
    obtain ⟨value', rfl, rfl, htakes'⟩ := hp.fits_iff.1 hv'
    have hslash : ∀ c ∈ value, c ≠ '/' := fun c hc => r.ne_slash hr (htakes.2 c hc)
    have hslash' : ∀ c ∈ value', c ≠ '/' := fun c hc => r.ne_slash hr (htakes'.2 c hc)
    -- Both values reach up to the first slash.
    have hboth : value ++ rest = value' ++ rest' := (List.cons.inj hpath).2
    have hsame : value = value' := by
      rw [← takeWhile_value hslash (slash_of_fits h hopen hrest), hboth,
        takeWhile_value hslash' (slash_of_fits h hopen hrest')]
    rw [hsame] at hboth ⊢
    rw [List.append_cancel_left hboth] at hrest
    rw [ih hrest hrest']

/-! ## Requests for links -/

variable {types : TypeRegistry}

/-- What a link gives are the values that it was built from. -/
theorem Plain.captures_link [Regex.ProgramSize] {pattern : String} (hplain : Plain types pattern ps)
    (hlink : Linkable ps) {path : String} (hfits : Fits ps path.toList vs) {c : CompiledPattern}
    (hc : CompiledPattern.compile pattern types = .ok c) :
    c.captures path = some ⟨named ps vs⟩ := by
  obtain ⟨params, hparams⟩ := hplain.exists_captures hc hfits
  obtain ⟨us, hus, hnamed⟩ := hplain.fits_of_captures hc hparams
  rw [hfits.unique hlink hus, ← hnamed]
  exact hparams

namespace RouteTable

section

variable {H : Type} [Regex.ProgramSize] {t : RouteTable H} {log : History H}

/-- A link that is built from an entry, and that no entry before matches, leads to the entry with the values
that it was built from, however it is escaped. -/
theorem Builds.dispatch_link (hrun : Builds { types } log t) {method : String}
    {before after : List (RouteEntry H)} {e : RouteEntry H}
    (hroutes : t.routesOf method = before ++ e :: after) (hplain : Plain types e.pattern ps)
    (hlink : Linkable ps) {path raw : String} (hfits : Fits ps path.toList vs)
    (hkey : Path.IsKey path.toList) (hraw : Path.Encodes path.toList raw.toList)
    (hbefore : ∀ e' ∈ before, ¬e'.shared.compiled.isMatch path) :
    t.dispatch method raw = some
      { method := normalizeMethod method, path, pattern := e.pattern, handler := e.handler,
        params := ⟨named ps vs⟩ } := by
  have hkeeps : Keeps types log t := (Keeps.fresh types).builds hrun
  have hnone : ∀ e' ∈ before, e'.shared.compiled.captures path = none := by
    intro e' he'
    rw [CompiledPattern.captures, Option.map_eq_none_iff]
    simpa [CompiledPattern.isMatch, Regex.isMatch] using hbefore e' he'
  have hmem : e ∈ t.routesOf method := by
    rw [hroutes]
    exact List.mem_append_right _ List.mem_cons_self
  have hcaptures : e.shared.compiled.captures path = some ⟨named ps vs⟩ :=
    hplain.captures_link hlink hfits (hkeeps.compile_of_mem_routesOf hmem)
  -- What is asked for is the path itself, and the entries before `e` take nothing from it.
  rw [hkeeps.dispatch_eq_findSome?, hroutes, Path.normalize_encoded hkey hraw,
    List.findSome?_append, List.findSome?_cons, hcaptures, List.findSome?_eq_none_iff.2]
  · rfl
  · intro e' he'
    rw [hnone e' he']
    rfl

end

/-- A name with a letter outside ASCII and a percent sign comes back from its escapes. -/
theorem dispatch_escaped_name : ∃ t : RouteTable Nat,
    Builds {} [⟨"GET", "/a", 1⟩, ⟨"GET", "/[:name]", 2⟩] t ∧
    t.dispatch "get" "/%c3%A9%25" =
      some ⟨"GET", "/é%", "/[:name]", 2, ⟨[("name", "é%")]⟩⟩ := by
  have hrun := runProgram_builds [.register "GET" "/a" 1, .register "get" "/[:name]" 2] {}
  have hlog : programHistory [.register "GET" "/a" 1, .register "get" "/[:name]" 2] {} =
      [⟨"GET", "/a", 1⟩, ⟨"GET", "/[:name]", 2⟩] := by
    cbv
  rw [hlog] at hrun
  refine ⟨_, hrun, ?_⟩
  generalize (runProgram [.register "GET" "/a" 1, .register "get" "/[:name]" 2] {}).1 = t at hrun
  have hkeeps : Keeps TypeRegistry.builtin _ t := (Keeps.fresh _).builds hrun
  have hroutes : (t.routesOf "get").map (fun e => (e.pattern, some e.handler)) =
      [("/a", some 1), ("/[:name]", some 2)] := (hkeeps.routesOf_eq "get").trans (by cbv)
  obtain ⟨e₁, rest, hentries, hfirst, hrest⟩ := List.map_eq_cons_iff.1 hroutes
  obtain ⟨e₂, after, rfl, hsecond, -⟩ := List.map_eq_cons_iff.1 hrest
  replace hentries : t.routesOf "get" = [e₁] ++ e₂ :: after := hentries
  obtain ⟨hpattern₁, -⟩ := Prod.mk.inj hfirst
  obtain ⟨hpattern₂, hhandler⟩ := Prod.mk.inj hsecond
  have hplain : Plain TypeRegistry.builtin e₂.pattern
      [.hole ⟨"/[:name]", some .slash, "", some "name", false⟩ (.run .part)] := by
    rw [hpattern₂]
    exact ⟨.hole ⟨rfl, rfl⟩ .nil, by decide, by decide⟩
  have hname : Placeholder.InLink ⟨"/[:name]", some .slash, "", some "name", false⟩ :=
    ⟨rfl, rfl, by decide⟩
  have hfits : Fits [.hole ⟨"/[:name]", some .slash, "", some "name", false⟩ (.run .part)]
      "/é%".toList [some "é%".toList] := by
    have hvalue : (Kind.run .part).Takes ['é', '%'] :=
      ⟨List.cons_ne_nil 'é' ['%'], by simp [Run.takes]⟩
    exact fits_hole_iff.2 ⟨_, _, [], [], rfl, rfl, hname.fits_iff.2 ⟨_, rfl, rfl, hvalue⟩, .nil⟩
  have hkey : Path.IsKey "/é%".toList := ⟨by decide, by decide, by decide, by decide⟩
  have hraw : Path.Encodes "/é%".toList "/%c3%A9%25".toList := by
    show Path.Encodes ['/', 'é', '%'] ('/' :: (['%', 'c', '3', '%', 'A', '9'] ++ (['%', '2', '5'] ++ [])))
    exact .keep (by decide) (.escape (.cons rfl rfl (.cons rfl rfl .nil))
      (.escape (.cons rfl rfl .nil) .nil))
  have hbefore : ∀ e ∈ [e₁], ¬e.shared.compiled.isMatch "/é%" := by
    intro e he
    obtain rfl := List.mem_singleton.1 he
    have hmem : e ∈ t.routesOf "get" := by
      rw [hentries]
      exact List.mem_cons_self
    have hcompile := hkeeps.compile_of_mem_routesOf hmem
    rw [hpattern₁] at hcompile
    have hexpected : CompiledPattern.compile "/a" TypeRegistry.builtin = .ok ⟨"/a", "^/a$",
        .seq (.seq (.seq (.look .textStart) (.letter '/')) (.letter 'a')) (.look .textEnd), [], 0⟩ := by
      rfl
    rw [← Except.ok.inj (hexpected.symm.trans hcompile)]
    decide
  have hlink : Linkable [.hole ⟨"/[:name]", some .slash, "", some "name", false⟩ (.run .part)] :=
    .hole hname rfl trivial .nil
  have hdispatch := hrun.dispatch_link hentries hplain hlink hfits hkey hraw hbefore
  rw [hdispatch, hpattern₂, Option.some.inj hhandler]
  cbv

end RouteTable

end RequestRouting
