import RequestRouting.Proofs.Path
import RequestRouting.Proofs.Pattern.Behind
import RequestRouting.Proofs.Table.Flattening

/-!
Literal base paths.

A base path of plain text is transparent: what is registered behind it answers a path behind it as the same
registrations answer the path alone without a base path (`runProgram_behind`). So the histories of the two
tables differ by the base path in front of their patterns only, and it neither changes which of them takes a
path first nor what it takes from it. A base path so long that it makes a pattern too big is not transparent
(`not_runProgram_behind_long`).
-/

namespace RequestRouting

open Regex.Parser (isMeta)

theorem eraseDups_map {α β : Type} [BEq α] [LawfulBEq α] [BEq β] [LawfulBEq β] {f : α → β}
    (hf : Function.Injective f) (l : List α) : (l.map f).eraseDups = l.eraseDups.map f := by
  induction l using List.reverseRecOn with
  | nil => rfl
  | append_singleton l a ih =>
    rw [List.map_append, List.map_singleton, eraseDups_concat, eraseDups_concat, ih]
    by_cases h : a ∈ l.eraseDups
    · rw [if_pos h, if_pos (List.mem_map_of_mem h)]
    · rw [if_neg h, if_neg fun hmem => h ((List.mem_map_of_injective hf).1 hmem), List.map_append]
      rfl

theorem append_injective (front : String) : Function.Injective (front ++ ·) := by
  intro a b h
  have hchars : front.toList ++ a.toList = front.toList ++ b.toList := by
    rw [← String.toList_append, ← String.toList_append]
    exact congrArg String.toList h
  exact String.toList_inj.1 (List.append_cancel_left hchars)

/-! ## Histories behind a base path -/

variable {H : Type}

def Registration.behind (front : String) (r : Registration H) : Registration H :=
  { r with pattern := front ++ r.pattern }

/-- The answer behind a base path. -/
def RouteMatch.behind (front : String) (found : RouteMatch H) : RouteMatch H :=
  { found with path := front ++ found.path, pattern := front ++ found.pattern }

namespace History

variable {types : TypeRegistry} (front : String) (log : History H) (method pattern : String)

theorem patterns_behind : patterns (log.map (.behind front)) method =
    (patterns log method).map (front ++ ·) := by
  rw [patterns, patterns, ← eraseDups_map (append_injective front), List.filter_map, List.map_map,
    List.map_map]
  rfl

theorem handler?_behind : handler? (log.map (.behind front)) method (front ++ pattern) =
    handler? log method pattern := by
  rw [handler?, List.filter_map, List.getLast?_map, Option.map_map, handler?]
  have hsame : ((fun r : Registration H => decide (r.method = method ∧ r.pattern = front ++ pattern)) ∘
      Registration.behind front) = fun r => decide (r.method = method ∧ r.pattern = pattern) := by
    funext r
    exact decide_eq_decide.2 (and_congr_right fun _ => (append_injective front).eq_iff)
  rw [hsame]
  rfl

variable [Regex.ProgramSize] {front log method}

theorem served?_behind {path : String} (h : ∀ p ∈ patterns log method,
      takes? types (front ++ p) (front ++ path) = takes? types p path) :
    served? types (log.map (.behind front)) method (front ++ path) =
      (served? types log method path).map fun found => (front ++ found.1, found.2) := by
  rw [served?, patterns_behind, List.findSome?_map, served?, List.map_findSome?]
  apply findSome?_congr
  intro p hp
  rw [Function.comp_apply, Function.comp_apply, h p hp, Option.map_map]
  rfl

/-- If the patterns take the same parameters behind a base path, the same one answers there. -/
theorem dispatch_behind {m rawPath' rawPath : String}
    (hpath : Path.normalize rawPath' = front ++ Path.normalize rawPath)
    (h : ∀ p ∈ patterns log (normalizeMethod m), takes? types (front ++ p)
      (front ++ Path.normalize rawPath) = takes? types p (Path.normalize rawPath)) :
    dispatch types (log.map (.behind front)) m rawPath' =
      (dispatch types log m rawPath).map (.behind front) := by
  rw [dispatch_eq_bind, dispatch_eq_bind, hpath, served?_behind h, Option.bind_map, Option.map_bind]
  congr 1
  funext found
  rw [Function.comp_apply, handler?_behind, Function.comp_apply, Option.map_map]
  rfl

end History

/-! ## Paths behind a base path -/

namespace Path

theorem IsKey.append {front path : List Char} (hfront : IsKey front) (hpath : IsKey path) :
    IsKey (front ++ path) := by
  obtain ⟨hhead, hsecond, hlast, hquery⟩ := hfront
  rcases front with _ | ⟨c, _ | ⟨d, rest⟩⟩
  · cases hhead
  · exact absurd hhead hlast
  refine ⟨hhead, hsecond, ?_, ?_⟩
  · rw [List.getLast?_append]
    cases hend : path.getLast? with
    | none =>
      rw [List.getLast?_eq_none_iff] at hend
      exact absurd hpath.head (hend ▸ nofun)
    | some e =>
      rw [Option.some_or]
      exact hend ▸ hpath.last
  · rw [List.mem_append]
    exact fun h => h.elim hquery hpath.query

theorem isKey_letters {n : Nat} (h : 0 < n) : IsKey ('/' :: List.replicate n 'a') := by
  obtain ⟨k, rfl⟩ := Nat.exists_eq_succ_of_ne_zero h.ne'
  refine ⟨rfl, ?_, ?_, ?_⟩
  · exact fun hslash => absurd (Option.some.inj hslash) (by decide)
  · rw [List.getLast?_cons, List.getLast?_replicate]
    simp
  · simp

/-- A key without a percent sign stands for itself. -/
theorem IsKey.normalize_eq {path : String} (h : IsKey path.toList) (hpercent : '%' ∉ path.toList) :
    normalize path = path :=
  normalize_encoded h (encodes_self hpercent)

end Path

/-! ## Runs behind a base path -/

namespace RouteTable

/-- What a call that succeeds adds to the history. -/
def Call.registrations (basePath : String) (c : Call H) : History H :=
  c.methods.map fun m => ⟨normalizeMethod m, basePath ++ c.pattern, c.handler⟩

theorem Call.registrations_behind (front : String) (c : Call H) :
    (c.registrations "").map (.behind front) = c.registrations front := by
  rw [registrations, List.map_map, String.empty_append]
  rfl

section

variable [Regex.ProgramSize] {types : TypeRegistry} {log : History H} {t : RouteTable H}

/-- A call succeeds if its pattern compiles, and if there is no method to register. -/
theorem Keeps.isOk_register (h : Keeps types log t) (c : Call H) : (c.register t).2.isOk =
    (c.methods.isEmpty || (CompiledPattern.compile (t.basePath ++ c.pattern) types).isOk) := by
  have herror : ∀ e, (c.register t).2 = .error e ↔ c.methods ≠ [] ∧
      CompiledPattern.compile (t.basePath ++ c.pattern) types = .error e :=
    fun e => h.registerEach_eq_error_iff
  cases houtcome : (c.register t).2 with
  | error e =>
    obtain ⟨hne, hcompile⟩ := (herror e).1 houtcome
    rw [hcompile, List.isEmpty_eq_false_iff.2 hne]
    rfl
  | ok u =>
    cases hmethods : c.methods with
    | nil => rfl
    | cons m ms =>
      cases hcompile : CompiledPattern.compile (t.basePath ++ c.pattern) types with
      | ok compiled => rfl
      | error e =>
        have hfailed := (herror e).2 ⟨hmethods ▸ List.cons_ne_nil m ms, hcompile⟩
        exact absurd (houtcome.symm.trans hfailed) nofun

theorem Keeps.call (h : Keeps types log t) (c : Call H) : Keeps types
    (log ++ if (c.register t).2.isOk then c.registrations t.basePath else []) (c.register t).1 := by
  cases houtcome : (c.register t).2 with
  | error e =>
    have hsame : (c.register t).1 = t := registerEach_eq_of_error houtcome
    rw [hsame]
    exact (List.append_nil log).symm ▸ h
  | ok u =>
    have hkeeps := h.registerEach c.methods c.pattern c.handler
    rw [loggedEach_of_ok houtcome] at hkeeps
    exact hkeeps

theorem Keeps.outcome_call (h : Keeps types log t) {front : String} (hbase : t.basePath = front)
    (method pattern : String) (handler : H) :
    (runProgram ([⟨[method], pattern, handler⟩].map Call.command) t).2.map (·.outcome.isOk) =
      [(CompiledPattern.compile (front ++ pattern) types).isOk] := by
  have hok := h.isOk_register ⟨[method], pattern, handler⟩
  rw [hbase, List.isEmpty_cons, Bool.false_or] at hok
  rw [List.map_singleton, runProgram_cons, Call.run_command, ← hok]
  rfl

/-- What holds between a table with a base path and one without, with the history of the latter. -/
structure Behind (types : TypeRegistry) (front : String) (log : History H) (based bare : RouteTable H) :
    Prop where
  keeps : Keeps types (log.map (.behind front)) based
  keeps_bare : Keeps types log bare
  basePath : based.basePath = front
  basePath_bare : bare.basePath = ""
  patterns : ∀ r ∈ log, BuiltinPattern types r.pattern
  sizes : ∀ r ∈ log, CompiledPattern.isTooBig (front ++ r.pattern) types = CompiledPattern.isTooBig r.pattern types

namespace Behind

variable {front : String} {based bare : RouteTable H}

/-- A call succeeds behind a base path just when it does without one, and both tables go on alike. -/
theorem call (h : Behind types front log based bare) (hfront : PlainFront front) {c : Call H}
    (hc : BuiltinPattern types c.pattern)
    (hsize : CompiledPattern.isTooBig (front ++ c.pattern) types = CompiledPattern.isTooBig c.pattern types) :
    (c.register based).2.isOk = (c.register bare).2.isOk ∧
      ∃ added, Behind types front (log ++ added) (c.register based).1 (c.register bare).1 := by
  have hsame : (c.register based).2.isOk = (c.register bare).2.isOk := by
    rw [h.keeps.isOk_register, h.keeps_bare.isOk_register, h.basePath, h.basePath_bare,
      hfront.isOk_compile hc hsize, String.empty_append]
  have hkeeps := h.keeps.call c
  have hkeeps_bare := h.keeps_bare.call c
  have hbase := (registerEach_basePath based c.pattern c.handler c.methods).trans h.basePath
  have hbase_bare := (registerEach_basePath bare c.pattern c.handler c.methods).trans h.basePath_bare
  rw [h.basePath, hsame] at hkeeps
  rw [h.basePath_bare] at hkeeps_bare
  cases hok : (c.register bare).2.isOk with
  | false =>
    -- A call that is refused leaves both tables and adds nothing.
    rw [hok, if_neg Bool.noConfusion, List.append_nil] at hkeeps hkeeps_bare
    refine ⟨hsame.trans hok, [], ?_⟩
    rw [List.append_nil]
    exact ⟨hkeeps, hkeeps_bare, hbase, hbase_bare, h.patterns, h.sizes⟩
  | true =>
    rw [hok, if_pos rfl] at hkeeps hkeeps_bare
    rw [← c.registrations_behind front, ← List.map_append] at hkeeps
    have hadded : ∀ r ∈ c.registrations "", r.pattern = c.pattern := by
      intro r hr
      obtain ⟨m, -, rfl⟩ := List.mem_map.1 hr
      exact String.empty_append
    refine ⟨hsame.trans hok, _, hkeeps, hkeeps_bare, hbase, hbase_bare, ?_, ?_⟩
    · exact List.forall_mem_append.2 ⟨h.patterns, fun r hr => hadded r hr ▸ hc⟩
    · exact List.forall_mem_append.2 ⟨h.sizes, fun r hr => hadded r hr ▸ hsize⟩

theorem runProgram (h : Behind types front log based bare) (hfront : PlainFront front)
    {calls : List (Call H)} (hcalls : ∀ c ∈ calls, BuiltinPattern types c.pattern)
    (hsizes : ∀ c ∈ calls,
      CompiledPattern.isTooBig (front ++ c.pattern) types = CompiledPattern.isTooBig c.pattern types) :
    (RouteTable.runProgram (calls.map Call.command) based).2.map (·.outcome.isOk) =
      (RouteTable.runProgram (calls.map Call.command) bare).2.map (·.outcome.isOk) ∧
    ∃ added, Behind types front (log ++ added)
      (RouteTable.runProgram (calls.map Call.command) based).1
      (RouteTable.runProgram (calls.map Call.command) bare).1 := by
  induction calls generalizing log based bare with
  | nil => exact ⟨rfl, [], (List.append_nil log).symm ▸ h⟩
  | cons c cs ih =>
    rw [List.forall_mem_cons] at hcalls hsizes
    obtain ⟨hfirst, added, hnext⟩ := h.call hfront hcalls.1 hsizes.1
    obtain ⟨hrest, added', hlast⟩ := ih hnext hcalls.2 hsizes.2
    rw [List.map_cons, runProgram_cons, runProgram_cons, c.run_command, c.run_command]
    refine ⟨List.cons_eq_cons.2 ⟨hfirst, hrest⟩, added ++ added', ?_⟩
    rw [← List.append_assoc]
    exact hlast

theorem dispatch_eq (h : Behind types front log based bare) (hfront : PlainFront front)
    {m rawPath' rawPath : String} (hpath : Path.normalize rawPath' = front ++ Path.normalize rawPath) :
    based.dispatch m rawPath' = (bare.dispatch m rawPath).map (.behind front) := by
  rw [h.keeps.dispatch_eq, h.keeps_bare.dispatch_eq]
  -- Only patterns from the history are asked, and those are plain with builtin types.
  refine History.dispatch_behind hpath fun p hp => ?_
  obtain ⟨r, hr, rfl⟩ := List.mem_map.1 (List.mem_eraseDups.1 hp)
  have hlog := List.mem_of_mem_filter hr
  exact hfront.takes?_eq (h.patterns r hlog) (h.sizes r hlog) _

end Behind

/-- Calls on a table with a base path of plain text succeed just where they do without it, and a path behind the
base path is answered as the path alone is without it, with the base path in front of path and pattern. The limit
on the size of a program is put aside: it refuses a pattern behind the base path just when it refuses the pattern
alone. -/
theorem runProgram_behind {types : TypeRegistry} {front : String} (hkey : Path.IsKey front.toList)
    (hplain : ∀ c ∈ front.toList, isMeta c = false ∧ c ≠ '%') {calls : List (Call H)}
    (hcalls : ∀ c ∈ calls, BuiltinPattern types c.pattern)
    (hsizes : ∀ c ∈ calls,
      CompiledPattern.isTooBig (front ++ c.pattern) types = CompiledPattern.isTooBig c.pattern types) :
    (runProgram (calls.map Call.command) ({ types, basePath := front } : RouteTable H)).2.map
        (·.outcome.isOk) =
      (runProgram (calls.map Call.command) ({ types } : RouteTable H)).2.map (·.outcome.isOk) ∧
    ∀ method (path : String), Path.IsKey path.toList → '%' ∉ path.toList →
      (runProgram (calls.map Call.command) ({ types, basePath := front } : RouteTable H)).1.dispatch
          method (front ++ path) =
        ((runProgram (calls.map Call.command) ({ types } : RouteTable H)).1.dispatch method path).map
          (.behind front) := by
  have hfront : PlainFront front := ⟨fun c hc => (hplain c hc).1, hkey.last⟩
  have hfresh : Behind types front [] ({ types, basePath := front } : RouteTable H) { types } :=
    ⟨(Keeps.fresh types).setBasePath front, Keeps.fresh types, rfl, rfl, nofun, nofun⟩
  obtain ⟨houtcomes, added, hbehind⟩ := hfresh.runProgram hfront hcalls hsizes
  refine ⟨houtcomes, fun method path hpath hpercent => hbehind.dispatch_eq hfront ?_⟩
  have hwhole : Path.IsKey (front ++ path).toList := String.toList_append ▸ hkey.append hpath
  have hwhole_percent : '%' ∉ (front ++ path).toList := by
    rw [String.toList_append, List.mem_append]
    exact fun h => h.elim (fun hmem => (hplain '%' hmem).2 rfl) hpercent
  rw [hwhole.normalize_eq hwhole_percent, hpath.normalize_eq hpercent]

end

/-- A number behind a base path, and a name that is refused there as elsewhere. -/
theorem runProgram_behind_api : ∃ based : RouteTable Nat × List (Reply Nat),
    based = runProgram
      ([⟨["get"], "/[i:id]", 1⟩, ⟨["get"], "/[:1st]", 2⟩].map Call.command) { basePath := "/api" } ∧
    based.2.map (·.outcome.isOk) = [true, false] ∧
    based.1.dispatch "get" "/api/7" =
      some ⟨"GET", "/api/7", "/api/[i:id]", 1, ⟨[("id", "7")]⟩⟩ := by
  have houtcomes : (runProgram ([⟨["get"], "/[i:id]", 1⟩, ⟨["get"], "/[:1st]", 2⟩].map Call.command)
      ({} : RouteTable Nat)).2.map (·.outcome.isOk) = [true, false] := by
    cbv
  have hdispatch : (runProgram ([⟨["get"], "/[i:id]", 1⟩, ⟨["get"], "/[:1st]", 2⟩].map Call.command)
      ({} : RouteTable Nat)).1.dispatch "get" "/7" =
        some ⟨"GET", "/7", "/[i:id]", 1, ⟨[("id", "7")]⟩⟩ := by
    cbv
  have hall : "/api".toList.all fun c => !isMeta c && c != '%' := by decide
  have hplain : ∀ c ∈ "/api".toList, isMeta c = false ∧ c ≠ '%' :=
    fun c hc => by simpa using List.all_eq_true.1 hall c hc
  have hcalls : ∀ c ∈ ([⟨["get"], "/[i:id]", 1⟩, ⟨["get"], "/[:1st]", 2⟩] : List (Call Nat)),
      BuiltinPattern TypeRegistry.builtin c.pattern := by
    decide +kernel
  have hsizes : ∀ c ∈ ([⟨["get"], "/[i:id]", 1⟩, ⟨["get"], "/[:1st]", 2⟩] : List (Call Nat)),
      CompiledPattern.isTooBig ("/api" ++ c.pattern) .builtin = CompiledPattern.isTooBig c.pattern .builtin := by
    decide +kernel
  have hkey : Path.IsKey "/api".toList := ⟨by decide, by decide, by decide, by decide⟩
  obtain ⟨hsame, hbehind⟩ := runProgram_behind hkey hplain hcalls hsizes
  refine ⟨_, rfl, hsame.trans houtcomes, ?_⟩
  refine (hbehind "get" "/7" ⟨by decide, by decide, by decide, by decide⟩ (by decide)).trans ?_
  rw [hdispatch]
  rfl

/-- With a base path of 440000 letters a pattern is too big that is not too big by itself. -/
theorem not_runProgram_behind_long : ¬∀ (types : TypeRegistry) (front : String), Path.IsKey front.toList →
    (∀ c ∈ front.toList, isMeta c = false ∧ c ≠ '%') → ∀ calls : List (Call Nat),
    (∀ c ∈ calls, c.pattern.toList.head? = some '/' ∧ BuiltinPattern types c.pattern) →
    (runProgram (calls.map Call.command) ({ types, basePath := front } : RouteTable Nat)).2.map
        (·.outcome.isOk) =
      (runProgram (calls.map Call.command) ({ types } : RouteTable Nat)).2.map (·.outcome.isOk) ∧
    ∀ method (path : String), Path.IsKey path.toList → '%' ∉ path.toList →
      (runProgram (calls.map Call.command) ({ types, basePath := front } : RouteTable Nat)).1.dispatch
          method (front ++ path) =
        ((runProgram (calls.map Call.command) ({ types } : RouteTable Nat)).1.dispatch method path).map
          (.behind front) := by
  intro h
  obtain ⟨front, hletters⟩ : ∃ front : String, front.toList = '/' :: List.replicate 440000 'a' :=
    ⟨String.ofList ('/' :: List.replicate 440000 'a'), String.toList_ofList⟩
  have hkey : Path.IsKey front.toList := hletters ▸ Path.isKey_letters (by decide)
  have hplain : ∀ c ∈ front.toList, isMeta c = false ∧ c ≠ '%' := by
    rw [hletters, List.forall_mem_cons]
    exact ⟨by decide, fun c hc => List.eq_of_mem_replicate hc ▸ by decide⟩
  have hcalls : ∀ c ∈ ([⟨["GET"], "/x", 0⟩] : List (Call Nat)),
      c.pattern.toList.head? = some '/' ∧ BuiltinPattern .builtin c.pattern := by
    decide +kernel
  obtain ⟨hsame, -⟩ := h .builtin front hkey hplain _ hcalls
  have hreadable : Readable .builtin "/x" [.lit '/', .lit 'x'] :=
    ⟨.char rfl (.char rfl .nil), nofun, List.nodup_nil⟩
  -- The letters of the base path take more than the limit by themselves, so the pattern behind it is refused.
  have hlength : Regex.sizeLimit < 32 * front.toList.length := by
    rw [hletters, List.length_cons, List.length_replicate]
    decide
  have hsize := PlainFront.isTooBig_of_length ⟨fun c hc => (hplain c hc).1, hkey.last⟩ hreadable hlength
  have hrefused : (CompiledPattern.compile (front ++ "/x") .builtin).isOk = false := by
    rw [CompiledPattern.compile_of_isTooBig hsize]
    rfl
  have hbased : Keeps .builtin [] ({ basePath := front } : RouteTable Nat) :=
    (Keeps.fresh .builtin).setBasePath front
  have haccepted : (CompiledPattern.compile ("" ++ "/x") .builtin).isOk = true := by decide +kernel
  -- Each run has the one outcome of its call, and those differ.
  rw [hbased.outcome_call rfl, (Keeps.fresh .builtin).outcome_call rfl, hrefused, haccepted] at hsame
  cases hsame

end RouteTable

end RequestRouting
