import Mathlib
import RequestRouting.Proofs.Router.Steps

/-!
A router does to its table what a table does by itself.

Leaving out what only a router can be asked, a program of router operations is a program of table operations
(`onTable`). Both go through the same steps: the same operations are executed, at any depth, find and leave the
same tables, and have the same outcomes, although a router mounts blocks on its own. The fallback is the last one
that was set (`lastFallback`), and no other operation changes it.
-/

namespace RequestRouting.Router

variable {A S R : Type}

/-! ## Programs for the table -/

mutual

/-- What an operation is for the table. -/
def Command.onTable? : Command A → Option (RouteTable.Command (Handler A))
  | .register method pattern handler => some (.register method pattern handler)
  | .registerEach methods pattern handler => some (.registerEach methods pattern handler)
  | .setBasePath basePath => some (.setBasePath basePath)
  | .mount segment block => some (.mount segment (onTable block))
  | .table c => some c
  | .setFallback _ => none
  | .query _ => none
  | .handle _ _ => none

/-- The operations for the table. -/
def onTable : List (Command A) → List (RouteTable.Command (Handler A))
  | [] => []
  | c :: cs => c.onTable?.toList ++ onTable cs

end

/-- What a step is for the table. -/
def Step.onTable? (step : Step A S R) : Option (RouteTable.Step (Handler A)) :=
  step.command.onTable?.map fun c =>
    ⟨step.before.router.table, c, step.after.router.table, step.outcome⟩

theorem onTable?_ofTable (s : Session A S) (step : RouteTable.Step (Handler A)) :
    (Step.ofTable s step : Step A S R).onTable? = some step := by
  rw [Step.onTable?, Step.ofTable, Command.onTable?]
  rfl

/-! ## One operation -/

section

variable [Regex.ProgramSize] {call : A → Params → StateM S R} {c : Command A}
  {c' : RouteTable.Command (Handler A)}

/-- What is none of the table's business does not change it and does not fail. -/
theorem Command.idle (h : c.onTable? = none) (s : Session A S) :
    (c.run call s).1.router.table = s.router.table ∧ (c.run call s).2.outcome = .ok () ∧
      c.innerSteps call s = [] := by
  cases c with
  | setFallback fallback =>
    rw [Command.run, Command.innerSteps]
    exact ⟨rfl, rfl, rfl⟩
  | query q =>
    rw [Command.run, Command.innerSteps]
    cases q <;> exact ⟨rfl, rfl, rfl⟩
  | handle method path =>
    rw [Command.run, Command.innerSteps]
    exact ⟨rfl, rfl, rfl⟩
  | _ =>
    rw [Command.onTable?] at h
    cases h

theorem Command.onTable?_step_of_none (h : c.onTable? = none) (s : Session A S) :
    (c.step call s).onTable? = none := by
  rw [Step.onTable?]
  show c.onTable?.map _ = none
  rw [h, Option.map_none]

variable (call c c') in
/-- Whether an operation does to the table what one of the table does. -/
structure Command.Follows (s : Session A S) : Prop where
  table : (c.run call s).1.router.table = (c'.run s.router.table).1
  outcome : (c.run call s).2.outcome = (c'.run s.router.table).2.outcome
  steps : (c.innerSteps call s).filterMap Step.onTable? = c'.innerSteps s.router.table

theorem Command.Follows.onTable?_step {s : Session A S} (h : c.Follows call c' s)
    (hc : c.onTable? = some c') : (c.step call s).onTable? = some (c'.step s.router.table) := by
  rw [Step.onTable?]
  show c.onTable?.map _ = _
  rw [hc, Option.map_some]
  show some (⟨s.router.table, c', (c.run call s).1.router.table, (c.run call s).2.outcome⟩ :
    RouteTable.Step (Handler A)) = _
  rw [h.table, h.outcome]
  rfl

/-! ## Runs -/

variable (call) in
/-- Whether a block does to the table what its operations for the table do. -/
structure BlockFollows (block : List (Command A)) (s : Session A S) : Prop where
  table : (runBlock call block s).1.router.table =
    (RouteTable.runBlock (onTable block) s.router.table).1
  outcome : (runBlock call block s).2.1 = (RouteTable.runBlock (onTable block) s.router.table).2.1
  steps : (blockSteps call block s).filterMap Step.onTable? =
    RouteTable.blockSteps (onTable block) s.router.table

mutual

theorem Command.follows {c : Command A} {c' : RouteTable.Command (Handler A)}
    (h : c.onTable? = some c') (s : Session A S) : c.Follows call c' s := by
  cases c with
  | mount segment block =>
    rw [Command.onTable?, Option.some.injEq] at h
    subst h
    obtain ⟨hsession, houtcome⟩ := run_mount call segment block s
    have hblock : BlockFollows call block (s.under segment) := blockFollows block _
    refine ⟨?_, ?_, ?_⟩
    · -- Both put the base path back, the router by itself.
      rw [hsession]
      show (runBlock call block (s.under segment)).1.router.table.setBasePath _ = _
      rw [hblock.table]
      rfl
    · rw [houtcome, hblock.outcome]
      rfl
    · rw [Command.innerSteps, RouteTable.Command.innerSteps]
      exact hblock.steps
  | table c =>
    rw [Command.onTable?, Option.some.injEq] at h
    subst h
    refine ⟨by rw [Command.run]; rfl, by rw [Command.run]; rfl, ?_⟩
    have hsame : Step.onTable? ∘ (Step.ofTable s : _ → Step A S R) = some :=
      funext (onTable?_ofTable s)
    rw [Command.innerSteps, List.filterMap_map, hsame, List.filterMap_some]
  | setFallback fallback =>
    rw [Command.onTable?] at h
    cases h
  | query q =>
    rw [Command.onTable?] at h
    cases h
  | handle method path =>
    rw [Command.onTable?] at h
    cases h
  | _ =>
    rw [Command.onTable?, Option.some.injEq] at h
    subst h
    refine ⟨by rw [Command.run]; rfl, by rw [Command.run]; rfl, ?_⟩
    rw [Command.innerSteps]
    rfl

theorem blockFollows (block : List (Command A)) (s : Session A S) : BlockFollows call block s := by
  cases block with
  | nil =>
    refine ⟨?_, ?_, ?_⟩
    · rw [runBlock, onTable, RouteTable.runBlock]
    · rw [runBlock, onTable, RouteTable.runBlock]
    · rw [blockSteps, onTable, RouteTable.blockSteps]
      rfl
  | cons c cs =>
    have hrest : BlockFollows call cs (c.run call s).1 := blockFollows cs _
    cases hc : c.onTable? with
    | none =>
      -- The operation has no counterpart, and cannot end the block because it does not fail.
      obtain ⟨htable, houtcome, hsteps⟩ := Command.idle hc s
      obtain ⟨hsession, hresult⟩ := runBlock_of_ok call houtcome cs
      have honTable : onTable (c :: cs) = onTable cs := by
        rw [onTable, hc]
        rfl
      have hstep : (c.step call s).onTable? = none := Command.onTable?_step_of_none hc s
      refine ⟨?_, ?_, ?_⟩
      · rw [hsession, honTable, hrest.table, htable]
      · rw [hresult, honTable, hrest.outcome, htable]
      · rw [blockSteps, hsteps, List.nil_append, List.filterMap_cons_none hstep, honTable, ← htable]
        simp only [houtcome]
        exact hrest.steps
    | some c' =>
      -- Both operations fail or neither does, so both blocks go on or end together.
      have hfollows : c.Follows call c' s := Command.follows hc s
      have honTable : onTable (c :: cs) = c' :: onTable cs := by
        rw [onTable, hc]
        rfl
      have hstep := hfollows.onTable?_step hc
      cases houtcome : (c.run call s).2.outcome with
      | error e =>
        have houtcome' := hfollows.outcome.symm.trans houtcome
        obtain ⟨hsession, hresult⟩ := runBlock_of_error call houtcome cs
        obtain ⟨htable, hresult'⟩ := RouteTable.runBlock_of_error houtcome' (onTable cs)
        refine ⟨?_, ?_, ?_⟩
        · rw [honTable, hsession, htable, hfollows.table]
        · rw [honTable, hresult, hresult']
        · rw [honTable, blockSteps, RouteTable.blockSteps, List.filterMap_append, hfollows.steps,
            List.filterMap_cons_some hstep]
          simp only [houtcome, houtcome', List.filterMap_nil]
      | ok u =>
        have houtcome' := hfollows.outcome.symm.trans houtcome
        obtain ⟨hsession, hresult⟩ := runBlock_of_ok call houtcome cs
        obtain ⟨htable, hresult'⟩ := RouteTable.runBlock_of_ok houtcome' (onTable cs)
        rw [← hfollows.table] at htable hresult'
        refine ⟨?_, ?_, ?_⟩
        · rw [honTable, hsession, htable, hrest.table]
        · rw [honTable, hresult, hresult', hrest.outcome]
        · rw [honTable, blockSteps, RouteTable.blockSteps, List.filterMap_append, hfollows.steps,
            List.filterMap_cons_some hstep]
          simp only [houtcome, houtcome', ← hfollows.table]
          rw [hrest.steps]

end

theorem programSteps_onTable (program : List (Command A)) (s : Session A S) :
    (programSteps call program s).filterMap Step.onTable? =
        RouteTable.programSteps (onTable program) s.router.table ∧
      (runProgram call program s).1.router.table =
        (RouteTable.runProgram (onTable program) s.router.table).1 := by
  induction program generalizing s with
  | nil => exact ⟨rfl, rfl⟩
  | cons c cs ih =>
    obtain ⟨hsteps, htable⟩ := ih (c.run call s).1
    rw [onTable, programSteps]
    show _ ∧ (runProgram call cs (c.run call s).1).1.router.table = _
    cases hc : c.onTable? with
    | none =>
      obtain ⟨hsame, -, hinner⟩ := Command.idle hc s
      have hstep : (c.step call s).onTable? = none := Command.onTable?_step_of_none hc s
      rw [hsame] at hsteps htable
      rw [hinner, List.nil_append, List.filterMap_cons_none hstep]
      exact ⟨hsteps, htable⟩
    | some c' =>
      have hfollows : c.Follows call c' s := Command.follows hc s
      rw [hfollows.table] at hsteps htable
      rw [List.filterMap_append, hfollows.steps, List.filterMap_cons_some (hfollows.onTable?_step hc),
        hsteps]
      exact ⟨rfl, htable⟩

end

/-- A router mounts as its table does, whatever is done in between, if that does to the table what the changes
of the table do. -/
theorem mount_table {α : Type} {changes : Router A → Router A × α}
    {changes' : RouteTable (Handler A) → RouteTable (Handler A) × α}
    (h : ∀ r, ((changes r).1.table, (changes r).2) = changes' r.table) (r : Router A)
    (segment : String) :
    ((r.mount segment changes).1.table, (r.mount segment changes).2) =
      r.table.mount segment changes' := by
  have hinner := h { r with table := r.table.setBasePath (r.table.basePath ++ segment) }
  show (RouteTable.setBasePath (changes _).1.table r.table.basePath, (changes _).2) =
    (RouteTable.setBasePath (changes' (r.table.setBasePath (r.table.basePath ++ segment))).1
      r.table.basePath, (changes' (r.table.setBasePath (r.table.basePath ++ segment))).2)
  rw [← hinner]

/-! ## The fallback -/

/-- The fallback that a step sets. -/
def Step.fallback? (step : Step A S R) : Option (Fallback A) :=
  match step.command with
  | .setFallback fallback => some fallback
  | _ => none

theorem onTable?_of_fallback? {step : Step A S R} {fallback : Fallback A}
    (h : step.fallback? = some fallback) : step.command.onTable? = none := by
  unfold Step.fallback? at h
  split at h
  · next hcommand =>
    rw [hcommand, Command.onTable?]
  · cases h

/-- The fallback that was set last, if any was set, or else the one before. -/
def lastFallback (steps : List (Step A S R)) (before : Option (Fallback A)) : Option (Fallback A) :=
  (steps.filterMap Step.fallback?).getLast?.or before

theorem foldl_fallback (steps : List (Step A S R)) (before : Option (Fallback A)) :
    steps.foldl (fun f step => step.fallback?.or f) before = lastFallback steps before := by
  induction steps generalizing before with
  | nil => rfl
  | cons step steps ih =>
    rw [List.foldl_cons, ih, lastFallback, lastFallback]
    cases hstep : step.fallback? with
    | none => rw [List.filterMap_cons_none hstep, Option.none_or]
    | some fallback =>
      rw [List.filterMap_cons_some hstep, List.getLast?_cons, Option.some_or]
      cases (steps.filterMap Step.fallback?).getLast? <;> rfl

theorem acts_fallback [Regex.ProgramSize] (call : A → Params → StateM S R) :
    Acts call (·.router.fallback) fun f step => step.fallback?.or f where
  withTable _ _ := rfl
  run c s h := by
    cases c with
    | mount segment block => cases h
    | query q =>
      rw [Command.run]
      rfl
    | _ =>
      rw [Command.run]
      rfl
  mount step f h := by
    obtain ⟨before, command, after, outcome, response?⟩ := step
    cases command with
    | mount segment block => rfl
    | _ => cases h
  table _ _ _ := rfl

/-- A program does to the table of a router, step by step and at any depth, what its operations for the table do
to the table alone: the same operations are executed, with the same tables before and after them and the same
outcomes. What is none of the table's business leaves the table as it is. The fallback is the last one that
was set, and nothing else changes it. The two ways of mounting agree whatever is done in between. -/
theorem runProgram_refines [Regex.ProgramSize] (call : A → Params → StateM S R)
    (program : List (Command A)) (s : Session A S) :
    (programSteps call program s).filterMap Step.onTable? =
      RouteTable.programSteps (onTable program) s.router.table ∧
    (runProgram call program s).1.router.table =
      (RouteTable.runProgram (onTable program) s.router.table).1 ∧
    (∀ step ∈ programSteps call program s, step.command.onTable? = none →
      step.after.router.table = step.before.router.table ∧ step.outcome = .ok ()) ∧
    (runProgram call program s).1.router.fallback =
      lastFallback (programSteps call program s) s.router.fallback ∧
    (∀ step ∈ programSteps call program s, step.command.isMount = false → step.fallback? = none →
      step.after.router.fallback = step.before.router.fallback) ∧
    ∀ (α : Type) (changes : Router A → Router A × α)
      (changes' : RouteTable (Handler A) → RouteTable (Handler A) × α),
      (∀ r, ((changes r).1.table, (changes r).2) = changes' r.table) → ∀ (r : Router A) segment,
        ((r.mount segment changes).1.table, (r.mount segment changes).2) =
          r.table.mount segment changes' := by
  obtain ⟨hsteps, htable⟩ := programSteps_onTable program s
  obtain ⟨-, hfallback⟩ := (acts_fallback call).programSteps program s
  refine ⟨hsteps, htable, fun step hstep hnone => ?_, hfallback.trans (foldl_fallback _ _),
    fun step hstep hmount hnone => ?_, fun α changes changes' => mount_table⟩
  · obtain ⟨hsame, houtcome, -⟩ := Command.idle hnone step.before
    rw [eq_step_of_mem_programSteps hstep]
    exact ⟨hsame, houtcome⟩
  · have hafter := (acts_fallback call).run step.command step.before hmount
    rw [← eq_step_of_mem_programSteps hstep, hnone] at hafter
    rw [eq_step_of_mem_programSteps hstep]
    exact hafter

/-- A block that sets a base path and a fallback of its own, registers on the table directly, and ends at a failure
in a block within it. -/
theorem runProgram_refines_nested : ∃ (program : List (Command Responder))
    (s : Session Responder CallCounts) (fallback : Fallback Responder),
    ((programSteps Responder.call program s).filterMap Step.onTable?).map
        (fun step => (step.after.basePath, step.after.size, step.outcome.isOk)) =
      [("/s", 0, true), ("/s/a", 1, true), ("/c", 1, true), ("/c", 2, true), ("/c/b", 2, false),
        ("/c", 2, false), ("/s", 2, false), ("/s", 3, true)] ∧
    (runProgram Responder.call program s).1.router.fallback = some fallback ∧
    (∃ step ∈ programSteps Responder.call program s, step.fallback? = some fallback ∧
      step.after.router.table = step.before.router.table) ∧
    (∃ step ∈ programSteps Responder.call program s, step.command.onTable?.isSome ∧
      step.after.router.fallback = step.before.router.fallback) ∧
    ((s.router.mount "/a" fun r => (r.setFallback fallback, ())).1.table, ()) =
      s.router.table.mount "/a" fun t => (t, ()) := by
  obtain ⟨fallback, hfallback⟩ : ∃ f : Fallback Responder, f = .message "none" := ⟨_, rfl⟩
  obtain ⟨program, hprogram⟩ : ∃ program : List (Command Responder), program =
      [.setBasePath "/s",
        .mount "/a" [.register "get" "/x" (.script "x"), .setFallback fallback, .setBasePath "/c",
          .table (.register "put" "/y" (.script "y")), .mount "/b" [.register "GET" "/[" (.script "z")],
          .register "GET" "/w" (.script "w")],
        .register "GET" "/v" (.script "v")] := ⟨_, rfl⟩
  obtain ⟨s, hs⟩ : ∃ s : Session Responder CallCounts, s = ⟨{}, {}⟩ := ⟨_, rfl⟩
  obtain ⟨hsteps, -, hidle, hlast, hkept, hmount⟩ := runProgram_refines Responder.call program s
  have hset : some fallback ∈ (programSteps Responder.call program s).map Step.fallback? := by
    have hall : (programSteps Responder.call program s).map Step.fallback? =
        [none, none, some fallback, none, none, none, none, none, none] := by
      rw [hprogram, hs]
      cbv
    rw [hall]
    simp
  refine ⟨program, s, fallback, ?_, ?_, ?_, ?_, hmount Unit _ _ (fun _ => rfl) s.router "/a"⟩
  · rw [hsteps, hprogram, hs]
    cbv
  · rw [hlast, hprogram, hs]
    cbv
  · obtain ⟨step, hstep, hsets⟩ := List.mem_map.1 hset
    exact ⟨step, hstep, hsets, (hidle step hstep (onTable?_of_fallback? hsets)).1⟩
  · have hfirst : (Command.setBasePath "/s").step Responder.call s ∈
        programSteps Responder.call program s := by
      rw [hprogram, programSteps]
      exact List.mem_append_right _ List.mem_cons_self
    exact ⟨_, hfirst, rfl, hkept _ hfirst rfl rfl⟩

end RequestRouting.Router
