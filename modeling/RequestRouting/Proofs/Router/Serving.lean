import RequestRouting.Proofs.Router.TableRuns

/-!
What requests call.

A request calls one action or none (`service`): that of the entry it is resolved to, with the parameters of the
match, or that of the fallback. Nothing else in a run calls any (`acts_calls`), so what the actions keep is what
those calls make of it in their order, whatever the actions do. A counter therefore numbers the requests that are
resolved to its entries (`response_counter`).
-/

namespace RequestRouting.Router

variable {A S R : Type}

/-! ## One request -/

/-- What a router does for a request. -/
inductive Service (A : Type) where
  | call (a : A) (params : Params)
  | delegate (script : String) (params : Params)
  | message (text : String)
  | nothing

/-- The action that is called, with its parameters. -/
def Service.called? : Service A → Option (A × Params)
  | call a params => some (a, params)
  | _ => none

theorem Service.called?_eq_some_iff {service : Service A} {a : A} {params : Params} :
    service.called? = some (a, params) ↔ service = .call a params := by
  cases service <;> simp [called?]

/-- What the router does for a request: what the handler of its entry says, or the fallback. -/
def service (r : Router A) (method rawPath : String) : Service A :=
  match r.table.dispatch method rawPath with
  | some ⟨_, _, _, .action a, params⟩ => .call a params
  | some ⟨_, _, _, .script script, params⟩ => .delegate script params
  | none =>
    match r.fallback with
    | some (.action a) => .call a {}
    | some (.message text) => .message text
    | none => .nothing

section

variable {r : Router A} {method path : String}

theorem service_eq_call_iff {a : A} {params : Params} : r.service method path = .call a params ↔
    (∃ found, r.table.dispatch method path = some found ∧ found.handler = .action a ∧
      found.params = params) ∨
    r.table.dispatch method path = none ∧ r.fallback = some (.action a) ∧ params = {} := by
  unfold service
  rcases r.table.dispatch method path with _ | ⟨m, p, pattern, _ | _, ps⟩
  · rcases r.fallback with _ | _ | _ <;> simp [eq_comm]
  · simp
  · simp

theorem service_eq_delegate_iff {script : String} {params : Params} :
    r.service method path = .delegate script params ↔
      ∃ found, r.table.dispatch method path = some found ∧ found.handler = .script script ∧
        found.params = params := by
  unfold service
  rcases r.table.dispatch method path with _ | ⟨m, p, pattern, _ | _, ps⟩
  · rcases r.fallback with _ | _ | _ <;> simp
  · simp
  · simp

theorem service_eq_message_iff {text : String} : r.service method path = .message text ↔
    r.table.dispatch method path = none ∧ r.fallback = some (.message text) := by
  unfold service
  rcases r.table.dispatch method path with _ | ⟨m, p, pattern, _ | _, ps⟩
  · rcases r.fallback with _ | _ | _ <;> simp
  · simp
  · simp

theorem service_eq_nothing_iff : r.service method path = .nothing ↔
    r.table.dispatch method path = none ∧ r.fallback = none := by
  unfold service
  rcases r.table.dispatch method path with _ | ⟨m, p, pattern, _ | _, ps⟩
  · rcases r.fallback with _ | _ | _ <;> simp
  · simp
  · simp

end

/-- Serving a request does to the session what the action that is called does, and nothing if none is. -/
theorem Session.handle_eq (call : A → Params → StateM S R) (s : Session A S) (method path : String) :
    s.handle call method path =
      match s.router.service method path with
      | .call a params =>
        ({ s with state := (call a params s.state).2 }, .handled (call a params s.state).1)
      | .delegate script params => (s, .delegated script params)
      | .message text => (s, .message text)
      | .nothing => (s, .notFound) := by
  unfold handle Router.handle service
  rcases s.router.table.dispatch method path with _ | ⟨m, p, pattern, _ | _, ps⟩
  · rcases s.router.fallback with _ | _ | _ <;> rfl
  · rfl
  · rfl

/-- When a request gets which kind of response. -/
structure Answers (r : Router A) (method rawPath : String) (response : Response R) : Prop where
  delegated : ∀ script params, response = .delegated script params ↔
    ∃ found, r.table.dispatch method rawPath = some found ∧ found.handler = .script script ∧
      found.params = params
  handled : (∃ result, response = .handled result) ↔
    (∃ found a, r.table.dispatch method rawPath = some found ∧ found.handler = .action a) ∨
      r.table.dispatch method rawPath = none ∧ ∃ a, r.fallback = some (.action a)
  message : ∀ text, response = .message text ↔
    r.table.dispatch method rawPath = none ∧ r.fallback = some (.message text)
  notFound : response = .notFound ↔ r.table.dispatch method rawPath = none ∧ r.fallback = none

theorem answers_handle (call : A → Params → StateM S R) (s : Session A S) (method path : String) :
    Answers s.router method path (s.handle call method path).2 := by
  have hcalled : (∃ a params, s.router.service method path = .call a params) ↔
      (∃ found a, s.router.table.dispatch method path = some found ∧ found.handler = .action a) ∨
        s.router.table.dispatch method path = none ∧ ∃ a, s.router.fallback = some (.action a) := by
    simp only [service_eq_call_iff]
    grind
  rw [Session.handle_eq]
  refine ⟨fun script params => ?_, ?_, fun text => ?_, ?_⟩
  · rw [← service_eq_delegate_iff]
    cases s.router.service method path <;> simp
  · rw [← hcalled]
    cases s.router.service method path <;> simp
  · rw [← service_eq_message_iff]
    cases s.router.service method path <;> simp
  · rw [← service_eq_nothing_iff]
    cases s.router.service method path <;> simp

/-! ## Runs -/

/-- The action that a step calls, with its parameters. -/
def Step.called? (step : Step A S R) : Option (A × Params) :=
  match step.command with
  | .handle method path => (step.before.router.service method path).called?
  | _ => none

/-- What actions keep after a call. -/
def afterCall (call : A → Params → StateM S R) (state : S) (c : A × Params) : S :=
  (call c.1 c.2 state).2

theorem acts_calls [Regex.ProgramSize] (call : A → Params → StateM S R) :
    Acts call (·.state) fun state step => step.called?.elim state (afterCall call state) where
  withTable _ _ := rfl
  run c s h := by
    cases c with
    | mount segment block => cases h
    | handle method path =>
      rw [Command.run]
      show (s.handle call method path).1.state =
        (s.router.service method path).called?.elim s.state (afterCall call s.state)
      rw [Session.handle_eq]
      cases s.router.service method path <;> rfl
    | query q =>
      rw [Command.run]
      rfl
    | _ =>
      rw [Command.run]
      rfl
  mount step state h := by
    obtain ⟨before, command, after, outcome, response?⟩ := step
    cases command with
    | mount segment block => rfl
    | _ => cases h
  table _ _ _ := rfl

theorem foldl_called (call : A → Params → StateM S R) (steps : List (Step A S R)) (state : S) :
    steps.foldl (fun state step => step.called?.elim state (afterCall call state)) state =
      (steps.filterMap Step.called?).foldl (afterCall call) state := by
  induction steps generalizing state with
  | nil => rfl
  | cons step steps ih =>
    rw [List.foldl_cons, ih]
    cases hstep : step.called? with
    | none => rw [List.filterMap_cons_none hstep, Option.elim_none]
    | some c => rw [List.filterMap_cons_some hstep, Option.elim_some, List.foldl_cons]

/-- What actions keep is changed by the calls of requests, one after the other, and by nothing else. -/
theorem state_runProgram [Regex.ProgramSize] (call : A → Params → StateM S R)
    (program : List (Command A)) (s : Session A S) : (runProgram call program s).1.state =
      ((programSteps call program s).filterMap Step.called?).foldl (afterCall call) s.state :=
  ((acts_calls call).programSteps program s).2.trans (foldl_called call _ _)

/-- Calls actions, and notes which ones with which parameters. -/
def recording (call : A → Params → StateM S R) (a : A) (params : Params) :
    StateM (S × List (A × Params)) R := fun (state, calls) =>
  ((call a params state).1, (call a params state).2, calls ++ [(a, params)])

theorem foldl_recording (call : A → Params → StateM S R) (made : List (A × Params)) (state : S)
    (calls : List (A × Params)) : made.foldl (afterCall (recording call)) (state, calls) =
      (made.foldl (afterCall call) state, calls ++ made) := by
  induction made generalizing state calls with
  | nil => rw [List.append_nil, List.foldl_nil, List.foldl_nil]
  | cons c made ih =>
    rw [List.foldl_cons, List.foldl_cons, List.append_cons]
    exact ih _ _

/-! ## Counters -/

/-- Whether an action counts its calls under the given number. -/
def countsUnder (serial : Nat) : Responder → Bool
  | .counter n _ => n == serial
  | .echo _ => false

/-- How often a counter was called. -/
def count (serial : Nat) (counts : CallCounts) : Nat := (counts.get? serial).getD 0

theorem count_afterCall (serial : Nat) (counts : CallCounts) (c : Responder × Params) :
    count serial (afterCall Responder.call counts c) =
      count serial counts + if countsUnder serial c.1 then 1 else 0 := by
  obtain ⟨a, params⟩ := c
  cases a with
  | echo tag => rfl
  | counter n tag =>
    show ((counts.insert n (count n counts + 1)).get? serial).getD 0 = _
    rw [OrderedMap.get?_insert, countsUnder]
    by_cases h : serial = n
    · rw [if_pos h, if_pos (beq_iff_eq.2 h.symm), h]
      rfl
    · rw [if_neg h, if_neg (fun heq => h (beq_iff_eq.1 heq).symm)]
      rfl

theorem count_foldl (serial : Nat) (calls : List (Responder × Params)) (counts : CallCounts) :
    count serial (calls.foldl (afterCall Responder.call) counts) =
      count serial counts + calls.countP (countsUnder serial ·.1) := by
  induction calls generalizing counts with
  | nil => rfl
  | cons c calls ih =>
    rw [List.foldl_cons, ih, count_afterCall, List.countP_cons]
    omega

/-- The action of the entry that the request of a step is resolved to. -/
def Step.entryAction? (step : Step A S R) : Option A :=
  match step.command with
  | .handle method path =>
    match step.before.router.table.dispatch method path with
    | some ⟨_, _, _, .action a, _⟩ => some a
    | _ => none
  | _ => none

/-- A call that is none of the fallback's is one of an entry. -/
theorem any_called {step : Step A S R} {p : A → Bool} (h : step.command.isMount = false →
      ∀ a, step.before.router.fallback = some (.action a) → p a = false) :
    step.called?.any (p ·.1) = step.entryAction?.any p := by
  unfold Step.called? Step.entryAction? service
  cases hcommand : step.command with
  | handle method path =>
    rw [hcommand] at h
    simp only
    rcases step.before.router.table.dispatch method path with _ | ⟨m, p, pattern, _ | _, ps⟩
    · rcases hfallback : step.before.router.fallback with _ | a | _
      · rfl
      · exact h rfl a hfallback
      · rfl
    · rfl
    · rfl
  | _ => rfl

theorem mem_of_lastFallback {steps : List (Step A S R)} {before : Option (Fallback A)} {f : Fallback A}
    (h : lastFallback steps before = some f) :
    (∃ step ∈ steps, step.fallback? = some f) ∨ before = some f := by
  rw [lastFallback, Option.or_eq_some_iff] at h
  rcases h with hlast | ⟨-, hbefore⟩
  · exact Or.inl (List.mem_filterMap.1 (List.mem_of_getLast? hlast))
  · exact Or.inr hbefore

section

variable {program : List (Command A)} {s : Session A S} {call : A → Params → StateM S R}
  {p : A → Bool}

/-- What no operation makes the fallback is at no time the fallback. -/
theorem fallback_of_never_set [Regex.ProgramSize]
    (hstart : ∀ a, s.router.fallback = some (.action a) → p a = false)
    (hset : ∀ step ∈ programSteps call program s, ∀ a, step.fallback? = some (.action a) → p a = false)
    {step : Step A S R} (hstep : step ∈ programSteps call program s)
    (hmount : step.command.isMount = false) {a : A}
    (h : step.before.router.fallback = some (.action a)) : p a = false := by
  -- The fallback that a step finds is the last one set before it, or that of the start.
  obtain ⟨before, after, hsteps⟩ := List.append_of_mem hstep
  have hbefore := (acts_fallback call).before_eq hsteps hmount
  rw [foldl_fallback] at hbefore
  rcases mem_of_lastFallback (hbefore.symm.trans h) with ⟨earlier, hearlier, hsets⟩ | hfirst
  · refine hset earlier ?_ a hsets
    rw [hsteps]
    exact List.mem_append_left _ hearlier
  · exact hstart a hfirst

/-- Where the fallback has no part, the calls are those of the entries that requests were resolved to. -/
theorem countP_called {steps : List (Step A S R)}
    (h : ∀ step ∈ steps, step.command.isMount = false →
      ∀ a, step.before.router.fallback = some (.action a) → p a = false) :
    (steps.filterMap Step.called?).countP (p ·.1) = steps.countP (·.entryAction?.any p) := by
  induction steps with
  | nil => rfl
  | cons step steps ih =>
    have hfirst := any_called (h step List.mem_cons_self)
    rw [List.countP_cons, ← ih fun st hst => h st (List.mem_cons_of_mem _ hst), ← hfirst]
    cases hstep : step.called? with
    | none => rw [List.filterMap_cons_none hstep]; rfl
    | some c => rw [List.filterMap_cons_some hstep, List.countP_cons]; rfl

theorem service_of_entryAction? {step : Step A S R} {a : A} (h : step.entryAction? = some a) :
    ∃ method path params, step.command = .handle method path ∧
      step.before.router.service method path = .call a params := by
  unfold Step.entryAction? at h
  cases hcommand : step.command with
  | handle method path =>
    rw [hcommand] at h
    unfold service
    rcases hdispatch : step.before.router.table.dispatch method path with _ | ⟨m, p, pattern, _ | _, ps⟩
    · simp [hdispatch] at h
    · refine ⟨method, path, ps, rfl, ?_⟩
      simp [hdispatch] at h ⊢
      exact h
    · simp [hdispatch] at h
  | _ => simp [hcommand] at h

theorem response_of_service [Regex.ProgramSize] {step : Step A S R}
    (hstep : step ∈ programSteps call program s) {method path : String}
    (hcommand : step.command = .handle method path) {a : A} {params : Params}
    (h : step.before.router.service method path = .call a params) :
    step.response? = some (.handled (call a params step.before.state).1) := by
  rw [eq_step_of_mem_programSteps hstep, hcommand]
  show ((Command.handle method path).run call step.before).2.response? = _
  rw [Command.run]
  show some (step.before.handle call method path).2 = _
  rw [Session.handle_eq, h]
  rfl

end

/-- The answer of a counter numbers the requests that were resolved to entries with it. -/
theorem response_counter [Regex.ProgramSize] {program : List (Command Responder)}
    {s : Session Responder CallCounts} {serial : Nat}
    (hstart : ∀ a, s.router.fallback = some (.action a) → countsUnder serial a = false)
    (hset : ∀ step ∈ programSteps Responder.call program s, ∀ a, step.fallback? = some (.action a) →
      countsUnder serial a = false) {before after : List (Step Responder CallCounts String)}
    {step : Step Responder CallCounts String}
    (hsteps : programSteps Responder.call program s = before ++ step :: after) {tag : String}
    (hentry : step.entryAction? = some (.counter serial tag)) :
    step.response? = some (.handled (Responder.countText tag
      (count serial s.state + before.countP (·.entryAction?.any (countsUnder serial)) + 1))) := by
  obtain ⟨method, path, params, hcommand, hservice⟩ := service_of_entryAction? hentry
  have hmem : step ∈ programSteps Responder.call program s := by
    rw [hsteps]
    exact List.mem_append_right _ List.mem_cons_self
  have hstate := (acts_calls Responder.call).before_eq hsteps (by rw [hcommand]; rfl)
  have hnever : ∀ st ∈ before, st.command.isMount = false →
      ∀ a, st.before.router.fallback = some (.action a) → countsUnder serial a = false := by
    intro st hst hmount a
    refine fallback_of_never_set hstart hset ?_ hmount
    rw [hsteps]
    exact List.mem_append_left _ hst
  -- The counter has counted the calls before this one, which are those of the entries.
  rw [foldl_called] at hstate
  rw [response_of_service hmem hcommand hservice, ← countP_called hnever, ← count_foldl, ← hstate]
  rfl

/-! ## All runs -/

/-- What a step calls, answers and does to what actions keep. -/
structure Step.Served (call : A → Params → StateM S R) (step : Step A S R) : Prop where
  answers : ∀ method path, step.command = .handle method path →
    ∃ response, step.response? = some response ∧ Answers step.before.router method path response ∧
      ∀ a params, step.called? = some (a, params) →
        response = .handled (call a params step.before.state).1
  called : ∀ a params, step.called? = some (a, params) ↔
    ∃ method path, step.command = .handle method path ∧
      ((∃ found, step.before.router.table.dispatch method path = some found ∧
          found.handler = .action a ∧ found.params = params) ∨
        step.before.router.table.dispatch method path = none ∧
          step.before.router.fallback = some (.action a) ∧ params = {})
  state : step.command.isMount = false →
    step.after.state = step.called?.elim step.before.state (afterCall call step.before.state)

theorem called?_eq_some_iff {step : Step A S R} {a : A} {params : Params} :
    step.called? = some (a, params) ↔ ∃ method path, step.command = .handle method path ∧
      step.before.router.service method path = .call a params := by
  unfold Step.called?
  cases step.command with
  | handle method path =>
    simp only [Service.called?_eq_some_iff]
    constructor
    · intro h
      exact ⟨method, path, rfl, h⟩
    · rintro ⟨_, _, heq, h⟩
      cases heq
      exact h
  | _ => simp

theorem served_of_mem [Regex.ProgramSize] {call : A → Params → StateM S R} {program : List (Command A)}
    {s : Session A S} {step : Step A S R} (h : step ∈ programSteps call program s) : step.Served call := by
  have hstep := eq_step_of_mem_programSteps h
  refine ⟨fun method path hcommand => ?_, fun a params => ?_, fun hmount => ?_⟩
  · refine ⟨(step.before.handle call method path).2, ?_, answers_handle call step.before method path,
      fun a params hcalled => ?_⟩
    · rw [hstep, hcommand]
      show ((Command.handle method path).run call step.before).2.response? = _
      rw [Command.run]
      rfl
    · obtain ⟨m, p, hcommand', hservice⟩ := called?_eq_some_iff.1 hcalled
      rw [hcommand, Command.handle.injEq] at hcommand'
      obtain ⟨rfl, rfl⟩ := hcommand'
      rw [Session.handle_eq, hservice]
  · simp only [called?_eq_some_iff, service_eq_call_iff]
  · have hafter := (acts_calls call).run step.command step.before hmount
    rw [← hstep] at hafter
    rw [← hafter, hstep]
    rfl

/-- A request gets a script just when it is resolved to an entry with one, the result of an action when it is
resolved to an entry with one or the fallback is one, the message of the fallback, or else nothing. It calls that
one action once, and all else in a run calls none: what actions keep is changed by these calls only, and a record
of all calls holds these and no others. So a counter that no operation makes the fallback answers with the number
of requests that were resolved to its entries, whatever comes between. -/
theorem runProgram_serves [Regex.ProgramSize] :
    (∀ (A S R : Type) (call : A → Params → StateM S R) (program : List (Command A)) (s : Session A S),
      (∀ step ∈ programSteps call program s, step.Served call) ∧
      (runProgram call program s).1.state =
        ((programSteps call program s).filterMap Step.called?).foldl (afterCall call) s.state ∧
      ∀ calls, (runProgram (recording call) program ⟨s.router, s.state, calls⟩).1.state.2 =
        calls ++
          (programSteps (recording call) program ⟨s.router, s.state, calls⟩).filterMap Step.called?) ∧
    ∀ (program : List (Command Responder)) (s : Session Responder CallCounts) (serial : Nat),
      (∀ a, s.router.fallback = some (.action a) → countsUnder serial a = false) →
      (∀ step ∈ programSteps Responder.call program s, ∀ a,
        step.fallback? = some (.action a) → countsUnder serial a = false) →
      ∀ before step after, programSteps Responder.call program s = before ++ step :: after →
        ∀ tag, step.entryAction? = some (.counter serial tag) →
          step.response? = some (.handled (Responder.countText tag (count serial s.state +
            before.countP (·.entryAction?.any (countsUnder serial)) + 1))) := by
  refine ⟨fun A S R call program s => ⟨fun step => served_of_mem, state_runProgram call program s,
    fun calls => ?_⟩, fun program s serial hstart hset before step after hsteps tag =>
    response_counter hstart hset hsteps⟩
  rw [state_runProgram, foldl_recording]

/-- A counter with entries under two methods, one of which is taken over, goes on counting past a failure and a
request for the fallback, which is a counter too. -/
theorem runProgram_serves_counter : ∃ (program : List (Command Responder))
    (s : Session Responder CallCounts) (before after : List (Step Responder CallCounts String))
    (step : Step Responder CallCounts String),
    programSteps Responder.call program s = before ++ step :: after ∧
    before.map (·.entryAction?) =
      [none, some (.counter 1 "n"), none, none, none, none, some (.counter 1 "n")] ∧
    step.response? = some (.handled "n#3") := by
  obtain ⟨program, hprogram⟩ : ∃ program : List (Command Responder), program =
      [.registerEach ["get", "post"] "/n" (.action (.counter 1 "n")), .handle "get" "/n/",
        .register "GET" "/n" (.script "n"), .register "POST" "/[" (.script "n"), .handle "get" "/n",
        .handle "put" "/n", .handle "POST" "n", .handle "post" "/n?"] := ⟨_, rfl⟩
  obtain ⟨s, hs⟩ : ∃ s : Session Responder CallCounts, s =
      ⟨{ fallback := some (.action (.counter 0 "f")) }, {}⟩ := ⟨_, rfl⟩
  have hentries : (programSteps Responder.call program s).map (·.entryAction?) =
      [none, some (.counter 1 "n"), none, none, none, none, some (.counter 1 "n")] ++
        some (.counter 1 "n") :: [] := by
    rw [hprogram, hs]
    cbv
  obtain ⟨before, rest, hsteps, hbefore, hrest⟩ := List.map_eq_append_iff.1 hentries
  obtain ⟨step, after, rfl, hstep, -⟩ := List.map_eq_cons_iff.1 hrest
  have hstart : ∀ a, s.router.fallback = some (.action a) → countsUnder 1 a = false := by
    rw [hs]
    rintro a ⟨⟩
    rfl
  have hnone : (programSteps Responder.call program s).map Step.fallback? = List.replicate 8 none := by
    rw [hprogram, hs]
    cbv
  have hset : ∀ step ∈ programSteps Responder.call program s, ∀ a,
      step.fallback? = some (.action a) → countsUnder 1 a = false := by
    intro step hmem a hfallback
    have hnot := List.mem_map_of_mem (f := Step.fallback?) hmem
    rw [hnone, hfallback] at hnot
    cases List.eq_of_mem_replicate hnot
  refine ⟨program, s, before, after, step, hsteps, hbefore, ?_⟩
  have hcount : before.countP (·.entryAction?.any (countsUnder 1)) = 2 := by
    have hmap := congrArg (List.countP (·.any (countsUnder 1))) hbefore
    rwa [List.countP_map] at hmap
  rw [runProgram_serves.2 program s 1 hstart hset before step after hsteps "n" hstep, hcount, hs]
  cbv

end RequestRouting.Router
