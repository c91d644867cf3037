import RequestRouting.Router.Command

/-!
Runs step by step.

A run of a table, or of a router, executes the operations of its program one after the other, and within an
operation that mounts a block those of the block up to the first that fails. `programSteps` lists them all in the
order in which they end, each with what it finds and what it leaves.
-/

namespace RequestRouting

/-! ## Tables -/

namespace RouteTable

variable {H : Type}

/-- An operation that was executed. -/
structure Step (H : Type) where
  before : RouteTable H
  command : Command H
  after : RouteTable H
  outcome : Outcome

variable [Regex.ProgramSize]

def Command.step (c : Command H) (t : RouteTable H) : Step H :=
  ⟨t, c, (c.run t).1, (c.run t).2.outcome⟩

mutual

/-- The steps within an operation. -/
def Command.innerSteps : Command H → RouteTable H → List (Step H)
  | .mount segment block, t => blockSteps block (t.setBasePath (t.basePath ++ segment))
  | .register _ _ _, _ => []
  | .registerEach _ _ _, _ => []
  | .setBasePath _, _ => []
  | .query _, _ => []

/-- The steps of a block. -/
def blockSteps : List (Command H) → RouteTable H → List (Step H)
  | [], _ => []
  | c :: cs, t =>
    c.innerSteps t ++ c.step t ::
      match (c.run t).2.outcome with
      | .ok () => blockSteps cs (c.run t).1
      | .error _ => []

end

/-- The steps of a program. -/
def programSteps : List (Command H) → RouteTable H → List (Step H)
  | [], _ => []
  | c :: cs, t => c.innerSteps t ++ c.step t :: programSteps cs (c.run t).1

theorem runBlock_of_error {c : Command H} {t : RouteTable H} {e : Error}
    (h : (c.run t).2.outcome = .error e) (cs : List (Command H)) :
    (runBlock (c :: cs) t).1 = (c.run t).1 ∧ (runBlock (c :: cs) t).2.1 = .error e := by
  rw [runBlock]
  simp only [h, and_self]

theorem runBlock_of_ok {c : Command H} {t : RouteTable H} (h : (c.run t).2.outcome = .ok ())
    (cs : List (Command H)) :
    (runBlock (c :: cs) t).1 = (runBlock cs (c.run t).1).1 ∧
      (runBlock (c :: cs) t).2.1 = (runBlock cs (c.run t).1).2.1 := by
  rw [runBlock]
  simp only [h, and_self]

mutual

theorem Command.eq_step_of_mem {c : Command H} {t : RouteTable H} {step : Step H}
    (h : step ∈ c.innerSteps t) : step = step.command.step step.before := by
  cases c with
  | mount segment block =>
    rw [Command.innerSteps] at h
    exact eq_step_of_mem_blockSteps h
  | _ =>
    rw [Command.innerSteps] at h
    cases h

/-- A step is what its operation does to what it finds. -/
theorem eq_step_of_mem_blockSteps {block : List (Command H)} {t : RouteTable H} {step : Step H}
    (h : step ∈ blockSteps block t) : step = step.command.step step.before := by
  cases block with
  | nil =>
    rw [blockSteps] at h
    cases h
  | cons c cs =>
    rw [blockSteps] at h
    rcases List.mem_append.1 h with hinner | hrest
    · exact Command.eq_step_of_mem hinner
    · rcases List.mem_cons.1 hrest with rfl | hlater
      · rfl
      · cases houtcome : (c.run t).2.outcome with
        | ok u =>
          simp only [houtcome] at hlater
          exact eq_step_of_mem_blockSteps hlater
        | error e =>
          simp only [houtcome] at hlater
          cases hlater

end

end RouteTable

/-! ## Routers -/

namespace Router

variable {A S R : Type}

/-- An operation that was executed. -/
structure Step (A S R : Type) where
  before : Session A S
  command : Command A
  after : Session A S
  outcome : Outcome
  /-- The response, if the operation served a request. -/
  response? : Option (Response R)

variable [Regex.ProgramSize]

def Reply.response? : Reply A R → Option (Response R)
  | response r => some r
  | _ => none

def Command.step (call : A → Params → StateM S R) (c : Command A) (s : Session A S) : Step A S R :=
  ⟨s, c, (c.run call s).1, (c.run call s).2.outcome, (c.run call s).2.response?⟩

def Session.withTable (s : Session A S) (table : RouteTable (Handler A)) : Session A S :=
  { s with router := { s.router with table } }

/-- A session with more text at the end of the base path. -/
def Session.under (s : Session A S) (segment : String) : Session A S :=
  s.withTable (s.router.table.setBasePath (s.router.table.basePath ++ segment))

/-- A step of the table alone. -/
def Step.ofTable (s : Session A S) (step : RouteTable.Step (Handler A)) : Step A S R :=
  ⟨s.withTable step.before, .table step.command, s.withTable step.after, step.outcome, none⟩

mutual

/-- The steps within an operation. -/
def Command.innerSteps (call : A → Params → StateM S R) :
    Command A → Session A S → List (Step A S R)
  | .mount segment block, s => blockSteps call block (s.under segment)
  | .table c, s => (c.innerSteps s.router.table).map (.ofTable s)
  | .register _ _ _, _ => []
  | .registerEach _ _ _, _ => []
  | .setBasePath _, _ => []
  | .setFallback _, _ => []
  | .query _, _ => []
  | .handle _ _, _ => []

/-- The steps of a block. -/
def blockSteps (call : A → Params → StateM S R) :
    List (Command A) → Session A S → List (Step A S R)
  | [], _ => []
  | c :: cs, s =>
    c.innerSteps call s ++ c.step call s ::
      match (c.run call s).2.outcome with
      | .ok () => blockSteps call cs (c.run call s).1
      | .error _ => []

end

/-- The steps of a program. -/
def programSteps (call : A → Params → StateM S R) :
    List (Command A) → Session A S → List (Step A S R)
  | [], _ => []
  | c :: cs, s => c.innerSteps call s ++ c.step call s :: programSteps call cs (c.run call s).1

variable (call : A → Params → StateM S R)

/-- A block that is mounted starts under the longer base path, and the one before is put back in the end. -/
theorem run_mount (segment : String) (block : List (Command A)) (s : Session A S) :
    ((Command.mount segment block).run call s).1 =
        (runBlock call block (s.under segment)).1.withTable
          ((runBlock call block (s.under segment)).1.router.table.setBasePath
            s.router.table.basePath) ∧
      ((Command.mount segment block).run call s).2.outcome =
        (runBlock call block (s.under segment)).2.1 := by
  rw [Command.run]
  exact ⟨rfl, rfl⟩

theorem runBlock_of_error {c : Command A} {s : Session A S} {e : Error}
    (h : (c.run call s).2.outcome = .error e) (cs : List (Command A)) :
    (runBlock call (c :: cs) s).1 = (c.run call s).1 ∧
      (runBlock call (c :: cs) s).2.1 = .error e := by
  rw [runBlock]
  simp only [h, and_self]

theorem runBlock_of_ok {c : Command A} {s : Session A S} (h : (c.run call s).2.outcome = .ok ())
    (cs : List (Command A)) :
    (runBlock call (c :: cs) s).1 = (runBlock call cs (c.run call s).1).1 ∧
      (runBlock call (c :: cs) s).2.1 = (runBlock call cs (c.run call s).1).2.1 := by
  rw [runBlock]
  simp only [h, and_self]

variable {call}

mutual

theorem Command.eq_step_of_mem {c : Command A} {s : Session A S} {step : Step A S R}
    (h : step ∈ c.innerSteps call s) : step = step.command.step call step.before := by
  cases c with
  | mount segment block =>
    rw [Command.innerSteps] at h
    exact eq_step_of_mem_blockSteps h
  | table c =>
    rw [Command.innerSteps] at h
    obtain ⟨inner, hinner, rfl⟩ := List.mem_map.1 h
    rw [RouteTable.Command.eq_step_of_mem hinner, Command.step, Step.ofTable, Command.run]
    rfl
  | _ =>
    rw [Command.innerSteps] at h
    cases h

theorem eq_step_of_mem_blockSteps {block : List (Command A)} {s : Session A S} {step : Step A S R}
    (h : step ∈ blockSteps call block s) : step = step.command.step call step.before := by
  cases block with
  | nil =>
    rw [blockSteps] at h
    cases h
  | cons c cs =>
    rw [blockSteps] at h
    rcases List.mem_append.1 h with hinner | hrest
    · exact Command.eq_step_of_mem hinner
    · rcases List.mem_cons.1 hrest with rfl | hlater
      · rfl
      · cases houtcome : (c.run call s).2.outcome with
        | ok u =>
          simp only [houtcome] at hlater
          exact eq_step_of_mem_blockSteps hlater
        | error e =>
          simp only [houtcome] at hlater
          cases hlater

end

theorem eq_step_of_mem_programSteps {program : List (Command A)} {s : Session A S} {step : Step A S R}
    (h : step ∈ programSteps call program s) : step = step.command.step call step.before := by
  induction program generalizing s with
  | nil => cases h
  | cons c cs ih =>
    rcases List.mem_append.1 h with hinner | hrest
    · exact Command.eq_step_of_mem hinner
    · rcases List.mem_cons.1 hrest with rfl | hlater
      · rfl
      · exact ih hlater

/-! ### What the table has no part in -/

section

variable {V : Type}

/-- Whether an operation mounts a block. -/
def Command.isMount : Command A → Bool
  | .mount _ _ => true
  | _ => false

variable (call) in
/-- Whether a view of a session, in which the table has no part, is changed by steps in the given way. A mount
does nothing to it by itself. -/
structure Acts (view : Session A S → V) (act : V → Step A S R → V) : Prop where
  withTable : ∀ s table, view (s.withTable table) = view s
  run : ∀ (c : Command A) s, c.isMount = false → view (c.run call s).1 = act (view s) (c.step call s)
  mount : ∀ (step : Step A S R) v, step.command.isMount = true → act v step = v
  table : ∀ s step v, act v (.ofTable s step) = v

/-- Whether each step, mounts aside, finds the view that the steps before it made. -/
def Threads (view : Session A S → V) (act : V → Step A S R → V) : V → List (Step A S R) → Prop
  | _, [] => True
  | v, step :: steps =>
    (step.command.isMount = false → view step.before = v) ∧ Threads view act (act v step) steps

variable {view : Session A S → V} {act : V → Step A S R → V}

omit [Regex.ProgramSize] in
theorem threads_append {v : V} {steps steps' : List (Step A S R)} :
    Threads view act v (steps ++ steps') ↔
      Threads view act v steps ∧ Threads view act (steps.foldl act v) steps' := by
  induction steps generalizing v with
  | nil => exact ⟨fun h => ⟨trivial, h⟩, And.right⟩
  | cons step steps ih =>
    rw [List.cons_append, Threads, Threads, ih, and_assoc]
    rfl

namespace Acts

theorem threads_ofTable (h : Acts call view act) (s : Session A S)
    (steps : List (RouteTable.Step (Handler A))) :
    Threads view act (view s) (steps.map (.ofTable s)) ∧
      (steps.map (.ofTable s)).foldl act (view s) = view s := by
  induction steps with
  | nil => exact ⟨trivial, rfl⟩
  | cons step steps ih =>
    rw [List.map_cons, Threads, List.foldl_cons, h.table]
    exact ⟨⟨fun _ => h.withTable s step.before, ih.1⟩, ih.2⟩

mutual

theorem innerSteps (h : Acts call view act) (c : Command A) (s : Session A S) :
    Threads view act (view s) (c.innerSteps call s ++ [c.step call s]) ∧
      view (c.run call s).1 = (c.innerSteps call s ++ [c.step call s]).foldl act (view s) := by
  rw [threads_append, Threads, List.foldl_append]
  show (_ ∧ _ ∧ True) ∧ _ = act _ (c.step call s)
  cases c with
  | mount segment block =>
    -- The base path is changed before the block and put back behind it; the view shows neither.
    obtain ⟨hsession, -⟩ := run_mount call segment block s
    obtain ⟨hthreads, hend⟩ := h.blockSteps block (s.under segment)
    have hstart : view (s.under segment) = view s := h.withTable s _
    rw [hstart] at hthreads hend
    rw [Command.innerSteps, h.mount _ _ rfl, hsession, h.withTable, hend]
    exact ⟨⟨hthreads, nofun, trivial⟩, rfl⟩
  | table c =>
    obtain ⟨hthreads, hend⟩ := h.threads_ofTable s (c.innerSteps s.router.table)
    rw [Command.innerSteps, hend]
    exact ⟨⟨hthreads, fun _ => rfl, trivial⟩, h.run _ s rfl⟩
  | _ =>
    rw [Command.innerSteps]
    exact ⟨⟨trivial, fun _ => rfl, trivial⟩, h.run _ s rfl⟩

theorem blockSteps (h : Acts call view act) (block : List (Command A)) (s : Session A S) :
    Threads view act (view s) (blockSteps call block s) ∧
      view (runBlock call block s).1 = (Router.blockSteps call block s).foldl act (view s) := by
  cases block with
  | nil =>
    rw [Router.blockSteps, runBlock]
    exact ⟨trivial, rfl⟩
  | cons c cs =>
    obtain ⟨hfirst, hend⟩ := h.innerSteps c s
    rw [Router.blockSteps, List.append_cons, threads_append, ← hend, List.foldl_append, ← hend]
    cases houtcome : (c.run call s).2.outcome with
    | error e =>
      -- The block ends here, and so do its steps.
      obtain ⟨hsession, -⟩ := runBlock_of_error call houtcome cs
      rw [hsession]
      exact ⟨⟨hfirst, trivial⟩, rfl⟩
    | ok u =>
      obtain ⟨hsession, -⟩ := runBlock_of_ok call houtcome cs
      obtain ⟨hrest, hlast⟩ := h.blockSteps cs (c.run call s).1
      rw [hsession]
      exact ⟨⟨hfirst, hrest⟩, hlast⟩

end

theorem programSteps (h : Acts call view act) (program : List (Command A)) (s : Session A S) :
    Threads view act (view s) (programSteps call program s) ∧
      view (runProgram call program s).1 = (Router.programSteps call program s).foldl act (view s) := by
  induction program generalizing s with
  | nil => exact ⟨trivial, rfl⟩
  | cons c cs ih =>
    obtain ⟨hfirst, hend⟩ := h.innerSteps c s
    obtain ⟨hrest, hlast⟩ := ih (c.run call s).1
    rw [Router.programSteps, List.append_cons, threads_append, ← hend, List.foldl_append, ← hend]
    exact ⟨⟨hfirst, hrest⟩, hlast⟩

/-- A step of a program finds the view that the steps before it made. -/
theorem before_eq (h : Acts call view act) {program : List (Command A)} {s : Session A S}
    {before after : List (Step A S R)} {step : Step A S R}
    (hsteps : Router.programSteps call program s = before ++ step :: after)
    (hmount : step.command.isMount = false) : view step.before = before.foldl act (view s) := by
  obtain ⟨hthreads, -⟩ := h.programSteps program s
  rw [hsteps, threads_append] at hthreads
  exact hthreads.2.1 hmount

end Acts

end

end Router

end RequestRouting
