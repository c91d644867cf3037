import RequestRouting.Proofs.Table.Series

/-!
Mounted blocks are flat.

A table reads its base path in one place only, where a pattern is put behind it. So the base path of each
registration can be told from the text of a program alone (`Command.calls`): it is the last one that was set
before in the same block, or else that of the block around it with the segment of the mount. A program and
its registrations under their whole patterns do the same to the rest of the table (`Command.run_calls`), also
where a block ends at a failure.
-/

namespace RequestRouting.RouteTable

section

variable {H : Type} [Regex.ProgramSize]

/-! ## Registrations under their whole patterns -/

/-- A registration under its whole pattern, for each of some methods. -/
structure Call (H : Type) where
  methods : List String
  pattern : String
  handler : H

def Call.command (c : Call H) : Command H := .registerEach c.methods c.pattern c.handler

def Call.register (c : Call H) (t : RouteTable H) : RouteTable H × Outcome :=
  registerEach c.pattern c.handler c.methods t

/-- The base path after an operation. What is set in a block that is mounted does not leave it. -/
def Command.scope (basePath : String) : Command H → String
  | .setBasePath basePath => basePath
  | _ => basePath

mutual

/-- The registrations of an operation behind a base path. -/
def Command.calls (basePath : String) : Command H → List (Call H)
  | .register method pattern handler => [⟨[method], basePath ++ pattern, handler⟩]
  | .registerEach methods pattern handler => [⟨methods, basePath ++ pattern, handler⟩]
  | .mount segment block => blockCalls (basePath ++ segment) block
  | .setBasePath _ => []
  | .query _ => []

/-- The registrations of a block behind a base path. -/
def blockCalls (basePath : String) : List (Command H) → List (Call H)
  | [] => []
  | c :: cs => c.calls basePath ++ blockCalls (c.scope basePath) cs

end

mutual

/-- The replies to the registrations of an operation. -/
def Reply.registrations : Reply H → List (Reply H)
  | .registered outcome size methods => [.registered outcome size methods]
  | .mounted _ _ _ replies => registrationsIn replies
  | _ => []

/-- The replies to registrations, at any depth. -/
def registrationsIn : List (Reply H) → List (Reply H)
  | [] => []
  | r :: rs => r.registrations ++ registrationsIn rs

end

/-- The registrations of a program that were executed: of each of its operations as many as were replied to. -/
def executed (basePath : String) : List (Command H) → List (Reply H) → List (Call H)
  | c :: cs, r :: rs =>
    (c.calls basePath).take r.registrations.length ++ executed (c.scope basePath) cs rs
  | _, _ => []

/-! ## One registration -/

section

variable (t : RouteTable H) (pattern : String) (handler : H)

theorem share_setBasePath (basePath whole : String) :
    (t.setBasePath basePath).share whole = t.share whole := by
  unfold share
  rfl

variable {pattern} in
/-- A registration depends on its whole pattern, and not on where the base path in it ends. -/
theorem register_setBasePath {basePath rest : String} (h : basePath ++ rest = t.basePath ++ pattern)
    (method : String) : (t.setBasePath basePath).register method rest handler =
      ((t.register method pattern handler).1.setBasePath basePath,
        (t.register method pattern handler).2) := by
  have hshare : (t.setBasePath basePath).share ((t.setBasePath basePath).basePath ++ rest) =
      t.share (t.basePath ++ pattern) := by
    rw [setBasePath_basePath, h, share_setBasePath]
  cases hfound : t.share (t.basePath ++ pattern) with
  | error e => rw [register_of_error hfound, register_of_error (hshare.trans hfound)]
  | ok found =>
    rw [register_of_share hfound, register_of_share (hshare.trans hfound), setBasePath_basePath, h]
    rfl

theorem register_basePath (method : String) :
    (t.register method pattern handler).1.basePath = t.basePath := by
  rcases t.register_cases method pattern handler with ⟨hsame, -⟩ | hnew
  · rw [hsame]
  · obtain ⟨shared, cache, -, hnew, -⟩ := hnew
    rw [hnew, withEntry_basePath]

variable {pattern} in
theorem registerEach_setBasePath {basePath rest : String}
    (h : basePath ++ rest = t.basePath ++ pattern) (methods : List String) :
    registerEach rest handler methods (t.setBasePath basePath) =
      ((registerEach pattern handler methods t).1.setBasePath basePath,
        (registerEach pattern handler methods t).2) := by
  induction methods generalizing t with
  | nil => rfl
  | cons m ms ih =>
    have hbase := register_basePath t pattern handler m
    rw [registerEach, registerEach, register_setBasePath t handler h]
    cases hregister : t.register m pattern handler with
    | mk next outcome =>
      rw [hregister] at hbase
      cases outcome with
      | error e => rfl
      | ok u => exact ih next (h.trans (congrArg (· ++ pattern) hbase.symm))

theorem registerEach_basePath (methods : List String) :
    (registerEach pattern handler methods t).1.basePath = t.basePath := by
  induction methods generalizing t with
  | nil => rfl
  | cons m ms ih =>
    have hbase := register_basePath t pattern handler m
    rw [registerEach]
    cases hregister : t.register m pattern handler with
    | mk next outcome =>
      rw [hregister] at hbase
      cases outcome with
      | error e => exact hbase
      | ok u => exact (ih next).trans hbase

theorem registerEach_singleton (method : String) :
    registerEach pattern handler [method] t = t.register method pattern handler := by
  rw [registerEach]
  cases t.register method pattern handler with
  | mk next outcome => cases outcome <;> rfl

end

/-! ## Runs -/

theorem Command.run_basePath (c : Command H) (t : RouteTable H) :
    (c.run t).1.basePath = c.scope t.basePath := by
  cases c with
  | register method pattern handler =>
    rw [Command.run]
    exact register_basePath t pattern handler method
  | registerEach methods pattern handler =>
    rw [Command.run]
    exact registerEach_basePath t pattern handler methods
  | setBasePath basePath =>
    rw [Command.run]
    rfl
  | mount segment block =>
    rw [Command.run]
    rfl
  | query q =>
    rw [Command.run]
    rfl

theorem runProgram_cons (c : Command H) (cs : List (Command H)) (t : RouteTable H) :
    runProgram (c :: cs) t =
      ((runProgram cs (c.run t).1).1, (c.run t).2 :: (runProgram cs (c.run t).1).2) := rfl

theorem runProgram_append (cs cs' : List (Command H)) (t : RouteTable H) :
    runProgram (cs ++ cs') t =
      ((runProgram cs' (runProgram cs t).1).1,
        (runProgram cs t).2 ++ (runProgram cs' (runProgram cs t).1).2) := by
  induction cs generalizing t with
  | nil => rfl
  | cons c cs ih =>
    rw [List.cons_append, runProgram_cons, runProgram_cons, ih]
    rfl

/-- A block goes on behind its first part if that does not fail. -/
theorem runBlock_append (cs cs' : List (Command H)) (t : RouteTable H) :
    runBlock (cs ++ cs') t =
      match runBlock cs t with
      | (next, .ok (), replies) =>
        ((runBlock cs' next).1, (runBlock cs' next).2.1, replies ++ (runBlock cs' next).2.2)
      | (next, .error e, replies) => (next, .error e, replies) := by
  induction cs generalizing t with
  | nil => rw [List.nil_append, runBlock]; rfl
  | cons c cs ih =>
    rw [List.cons_append, runBlock, runBlock]
    cases houtcome : (c.run t).2.outcome with
    | error e => simp only [houtcome]
    | ok u =>
      simp only [houtcome, ih]
      cases runBlock cs (c.run t).1 with
      | mk next rest =>
        obtain ⟨outcome, replies⟩ := rest
        cases outcome <;> rfl

/-- A block does what a program does with the operations that it gets to. -/
theorem runProgram_take (cs : List (Command H)) (t : RouteTable H) :
    runProgram (cs.take (runBlock cs t).2.2.length) t = ((runBlock cs t).1, (runBlock cs t).2.2) := by
  induction cs generalizing t with
  | nil => rw [runBlock]; rfl
  | cons c cs ih =>
    rw [runBlock]
    cases houtcome : (c.run t).2.outcome with
    | error e => simp [houtcome, runProgram]
    | ok u =>
      simp only [houtcome, List.length_cons, List.take_succ_cons]
      rw [runProgram_cons, ih]

theorem Call.run_command (c : Call H) (t : RouteTable H) :
    c.command.run t = registeredReply (c.register t) := by
  rw [Call.command, Command.run, Call.register]

/-- A single registration is a block of its own. -/
theorem Call.runBlock_command (c : Call H) (t : RouteTable H) :
    runBlock [c.command] t =
      ((c.register t).1, (c.register t).2, [(registeredReply (c.register t)).2]) := by
  rw [runBlock, c.run_command]
  cases c.register t with
  | mk next outcome =>
    cases outcome with
    | error e => rfl
    | ok u => simp [registeredReply, Reply.outcome, runBlock]

mutual

/-- An operation does to the table, but for its base path, what its registrations do as a block, and has its
outcome and the same replies to registrations. -/
theorem Command.run_calls (c : Command H) (t : RouteTable H) :
    runBlock ((c.calls t.basePath).map Call.command) (t.setBasePath "") =
      ((c.run t).1.setBasePath "", (c.run t).2.outcome, (c.run t).2.registrations) := by
  cases c with
  | register method pattern handler =>
    rw [Command.calls, Command.run, List.map_singleton, Call.runBlock_command,
      Call.register, registerEach_setBasePath t handler String.empty_append, registerEach_singleton]
    rfl
  | registerEach methods pattern handler =>
    rw [Command.calls, Command.run, List.map_singleton, Call.runBlock_command,
      Call.register, registerEach_setBasePath t handler String.empty_append]
    rfl
  | setBasePath basePath =>
    rw [Command.calls, Command.run, List.map_nil, runBlock]
    rfl
  | mount segment block =>
    rw [Command.calls, Command.run]
    exact runBlock_calls block (t.setBasePath (t.basePath ++ segment))
  | query q =>
    rw [Command.calls, Command.run, List.map_nil, runBlock]
    cases q <;> rfl

theorem runBlock_calls (block : List (Command H)) (t : RouteTable H) :
    runBlock ((blockCalls t.basePath block).map Call.command) (t.setBasePath "") =
      ((runBlock block t).1.setBasePath "", (runBlock block t).2.1,
        registrationsIn (runBlock block t).2.2) := by
  cases block with
  | nil =>
    rw [blockCalls, List.map_nil, runBlock, runBlock]
    rfl
  | cons c cs =>
    rw [blockCalls, List.map_append, runBlock_append, c.run_calls t, runBlock]
    cases houtcome : (c.run t).2.outcome with
    | error e => simp [houtcome, registrationsIn]
    | ok u =>
      -- The rest of the block stands behind the base path that the operation leaves.
      have hrest := runBlock_calls cs (c.run t).1
      rw [c.run_basePath] at hrest
      simp only [houtcome, hrest, registrationsIn]

end

/-- The registrations that a program got to do to the table, but for its base path, what the program does. -/
theorem runProgram_executed (program : List (Command H)) (t : RouteTable H) :
    runProgram ((executed t.basePath program (runProgram program t).2).map Call.command)
        (t.setBasePath "") =
      ((runProgram program t).1.setBasePath "", registrationsIn (runProgram program t).2) := by
  induction program generalizing t with
  | nil => rfl
  | cons c cs ih =>
    -- An operation that fails got to some of its registrations only, and the program goes on with the next one.
    have hfirst := runProgram_take ((c.calls t.basePath).map Call.command) (t.setBasePath "")
    rw [c.run_calls t] at hfirst
    have hrest := ih (c.run t).1
    rw [c.run_basePath] at hrest
    rw [runProgram_cons, executed, List.map_append, List.map_take, runProgram_append, hfirst, hrest,
      registrationsIn]

/-! ## What remains after a failure -/

namespace Call

variable {t : RouteTable H} {m p : String}

theorem isSome_route?_register (c : Call H) (h : (t.route? m p).isSome) :
    ((c.register t).1.route? m p).isSome := by
  unfold Call.register
  cases hshare : t.share (t.basePath ++ c.pattern) with
  | error e =>
    cases c.methods with
    | nil => exact h
    | cons n ns =>
      rw [registerEach_of_error hshare (List.cons_ne_nil n ns)]
      exact h
  | ok found =>
    rw [registerEach_of_share hshare]
    show (((withEntries _ _ _ _ _).under (normalizeMethod m)).get? p).isSome
    rw [get?_withEntries]
    split
    · rfl
    · exact h

/-- The entries of a registration that does not fail are there. -/
theorem isSome_route?_of_register {c : Call H} (hok : (c.register t).2 = .ok ())
    (hm : m ∈ c.methods) : ((c.register t).1.route? m (t.basePath ++ c.pattern)).isSome := by
  unfold Call.register at hok ⊢
  cases hshare : t.share (t.basePath ++ c.pattern) with
  | error e =>
    rw [registerEach_of_error hshare (List.ne_nil_of_mem hm)] at hok
    cases hok
  | ok found =>
    rw [registerEach_of_share hshare]
    show (((withEntries _ _ _ _ _).under (normalizeMethod m)).get? _).isSome
    rw [get?_withEntries, if_pos ⟨List.mem_map_of_mem hm, rfl⟩]
    rfl

end Call

/-- A block of registrations goes on behind its first one if that does not fail, and changes nothing else. -/
theorem runBlock_call (c : Call H) (cs : List (Command H)) (t : RouteTable H) :
    ((c.register t).2 = .ok () ∧
      (runBlock (c.command :: cs) t).1 = (runBlock cs (c.register t).1).1 ∧
      (runBlock (c.command :: cs) t).2.1 = (runBlock cs (c.register t).1).2.1) ∨
    ∃ e, (c.register t).2 = .error e ∧ (runBlock (c.command :: cs) t).1 = t ∧
      (runBlock (c.command :: cs) t).2.1 = .error e := by
  rw [← List.singleton_append, runBlock_append, c.runBlock_command]
  cases houtcome : (c.register t).2 with
  | ok u => exact Or.inl ⟨rfl, rfl, rfl⟩
  | error e => exact Or.inr ⟨e, rfl, registerEach_eq_of_error houtcome, rfl⟩

variable {calls : List (Call H)} {t : RouteTable H}

theorem isSome_route?_runBlock {m p : String} (h : (t.route? m p).isSome) :
    ((runBlock (calls.map Call.command) t).1.route? m p).isSome := by
  induction calls generalizing t with
  | nil =>
    rw [List.map_nil, runBlock]
    exact h
  | cons c cs ih =>
    rw [List.map_cons]
    rcases runBlock_call c (cs.map Call.command) t with ⟨-, htable, -⟩ | ⟨e, -, htable, -⟩
    · rw [htable]
      exact ih (c.isSome_route?_register h)
    · rw [htable]
      exact h

theorem isSome_route?_of_runBlock (hbase : t.basePath = "")
    (hok : (runBlock (calls.map Call.command) t).2.1 = .ok ()) {c : Call H} (hc : c ∈ calls)
    {m : String} (hm : m ∈ c.methods) :
    ((runBlock (calls.map Call.command) t).1.route? m c.pattern).isSome := by
  induction calls generalizing t with
  | nil => cases hc
  | cons first cs ih =>
    rw [List.map_cons] at hok ⊢
    rcases runBlock_call first (cs.map Call.command) t with ⟨hfirst, htable, hrest⟩ | hfail
    · have hnext : (first.register t).1.basePath = "" :=
        (registerEach_basePath t first.pattern first.handler first.methods).trans hbase
      rw [htable]
      rcases List.mem_cons.1 hc with rfl | hc
      · apply isSome_route?_runBlock
        have hentry := Call.isSome_route?_of_register hfirst hm
        rwa [hbase, String.empty_append] at hentry
      · exact ih hnext (hrest.symm.trans hok) hc
    · obtain ⟨e, -, -, herror⟩ := hfail
      rw [herror] at hok
      cases hok

theorem isSome_route?_runProgram {m p : String} (h : (t.route? m p).isSome) :
    ((runProgram (calls.map Call.command) t).1.route? m p).isSome := by
  induction calls generalizing t with
  | nil => exact h
  | cons c cs ih =>
    rw [List.map_cons, runProgram_cons, c.run_command]
    exact ih (c.isSome_route?_register h)

/-- A block of registrations that fails has done those before the one that fails, and nothing else. -/
theorem runBlock_eq_of_error {e : Error}
    (h : (runBlock (calls.map Call.command) t).2.1 = .error e) :
    ∃ done call rest, calls = done ++ call :: rest ∧
      (runBlock (done.map Call.command) t).2.1 = .ok () ∧
      (runBlock (done.map Call.command) t).1 = (runBlock (calls.map Call.command) t).1 ∧
      (call.register (runBlock (calls.map Call.command) t).1).2 = .error e := by
  induction calls generalizing t with
  | nil =>
    rw [List.map_nil, runBlock] at h
    cases h
  | cons c cs ih =>
    rw [List.map_cons] at h ⊢
    rcases runBlock_call c (cs.map Call.command) t with ⟨hfirst, htable, hrest⟩ | hfail
    · rw [hrest] at h
      obtain ⟨done, call, rest, rfl, hok, hdone, hcall⟩ := ih h
      refine ⟨c :: done, call, rest, rfl, ?_⟩
      rcases runBlock_call c (done.map Call.command) t with ⟨-, htable', hrest'⟩ | hfail
      · rw [List.map_cons, htable', hrest', htable]
        exact ⟨hok, hdone, hcall⟩
      · obtain ⟨e', herror, -⟩ := hfail
        rw [hfirst] at herror
        cases herror
    · obtain ⟨e', herror, htable, houtcome⟩ := hfail
      rw [houtcome] at h
      refine ⟨[], c, cs, rfl, ?_⟩
      rw [List.map_nil, runBlock, htable]
      exact ⟨rfl, rfl, herror.trans h⟩

/-- A program does to the table, but for its base path, what the registrations that it got to do under their
whole patterns, with the same replies; an operation, and a block, what its registrations do as one block, with
the same outcome. Mounts leave the base path as it was. Where a block fails, the registrations before the one
that fails have been done, and nothing else, and no program takes an entry away. -/
theorem runs_flat (t : RouteTable H) :
    (∀ program, runProgram
        ((executed t.basePath program (runProgram program t).2).map Call.command)
        (t.setBasePath "") =
      ((runProgram program t).1.setBasePath "", registrationsIn (runProgram program t).2)) ∧
    (∀ c : Command H, runBlock ((c.calls t.basePath).map Call.command) (t.setBasePath "") =
      ((c.run t).1.setBasePath "", (c.run t).2.outcome, (c.run t).2.registrations)) ∧
    (∀ block, runBlock ((blockCalls t.basePath block).map Call.command) (t.setBasePath "") =
      ((runBlock block t).1.setBasePath "", (runBlock block t).2.1,
        registrationsIn (runBlock block t).2.2)) ∧
    (∀ segment block, ((Command.mount segment block).run t).1.basePath = t.basePath) ∧
    (∀ block e, (runBlock block t).2.1 = .error e →
      ∃ done call rest, blockCalls t.basePath block = done ++ call :: rest ∧
        (runBlock (done.map Call.command) (t.setBasePath "")).2.1 = .ok () ∧
        (runBlock (done.map Call.command) (t.setBasePath "")).1 =
          (runBlock block t).1.setBasePath "" ∧
        (call.register ((runBlock block t).1.setBasePath "")).2 = .error e ∧
        ∀ c ∈ done, ∀ m ∈ c.methods, ((runBlock block t).1.route? m c.pattern).isSome) ∧
    ∀ program m p, (t.route? m p).isSome → ((runProgram program t).1.route? m p).isSome := by
  refine ⟨fun program => runProgram_executed program t, fun c => c.run_calls t,
    fun block => runBlock_calls block t, fun segment block => ?_, fun block e herror => ?_,
    fun program m p hentry => ?_⟩
  · exact Command.run_basePath (.mount segment block) t
  · have hflat := runBlock_calls block t
    have hfailed : (runBlock ((blockCalls t.basePath block).map Call.command)
        (t.setBasePath "")).2.1 = .error e := by
      rw [hflat]
      exact herror
    obtain ⟨done, call, rest, hcalls, hok, htable, hcall⟩ := runBlock_eq_of_error hfailed
    rw [hflat] at htable hcall
    refine ⟨done, call, rest, hcalls, hok, htable, hcall, fun c hc m hm => ?_⟩
    have hentry := isSome_route?_of_runBlock (t := t.setBasePath "") rfl hok hc hm
    rwa [htable] at hentry
  · have hstill : ((runProgram ((executed t.basePath program (runProgram program t).2).map
        Call.command) (t.setBasePath "")).1.route? m p).isSome := isSome_route?_runProgram hentry
    rwa [runProgram_executed] at hstill

end

/-- A block within a block, with a base path of its own and a failure that ends both. -/
theorem runs_flat_nested : ∃ (t : RouteTable Nat) (block : List (Command Nat)),
    blockCalls t.basePath block =
      [⟨["get"], "/x/b/1", 1⟩, ⟨["put"], "/y/2", 2⟩, ⟨["get"], "/y/[", 3⟩, ⟨["get"], "/x/4", 4⟩] ∧
    (runBlock block t).2.1 = .error (.invalidPattern "/y/[" .classUnclosed) ∧
    (∃ done call rest, blockCalls t.basePath block = done ++ call :: rest ∧
      (call.register ((runBlock block t).1.setBasePath "")).2 =
        .error (.invalidPattern "/y/[" .classUnclosed) ∧
      ∀ c ∈ done, ∀ m ∈ c.methods, ((runBlock block t).1.route? m c.pattern).isSome) ∧
    ((runProgram block t).1.route? "get" "/0").isSome := by
  obtain ⟨t, ht⟩ : ∃ t : RouteTable Nat, t = (({} : RouteTable Nat).register "get" "/0" 0).1 :=
    ⟨_, rfl⟩
  obtain ⟨block, hblock⟩ : ∃ block : List (Command Nat), block =
      [.setBasePath "/x",
        .mount "/b" [.register "get" "/1" 1, .setBasePath "/y", .register "put" "/2" 2,
          .register "get" "/[" 3],
        .register "get" "/4" 4] := ⟨_, rfl⟩
  have hfailed : (runBlock block t).2.1 = .error (.invalidPattern "/y/[" .classUnclosed) := by
    rw [ht, hblock]
    cbv
  have hentry : (t.route? "get" "/0").isSome := by
    rw [ht]
    cbv
  obtain ⟨-, -, -, -, hfails, hstays⟩ := runs_flat t
  obtain ⟨done, call, rest, hcalls, -, -, hcall, hdone⟩ := hfails block _ hfailed
  refine ⟨t, block, ?_, hfailed, ⟨done, call, rest, hcalls, hcall, hdone⟩,
    hstays block "get" "/0" hentry⟩
  rw [hblock]
  cbv

end RequestRouting.RouteTable
