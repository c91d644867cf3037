import RequestRouting.Router.Basic
import RequestRouting.Router.Responder
import RequestRouting.Table.Command

/-!
Programs of router operations. As with tables, a block that is mounted ends at its first operation that
fails. Operations on the table of a router may be done directly, also within a block.

Actions may keep a state, which a session holds beside the router.
-/

namespace RequestRouting.Router

/-- Questions that call no action. -/
inductive Query where
  | basePath
  | methods
  | size
  | fallback
  | routes (method : String)
  | dispatch (method path : String)
deriving DecidableEq, Repr

inductive Command (A : Type) where
  | register (method pattern : String) (handler : Handler A)
  | registerEach (methods : List String) (pattern : String) (handler : Handler A)
  | setBasePath (basePath : String)
  | setFallback (fallback : Fallback A)
  | mount (segment : String) (block : List (Command A))
  /-- An operation on the table itself. -/
  | table (c : RouteTable.Command (Handler A))
  | query (q : Query)
  | handle (method path : String)

/-- What an operation answers; `R` is what actions give. -/
inductive Reply (A R : Type) where
  | registered (outcome : Outcome) (size : Nat)
  | mounted (outcome : Outcome) (size : Nat) (basePath : String) (replies : List (Reply A R))
  | done
  | text (s : String)
  | texts (ss : List String)
  | number (n : Nat)
  | fallback (f : Option (Fallback A))
  | entries (es : List (RouteEntry (Handler A)))
  | dispatched (found : Option (RouteMatch (Handler A)))
  | table (reply : RouteTable.Reply (Handler A))
  | response (r : Response R)

/-- A router, and what its actions keep. -/
structure Session (A S : Type) where
  router : Router A
  state : S

variable {A S R : Type}

/-- Whether the operation failed, and how. -/
def Reply.outcome : Reply A R → Outcome
  | registered outcome _ => outcome
  | mounted outcome _ _ _ => outcome
  | table reply => reply.outcome
  | _ => .ok ()

def answer (r : Router A) : Query → Reply A R
  | .basePath => .text r.table.basePath
  | .methods => .texts r.table.methods
  | .size => .number r.table.size
  | .fallback => .fallback r.fallback
  | .routes method => .entries (r.table.routesOf method)
  | .dispatch method path => .dispatched (r.table.dispatch method path)

namespace Session

/-- Changes the router. -/
def update {α : Type} (s : Session A S) (change : Router A → Router A × α) : Session A S × α :=
  let (router, result) := change s.router
  ({ s with router }, result)

/-- Serves a request. -/
def handle (call : A → Params → StateM S R) (s : Session A S) (method path : String) :
    Session A S × Response R :=
  let (response, state) := s.router.handle call method path s.state
  ({ s with state }, response)

/-- Runs changes under more text at the end of the base path. -/
def mount {α : Type} (s : Session A S) (segment : String)
    (changes : Session A S → Session A S × α) : Session A S × α :=
  let (router, state, result) := s.router.mount segment fun r =>
    let (inner, result) := changes { s with router := r }
    (inner.router, inner.state, result)
  (⟨router, state⟩, result)

end Session

/-- The reply to a registration. -/
def registeredReply (r : Session A S × Outcome) : Session A S × Reply A R :=
  (r.1, .registered r.2 r.1.router.table.size)

mutual

/-- Runs one operation. -/
def Command.run [Regex.ProgramSize] (call : A → Params → StateM S R) :
    Command A → Session A S → Session A S × Reply A R
  | .register method pattern handler, s =>
    registeredReply (s.update fun r => r.update fun t => t.register method pattern handler)
  | .registerEach methods pattern handler, s =>
    registeredReply (s.update fun r => r.update (RouteTable.registerEach pattern handler methods))
  | .setBasePath basePath, s =>
    ((s.update fun r => r.update fun t => (t.setBasePath basePath, ())).1, .done)
  | .setFallback fallback, s => ((s.update fun r => (r.setFallback fallback, ())).1, .done)
  | .mount segment block, s =>
    let (s, outcome, replies) := s.mount segment (runBlock call block)
    (s, .mounted outcome s.router.table.size s.router.table.basePath replies)
  | .table c, s =>
    let (s, reply) := s.update fun r => r.update c.run
    (s, .table reply)
  | .query q, s => (s, s.router.answer q)
  | .handle method path, s =>
    let (s, response) := s.handle call method path
    (s, .response response)

/-- Runs the operations of a block up to the first that fails. -/
def runBlock [Regex.ProgramSize] (call : A → Params → StateM S R) :
    List (Command A) → Session A S → Session A S × Outcome × List (Reply A R)
  | [], s => (s, .ok (), [])
  | c :: cs, s =>
    let (s, reply) := c.run call s
    match reply.outcome with
    | .error e => (s, .error e, [reply])
    | .ok () =>
      let (s, outcome, replies) := runBlock call cs s
      (s, outcome, reply :: replies)

end

/-- Runs all operations of a program. -/
def runProgram [Regex.ProgramSize] (call : A → Params → StateM S R) :
    List (Command A) → Session A S → Session A S × List (Reply A R)
  | [], s => (s, [])
  | c :: cs, s =>
    let (s, reply) := c.run call s
    let (s, replies) := runProgram call cs s
    (s, reply :: replies)

end RequestRouting.Router
