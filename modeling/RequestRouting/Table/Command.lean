import RequestRouting.Table.Basic

/-!
Programs of table operations.

A block that is mounted ends at its first operation that fails, and fails with that error; the
operations of a whole program are run whether or not one before them failed.
-/

namespace RequestRouting.RouteTable

/-- Questions that leave a table as it is. -/
inductive Query where
  | basePath
  | methods
  | size
  | isEmpty
  | resolve (tag : String)
  | routes (method : String)
  | route (method pattern : String)
  /-- Whether two routes share their compiled pattern. -/
  | shared (method₁ pattern₁ method₂ pattern₂ : String)
  /-- A request, and the name of a parameter to look up. -/
  | dispatch (method path param : String)
deriving DecidableEq, Repr

inductive Command (H : Type) where
  | register (method pattern : String) (handler : H)
  | registerEach (methods : List String) (pattern : String) (handler : H)
  | setBasePath (basePath : String)
  | mount (segment : String) (block : List (Command H))
  | query (q : Query)
deriving Inhabited

/-- What an operation answers. -/
inductive Reply (H : Type) where
  | registered (outcome : Outcome) (size : Nat) (methods : List String)
  | mounted (outcome : Outcome) (size : Nat) (basePath : String) (replies : List (Reply H))
  | done
  | text (s : String)
  | texts (ss : List String)
  | number (n : Nat)
  | flag (b : Bool)
  | entries (es : List (RouteEntry H))
  | found (e : Option (RouteEntry H))
  | flag? (b : Option Bool)
  | dispatched (found : Option (RouteMatch H)) (value : Option String)

variable {H : Type}

/-- Whether the operation failed, and how. -/
def Reply.outcome : Reply H → Outcome
  | registered outcome _ _ => outcome
  | mounted outcome _ _ _ => outcome
  | _ => .ok ()

/-- Whether two routes use the same compilation; none unless there are both. -/
def shared? (t : RouteTable H) (method₁ pattern₁ method₂ pattern₂ : String) : Option Bool := do
  let a ← t.route? method₁ pattern₁
  let b ← t.route? method₂ pattern₂
  return a.shared.serial == b.shared.serial

def answer (t : RouteTable H) : Query → Reply H
  | .basePath => .text t.basePath
  | .methods => .texts t.methods
  | .size => .number t.size
  | .isEmpty => .flag t.isEmpty
  | .resolve tag => .text (t.types.resolve tag)
  | .routes method => .entries (t.routesOf method)
  | .route method pattern => .found (t.route? method pattern)
  | .shared m₁ p₁ m₂ p₂ => .flag? (t.shared? m₁ p₁ m₂ p₂)
  | .dispatch method path param =>
    let found := t.dispatch method path
    .dispatched found (found.bind fun m => m.params.get? param)

/-- The reply to a registration. -/
def registeredReply (r : RouteTable H × Outcome) : RouteTable H × Reply H :=
  (r.1, .registered r.2 r.1.size r.1.methods)

mutual

/-- Runs one operation. -/
def Command.run [Regex.ProgramSize] : Command H → RouteTable H → RouteTable H × Reply H
  | .register method pattern handler, t => registeredReply (t.register method pattern handler)
  | .registerEach methods pattern handler, t =>
    registeredReply (RouteTable.registerEach pattern handler methods t)
  | .setBasePath basePath, t => (t.setBasePath basePath, .done)
  | .mount segment block, t =>
    let (t, outcome, replies) := t.mount segment (runBlock block)
    (t, .mounted outcome t.size t.basePath replies)
  | .query q, t => (t, t.answer q)

/-- Runs the operations of a block up to the first that fails. -/
def runBlock [Regex.ProgramSize] : List (Command H) → RouteTable H → RouteTable H × Outcome × List (Reply H)
  | [], t => (t, .ok (), [])
  | c :: cs, t =>
    let (t, reply) := c.run t
    match reply.outcome with
    | .error e => (t, .error e, [reply])
    | .ok () =>
      let (t, outcome, replies) := runBlock cs t
      (t, outcome, reply :: replies)

end

/-- Runs all operations of a program. -/
def runProgram [Regex.ProgramSize] :
    List (Command H) → RouteTable H → RouteTable H × List (Reply H)
  | [], t => (t, [])
  | c :: cs, t =>
    let (t, reply) := c.run t
    let (t, replies) := runProgram cs t
    (t, reply :: replies)

end RequestRouting.RouteTable
