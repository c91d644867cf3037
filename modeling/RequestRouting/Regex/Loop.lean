import RequestRouting.Regex.Thread

/-!
All threads of a repetition, preferred ones first.

Inside a loop whose body can match the empty text, a thread that comes back to a choice without
having taken a character in between is dropped: whatever it could still do, another thread does
with at least the same preference. So every loop ends, and an empty turn is taken only where
nothing else was possible. Elsewhere no choice can come back, and none is noted.
-/

namespace RequestRouting.Regex

open Thread (distinct)

/-! ## Counted turns -/

/-- Goes through so many copies of a body, one after the other. -/
def runCopies (body : Nat → Thread → List Thread) : Nat → Nat → List Thread → List Thread
  | _, 0, ts => ts
  | k, n + 1, ts => runCopies body (k + 1) n (distinct (ts.flatMap (body k)))

/-- A thread among optional copies: still going through them, or done with them. -/
inductive Turn where
  | going (t : Thread)
  | done (t : Thread)

namespace Turn

def thread : Turn → Thread
  | going t => t
  | done t => t

/-- The first turn of each kind at each position. -/
def distinctFrom : Nat → Nat → List Turn → List Turn
  | _, _, [] => []
  | g, d, going t :: ts =>
    if g.testBit t.pos then distinctFrom g d ts
    else going t :: distinctFrom (g ||| 1 <<< t.pos) d ts
  | g, d, done t :: ts =>
    if d.testBit t.pos then distinctFrom g d ts
    else done t :: distinctFrom g (d ||| 1 <<< t.pos) ts

/-- Offers one more copy to a turn: first the copy and then the way out, or the other way round. -/
def offer (greedy : Bool) (place : Place) (body : Thread → List Thread) : Turn → List Turn
  | done t => [done t]
  | going t =>
    match t.pass? place with
    | none => []
    | some t =>
      if greedy then (body t).map going ++ [done t] else done t :: (body t).map going

end Turn

/-- Goes through at most so many copies of a body. -/
def runOptional (greedy : Bool) (place : Nat → Place) (body : Nat → Thread → List Thread) :
    Nat → Nat → List Turn → List Thread
  | _, 0, ts => distinct (ts.map Turn.thread)
  | k, n + 1, ts =>
    runOptional greedy place body (k + 1) n
      (Turn.distinctFrom 0 0 (ts.flatMap (Turn.offer greedy (place k) (body k))))

/-! ## Loops -/

/-- What a loop has found: the threads that leave it, last first, and the positions at which a turn
ended. -/
structure LoopState where
  found : List Thread := []
  seen : Nat := 0

/-- Ends a turn of a loop at a thread: more turns and then the way out, or the other way round.
Each turn but the last moves on, so the number of positions is fuel enough. -/
def endTurn (greedy : Bool) (place : Place) (body : Thread → List Thread) :
    Nat → LoopState → Thread → LoopState
  | 0, st, _ => st
  | fuel + 1, st, t =>
    if st.seen.testBit t.pos then st
    else
      let st := { st with seen := st.seen ||| 1 <<< t.pos }
      match t.pass? place with
      | none => st
      | some t =>
        if greedy then
          let st := (body t).foldl (endTurn greedy place body fuel) st
          { st with found := t :: st.found }
        else
          (body t).foldl (endTurn greedy place body fuel) { st with found := t :: st.found }

/-- Goes through a body any number of times. -/
def runTurns (greedy : Bool) (place : Place) (body : Thread → List Thread) (fuel : Nat)
    (t : Thread) : List Thread :=
  (endTurn greedy place body fuel {} t).found.reverse

/-- Goes through a body once or more. -/
def runLoop (greedy : Bool) (place : Place) (body : Thread → List Thread) (fuel : Nat)
    (t : Thread) : List Thread :=
  ((body t).foldl (endTurn greedy place body fuel) {}).found.reverse

/-- Offers an optional part to a thread. -/
def runMaybe (greedy : Bool) (place : Place) (body : Thread → List Thread) (t : Thread) :
    List Thread :=
  match t.pass? place with
  | none => []
  | some t => distinct (if greedy then body t ++ [t] else t :: body t)

/-- The place at which the choices of a loop's body are noted, if they are: choices are noted from
the outermost loop on whose body may match the empty text. -/
def loopPlace (nullable : Bool) (p : Place) : Place := if nullable then some (p.getD []) else p

/-- Starts noting choices, where that was not done yet. -/
def startNoting (p : Place) (t : Thread) : Thread :=
  if p.isNone then { t with passed := [] } else t

/-- Goes through a body so many times at least, and at most so many times if there is a bound. The
body is given its place. The number of positions of the text is the fuel. -/
def runRepeated (nullable greedy : Bool) (body : Place → Thread → List Thread) (fuel : Nat)
    (p : Place) (t : Thread) : Nat → Option Nat → List Thread
  | least, some most =>
    let copy (k : Nat) := body (p.part (2 * k))
    let ts := runCopies copy 0 least [t]
    runOptional greedy (fun k => p.part (2 * k + 1)) copy least (most - least) (ts.map Turn.going)
  | 0, none =>
    let q := loopPlace nullable p
    let turn := body (q.part 0)
    if nullable then
      runMaybe greedy (q.part 3) (runLoop greedy (q.part 1) turn fuel) (startNoting p t)
    else runTurns greedy (q.part 1) turn fuel t
  | least + 1, none =>
    let q := loopPlace nullable p
    let copy (k : Nat) := body (q.part (2 * k))
    let ts := runCopies copy 0 least [startNoting p t]
    distinct (ts.flatMap (runLoop greedy (q.part 1) (copy least) fuel))

end RequestRouting.Regex
