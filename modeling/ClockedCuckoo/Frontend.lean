import ClockedCuckoo.Backlog
import ClockedCuckoo.Engine.Cycle

/-!
The front end of an engine. It keeps each queued request on its line until the engine accepts it,
collects the responses, and runs the clock until everything asked for is done.
-/

namespace ClockedCuckoo

structure Frontend where
  engine : Engine
  backlog : Backlog := {}
  lines : Lines := {}
  /-- Responses delivered and not yet taken, in the order of their lookups. -/
  responses : List Response := []
  /-- The cycles that ended without a fault. -/
  ticks : Nat := 0

namespace Frontend

def defaultBudget : Nat := 10000

def ofEngine (e : Engine) : Frontend :=
  { engine := e }

def push (f : Frontend) (r : Request) : Frontend :=
  { f with backlog := f.backlog.push r }

def setReady (f : Frontend) (ready : Bool) : Frontend :=
  { f with lines := { f.lines with resultReady := ready } }

def fillLines (f : Frontend) : Frontend :=
  { f with lines := f.backlog.fill f.lines, backlog := f.backlog.drain f.lines }

/-- Takes in what a cycle of the engine led to. An accepted request leaves its line; after a fault
all lines are held. -/
def settle (f : Frontend) (o : Outcome Engine Duplicate Outputs) : Frontend :=
  match o.result with
  | .ok out =>
    { f with
      engine := o.state
      lines := f.lines.release out.accepted
      responses := f.responses ++ out.response.toList
      ticks := f.ticks + 1 }
  | .error _ => { f with engine := o.state }

def step (f : Frontend) : Checked (Outcome Frontend Duplicate Outputs) :=
  match f.fillLines.engine.cycle f.fillLines.lines with
  | .error v => .error v
  | .ok o => .ok { state := f.fillLines.settle o, result := o.result, events := o.events }

def atRest (f : Frontend) : Bool :=
  f.lines.isQuiet && f.backlog.isEmpty && f.engine.atRest

/-- Steps until quiescent, for at most `budget` cycles more; `spent` are over and `trace` holds
their reports, the latest first. -/
def runFrom (f : Frontend) (spent : Nat) (trace : List Event) (budget : Nat) :
    Checked (Outcome Frontend Error Nat) :=
  if f.atRest then .ok ⟨f, .ok spent, trace.reverse⟩
  else
    match budget with
    | 0 =>
      .ok ⟨f, .error (.timeout "run_until_quiescent" spent),
        (.timedOut spent f.engine.phase :: trace).reverse⟩
    | budget + 1 =>
      match f.step with
      | .error v => .error v
      | .ok o =>
        let trace := o.events.reverse ++ trace
        match o.result with
        | .error d => .ok ⟨o.state, .error (.duplicateKey d), trace.reverse⟩
        | .ok _ => o.state.runFrom (spent + 1) trace budget

def run (f : Frontend) (budget : Nat) : Checked (Outcome Frontend Error Nat) :=
  f.runFrom 0 [] budget

/-- Queues a request and runs until quiescent; a timeout is told under the request's name. -/
def perform (f : Frontend) (r : Request) (budget : Nat) :
    Checked (Outcome Frontend Error Unit) :=
  match (f.push r).run budget with
  | .error v => .error v
  | .ok o =>
    .ok
      { state := o.state
        result := match o.result with
          | .ok _ => .ok ()
          | .error e => .error (e.renamed r.operation.name)
        events := o.events }

def insert (f : Frontend) (key : Key) (data : Data) (budget : Nat) :
    Checked (Outcome Frontend Error Unit) :=
  f.perform (.insert key data) budget

def delete (f : Frontend) (key : Key) (budget : Nat) : Checked (Outcome Frontend Error Unit) :=
  f.perform (.delete key) budget

def clean (f : Frontend) (budget : Nat) : Checked (Outcome Frontend Error Unit) :=
  f.perform .clean budget

def removeLast? {α : Type} (p : α → Bool) : List α → Option (α × List α)
  | [] => none
  | x :: xs =>
    match removeLast? p xs with
    | some (y, ys) => some (y, x :: ys)
    | none => if p x then some (x, xs) else none

/-- Queues a lookup, runs until quiescent and takes the lookup's own response: the last one for the
key among those that arrived meanwhile. -/
def lookup (f : Frontend) (key : Key) (budget : Nat) :
    Checked (Outcome Frontend Error Response) :=
  match f.perform (.lookup key) budget with
  | .error v => .error v
  | .ok o =>
    match o.result with
    | .error e => .ok { o with result := .error e }
    | .ok () =>
      let earlier := o.state.responses.take f.responses.length
      let arrived := o.state.responses.drop f.responses.length
      match removeLast? (·.key == key &&& f.engine.config.keyMask) arrived with
      | some (r, others) =>
        .ok
          { state := { o.state with responses := earlier ++ others }
            result := .ok r
            events := o.events }
      | none => .ok { o with result := .error (.timeout "lookup" budget) }

def collect (f : Frontend) : List Response × Frontend :=
  (f.responses, { f with responses := [] })

end Frontend
end ClockedCuckoo
