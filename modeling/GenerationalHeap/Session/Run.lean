import GenerationalHeap.Session.Report

namespace GenerationalHeap

/-- Name for the result of a step, and whether code goes on after an error of the step. -/
structure Options where
  name : Option String := none
  tolerant : Bool := false

structure WriterExpr where
  room : Option CountExpr := none
  stalls : Bool := false

def WriterExpr.eval (env : Env) (w : WriterExpr) : Except Refusal Writer :=
  return ⟨← w.room.mapM (CountExpr.eval env), w.stalls⟩

/-- One step of a script; a malformed one is known by the names it gives before it breaks off. -/
inductive Step
  | act (action : Action Operands.written) (options : Options)
  | print (node : NodeExpr) (ending : String) (writer : WriterExpr) (options : Options)
  | call (closure : NodeExpr) (args : List NodeExpr) (options : Options)
  | inhibit (steps : List Step)
  | loop (times : CountExpr) (steps : List Step)
  | malformed (mentions : List Mention)

def Step.tolerant : Step → Bool
  | .act _ options => options.tolerant
  | .print _ _ _ options => options.tolerant
  | .call _ _ options => options.tolerant
  | _ => false

/-- Code of closures: the steps it runs and the value it returns. -/
structure Function where
  steps : List Step
  result : Option NodeExpr := none

/-- A script under way. -/
structure Session where
  context : Context
  env : Env := {}
  reportedLines : Nat := 0

abbrev SessionM := StateT Session (Except Fault)

/-- Runs the code of a closure: what it returns, and the reports of its steps. -/
abbrev Invoke := Nat → SessionM (Except RuntimeError Node × List Report)

namespace Session

/-- Runs an operation on the context of the session. -/
def onContext {α : Type} (act : Mutator α) : SessionM (Except RuntimeError α) := fun s =>
  match act.run.run s.context with
  | .ok (result, context) => .ok (result, { s with context })
  | .error why => .error why

def onEnv (f : Env → Env) : SessionM Unit := modify fun s => { s with env := f s.env }

/-- Reports on a step, with the log lines since the last report. -/
def report (outcome : Outcome) (attachment : Attachment Report) : SessionM Report := do
  let s ← get
  let log := s.context.trace.lines
  set { s with reportedLines := log.size }
  return {
    outcome
    status := s.context.status
    lines := (log.extract s.reportedLines).toList
    attachment }

end Session

/-- What a name for the answer would stand for. -/
def Answer.binding? : Answer → Option Binding
  | .node n => some (.node n)
  | .handle h => some (.handle h)
  | .frame f => some (.frame f)
  | .root id => some (.root id)
  | _ => none

def Outcome.binding? : Outcome → Option Binding
  | .answered answer => answer.binding?
  | _ => none

/-- Outcome of an action that ran. -/
def Outcome.ofResult : Except RuntimeError Answer → Outcome
  | .ok .outOfRange => .refused .outOfRange
  | .ok answer => .answered answer
  | .error why => .failed why

namespace Session

/-- Gives the result of a step its name, and reports on the step. -/
def conclude (options : Options) (outcome : Outcome) (attachment : Attachment Report) :
    SessionM Report := do
  match options.name, outcome.binding? with
  | some name, some binding => onEnv (·.bind name binding)
  | _, _ => pure ()
  report outcome attachment

def runAction (action : Action Operands.written) (options : Options) : SessionM Report := do
  match action.resolve (← get).env with
  | .error why => report (.refused why) .none
  | .ok action =>
    let result ← onContext action.run
    conclude options (.ofResult result) .none

def runPrint (node : NodeExpr) (ending : String) (writer : WriterExpr) (options : Options) :
    SessionM Report := do
  let s ← get
  match (do return (← node.eval s.env, ← writer.eval s.env) : Except Refusal _) with
  | .error why => report (.refused why) .none
  | .ok (node, writer) =>
    let (result, received) := s.context.heap.printWith ending node writer
    conclude options (.ofResult (result.map .node)) (.output received)

/-- The value of a call: void code yields none of its own. -/
def returned (flavour : Flavour) (result : Except RuntimeError Node) : Except RuntimeError Node :=
  match flavour with
  | .void => result.map fun _ => .undefined
  | .value => result

/-- Calls a closure. Its frame and captures end with the call, however its code ends; the code does
not run if the arguments overflow the stack. -/
def callClosure (invoke : Invoke) (closure : Node) (args : List Node) :
    SessionM (Except RuntimeError Node × List Report) := do
  match ← onContext (Mutator.enter closure) with
  | .error why => return (.error why, [])
  | .ok activation =>
    let (result, reports) ← do
      match ← onContext (Mutator.pushAll args) with
      | .error why => pure (.error why, [])
      | .ok _ => invoke activation.code
    let _ ← onContext (Mutator.leave activation)
    return (returned activation.flavour result, reports)

def runCall (invoke : Invoke) (closure : NodeExpr) (args : List NodeExpr) (options : Options) :
    SessionM Report := do
  let env := (← get).env
  match (do return (← closure.eval env, ← args.mapM (NodeExpr.eval env)) : Except Refusal _) with
  | .error why => report (.refused why) .none
  | .ok (closure, args) =>
    let (result, reports) ← callClosure invoke closure args
    conclude options (.ofResult (result.map .node)) (.body reports)

/-- Runs a block in every round, `rounds` of them from `round` on, and keeps the last reports. -/
def runRounds (block : SessionM (List Report)) (round : Nat) :
    Nat → List Report → SessionM (List Report)
  | 0, last => return last
  | rounds + 1, _ => do
    onEnv fun env => { env with round }
    let reports ← block
    runRounds block (round + 1) rounds reports

/-- Runs a block a number of times; the round of an outer loop is back afterwards. -/
def runLoop (block : SessionM (List Report)) (rounds : Nat) : SessionM (List Report) := do
  let outer := (← get).env.round
  let reports ← runRounds block 0 rounds []
  onEnv fun env => { env with round := outer }
  return reports

mutual

def runStep (invoke : Invoke) : Step → SessionM Report
  | .act action options => runAction action options
  | .print node ending writer options => runPrint node ending writer options
  | .call closure args options => runCall invoke closure args options
  | .inhibit steps => do
    let _ ← onContext Mutator.beginInhibit
    let reports ← runBlock invoke steps
    let _ ← onContext Mutator.endInhibit
    report (.answered .nothing) (.block reports)
  | .loop times steps => do
    match times.eval (← get).env with
    | .error why => report (.refused why) .none
    | .ok rounds =>
      let reports ← runLoop (runBlock invoke steps) rounds
      report (.answered .nothing) (.block reports)
  | .malformed mentions => do report (.refused (Mention.refusal (← get).env mentions)) .none

/-- Runs all steps of a block, whatever their outcomes. -/
def runBlock (invoke : Invoke) : List Step → SessionM (List Report)
  | [] => return []
  | step :: steps => do
    let first ← runStep invoke step
    let rest ← runBlock invoke steps
    return first :: rest

end

/-- Runs the steps of a function up to the first error that is not tolerated. -/
def runBody (invoke : Invoke) : List Step → SessionM (Option RuntimeError × List Report)
  | [] => return (none, [])
  | step :: steps => do
    let first ← runStep invoke step
    match first.outcome, step.tolerant with
    | .failed why, false => return (some why, [first])
    | _, _ =>
      let (stopped, rest) ← runBody invoke steps
      return (stopped, first :: rest)

/-- The value a function returns; one that cannot be evaluated is undefined. -/
def resultOf (function : Function) (env : Env) : Node :=
  match function.result.map (NodeExpr.eval env) with
  | some (.ok node) => node
  | _ => .undefined

/-- Runs numbered code, with calls nested at most `depth` deep. A number without code does nothing. -/
def invoke (functions : List Function) : (depth : Nat) → Invoke
  | 0, _ => fun _ => .error .callDepth
  | depth + 1, code =>
    match functions[code]? with
    | none => return (.ok .undefined, [])
    | some function => do
      let (stopped, reports) ← runBody (invoke functions depth) function.steps
      match stopped with
      | some why => return (.error why, reports)
      | none => return (.ok (resultOf function (← get).env), reports)

/-- Reports on the steps of a script up to the first fault. -/
def transcript (invoke : Invoke) : List Step → Session → List Report × Option Fault
  | [], _ => ([], none)
  | step :: steps, s =>
    match (runStep invoke step).run s with
    | .error why => ([], some why)
    | .ok (first, s) =>
      let (rest, ended) := transcript invoke steps s
      (first :: rest, ended)

end Session

/-- Depth to which calls of a script may be nested. -/
def callLimit : Nat := 100000

/-- Runs a script from a new context. -/
def runScript (config : Config) (functions : List Function) (steps : List Step) :
    Except RuntimeError (List Report × Option Fault) :=
  (Context.ofConfig config).map fun context =>
    Session.transcript (Session.invoke functions callLimit) steps { context }

end GenerationalHeap
