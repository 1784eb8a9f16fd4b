import RegisterConsole.Command
import RegisterConsole.Context.Image
import RegisterConsole.Flags

/-!
A session at the console: the machine, the options, the sink and the journal, changed step by step.
Each step has an answer, which tells its result, what the sink accepted, what the journal kept and
the context after it.
-/

namespace RegisterConsole

structure Session where
  context : Context := {}
  options : Options := {}
  sink : Sink := {}
  /-- Why the machine stopped. -/
  trap : Trap := .breakpoint
  verbosity : Verbosity := some .trace
  deriving DecidableEq, Repr

namespace Session

inductive Step where
  /-- A line is typed. -/
  | line (text : Text)
  /-- The register command is called with an argument and a line of which `skip` words are taken. -/
  | call (arg : Option Text) (text : Text) (skip : Nat)
  | get (r : Register)
  | set (r : Register) (w : Word)
  | assign (name : Text) (w : Word)
  | load (bytes : List UInt8)
  | save (buffer : List UInt8)
  | flags
  | dump
  | sink (s : Sink)
  | options (settings : List Setting)
  | trap (code : UInt32)
  deriving DecidableEq, Repr

inductive Result where
  | done
  /-- The line has no word. -/
  | empty
  /-- The first word of the line is no command. -/
  | unknown (word : Text)
  | ran (status : Status) (rest : Text)
  | word (w : Word)
  | register (r : Register)
  | buffer (bytes : List UInt8)
  | flags (f : Flags)
  | trap (t : Trap)
  | fault (f : Fault)
  deriving DecidableEq, Repr

structure Answer where
  result : Result
  output : List UInt8 := []
  log : List Record := []
  context : Context
  deriving DecidableEq, Repr

/-- The answer of a step that prints and logs nothing. -/
def reply (s : Session) (result : Result) : Session × Answer :=
  (s, { result := result, context := s.context })

/-- Calls the register command. -/
def call (s : Session) (arg : Option Text) (line : Cursor) : Session × Answer :=
  let o := registerCommand.handler s.trap s.options arg line s.context s.sink
  ({ s with context := o.effect.context, sink := o.effect.sink },
    { result := .ran o.status o.line.rest
      output := o.effect.output
      log := journal s.verbosity o.effect.events
      context := o.effect.context })

/-- Calls the command that the first word of a line names, with the second word as its argument. -/
def dispatch (s : Session) (line : Cursor) : Session × Answer :=
  match line.next with
  | (none, _) => s.reply .empty
  | (some word, rest) =>
    if registerCommand.matches word then s.call rest.next.1 rest.next.2
    else s.reply (.unknown word)

/-- Prints the table of the registers. -/
def dump (s : Session) : Session × Answer :=
  let w := s.sink.printLines s.context.table
  ({ s with sink := w.sink },
    { result := w.failure.elim .done fun reason => .fault (.sinkFailed reason)
      output := w.accepted
      context := s.context })

def step (s : Session) : Step → Session × Answer
  | .line text => s.dispatch ⟨text⟩
  | .call arg text skip => s.call arg (Cursor.skip skip ⟨text⟩)
  | .get r => s.reply (.word (s.context.get r))
  | .set r w => { s with context := s.context.set r w }.reply .done
  | .assign name w =>
    match s.context.assign name w with
    | (.ok r, c) => { s with context := c }.reply (.register r)
    | (.error fault, c) => { s with context := c }.reply (.fault fault)
  | .load bytes =>
    match Context.load bytes with
    | .ok c => { s with context := c }.reply .done
    | .error fault => s.reply (.fault fault)
  | .save buffer =>
    match s.context.storeIn buffer with
    | (.ok (), bytes) => s.reply (.buffer bytes)
    | (.error fault, _) => s.reply (.fault fault)
  | .flags => s.reply (.flags s.context.machineFlags)
  | .dump => s.dump
  | .sink sink => { s with sink := sink }.reply .done
  | .options settings => { s with options := .ofSettings settings }.reply .done
  | .trap code => { s with trap := .ofCode code }.reply (.trap (.ofCode code))

/-- The session after some steps. -/
def after (s : Session) (steps : List Step) : Session :=
  steps.foldl (fun s step => (s.step step).1) s

/-- The answers to some steps, in their order. -/
def answers (s : Session) : List Step → List Answer
  | [] => []
  | step :: steps => (s.step step).2 :: (s.step step).1.answers steps

@[simp] theorem after_nil (s : Session) : s.after [] = s := rfl

@[simp] theorem after_cons (s : Session) (step : Step) (steps : List Step) :
    s.after (step :: steps) = (s.step step).1.after steps := rfl

theorem after_append (s : Session) (xs ys : List Step) :
    s.after (xs ++ ys) = (s.after xs).after ys := List.foldl_append

theorem length_answers (s : Session) (steps : List Step) :
    (s.answers steps).length = steps.length := by
  induction steps generalizing s with
  | nil => rfl
  | cons step steps ih => simp [answers, ih]

theorem getElem?_answers (s : Session) (xs : List Step) (i : Nat) :
    (s.answers xs)[i]? = xs[i]?.map fun x => ((s.after (xs.take i)).step x).2 := by
  induction xs generalizing s i with
  | nil => simp [answers]
  | cons x xs ih =>
    cases i with
    | zero => simp [answers]
    | succ i => simp [answers, ih]

/-- The context of an answer is the context of the session after its step. -/
theorem context_step (s : Session) (x : Step) : (s.step x).2.context = (s.step x).1.context := by
  cases x <;> simp only [step, reply, call, dump]
  · simp only [dispatch, reply, call]
    split
    · rfl
    · split <;> rfl
  · split <;> rfl
  · split <;> rfl
  · split <;> rfl

end Session

end RegisterConsole
