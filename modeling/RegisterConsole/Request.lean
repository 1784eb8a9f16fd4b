import RegisterConsole.Cursor
import RegisterConsole.Journal
import RegisterConsole.Sink
import RegisterConsole.Value

/-!
What a line asks of the registers, under which options, and carrying it out. A request is read from
the name of a register and the word behind it; the word is judged before the name, so of two faults
the one in the value is told. Without a name the request is to show all registers.
-/

namespace RegisterConsole

/-! ## Options -/

structure Options where
  /-- How values are read. -/
  policy : Policy := .strict
  /-- Whether accepted writes go into the log. -/
  logWrites : Bool := true
  deriving DecidableEq, Repr

inductive Setting where
  | policy (p : Policy)
  | logWrites (enabled : Bool)
  deriving DecidableEq, Repr

/-- The policy that a setting chooses, if it chooses one. -/
def Setting.policy? : Setting → Option Policy
  | policy p => some p
  | logWrites _ => none

/-- Whether a setting wants writes in the log, if it has a say in that. -/
def Setting.logWrites? : Setting → Option Bool
  | policy _ => none
  | logWrites enabled => some enabled

namespace Options

def apply (o : Options) : Setting → Options
  | .policy p => { o with policy := p }
  | .logWrites enabled => { o with logWrites := enabled }

/-- The default options after these settings. -/
def ofSettings (settings : List Setting) : Options := settings.foldl apply {}

theorem foldl_apply (o : Options) (settings : List Setting) :
    settings.foldl apply o =
      { policy := (settings.filterMap Setting.policy?).getLast?.getD o.policy
        logWrites := (settings.filterMap Setting.logWrites?).getLast?.getD o.logWrites } := by
  induction settings generalizing o with
  | nil => rfl
  | cons s settings ih =>
    rw [List.foldl_cons, ih]
    cases s <;> simp [apply, Setting.policy?, Setting.logWrites?, List.getLast?_cons]

/-- Of the settings of a kind the last counts; without one of them values are read strictly, and
writes are logged. -/
theorem ofSettings_eq (settings : List Setting) :
    ofSettings settings =
      { policy := (settings.filterMap Setting.policy?).getLast?.getD .strict
        logWrites := (settings.filterMap Setting.logWrites?).getLast?.getD true } :=
  foldl_apply {} settings

/-- The text of the options, field by field between braces. -/
def text (o : Options) : Text :=
  Text.ofString "DebuggerOptions " ++ '{' :: ' ' :: fields o ++ [' ', '}']
where
  fields (o : Options) : Text :=
    Text.ofString "value_policy: " ++ o.policy.name ++ Text.ofString ", log_writes: " ++
      Text.ofString (if o.logWrites then "true" else "false")

end Options

/-! ## Requests -/

inductive Request where
  | display
  | write (r : Register) (w : Word)
  /-- Nothing can be done about the register `name`, because of the fault. -/
  | reject (name : Text) (fault : Fault)
  deriving DecidableEq, Repr

/-- What carrying out a request leaves behind. -/
structure Effect where
  context : Context
  sink : Sink
  output : List UInt8 := []
  events : List Event := []
  deriving DecidableEq, Repr

namespace Request

/-- The request that a name makes together with the word behind it, if there is one. -/
def ofWord (p : Policy) (name : Text) : Option Text → Request
  | none => .reject name .missingValue
  | some word =>
    match Value.read p word with
    | .error fault => .reject name fault
    | .ok w =>
      match Register.resolve name with
      | .error fault => .reject name fault
      | .ok r => .write r w

/-- The request of an argument and the words of a line; only a request with a name takes a word. -/
def read (p : Policy) (arg : Option Text) (line : Cursor) : Request × Cursor :=
  match arg with
  | none => (.display, line)
  | some name => (ofWord p name line.next.1, line.next.2)

def run (o : Options) (c : Context) (s : Sink) : Request → Effect
  | .display =>
    let w := s.printLines c.table
    { context := c, sink := w.sink, output := w.accepted
      events := .showing c.ip :: (w.failure.map Event.tableLost).toList }
  | .write r w =>
    { context := c.set r w, sink := s, events := if o.logWrites then [.wrote r w] else [] }
  | .reject name fault =>
    let w := s.printLines [fault.message]
    { context := c, sink := w.sink, output := w.accepted
      events := .rejected name fault :: (w.failure.map (Event.diagnosticLost fault)).toList }

@[simp] theorem read_some (p : Policy) (name : Text) (line : Cursor) :
    read p (some name) line = (ofWord p name line.next.1, line.next.2) := rfl

@[simp] theorem context_run_write (o : Options) (c : Context) (s : Sink) (r : Register)
    (w : Word) : ((write r w).run o c s).context = c.set r w := rfl

end Request

end RegisterConsole
