import RegisterConsole.Context

/-!
The journal of a console. Each event has a level and a message; a journal keeps the messages of the
events up to a chosen level, in the order in which they happened.
-/

namespace RegisterConsole

/-- Levels, from the gravest to the least. -/
inductive Level where
  | error
  | warn
  | info
  | debug
  | trace
  deriving DecidableEq, Repr

namespace Level

/-- A level is kept where one of the same or a higher rank is. -/
def rank : Level → Nat
  | error => 1
  | warn => 2
  | info => 3
  | debug => 4
  | trace => 5

def name : Level → Text
  | error => .ofString "ERROR"
  | warn => .ofString "WARN"
  | info => .ofString "INFO"
  | debug => .ofString "DEBUG"
  | trace => .ofString "TRACE"

end Level

inductive Event where
  /-- The table of the registers is about to be printed. -/
  | showing (ip : Word)
  | wrote (r : Register) (w : Word)
  /-- A request about the register `name` was turned down. -/
  | rejected (name : Text) (fault : Fault)
  /-- The table could not be printed in full. -/
  | tableLost (reason : Text)
  /-- The message of a fault could not be printed in full. -/
  | diagnosticLost (fault : Fault) (reason : Text)
  deriving DecidableEq, Repr

namespace Event

def level : Event → Level
  | showing _ | wrote .. => .debug
  | rejected .. => .warn
  | tableLost _ | diagnosticLost .. => .error

def message : Event → Text
  | showing ip => Text.ofString "printing registers, ip = " ++ ip.text
  | wrote r w => Text.ofString "set " ++ r.name ++ Text.ofString " to " ++ w.text
  | rejected name fault =>
    Text.ofString "register command rejected `" ++ name ++ Text.ofString "': " ++ fault.message
  | tableLost reason => Text.ofString "could not print registers: " ++ reason
  | diagnosticLost fault reason =>
    Text.ofString "could not print diagnostic `" ++ fault.message ++ Text.ofString "': " ++ reason

end Event

/-- The least level that a journal keeps, if it keeps any. -/
abbrev Verbosity := Option Level

def Verbosity.keeps (v : Verbosity) (l : Level) : Bool :=
  match v with
  | none => false
  | some least => l.rank ≤ least.rank

/-- A message with its level. -/
abbrev Record := Level × Text

/-- What a journal keeps of a run of events. -/
def journal (v : Verbosity) (events : List Event) : List Record :=
  (events.filter fun e => v.keeps e.level).map fun e => (e.level, e.message)

theorem journal_trace (es : List Event) :
    journal (some .trace) es = es.map fun e => (e.level, e.message) := by
  have h : ∀ e ∈ es, Verbosity.keeps (some .trace) e.level = true := by
    intro e _
    cases e <;> rfl
  rw [journal, List.filter_eq_self.mpr h]

end RegisterConsole
