import RegisterConsole.Request
import RegisterConsole.Trap

/-!
Commands of the console. A command is called with the trap that stopped the machine, its argument
and the cursor behind it; it says how the machine goes on. The one command here shows and changes
registers.
-/

namespace RegisterConsole

/-- How the machine goes on after a command. -/
inductive Status where
  | leave
  | halt
  | proceed
  deriving DecidableEq, Repr

namespace Status

def code : Status → UInt32
  | leave => 1
  | halt => 2
  | proceed => 3

def name : Status → Text
  | leave => .ofString "Return"
  | halt => .ofString "Break"
  | proceed => .ofString "Continue"

end Status

/-- What a command leaves behind. -/
structure Outcome where
  status : Status
  line : Cursor
  effect : Effect
  deriving DecidableEq, Repr

structure Command where
  name : Text
  help : Text
  usage : Text
  handler : Trap → Options → Option Text → Cursor → Context → Sink → Outcome

/-- The word names the command, in either case. -/
def Command.matches (c : Command) (word : Text) : Bool := Text.SameFold c.name word

/-- Shows the registers, or writes a value to one; whatever comes of it, the machine stays stopped
and the console goes on. -/
def registerCommand : Command where
  name := .ofString "r"
  help := .ofString "display/modify register"
  usage := .ofString "R [<Register> <Value>]"
  handler _ o arg line c s :=
    let (request, rest) := Request.read o.policy arg line
    { status := .proceed, line := rest, effect := request.run o c s }

end RegisterConsole
