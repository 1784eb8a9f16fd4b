import RegisterConsole.Text

/-!
Why the machine stopped. A trap has a code of thirty-two bits; eleven codes have names, and every
other code is kept as it is.
-/

namespace RegisterConsole

inductive Trap where
  | undefined
  | divideError
  | debug
  | breakpoint
  | overflow
  | invalidOpcode
  | stackFault
  | alignmentCheck
  | instructionEncoding
  | badBreak
  | singleStep
  | invalid (code : UInt32)
  deriving DecidableEq, Repr

namespace Trap

/-- The traps with names, in the order of their codes. -/
def named : List Trap :=
  [undefined, divideError, debug, breakpoint, overflow, invalidOpcode, stackFault, alignmentCheck,
    instructionEncoding, badBreak, singleStep]

def code : Trap → UInt32
  | undefined => 0
  | divideError => 1
  | debug => 2
  | breakpoint => 3
  | overflow => 4
  | invalidOpcode => 5
  | stackFault => 6
  | alignmentCheck => 7
  | instructionEncoding => 8
  | badBreak => 9
  | singleStep => 10
  | invalid code => code

/-- The trap with this code: the one that has a name, if there is one. -/
def ofCode : UInt32 → Trap
  | 0 => undefined
  | 1 => divideError
  | 2 => debug
  | 3 => breakpoint
  | 4 => overflow
  | 5 => invalidOpcode
  | 6 => stackFault
  | 7 => alignmentCheck
  | 8 => instructionEncoding
  | 9 => badBreak
  | 10 => singleStep
  | code => invalid code

def name : Trap → Text
  | undefined => .ofString "Undefined"
  | divideError => .ofString "DivideError"
  | debug => .ofString "Debug"
  | breakpoint => .ofString "Breakpoint"
  | overflow => .ofString "Overflow"
  | invalidOpcode => .ofString "InvalidOpcode"
  | stackFault => .ofString "StackFault"
  | alignmentCheck => .ofString "AlignmentCheck"
  | instructionEncoding => .ofString "InstructionEncoding"
  | badBreak => .ofString "BadBreak"
  | singleStep => .ofString "SingleStep"
  | invalid code => Text.ofString "Invalid(" ++ Text.decimal code.toNat ++ Text.ofString ")"

theorem code_ofCode (code : UInt32) : (ofCode code).code = code := by
  unfold ofCode
  split <;> rfl

theorem ofCode_code_of_mem {t : Trap} (h : t ∈ named) : ofCode t.code = t := by
  have : ∀ t ∈ named, ofCode t.code = t := by decide
  exact this t h

end Trap

end RegisterConsole
