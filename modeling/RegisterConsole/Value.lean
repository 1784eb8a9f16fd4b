import RegisterConsole.Fault
import RegisterConsole.Word

/-!
Reading the value of a register from a text of hexadecimal digits. The strict policy takes the whole
text or refuses it; the lenient policy takes what it can read and ends at the greatest word.
-/

namespace RegisterConsole

inductive Policy where
  | strict
  | lenient
  deriving DecidableEq, Repr

def Policy.name : Policy → Text
  | strict => .ofString "Strict"
  | lenient => .ofString "Lenient"

namespace Value

/-! ## Strict -/

/-- The text without the one `0x` or `0X` in front of it. -/
def dropMarker : Text → Text
  | '0' :: 'x' :: t => t
  | '0' :: 'X' :: t => t
  | t => t

/-- The number with one more digit, as long as a word can hold it. -/
def push? (n d : Nat) : Option Nat :=
  if 16 * n + d < UInt64.size then some (16 * n + d) else none

/-- The value of a text of one or more digits behind an optional marker. -/
def strict (t : Text) : Except Fault Word :=
  match (dropMarker t).mapM Hex.digit? with
  | none | some [] => .error (.malformedNumber t)
  | some ds =>
    match ds.foldlM push? 0 with
    | some n => .ok (UInt64.ofNat n)
    | none => .error (.numberTooLarge t)

/-! ## Lenient -/

/-- The text without the one `x` or `X` in front of it. -/
def dropCross : Text → Text
  | 'x' :: t => t
  | 'X' :: t => t
  | t => t

/-- The values of the digits in front of a text, up to its first other character. -/
def leadingDigits : Text → List Nat
  | [] => []
  | c :: t =>
    match Hex.digit? c with
    | some d => d :: leadingDigits t
    | none => []

/-- The digits behind blanks, zeros and an optional cross. -/
def readDigits (t : Text) : List Nat :=
  leadingDigits (dropCross ((t.dropWhile Text.isBlank).dropWhile (· = '0')))

/-- Shifts digits into a word: the words that are shifted, in their order, and the word that comes
of it. Once a digit would push a set bit out, that is the greatest word. -/
def shifts : Word → List Nat → List Word × Word
  | w, [] => ([], w)
  | w, d :: ds =>
    if w >>> 60 = 0 then
      let r := shifts (w <<< 4 ||| UInt64.ofNat d) ds
      (w :: r.1, r.2)
    else ([], UInt64.ofNat (UInt64.size - 1))

/-- The word that comes of shifting digits into `w`. -/
def saturate (w : Word) (ds : List Nat) : Word := (shifts w ds).2

theorem saturate_nil (w : Word) : saturate w [] = w := rfl

theorem saturate_cons (w : Word) (d : Nat) (ds : List Nat) :
    saturate w (d :: ds) =
      if w >>> 60 = 0 then saturate (w <<< 4 ||| UInt64.ofNat d) ds
      else UInt64.ofNat (UInt64.size - 1) := by
  rw [saturate, shifts]
  split <;> rfl

/-- The value of the digits that are read. -/
def lenient (t : Text) : Word := saturate 0 (readDigits t)

/-! ## Both -/

def read : Policy → Text → Except Fault Word
  | .strict, t => strict t
  | .lenient, t => .ok (lenient t)

theorem lt_of_mem_leadingDigits {t : Text} {d : Nat} (h : d ∈ leadingDigits t) : d < 16 := by
  induction t with
  | nil => simp [leadingDigits] at h
  | cons c t ih =>
    cases hc : Hex.digit? c with
    | none => simp [leadingDigits, hc] at h
    | some e =>
      simp only [leadingDigits, hc, List.mem_cons] at h
      rcases h with rfl | h
      · exact Hex.digit?_lt hc
      · exact ih h

end Value

end RegisterConsole
