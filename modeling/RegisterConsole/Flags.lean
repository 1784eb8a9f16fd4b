import RegisterConsole.Context

/-!
The two flags of the machine, as they stand in the flags word: the condition code in its lowest bit
and single stepping in the next. All other bits of the word have no meaning here.
-/

namespace RegisterConsole

structure Flags where
  condition : Bool := false
  step : Bool := false
  deriving DecidableEq, Repr

namespace Flags

def all : Flags := ⟨true, true⟩

def toWord (f : Flags) : Word := f.condition.toUInt64 + 2 * f.step.toUInt64

/-- The flags of a word, whatever its other bits are. -/
def ofWord (w : Word) : Flags := ⟨w.toNat.testBit 0, w.toNat.testBit 1⟩

/-- The flags of a word that has no other bits. -/
def ofWord? (w : Word) : Option Flags :=
  if (ofWord w).toWord = w then some (ofWord w) else none

def union (f g : Flags) : Flags := ⟨f.condition || g.condition, f.step || g.step⟩

def inter (f g : Flags) : Flags := ⟨f.condition && g.condition, f.step && g.step⟩

def diff (f g : Flags) : Flags := ⟨f.condition && !g.condition, f.step && !g.step⟩

def symmDiff (f g : Flags) : Flags := ⟨f.condition != g.condition, f.step != g.step⟩

def compl (f : Flags) : Flags := ⟨!f.condition, !f.step⟩

def contains (f g : Flags) : Bool := f.inter g = g

def intersects (f g : Flags) : Bool := f.inter g ≠ {}

def isEmpty (f : Flags) : Bool := f = {}

def isAll (f : Flags) : Bool := f = all

/-- The names of the flags that are set. -/
def names (f : Flags) : List Text :=
  (if f.condition then [.ofString "CC"] else []) ++ if f.step then [.ofString "STEP"] else []

def text (f : Flags) : Text :=
  if f.isEmpty then .ofString "(empty)" else (Text.ofString " | ").intercalate f.names

@[simp] theorem ofWord_toWord (f : Flags) : ofWord f.toWord = f := by
  rcases f with ⟨_ | _, _ | _⟩ <;> rfl

theorem ofWord?_eq_some_iff {w : Word} {f : Flags} : ofWord? w = some f ↔ w = f.toWord := by
  constructor
  · intro h
    simp only [ofWord?, Option.ite_none_right_eq_some, Option.some.injEq] at h
    rw [← h.2, h.1]
  · rintro rfl
    simp [ofWord?]

end Flags

/-- The flags of the saved machine. -/
def Context.machineFlags (c : Context) : Flags := Flags.ofWord c.flags

end RegisterConsole
