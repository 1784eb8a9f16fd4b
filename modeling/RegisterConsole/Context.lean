import RegisterConsole.Fault
import RegisterConsole.Word

/-!
The saved context of a stopped machine: a word for each register. Two contexts are equal when they
agree on every register (`ext_get`), and a write shows in its own register and in no other. Where a
register is given by a name, a name that means none leaves the context as it was. A context is shown
as a table of six rows, with one or two registers in each.
-/

namespace RegisterConsole

structure Context where
  r0 : Word := 0
  r1 : Word := 0
  r2 : Word := 0
  r3 : Word := 0
  r4 : Word := 0
  r5 : Word := 0
  r6 : Word := 0
  r7 : Word := 0
  flags : Word := 0
  controlFlags : Word := 0
  ip : Word := 0
  deriving DecidableEq, Repr

namespace Context

def get (c : Context) : Register → Word
  | .r0 => c.r0
  | .r1 => c.r1
  | .r2 => c.r2
  | .r3 => c.r3
  | .r4 => c.r4
  | .r5 => c.r5
  | .r6 => c.r6
  | .r7 => c.r7
  | .flags => c.flags
  | .controlFlags => c.controlFlags
  | .ip => c.ip

def set (c : Context) (r : Register) (w : Word) : Context :=
  match r with
  | .r0 => { c with r0 := w }
  | .r1 => { c with r1 := w }
  | .r2 => { c with r2 := w }
  | .r3 => { c with r3 := w }
  | .r4 => { c with r4 := w }
  | .r5 => { c with r5 := w }
  | .r6 => { c with r6 := w }
  | .r7 => { c with r7 := w }
  | .flags => { c with flags := w }
  | .controlFlags => { c with controlFlags := w }
  | .ip => { c with ip := w }

/-- The context that holds `f r` in every register `r`. -/
def ofFn (f : Register → Word) : Context :=
  Register.all.foldl (fun c r => c.set r (f r)) {}

theorem get_set_self (c : Context) (r : Register) (w : Word) : (c.set r w).get r = w := by
  cases r <;> rfl

theorem get_set_ne (c : Context) {r s : Register} (w : Word) (h : s ≠ r) :
    (c.set r w).get s = c.get s := by
  cases r <;> cases s <;> first | rfl | exact absurd rfl h

theorem get_set (c : Context) (r s : Register) (w : Word) :
    (c.set r w).get s = if s = r then w else c.get s := by
  split
  · next h => rw [h, get_set_self]
  · next h => exact get_set_ne c w h

theorem ext_get {c d : Context} (h : ∀ r, c.get r = d.get r) : c = d := by
  cases c
  cases d
  have h0 := h .r0
  have h1 := h .r1
  have h2 := h .r2
  have h3 := h .r3
  have h4 := h .r4
  have h5 := h .r5
  have h6 := h .r6
  have h7 := h .r7
  have hf := h .flags
  have hc := h .controlFlags
  have hi := h .ip
  simp only [get] at h0 h1 h2 h3 h4 h5 h6 h7 hf hc hi
  subst h0 h1 h2 h3 h4 h5 h6 h7 hf hc hi
  rfl

@[simp] theorem get_ofFn (f : Register → Word) (r : Register) : (ofFn f).get r = f r := by
  cases r <;> rfl

end Context

/-! ## Registers by name -/

/-- The register that `name` means. -/
def Register.resolve (name : Text) : Except Fault Register :=
  match find? name with
  | some r => .ok r
  | none => .error (.unknownRegister name)

theorem Register.resolve_eq_ok_iff {name : Text} {r : Register} :
    resolve name = .ok r ↔ find? name = some r := by
  cases h : find? name <;> simp [resolve, h]

theorem Register.resolve_eq_error_iff {name : Text} {f : Fault} :
    resolve name = .error f ↔ find? name = none ∧ f = .unknownRegister name := by
  cases h : find? name <;> simp [resolve, h, eq_comm]

namespace Context

/-- Writes `w` to the register that `name` means: what came of it, and the context afterwards. -/
def assign (c : Context) (name : Text) (w : Word) : Except Fault Register × Context :=
  match Register.resolve name with
  | .ok r => (.ok r, c.set r w)
  | .error fault => (.error fault, c)

theorem assign_of_find? {name : Text} {r : Register} (h : Register.find? name = some r)
    (c : Context) (w : Word) : c.assign name w = (.ok r, c.set r w) := by
  rw [assign, Register.resolve_eq_ok_iff.mpr h]

theorem assign_of_unknown {name : Text} (h : Register.find? name = none) (c : Context)
    (w : Word) : c.assign name w = (.error (.unknownRegister name), c) := by
  rw [assign, Register.resolve_eq_error_iff.mpr ⟨h, rfl⟩]

/-! ## The table -/

/-- The registers of the table, row by row. -/
def tableRows : List (List Register) :=
  [[.r0, .r1], [.r2, .r3], [.r4, .r5], [.r6, .r7], [.flags, .controlFlags], [.ip]]

/-- The field of a register: its name and its word. -/
def field (c : Context) (r : Register) : Text :=
  ' ' :: r.name ++ Text.ofString " - " ++ (c.get r).text

/-- A row: a blank, then the fields with commas between them. -/
def row (c : Context) (rs : List Register) : Text :=
  ' ' :: [','].intercalate (rs.map c.field)

def table (c : Context) : List Text := tableRows.map c.row

@[simp] theorem length_field (c : Context) (r : Register) :
    (c.field r).length = r.name.length + 22 := by
  simp [field, Text.ofString]

end Context

end RegisterConsole
