import RegisterConsole.Text

/-!
Hexadecimal digits, and the words of sixty-four bits that registers hold.

A digit is read in either case and written small; `fixed` writes the lowest digits of a number to a
fixed width, and `value` reads them back. A word has eight bytes, the least first, and a text of
sixteen digits.
-/

namespace RegisterConsole

namespace Hex

/-- The sixteen digits in the order of their values. -/
def digits : Text := .ofString "0123456789abcdef"

/-- The value of a digit, capital or small. -/
def digit? (c : Char) : Option Nat := digits.idxOf? c.toLower

/-- The small digit of a value below sixteen. -/
def digitOf (n : Nat) : Char := digits.getD n '0'

theorem digit?_lt {c : Char} {d : Nat} (h : digit? c = some d) : d < 16 := by
  rw [digit?, List.idxOf?, List.findIdx?_eq_some_iff_getElem] at h
  exact h.1

theorem digit?_digitOf {n : Nat} (h : n < 16) : digit? (digitOf n) = some n := by
  have : ∀ m < 16, digit? (digitOf m) = some m := by decide
  exact this n h

theorem toNat_digitOf {n : Nat} (h : n < 16) :
    (digitOf n).toNat = if n < 10 then 48 + n else 87 + n := by
  have : ∀ m < 16, (digitOf m).toNat = if m < 10 then 48 + m else 87 + m := by decide
  exact this n h

theorem digit?_congr {a b : Char} (h : a.toLower = b.toLower) : digit? a = digit? b := by
  simp [digit?, h]

/-- The small digits: ten decimal ones, and six letters. -/
theorem map_toNat_digits : digits.map Char.toNat = List.range' 48 10 ++ List.range' 97 6 := rfl

/-- A digit is a decimal one, or one of the first six letters in either case. -/
theorem toNat_of_digit? {c : Char} {d : Nat} (h : digit? c = some d) :
    (48 ≤ c.toNat ∧ c.toNat ≤ 57) ∨ (65 ≤ c.toNat ∧ c.toNat ≤ 70) ∨
      (97 ≤ c.toNat ∧ c.toNat ≤ 102) := by
  have hm : c.toLower ∈ digits := by
    rw [digit?, List.idxOf?, List.findIdx?_eq_some_iff_getElem] at h
    obtain ⟨hd, he, _⟩ := h
    exact eq_of_beq he ▸ List.getElem_mem hd
  have hn : c.toLower.toNat ∈ digits.map Char.toNat := List.mem_map_of_mem hm
  rw [map_toNat_digits, List.mem_append, List.mem_range'_1, List.mem_range'_1,
    Text.toNat_toLower] at hn
  split at hn <;> omega

theorem isBlank_eq_false_of_digit? {c : Char} {d : Nat} (h : digit? c = some d) :
    Text.isBlank c = false := by
  have hn := toNat_of_digit? h
  exact Text.isBlank_eq_false (by omega)

/-! ## Numbers -/

/-- The number that a text of digits stands for; a character that is no digit counts as zero. -/
def value (t : Text) : Nat := t.foldl (fun n c => 16 * n + (digit? c).getD 0) 0

/-- The lowest `width` digits of a number. -/
def fixed : Nat → Nat → Text
  | 0, _ => []
  | width + 1, n => fixed width (n / 16) ++ [digitOf (n % 16)]

@[simp] theorem length_fixed (width n : Nat) : (fixed width n).length = width := by
  induction width generalizing n with
  | zero => rfl
  | succ width ih => simp [fixed, ih]

theorem mem_fixed {width n : Nat} {c : Char} (h : c ∈ fixed width n) :
    ∃ d < 16, c = digitOf d := by
  induction width generalizing n with
  | zero => simp [fixed] at h
  | succ width ih =>
    rcases List.mem_append.mp h with h | h
    · exact ih h
    · exact ⟨n % 16, Nat.mod_lt n (by decide), List.mem_singleton.mp h⟩

theorem isSome_digit?_of_mem_fixed {width n : Nat} {c : Char} (h : c ∈ fixed width n) :
    (digit? c).isSome := by
  obtain ⟨d, hd, rfl⟩ := mem_fixed h
  rw [digit?_digitOf hd]
  rfl

theorem value_concat (t : Text) (c : Char) :
    value (t ++ [c]) = 16 * value t + (digit? c).getD 0 := by
  simp [value]

end Hex

/-! ## Words -/

abbrev Word := UInt64

namespace Word

/-- The bytes of a word, the least first. -/
def bytes (w : Word) : List UInt8 :=
  (List.range 8).map fun j => UInt8.ofNat (w.toNat >>> (8 * j))

/-- The word whose bytes these are, the least first. -/
def ofBytes (bs : List UInt8) : Word :=
  UInt64.ofNat (bs.foldr (fun b n => b.toNat + 256 * n) 0)

/-- The text of a word: a marker and sixteen small digits. -/
def text (w : Word) : Text := '0' :: 'x' :: Hex.fixed 16 w.toNat

@[simp] theorem length_bytes (w : Word) : w.bytes.length = 8 := by simp [bytes]

theorem ofBytes_bytes (w : Word) : ofBytes w.bytes = w := by
  have h := w.toNat_lt
  apply UInt64.toNat_inj.mp
  simp [ofBytes, bytes, List.range, List.range.loop]
  omega

theorem bytes_ofBytes {bs : List UInt8} (h : bs.length = 8) : (ofBytes bs).bytes = bs := by
  match bs, h with
  | [a, b, c, d, e, f, g, i], _ =>
    have := a.toNat_lt; have := b.toNat_lt; have := c.toNat_lt; have := d.toNat_lt
    have := e.toNat_lt; have := f.toNat_lt; have := g.toNat_lt; have := i.toNat_lt
    simp only [bytes, ofBytes, List.range, List.range.loop, List.map_cons, List.map_nil,
      List.foldr_cons, List.foldr_nil, List.cons.injEq, and_true, ← UInt8.toNat_inj,
      UInt8.toNat_ofNat', UInt64.toNat_ofNat']
    omega

@[simp] theorem length_text (w : Word) : w.text.length = 18 := by simp [text]

end Word

end RegisterConsole
