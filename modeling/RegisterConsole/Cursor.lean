import RegisterConsole.Text

/-!
A cursor over the words of a line. A word is a longest run of characters that are not blank. What
follows the words taken so far is kept as it stands; each word makes it shorter (`length_next_lt`).
-/

namespace RegisterConsole

structure Cursor where
  /-- The text that no word was taken from yet. -/
  rest : Text
  deriving DecidableEq, Repr

/-- The characters that words consist of. -/
def Text.isInk (c : Char) : Bool := !isBlank c

namespace Cursor

/-- The next word, and the cursor behind it. Where only blanks are left, they are passed over. -/
def next (c : Cursor) : Option Text × Cursor :=
  match c.rest.dropWhile Text.isBlank with
  | [] => (none, ⟨[]⟩)
  | t => (some (t.takeWhile Text.isInk), ⟨t.dropWhile Text.isInk⟩)

/-- The cursor after `n` more words. -/
def skip : Nat → Cursor → Cursor
  | 0, c => c
  | n + 1, c => skip n c.next.2

theorem length_dropWhile_le (p : Char → Bool) (t : Text) : (t.dropWhile p).length ≤ t.length :=
  (List.dropWhile_sublist p).length_le

theorem next_of_dropWhile_eq_nil {c : Cursor} (h : c.rest.dropWhile Text.isBlank = []) :
    c.next = (none, ⟨[]⟩) := by
  simp only [next, h]

theorem next_of_dropWhile_eq_cons {c : Cursor} {a : Char} {t : Text}
    (h : c.rest.dropWhile Text.isBlank = a :: t) :
    c.next = (some (a :: t.takeWhile Text.isInk), ⟨t.dropWhile Text.isInk⟩) := by
  have ha : Text.isBlank a = false := by
    simpa [h] using List.head?_dropWhile_not Text.isBlank c.rest
  simp [next, h, Text.isInk, ha]

theorem length_next_lt {c d : Cursor} {w : Text} (h : c.next = (some w, d)) :
    d.rest.length < c.rest.length := by
  have hle := length_dropWhile_le Text.isBlank c.rest
  cases ht : c.rest.dropWhile Text.isBlank with
  | nil => simp [next_of_dropWhile_eq_nil ht] at h
  | cons a t =>
    rw [next_of_dropWhile_eq_cons ht] at h
    have hd := length_dropWhile_le Text.isInk t
    rw [ht, List.length_cons] at hle
    rw [← (Prod.mk.inj h).2]
    exact Nat.lt_of_le_of_lt hd hle

/-- The words that are left, and the cursor behind the last of them. -/
def drain (c : Cursor) : List Text × Cursor :=
  match h : c.next with
  | (none, d) => ([], d)
  | (some w, d) =>
    have := length_next_lt h
    (w :: d.drain.1, d.drain.2)
termination_by c.rest.length

/-- The words that are left. -/
def words (c : Cursor) : List Text := c.drain.1

theorem words_of_next_none {c d : Cursor} (h : c.next = (none, d)) : c.words = [] := by
  rw [words, drain]
  split <;> simp_all

theorem words_of_next_some {c d : Cursor} {w : Text} (h : c.next = (some w, d)) :
    c.words = w :: d.words := by
  rw [words, drain]
  split
  · simp_all
  · simp_all [words]

end Cursor

end RegisterConsole
