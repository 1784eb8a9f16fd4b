/-!
Texts are lists of characters, so that whatever reads one is a recursion on it. What a sink receives
of a text is its UTF-8 form.

A character may be blank, and it may be an ASCII letter that has another case. Texts are compared up
to the case of ASCII letters (`SameFold`); a letter beyond ASCII matches itself alone.
-/

namespace RegisterConsole

abbrev Text := List Char

namespace Text

/-- The text of a string. -/
def ofString (s : String) : Text := s.toList

/-- The UTF-8 form of a text. -/
def utf8 (t : Text) : List UInt8 := t.flatMap String.utf8EncodeChar

@[simp] theorem utf8_append (s t : Text) : utf8 (s ++ t) = utf8 s ++ utf8 t :=
  List.flatMap_append

/-- No two texts have the same UTF-8 form. -/
theorem utf8_injective {s t : Text} (h : utf8 s = utf8 t) : s = t := by
  have he : List.utf8Encode s = List.utf8Encode t := congrArg List.toByteArray h
  have hd := congrArg ByteArray.utf8Decode? he
  rw [List.utf8Decode?_utf8Encode, List.utf8Decode?_utf8Encode, Option.some.injEq] at hd
  exact congrArg Array.toList hd

/-- What stands behind `lead` in a text that begins with it. -/
def behind? (lead t : Text) : Option Text :=
  if lead.isPrefixOf t then some (t.drop lead.length) else none

@[simp] theorem behind?_append (lead t : Text) : behind? lead (lead ++ t) = some t := by
  simp [behind?]

theorem behind?_cons_self (a : Char) (lead t : Text) :
    behind? (a :: lead) (a :: t) = behind? lead t := by
  simp [behind?]

theorem behind?_cons_of_ne {a b : Char} (h : a ≠ b) (lead t : Text) :
    behind? (a :: lead) (b :: t) = none := by
  simp [behind?, h]

theorem eq_append_of_behind? {lead t u : Text} (h : behind? lead t = some u) : t = lead ++ u := by
  simp only [behind?, Option.ite_none_right_eq_some, Option.some.injEq] at h
  obtain ⟨v, rfl⟩ := List.isPrefixOf_iff_prefix.mp h.1
  rw [← h.2, List.drop_left]

/-- Nothing is dropped from a text that begins with another character. -/
theorem dropWhile_of_head? {p : Char → Bool} {t : Text} (h : ∀ c ∈ t.head?, p c = false) :
    t.dropWhile p = t := by
  cases t with
  | nil => rfl
  | cons c t => exact List.dropWhile_cons_of_neg (by simp [h c rfl])

/-- The texts one below the other, each closed by a line feed. -/
def unlines (lines : List Text) : Text := lines.flatMap fun line => line ++ ['\n']

@[simp] theorem unlines_cons (line : Text) (lines : List Text) :
    unlines (line :: lines) = line ++ '\n' :: unlines lines := by
  simp [unlines]

/-- The decimal form of a number. -/
def decimal (n : Nat) : Text := Nat.toDigits 10 n

/-! ## Blanks -/

/-- The twenty-five code points of White_Space, as first and last of each run. -/
def blankRuns : List (Nat × Nat) :=
  [(0x09, 0x0D), (0x20, 0x20), (0x85, 0x85), (0xA0, 0xA0), (0x1680, 0x1680), (0x2000, 0x200A),
    (0x2028, 0x2029), (0x202F, 0x202F), (0x205F, 0x205F), (0x3000, 0x3000)]

def isBlank (c : Char) : Bool :=
  blankRuns.any fun run => run.1 ≤ c.toNat && c.toNat ≤ run.2

/-- What ASCII prints is not blank. -/
theorem isBlank_eq_false {c : Char} (h : 33 ≤ c.toNat ∧ c.toNat ≤ 126) : isBlank c = false := by
  simp only [isBlank, blankRuns, List.any_cons, List.any_nil, Bool.or_false, Bool.or_eq_false_iff,
    Bool.and_eq_false_iff, decide_eq_false_iff_not]
  omega

/-- A line feed is blank, so no word holds one. -/
theorem isBlank_newline : isBlank '\n' = true := by decide

/-! ## Either case -/

/-- Only the ASCII capitals have another small form. -/
theorem toNat_toLower (c : Char) :
    c.toLower.toNat = if 65 ≤ c.toNat ∧ c.toNat ≤ 90 then c.toNat + 32 else c.toNat := by
  by_cases h : c.val ≥ 'A'.val ∧ c.val ≤ 'Z'.val
  · have hn : 65 ≤ c.toNat ∧ c.toNat ≤ 90 := h
    have hl : c.toLower.val = c.val + 32 := congrArg Char.val (dif_pos h)
    rw [if_pos hn]
    show c.toLower.val.toNat = c.toNat + 32
    rw [hl, UInt32.toNat_add]
    show (c.toNat + 32) % 4294967296 = c.toNat + 32
    omega
  · have hn : ¬ (65 ≤ c.toNat ∧ c.toNat ≤ 90) := h
    have hl : c.toLower = c := dif_neg h
    rw [if_neg hn, hl]

/-- The text with its ASCII capitals made small. -/
def fold (t : Text) : Text := t.map Char.toLower

/-- The two texts differ at most in the case of ASCII letters. -/
def SameFold (s t : Text) : Prop := fold s = fold t

instance : DecidableRel SameFold := fun s t => inferInstanceAs (Decidable (fold s = fold t))

@[simp] theorem length_fold (t : Text) : (fold t).length = t.length := List.length_map ..

theorem SameFold.refl (t : Text) : SameFold t t := rfl

theorem SameFold.symm {s t : Text} (h : SameFold s t) : SameFold t s := Eq.symm h

theorem SameFold.trans {s t u : Text} (h : SameFold s t) (k : SameFold t u) : SameFold s u :=
  Eq.trans h k

theorem SameFold.length_eq {s t : Text} (h : SameFold s t) : s.length = t.length := by
  rw [← length_fold s, ← length_fold t, h]

theorem sameFold_cons {a b : Char} {s t : Text} :
    SameFold (a :: s) (b :: t) ↔ a.toLower = b.toLower ∧ SameFold s t := by
  simp [SameFold, fold]

end Text

end RegisterConsole
