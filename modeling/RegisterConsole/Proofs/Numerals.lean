import RegisterConsole.Proofs.Values

/-!
# Numerals

A numeral is a text of hexadecimal digits, with the number that they stand for; nothing bounds its
length or its number. The strict policy is measured by numerals behind an optional marker.

* `digit?_eq_some_iff`, `numeral_iff`: digits and their numbers are those that values are read by;
* `spells_iff`, `spells_text`: a text spells a number if there are digits of that number behind its
  marker, and the text of a word does;
* `strict_accepts_numerals`: the strict policy accepts just the texts that spell a number which a
  word can hold, and refuses every other text with a fault that tells the two kinds apart.
-/

namespace RegisterConsole

namespace Hex

/-! ## Digits -/

/-- The character is a digit of the value `d`: a decimal one, or one of six letters in either case. -/
def IsDigit (c : Char) (d : Nat) : Prop :=
  (d < 10 ∧ c.toNat = '0'.toNat + d) ∨
    (10 ≤ d ∧ d < 16 ∧ (c.toNat = 'a'.toNat + (d - 10) ∨ c.toNat = 'A'.toNat + (d - 10)))

/-- A digit is read by its small form. -/
theorem digit?_eq_some_iff_toLower {c : Char} {d : Nat} :
    digit? c = some d ↔ d < 16 ∧ c.toLower = digitOf d := by
  constructor
  · intro h
    rw [digit?, List.idxOf?, List.findIdx?_eq_some_iff_getElem] at h
    obtain ⟨hd, he, _⟩ := h
    refine ⟨hd, ?_⟩
    rw [digitOf, List.getD_eq_getElem digits '0' hd]
    exact (eq_of_beq he).symm
  · rintro ⟨hd, hc⟩
    have hl : c.toLower = (digitOf d).toLower := by
      have hn := toNat_digitOf hd
      apply Char.toNat_inj.mp
      rw [hc, Text.toNat_toLower, if_neg]
      split at hn <;> omega
    rw [digit?_congr hl, digit?_digitOf hd]

/-- The digits that are read are those characters, for those values. -/
theorem digit?_eq_some_iff {c : Char} {d : Nat} : digit? c = some d ↔ IsDigit c d := by
  rw [digit?_eq_some_iff_toLower, IsDigit]
  show _ ↔ (d < 10 ∧ c.toNat = 48 + d) ∨
    (10 ≤ d ∧ d < 16 ∧ (c.toNat = 97 + (d - 10) ∨ c.toNat = 65 + (d - 10)))
  constructor
  · rintro ⟨hd, hc⟩
    have hn := congrArg Char.toNat hc
    rw [Text.toNat_toLower, toNat_digitOf hd] at hn
    split at hn <;> split at hn <;> omega
  · intro h
    have hd : d < 16 := by omega
    refine ⟨hd, ?_⟩
    apply Char.toNat_inj.mp
    rw [Text.toNat_toLower, toNat_digitOf hd]
    split <;> split <;> omega

/-! ## Numerals -/

/-- The text consists of digits, which stand for the number `n`; no digits stand for zero. -/
inductive Numeral : Text → Nat → Prop
  | nil : Numeral [] 0
  | concat {t : Text} {c : Char} {n d : Nat} (ht : Numeral t n) (hc : IsDigit c d) :
      Numeral (t ++ [c]) (16 * n + d)

/-- The number of a numeral is the one that its digits are read as. -/
theorem numeral_iff {t : Text} {n : Nat} :
    Numeral t n ↔ (∀ c ∈ t, (digit? c).isSome) ∧ value t = n := by
  constructor
  · intro h
    induction h with
    | nil => exact ⟨by simp, rfl⟩
    | concat ht hc ih =>
      have hd := digit?_eq_some_iff.mpr hc
      constructor
      · intro c h
        rcases List.mem_append.mp h with h | h
        · exact ih.1 c h
        · rw [List.mem_singleton.mp h, hd]
          rfl
      · rw [value_concat, ih.2, hd]
        rfl
  · rintro ⟨h, rfl⟩
    induction t using List.reverseRecOn with
    | nil => exact .nil
    | append_singleton t c ih =>
      obtain ⟨d, hd⟩ := Option.isSome_iff_exists.mp (h c (by simp))
      have ht := ih fun a ha => h a (List.mem_append_left _ ha)
      rw [value_concat, hd]
      exact .concat ht (digit?_eq_some_iff.mp hd)

theorem numeral_value {t : Text} (h : ∀ c ∈ t, (digit? c).isSome) : Numeral t (value t) :=
  numeral_iff.mpr ⟨h, rfl⟩

end Hex

namespace Value

open Hex

/-! ## Spellings of a number -/

/-- The markers that may stand in front of digits. -/
def markers : List Text := [[], .ofString "0x", .ofString "0X"]

/-- The text spells the number `n`: one or more digits of that number, behind an optional marker. -/
def Spells (t : Text) (n : Nat) : Prop :=
  ∃ marker ∈ markers, ∃ digits ≠ [], t = marker ++ digits ∧ Numeral digits n

theorem dropMarker_of_digits {t : Text} (h : ∀ c ∈ t, (Hex.digit? c).isSome) :
    dropMarker t = t := by
  unfold dropMarker
  split
  · exact absurd (h 'x' (by simp)) (by decide)
  · exact absurd (h 'X' (by simp)) (by decide)
  · rfl

theorem dropMarker_append {marker : Text} (hm : marker ∈ markers) {t : Text}
    (h : ∀ c ∈ t, (Hex.digit? c).isSome) : dropMarker (marker ++ t) = t := by
  simp only [markers, List.mem_cons, List.not_mem_nil, or_false] at hm
  rcases hm with rfl | rfl | rfl
  · exact dropMarker_of_digits h
  · rfl
  · rfl

theorem exists_marker (t : Text) : ∃ marker ∈ markers, t = marker ++ dropMarker t := by
  unfold dropMarker
  split
  · exact ⟨.ofString "0x", by simp [markers], rfl⟩
  · exact ⟨.ofString "0X", by simp [markers], rfl⟩
  · exact ⟨[], by simp [markers], rfl⟩

/-- A text spells a number if there are digits of that number behind its marker. -/
theorem spells_iff {t : Text} {n : Nat} :
    Spells t n ↔
      dropMarker t ≠ [] ∧ (∀ c ∈ dropMarker t, (digit? c).isSome) ∧ value (dropMarker t) = n := by
  constructor
  · rintro ⟨marker, hm, digits, hne, rfl, hd⟩
    obtain ⟨hdigits, hn⟩ := numeral_iff.mp hd
    rw [dropMarker_append hm hdigits]
    exact ⟨hne, hdigits, hn⟩
  · rintro ⟨hne, hd⟩
    obtain ⟨marker, hm, he⟩ := exists_marker t
    exact ⟨marker, hm, dropMarker t, hne, he, numeral_iff.mpr hd⟩

/-! ## What the strict policy makes of a text -/

theorem strict_eq_ok_iff {t : Text} {w : Word} : strict t = .ok w ↔ Spells t w.toNat := by
  rw [spells_iff]
  constructor
  · intro h
    obtain ⟨hne, hd⟩ := digits_of_strict_ne (t := t) (by simp [h])
    rw [strict_of_digits hne hd] at h
    split at h
    · next hv =>
      rw [← Except.ok.inj h, UInt64.toNat_ofNat_of_lt' hv]
      exact ⟨hne, hd, rfl⟩
    · cases h
  · rintro ⟨hne, hd, hv⟩
    rw [strict_of_digits hne hd, hv, if_pos w.toNat_lt, UInt64.ofNat_toNat]

/-- What is refused as too large spells a number that no word can hold. -/
theorem exists_spells_of_tooLarge {t : Text} (h : strict t = .error (.numberTooLarge t)) :
    ∃ n, 2 ^ 64 ≤ n ∧ Spells t n := by
  obtain ⟨hne, hd⟩ := digits_of_strict_ne (t := t) (by simp [h])
  refine ⟨value (dropMarker t), ?_, spells_iff.mpr ⟨hne, hd, rfl⟩⟩
  rw [strict_of_digits hne hd] at h
  split at h
  · cases h
  · next hv => exact Nat.not_lt.mp hv

theorem strict_of_spells_large {t : Text} {n : Nat} (h : Spells t n) (hn : 2 ^ 64 ≤ n) :
    strict t = .error (.numberTooLarge t) := by
  obtain ⟨hne, hd, hv⟩ := spells_iff.mp h
  rw [strict_of_digits hne hd, hv, if_neg (Nat.not_lt.mpr hn)]

theorem strict_of_not_spells {t : Text} (h : ∀ n, ¬ Spells t n) :
    strict t = .error (.malformedNumber t) := by
  by_contra hs
  obtain ⟨hne, hd⟩ := digits_of_strict_ne hs
  exact h _ (spells_iff.mpr ⟨hne, hd, rfl⟩)

/-- The text of a word spells its number. -/
theorem spells_text (w : Word) : Spells w.text w.toNat := by
  have hv : value (fixed 16 w.toNat) = w.toNat := Word.value_text w
  have hne : fixed 16 w.toNat ≠ [] := List.ne_nil_of_length_eq_add_one (length_fixed 16 _)
  have hd : dropMarker w.text = fixed 16 w.toNat := rfl
  rw [spells_iff, hd]
  exact ⟨hne, fun _ => isSome_digit?_of_mem_fixed, hv⟩

/-- The fault of a text that is not accepted: it gives the whole text, and has a cause behind it just
where the text spells a number that is too large. -/
structure RefusedAs (t : Text) (fault : Fault) : Prop where
  number : fault = .malformedNumber t ∨ fault = .numberTooLarge t
  message : fault.message = Text.ofString "Invalid Register Value - " ++ t
  tooLarge : (∃ n, 2 ^ 64 ≤ n ∧ Spells t n) →
    fault.causes = [Text.ofString "number too large to fit in target type"]
  malformed : (¬ ∃ n, 2 ^ 64 ≤ n ∧ Spells t n) → fault.causes = []

/-- **The strict policy accepts the numbers that a word can hold**, spelled in digits behind an
optional marker, and nothing else. A text that it refuses is told as it was given, with a cause
behind the fault if and only if it spells a number that no word can hold. -/
theorem strict_accepts_numerals (t : Text) :
    (∀ w, read .strict t = .ok w ↔ Spells t w.toNat) ∧
      ((∀ w : Word, ¬ Spells t w.toNat) →
        ∃ fault, read .strict t = .error fault ∧ RefusedAs t fault) := by
  refine ⟨fun w => strict_eq_ok_iff, ?_⟩
  intro hno
  by_cases hl : ∃ n, 2 ^ 64 ≤ n ∧ Spells t n
  · obtain ⟨n, hn, hs⟩ := hl
    exact ⟨.numberTooLarge t, strict_of_spells_large hs hn, Or.inr rfl, rfl, fun _ => rfl,
      fun h => absurd ⟨n, hn, hs⟩ h⟩
  · have hs : ∀ n, ¬ Spells t n := by
      intro n hn
      by_cases hlt : n < 2 ^ 64
      · apply hno (UInt64.ofNat n)
        rwa [UInt64.toNat_ofNat_of_lt' hlt]
      · exact hl ⟨n, Nat.not_lt.mp hlt, hn⟩
    exact ⟨.malformedNumber t, strict_of_not_spells hs, Or.inl rfl, rfl, fun h => absurd h hl,
      fun _ => rfl⟩

/-- The greatest word is accepted in capitals with zeros in front; one more is refused, for a cause. -/
theorem strict_accepts_numerals_up_to_greatest :
    let t := Text.ofString "0X00FFFFFFFFFFFFFFFF"
    let u := Text.ofString "10000000000000000"
    read .strict t = .ok 0xffffffffffffffff ∧ (∀ w : Word, ¬ Spells u w.toNat) ∧
      ∃ fault, read .strict u = .error fault ∧ RefusedAs u fault ∧ fault.causes ≠ [] := by
  intro t u
  have ht : Spells t (0xffffffffffffffff : Word).toNat :=
    spells_iff.mpr ⟨by decide, List.all_eq_true.mp (by decide +kernel), by decide +kernel⟩
  have hu : Spells u (2 ^ 64) :=
    spells_iff.mpr ⟨by decide, List.all_eq_true.mp (by decide +kernel), by decide +kernel⟩
  have hno : ∀ w : Word, ¬ Spells u w.toNat := by
    intro w hw
    have hv := (spells_iff.mp hw).2.2
    rw [(spells_iff.mp hu).2.2] at hv
    exact absurd w.toNat_lt (by rw [← hv]; decide)
  obtain ⟨fault, hr, hf⟩ := (strict_accepts_numerals u).2 hno
  refine ⟨((strict_accepts_numerals t).1 _).mpr ht, hno, fault, hr, hf, ?_⟩
  rw [hf.tooLarge ⟨2 ^ 64, Nat.le_refl _, hu⟩]
  decide

end Value

end RegisterConsole
