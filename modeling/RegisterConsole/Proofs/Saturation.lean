import RegisterConsole.Proofs.Numerals

/-!
# Numbers that end at the greatest word

The lenient policy passes over blanks, zeros and a cross, reads digits up to the first other
character, and shifts them into a word until a digit would not fit.

* `toNat_shiftLeft_of_mem_shifts`: no shift on the way drops a bit that is set;
* `readDigits_text`: in whichever way a text is cut into those parts, the digits that are read make
  the number of its digits;
* `exists_reading`: every text can be cut so;
* `lenient_of_strict`, `lenient_of_tooLarge`: the lenient policy takes what the strict one takes, for
  the same word, and takes what is too large for the greatest word;
* `lenient_saturates`: every text is read as the number of its digits, or as the greatest word where
  the number is that or more.
-/

namespace RegisterConsole.Value

open Hex

/-! ## Shifts -/

/-- A word is shifted only where its highest digit is zero, so all its set bits are kept. -/
theorem toNat_shiftLeft_of_mem_shifts {v w : Word} {ds : List Nat} (h : v ∈ (shifts w ds).1) :
    (v <<< 4).toNat = 16 * v.toNat := by
  induction ds generalizing w with
  | nil => simp [shifts] at h
  | cons d ds ih =>
    rw [shifts] at h
    split at h
    · next hw =>
      rcases List.mem_cons.mp h with rfl | h
      · exact toNat_shiftLeft_four ((shiftRight_eq_zero_iff v).mp hw)
      · exact ih h
    · simp at h

/-! ## Texts cut into parts -/

/-- The crosses that may stand between zeros and digits. -/
def crosses : List Text := [[], ['x'], ['X']]

/-- A text cut as the lenient policy reads it: blanks, zeros, a cross, digits with their number, and
what stands behind them. -/
structure Reading where
  blanks : Text
  zeros : Text
  cross : Text
  digits : Text
  rest : Text
  number : Nat
  blank : ∀ c ∈ blanks, Text.isBlank c = true
  zero : ∀ c ∈ zeros, c = '0'
  cross_mem : cross ∈ crosses
  numeral : Numeral digits number
  /-- The digits end where no other follows. -/
  ends : ∀ c ∈ rest.head?, ∀ d, ¬ IsDigit c d
  /-- Behind zeros alone there is no cross left. -/
  crossed : cross = [] → (∀ c ∈ digits, c = '0') → ∀ c ∈ rest.head?, c ≠ 'x' ∧ c ≠ 'X'
  /-- Behind blanks alone there is no blank left. -/
  trimmed : zeros = [] → cross = [] → digits = [] → ∀ c ∈ rest.head?, Text.isBlank c = false

def Reading.text (r : Reading) : Text :=
  r.blanks ++ (r.zeros ++ (r.cross ++ (r.digits ++ r.rest)))

/-! ## Reading the parts -/

theorem dropCross_of_head? {t : Text} (h : ∀ c ∈ t.head?, c ≠ 'x' ∧ c ≠ 'X') :
    dropCross t = t := by
  unfold dropCross
  split
  · exact absurd rfl (h 'x' rfl).1
  · exact absurd rfl (h 'X' rfl).2
  · rfl

namespace Reading

variable (r : Reading)

theorem isSome_digit? : ∀ c ∈ r.digits, (digit? c).isSome := (numeral_iff.mp r.numeral).1

theorem value_digits : value r.digits = r.number := (numeral_iff.mp r.numeral).2

theorem digit?_rest : ∀ c ∈ r.rest.head?, digit? c = none := by
  intro c hc
  rw [Option.eq_none_iff_forall_ne_some]
  exact fun d hd => r.ends c hc d (digit?_eq_some_iff.mp hd)

/-- Behind its blanks a text goes on with another character. -/
theorem isBlank_behind_blanks :
    ∀ c ∈ (r.zeros ++ (r.cross ++ (r.digits ++ r.rest))).head?, Text.isBlank c = false := by
  intro c hc
  cases hz : r.zeros with
  | cons a zeros =>
    obtain rfl : a = c := by simpa [hz] using hc
    rw [r.zero a (by simp [hz])]
    decide
  | nil =>
    cases hx : r.cross with
    | cons a cross =>
      obtain rfl : a = c := by simpa [hz, hx] using hc
      have hm := r.cross_mem
      simp only [crosses, hx, List.mem_cons, List.not_mem_nil, or_false, reduceCtorEq, false_or,
        List.cons.injEq] at hm
      rcases hm with ⟨rfl, _⟩ | ⟨rfl, _⟩ <;> decide
    | nil =>
      cases hd : r.digits with
      | cons a digits =>
        obtain rfl : a = c := by simpa [hz, hx, hd] using hc
        obtain ⟨d, ha⟩ := Option.isSome_iff_exists.mp (r.isSome_digit? a (by simp [hd]))
        exact isBlank_eq_false_of_digit? ha
      | nil => exact r.trimmed hz hx hd c (by simpa [hz, hx, hd] using hc)

/-- Without a cross, only zeros in front of the digits are passed over. -/
theorem passed_of_no_cross (h : r.cross = []) :
    dropCross ((r.digits ++ r.rest).dropWhile (· = '0')) =
      r.digits.dropWhile (· = '0') ++ r.rest := by
  have hrest : r.rest.dropWhile (· = '0') = r.rest := by
    apply Text.dropWhile_of_head?
    intro c hc
    have hn := r.digit?_rest c hc
    exact decide_eq_false fun e => by rw [e] at hn; exact absurd hn (by decide)
  rw [List.dropWhile_append]
  cases hd : r.digits.dropWhile (· = '0') with
  | nil =>
    have hz : ∀ c ∈ r.digits, c = '0' := by simpa using hd
    simpa [hrest] using dropCross_of_head? (r.crossed h hz)
  | cons a digits =>
    have ha : a ∈ r.digits := (List.dropWhile_sublist _).subset (hd ▸ List.mem_cons_self)
    have hs := r.isSome_digit? a ha
    apply dropCross_of_head?
    rintro c hc
    obtain rfl : a = c := by simpa using hc
    constructor <;> rintro rfl <;> exact absurd hs (by decide)

/-- With a cross, all digits are left behind it. -/
theorem passed_of_cross (h : r.cross ≠ []) :
    dropCross ((r.cross ++ (r.digits ++ r.rest)).dropWhile (· = '0')) = r.digits ++ r.rest := by
  have hm := r.cross_mem
  simp only [crosses, List.mem_cons, List.not_mem_nil, or_false, h, false_or] at hm
  rcases hm with hx | hx <;> rw [hx] <;> rfl

/-- **The digits that are read are those of the reading**, but for zeros in front of them. -/
theorem readDigits_text :
    readDigits r.text = digitValues r.digits ∨
      readDigits r.text = digitValues (r.digits.dropWhile (· = '0')) := by
  have hb : r.text.dropWhile Text.isBlank = r.zeros ++ (r.cross ++ (r.digits ++ r.rest)) := by
    rw [text, List.dropWhile_append_of_pos r.blank, Text.dropWhile_of_head? r.isBlank_behind_blanks]
  have hz : ∀ c ∈ r.zeros, decide (c = '0') = true := fun c hc => decide_eq_true (r.zero c hc)
  rw [readDigits, hb, List.dropWhile_append_of_pos hz]
  by_cases h : r.cross = []
  · right
    rw [h, List.nil_append, passed_of_no_cross r h]
    exact leadingDigits_append
      (fun c hc => r.isSome_digit? c ((List.dropWhile_sublist _).subset hc)) r.digit?_rest
  · left
    rw [passed_of_cross r h]
    exact leadingDigits_append r.isSome_digit? r.digit?_rest

theorem extend_readDigits : extend 0 (readDigits r.text) = r.number := by
  rcases r.readDigits_text with h | h
  · rw [h, ← value_eq_extend, value_digits]
  · rw [h, ← value_eq_extend, value_dropWhile_zero, value_digits]

theorem toNat_lenient_text : (lenient r.text).toNat = min r.number (2 ^ 64 - 1) := by
  have hlt : ∀ d ∈ readDigits r.text, d < 16 := fun _ => lt_of_mem_leadingDigits
  rw [lenient, toNat_saturate hlt]
  show min (extend 0 (readDigits r.text)) _ = _
  rw [r.extend_readDigits]

end Reading

/-! ## Every text has a reading -/

/-- A text is cut where a run of characters ends. -/
theorem exists_run (p : Char → Bool) (t : Text) :
    ∃ run rest, t = run ++ rest ∧ (∀ c ∈ run, p c = true) ∧ ∀ c ∈ rest.head?, p c = false := by
  refine ⟨t.takeWhile p, t.dropWhile p, List.takeWhile_append_dropWhile.symm,
    fun c hc => List.mem_takeWhile_imp hc, ?_⟩
  intro c hc
  have hn := List.head?_dropWhile_not p t
  rw [Option.mem_def.mp hc] at hn
  simpa using hn

theorem exists_cross (t : Text) :
    ∃ cross ∈ crosses, ∃ rest, t = cross ++ rest ∧
      (cross = [] → ∀ c ∈ t.head?, c ≠ 'x' ∧ c ≠ 'X') := by
  by_cases h : ∃ c ∈ t.head?, c = 'x' ∨ c = 'X'
  · obtain ⟨c, hc, hx⟩ := h
    obtain ⟨rest, rfl⟩ : ∃ rest, t = c :: rest := ⟨t.tail, List.eq_cons_of_mem_head? hc⟩
    exact ⟨[c], by rcases hx with rfl | rfl <;> decide, rest, rfl, by simp⟩
  · refine ⟨[], by decide, t, rfl, fun _ c hc => ?_⟩
    exact ⟨fun e => h ⟨c, hc, Or.inl e⟩, fun e => h ⟨c, hc, Or.inr e⟩⟩

theorem exists_reading (t : Text) : ∃ r : Reading, r.text = t := by
  obtain ⟨blanks, u, rfl, hb, hu⟩ := exists_run Text.isBlank t
  obtain ⟨zeros, v, rfl, hz, hv⟩ := exists_run (· = '0') u
  obtain ⟨cross, hm, w, rfl, hx⟩ := exists_cross v
  obtain ⟨digits, rest, rfl, hd, hr⟩ := exists_run (fun c => (digit? c).isSome) w
  have hends : ∀ c ∈ rest.head?, ∀ d, ¬ IsDigit c d := by
    intro c hc d hcd
    have hn := hr c hc
    rw [digit?_eq_some_iff.mpr hcd] at hn
    cases hn
  have hcrossed : cross = [] → (∀ c ∈ digits, c = '0') →
      ∀ c ∈ rest.head?, c ≠ 'x' ∧ c ≠ 'X' := by
    rintro rfl hzero
    cases digits with
    | nil => exact hx rfl
    | cons a digits =>
      -- the zeros were passed over before, so the digits do not begin with one
      have ha : decide (a = '0') = false := hv a rfl
      exact absurd (hzero a List.mem_cons_self) (of_decide_eq_false ha)
  have htrimmed : zeros = [] → cross = [] → digits = [] →
      ∀ c ∈ rest.head?, Text.isBlank c = false := by
    rintro rfl rfl rfl
    exact hu
  exact ⟨⟨blanks, zeros, cross, digits, rest, value digits, hb,
    fun c hc => of_decide_eq_true (hz c hc), hm, numeral_value hd, hends, hcrossed, htrimmed⟩, rfl⟩

/-! ## Numbers that are spelled -/

/-- A text that spells a number is cut at its marker. -/
theorem exists_reading_of_spells {t : Text} {n : Nat} (h : Spells t n) :
    ∃ r : Reading, r.text = t ∧ r.number = n := by
  obtain ⟨marker, hm, digits, _, rfl, hd⟩ := h
  have hr (zeros cross : Text) (hz : ∀ c ∈ zeros, c = '0') (hc : cross ∈ crosses) :
      ∃ r : Reading, r.text = zeros ++ (cross ++ digits) ∧ r.number = n :=
    ⟨⟨[], zeros, cross, digits, [], n, by simp, hz, hc, hd, by simp, by simp, by simp⟩,
      by simp [Reading.text], rfl⟩
  simp only [markers, List.mem_cons, List.not_mem_nil, or_false] at hm
  rcases hm with rfl | rfl | rfl
  · exact hr [] [] (by simp) (by simp [crosses])
  · exact hr ['0'] ['x'] (by simp) (by simp [crosses])
  · exact hr ['0'] ['X'] (by simp) (by simp [crosses])

theorem toNat_lenient_of_spells {t : Text} {n : Nat} (h : Spells t n) :
    (lenient t).toNat = min n (2 ^ 64 - 1) := by
  obtain ⟨r, rfl, rfl⟩ := exists_reading_of_spells h
  exact r.toNat_lenient_text

/-- What the strict policy takes, the lenient policy takes for the same word. -/
theorem lenient_of_strict {t : Text} {w : Word} (h : strict t = .ok w) : lenient t = w := by
  have hw := w.toNat_lt
  apply UInt64.toNat_inj.mp
  rw [toNat_lenient_of_spells (strict_eq_ok_iff.mp h)]
  omega

/-- What the strict policy refuses as too large is the greatest word under the lenient policy. -/
theorem lenient_of_tooLarge {t : Text} {fault : Fault} (h : strict t = .error fault)
    (hc : fault.causes ≠ []) : lenient t = 0xffffffffffffffff := by
  rcases strict_eq_error h with rfl | rfl
  · exact absurd rfl hc
  · obtain ⟨n, hn, hs⟩ := exists_spells_of_tooLarge h
    apply UInt64.toNat_inj.mp
    rw [toNat_lenient_of_spells hs, Nat.min_eq_right (by omega)]
    rfl

/-- Either policy reads a text as the word whose number it spells. -/
theorem read_of_spells (p : Policy) {t : Text} {w : Word} (h : Spells t w.toNat) :
    read p t = .ok w := by
  have hs : strict t = .ok w := strict_eq_ok_iff.mpr h
  cases p with
  | strict => exact hs
  | lenient => exact congrArg Except.ok (lenient_of_strict hs)

/-! ## All texts -/

/-- **The lenient policy saturates.** Every text can be cut into blanks, zeros, a cross, digits and a
rest, and in whichever way it is, the text is read as the number of its digits, or as the greatest
word where that number is as great or greater. No shift on the way drops a set bit. -/
theorem lenient_saturates :
    (∀ t, ∃ r : Reading, r.text = t) ∧
      (∀ r : Reading, ∃ w, read .lenient r.text = .ok w ∧ w.toNat = min r.number (2 ^ 64 - 1) ∧
        (w = 0xffffffffffffffff ↔ 2 ^ 64 - 1 ≤ r.number)) ∧
      ∀ t, ∃ shifted w, shifts 0 (readDigits t) = (shifted, w) ∧ read .lenient t = .ok w ∧
        ∀ v ∈ shifted, (v <<< 4).toNat = 16 * v.toNat := by
  refine ⟨exists_reading, ?_, ?_⟩
  · intro r
    refine ⟨lenient r.text, rfl, r.toNat_lenient_text, ?_⟩
    rw [← UInt64.toNat_inj, r.toNat_lenient_text]
    show min r.number (2 ^ 64 - 1) = 2 ^ 64 - 1 ↔ _
    omega
  · intro t
    exact ⟨_, _, rfl, rfl, fun v => toNat_shiftLeft_of_mem_shifts⟩

/-- A number just too large for a word, behind zeros and in front of a letter that is no digit: the
greatest word, and the last word that is shifted still has its only bit. -/
theorem lenient_saturates_past_greatest :
    let t := Text.ofString " 00x10000000000000000z"
    let v : Word := 0x100000000000000
    (∃ r : Reading, r.text = t ∧ r.number = 2 ^ 64) ∧ read .lenient t = .ok 0xffffffffffffffff ∧
      v ∈ (shifts 0 (readDigits t)).1 ∧ (v <<< 4).toNat = 16 * v.toNat := by
  intro t v
  have hd : Numeral (.ofString "10000000000000000") (2 ^ 64) :=
    numeral_iff.mpr ⟨List.all_eq_true.mp (by decide +kernel), by decide +kernel⟩
  have hb : Text.isBlank ' ' = true := by decide
  have hr : ∃ r : Reading, r.text = t ∧ r.number = 2 ^ 64 :=
    ⟨⟨[' '], ['0', '0'], ['x'], .ofString "10000000000000000", ['z'], 2 ^ 64, by simpa using hb,
      by simp, by simp [crosses], hd, by simp [IsDigit]; omega, by simp, by simp⟩, rfl, rfl⟩
  have hv : v ∈ (shifts 0 (readDigits t)).1 := by decide +kernel
  obtain ⟨shifted, _, hs, -, hk⟩ := lenient_saturates.2.2 t
  refine ⟨hr, ?_, hv, hk v (by rwa [hs] at hv)⟩
  obtain ⟨r, ht, hn⟩ := hr
  obtain ⟨w, hw, -, hmax⟩ := lenient_saturates.2.1 r
  rw [← ht, hw, hmax.mpr (by rw [hn]; decide)]

end RegisterConsole.Value
