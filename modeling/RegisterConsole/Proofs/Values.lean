import Mathlib
import RegisterConsole.Value

/-!
# Numbers in texts

Both policies are measured by the number that hexadecimal digits stand for, which has no bound.

* `value_fixed`, `Word.value_text`: the digits of a number stand for it again;
* `strict_of_digits`: digits behind an optional marker are read exactly, or refused as too large;
* `leadingDigits_append`: the digits in front of a text are read up to its first other character;
* `toNat_saturate`: shifting digits into a word ends at their number, or at the greatest word.
-/

namespace RegisterConsole

namespace Hex

/-- The number `n` with more digits behind it. -/
def extend (n : Nat) (ds : List Nat) : Nat := ds.foldl (fun n d => 16 * n + d) n

/-- The values of the digits of a text; a character that is no digit counts as zero. -/
def digitValues (t : Text) : List Nat := t.map fun c => (digit? c).getD 0

theorem value_eq_extend (t : Text) : value t = extend 0 (digitValues t) := by
  simp [value, extend, digitValues, List.foldl_map]

theorem le_extend (n : Nat) (ds : List Nat) : n ≤ extend n ds := by
  induction ds generalizing n with
  | nil => exact Nat.le_refl n
  | cons d ds ih =>
    have h := ih (16 * n + d)
    simp only [extend, List.foldl_cons] at h ⊢
    omega

theorem mapM_digit? {t : Text} (h : ∀ c ∈ t, (digit? c).isSome) :
    t.mapM digit? = some (digitValues t) := by
  induction t with
  | nil => rfl
  | cons c t ih =>
    obtain ⟨hc, ht⟩ := List.forall_mem_cons.mp h
    obtain ⟨d, hd⟩ := Option.isSome_iff_exists.mp hc
    rw [List.mapM_cons, hd, ih ht]
    simp [digitValues, hd]

theorem mapM_digit?_eq_none {t : Text} {c : Char} (hc : c ∈ t) (hn : digit? c = none) :
    t.mapM digit? = none := by
  induction t with
  | nil => cases hc
  | cons a t ih =>
    rw [List.mapM_cons]
    rcases List.mem_cons.mp hc with rfl | hc
    · rw [hn]
      rfl
    · rw [ih hc]
      cases digit? a <;> rfl

theorem value_fixed (width n : Nat) : value (fixed width n) = n % 16 ^ width := by
  induction width generalizing n with
  | zero => simp [fixed, value, Nat.mod_one]
  | succ width ih =>
    rw [fixed, value_concat, ih, digit?_digitOf (Nat.mod_lt n (by decide)), Nat.pow_succ,
      Nat.mul_comm (16 ^ width), Nat.mod_mul]
    simp only [Option.getD_some]
    omega

end Hex

theorem Word.value_text (w : Word) : Hex.value (w.text.drop 2) = w.toNat := by
  have h := w.toNat_lt
  simp only [text, List.drop_succ_cons, List.drop_zero, Hex.value_fixed]
  omega

theorem Word.text_injective {v w : Word} (h : v.text = w.text) : v = w :=
  UInt64.toNat_inj.mp (by rw [← value_text v, ← value_text w, h])

namespace Value

open Hex

/-! ## Strict -/

theorem push?_eq (n d : Nat) :
    push? n d = if 16 * n + d < 2 ^ 64 then some (16 * n + d) else none := rfl

theorem foldlM_push? {n : Nat} (h : n < 2 ^ 64) (ds : List Nat) :
    ds.foldlM push? n = if extend n ds < 2 ^ 64 then some (extend n ds) else none := by
  induction ds generalizing n with
  | nil => exact (if_pos h).symm
  | cons d ds ih =>
    rw [List.foldlM_cons, push?_eq]
    by_cases hd : 16 * n + d < 2 ^ 64
    · rw [if_pos hd]
      exact ih hd
    · have hle := le_extend (16 * n + d) ds
      rw [if_neg hd, if_neg]
      · rfl
      · simp only [extend, List.foldl_cons] at hle ⊢
        omega

/-- One or more digits behind an optional marker are read exactly, as long as a word can hold their
number. -/
theorem strict_of_digits {t : Text} (hne : dropMarker t ≠ [])
    (h : ∀ c ∈ dropMarker t, (digit? c).isSome) :
    strict t = if value (dropMarker t) < 2 ^ 64 then .ok (UInt64.ofNat (value (dropMarker t)))
      else .error (.numberTooLarge t) := by
  have hv := foldlM_push? (n := 0) (by decide) (digitValues (dropMarker t))
  rw [← value_eq_extend] at hv
  rw [strict, mapM_digit? h]
  cases hd : digitValues (dropMarker t) with
  | nil => exact absurd (List.map_eq_nil_iff.mp hd) hne
  | cons d ds =>
    rw [hd] at hv
    simp only [hv]
    by_cases hlt : value (dropMarker t) < 2 ^ 64
    · simp only [if_pos hlt]
    · simp only [if_neg hlt]

/-- What is refused is told as it was given. -/
theorem strict_eq_error {t : Text} {fault : Fault} (h : strict t = .error fault) :
    fault = .malformedNumber t ∨ fault = .numberTooLarge t := by
  unfold strict at h
  split at h
  · exact Or.inl (Except.error.inj h).symm
  · exact Or.inl (Except.error.inj h).symm
  · split at h
    · cases h
    · exact Or.inr (Except.error.inj h).symm

/-- A text without digits behind an optional marker is refused as no number. -/
theorem strict_of_no_digits {t : Text}
    (h : dropMarker t = [] ∨ ∃ c ∈ dropMarker t, digit? c = none) :
    strict t = .error (.malformedNumber t) := by
  rcases h with h | ⟨c, hc, hn⟩
  · rw [strict, h]
    rfl
  · rw [strict, mapM_digit?_eq_none hc hn]

/-- What the strict policy takes, or refuses as too large, is one or more digits behind an optional
marker. -/
theorem digits_of_strict_ne {t : Text} (h : strict t ≠ .error (.malformedNumber t)) :
    dropMarker t ≠ [] ∧ ∀ c ∈ dropMarker t, (digit? c).isSome := by
  constructor
  · intro hn
    exact h (strict_of_no_digits (Or.inl hn))
  · intro c hc
    rw [Option.isSome_iff_ne_none]
    intro hn
    exact h (strict_of_no_digits (Or.inr ⟨c, hc, hn⟩))

/-! ## Lenient -/

/-- The digits in front of a text are read up to its first other character. -/
theorem leadingDigits_append {t u : Text} (ht : ∀ c ∈ t, (digit? c).isSome)
    (hu : ∀ c ∈ u.head?, digit? c = none) : leadingDigits (t ++ u) = digitValues t := by
  induction t with
  | nil =>
    cases u with
    | nil => rfl
    | cons c u => rw [List.nil_append, leadingDigits, hu c rfl]; rfl
  | cons c t ih =>
    obtain ⟨hc, ht⟩ := List.forall_mem_cons.mp ht
    obtain ⟨d, hd⟩ := Option.isSome_iff_exists.mp hc
    simp only [List.cons_append, leadingDigits, hd, ih ht, digitValues, List.map_cons,
      Option.getD_some]

theorem shiftRight_eq_zero_iff (w : Word) : w >>> 60 = 0 ↔ w.toNat < 2 ^ 60 := by
  rw [← UInt64.toNat_inj, UInt64.toNat_shiftRight]
  show w.toNat >>> 60 = 0 ↔ _
  rw [Nat.shiftRight_eq_div_pow, Nat.div_eq_zero_iff]
  omega

/-- A word whose highest digit is zero keeps all its set bits when it is shifted by one digit. -/
theorem toNat_shiftLeft_four {w : Word} (hw : w.toNat < 2 ^ 60) :
    (w <<< 4).toNat = 16 * w.toNat := by
  rw [UInt64.toNat_shiftLeft]
  show w.toNat <<< 4 % 2 ^ 64 = _
  rw [Nat.shiftLeft_eq]
  omega

theorem toNat_shiftIn {w : Word} {d : Nat} (hw : w.toNat < 2 ^ 60) (hd : d < 16) :
    (w <<< 4 ||| UInt64.ofNat d).toNat = 16 * w.toNat + d := by
  have hs : (w <<< 4).toNat = w.toNat <<< 4 := by
    rw [toNat_shiftLeft_four hw, Nat.shiftLeft_eq]
    omega
  rw [UInt64.toNat_or, hs, UInt64.toNat_ofNat', Nat.mod_eq_of_lt (by omega),
    ← Nat.shiftLeft_add_eq_or_of_lt (i := 4) (by omega), Nat.shiftLeft_eq]
  omega

/-- Shifting digits into a word ends at the number that they make of it, or at the greatest word. -/
theorem toNat_saturate {ds : List Nat} (h : ∀ d ∈ ds, d < 16) (w : Word) :
    (saturate w ds).toNat = min (extend w.toNat ds) (2 ^ 64 - 1) := by
  induction ds generalizing w with
  | nil =>
    have := w.toNat_lt
    simp only [saturate_nil, extend, List.foldl_nil]
    omega
  | cons d ds ih =>
    obtain ⟨hd, ht⟩ := List.forall_mem_cons.mp h
    rw [saturate_cons]
    by_cases hw : w.toNat < 2 ^ 60
    · rw [if_pos ((shiftRight_eq_zero_iff w).mpr hw), ih ht, toNat_shiftIn hw hd]
      rfl
    · have hle := le_extend (16 * w.toNat + d) ds
      rw [if_neg fun e => hw ((shiftRight_eq_zero_iff w).mp e)]
      simp only [extend, List.foldl_cons] at hle ⊢
      rw [Nat.min_eq_right (by omega)]
      rfl

/-- Zeros in front of a text do not change its number. -/
theorem value_dropWhile_zero (t : Text) : value (t.dropWhile (· = '0')) = value t := by
  induction t with
  | nil => rfl
  | cons c t ih =>
    by_cases h : c = '0'
    · subst h
      rw [List.dropWhile_cons_of_pos (by decide), ih]
      rfl
    · rw [List.dropWhile_cons_of_neg (by simpa using h)]

/-! ## Both -/

/-- What either policy refuses is told as it was given. -/
theorem read_eq_error {p : Policy} {t : Text} {fault : Fault} (h : read p t = .error fault) :
    fault = .malformedNumber t ∨ fault = .numberTooLarge t := by
  cases p with
  | strict => exact strict_eq_error h
  | lenient => cases h

end Value

end RegisterConsole
