import Mathlib
import RegisterConsole.Cursor

/-!
# The words of a line

What taking words off a cursor does to the words that are left:

* `next_fst`, `words_next`: the next word is the first of the words, and the others are left;
* `words_skip`: passing over `n` words leaves the words from the `n`-th on;
* `skip_eq_of_length_lt`: passing over more words than there are uses the line up;
* `next_gap_append`, `exists_gap_of_next`: a word is taken just where it stands behind a gap and is
  closed by a blank or by the end of the line;
* `behind_skip`, `skip_of_behind`: passing over words leaves exactly what stands behind them.
-/

namespace RegisterConsole.Cursor

theorem next_fst (c : Cursor) : c.next.1 = c.words.head? := by
  obtain ⟨w, d, h⟩ : ∃ w d, c.next = (w, d) := ⟨_, _, rfl⟩
  cases w with
  | none => rw [h, words_of_next_none h]; rfl
  | some w => rw [h, words_of_next_some h]; rfl

theorem next_of_none {c d : Cursor} (h : c.next = (none, d)) : d = ⟨[]⟩ := by
  cases ht : c.rest.dropWhile Text.isBlank with
  | nil => exact (Prod.mk.inj (h.symm.trans (next_of_dropWhile_eq_nil ht))).2
  | cons a t => rw [next_of_dropWhile_eq_cons ht] at h; simp at h

theorem next_empty : next ⟨[]⟩ = (none, ⟨[]⟩) := rfl

theorem words_empty : words ⟨[]⟩ = [] := words_of_next_none next_empty

theorem words_next (c : Cursor) : c.next.2.words = c.words.tail := by
  obtain ⟨w, d, h⟩ : ∃ w d, c.next = (w, d) := ⟨_, _, rfl⟩
  cases w with
  | none => rw [h, words_of_next_none h, next_of_none h]; exact words_empty
  | some w => rw [h, words_of_next_some h]; rfl

theorem words_skip (n : Nat) (c : Cursor) : (skip n c).words = c.words.drop n := by
  induction n generalizing c with
  | zero => rfl
  | succ n ih => rw [skip, ih, words_next, List.drop_tail]

/-- The word after the first `n` can be passed over last. -/
theorem skip_succ_right (n : Nat) (c : Cursor) : skip (n + 1) c = (skip n c).next.2 := by
  induction n generalizing c with
  | zero => rfl
  | succ n ih => exact ih c.next.2

/-! ## Cursors with no word left -/

theorem next_of_words_nil {c : Cursor} (h : c.words = []) : c.next = (none, ⟨[]⟩) := by
  have hn : c.next.1 = none := by rw [next_fst, h]; rfl
  have hd : c.next.2 = ⟨[]⟩ := next_of_none (c := c) (by rw [← hn])
  rw [← hn, ← hd]

theorem skip_empty (n : Nat) : skip n ⟨[]⟩ = ⟨[]⟩ := by
  induction n with
  | zero => rfl
  | succ n ih => rw [skip, next_empty, ih]

/-- One word more than there are leaves nothing, blanks included. -/
theorem skip_eq_of_length_lt {c : Cursor} {n : Nat} (h : c.words.length < n) :
    skip n c = ⟨[]⟩ := by
  induction n generalizing c with
  | zero => omega
  | succ n ih =>
    rw [skip]
    cases hw : c.words with
    | nil => rw [next_of_words_nil hw]; exact skip_empty n
    | cons w ws =>
      apply ih
      rw [words_next, hw]
      rw [hw, List.length_cons] at h
      simp only [List.tail_cons]
      omega

/-! ## Words and blanks put together -/

theorem words_congr {c d : Cursor} (h : c.next = d.next) : c.words = d.words := by
  obtain ⟨w, e, hn⟩ : ∃ w e, c.next = (w, e) := ⟨_, _, rfl⟩
  have hd : d.next = (w, e) := h ▸ hn
  cases w with
  | none => rw [words_of_next_none hn, words_of_next_none hd]
  | some w => rw [words_of_next_some hn, words_of_next_some hd]

theorem words_blank_cons {b : Char} (hb : Text.isBlank b = true) (t : Text) :
    words ⟨b :: t⟩ = words ⟨t⟩ := by
  apply words_congr
  simp only [next, List.dropWhile_cons_of_pos hb]

/-- A word is a run of ink. -/
def IsWord (w : Text) : Prop := w ≠ [] ∧ ∀ c ∈ w, Text.isInk c = true

-- the list is named, since the instance that is found first goes through all characters
instance (w : Text) : Decidable (IsWord w) :=
  have : Decidable (∀ c ∈ w, Text.isInk c = true) := List.decidableBAll _ w
  inferInstanceAs (Decidable (_ ∧ _))

/-- A gap is a run of blanks, and may be empty. -/
def IsGap (gap : Text) : Prop := ∀ c ∈ gap, Text.isBlank c = true

instance (gap : Text) : Decidable (IsGap gap) := List.decidableBAll _ gap

/-- The text goes on with a blank, or is at its end. -/
def Closes (t : Text) : Prop := ∀ b ∈ t.head?, Text.isBlank b = true

/-- A word that is closed by a blank, or by the end of the line, is taken as it stands. -/
theorem next_gap_append {gap w t : Text} (hg : IsGap gap) (hw : IsWord w) (ht : Closes t) :
    next ⟨gap ++ (w ++ t)⟩ = (some w, ⟨t⟩) := by
  obtain ⟨hne, hw⟩ := hw
  obtain ⟨a, u, rfl⟩ := List.exists_cons_of_ne_nil hne
  have ha : Text.isBlank a = false := by simpa [Text.isInk] using hw a List.mem_cons_self
  have hu : ∀ c ∈ u, Text.isInk c = true := fun c hc => hw c (List.mem_cons_of_mem a hc)
  have htake : t.takeWhile Text.isInk = [] := by
    cases t with
    | nil => rfl
    | cons b t => simp [Text.isInk, ht b rfl]
  have hdrop : t.dropWhile Text.isInk = t :=
    Text.dropWhile_of_head? fun b hb => by simp [Text.isInk, ht b hb]
  have hb : (gap ++ (a :: u ++ t)).dropWhile Text.isBlank = a :: (u ++ t) := by
    rw [List.dropWhile_append_of_pos hg]
    simp [ha]
  rw [next_of_dropWhile_eq_cons hb, List.takeWhile_append_of_pos hu,
    List.dropWhile_append_of_pos hu, htake, hdrop, List.append_nil]

/-- A word that is taken stood behind a gap, and what is left closes it. -/
theorem exists_gap_of_next {c d : Cursor} {w : Text} (h : c.next = (some w, d)) :
    ∃ gap, IsGap gap ∧ IsWord w ∧ Closes d.rest ∧ c.rest = gap ++ (w ++ d.rest) := by
  cases ht : c.rest.dropWhile Text.isBlank with
  | nil => simp [next_of_dropWhile_eq_nil ht] at h
  | cons a t =>
    have ha : Text.isBlank a = false := by
      simpa [ht] using List.head?_dropWhile_not Text.isBlank c.rest
    rw [next_of_dropWhile_eq_cons ht] at h
    obtain ⟨hw, rfl⟩ := Prod.mk.inj h
    obtain rfl := Option.some.inj hw
    refine ⟨c.rest.takeWhile Text.isBlank, fun b hb => List.mem_takeWhile_imp hb,
      ⟨List.cons_ne_nil _ _, ?_⟩, ?_, ?_⟩
    · intro b hb
      rcases List.mem_cons.mp hb with rfl | hb
      · simp [Text.isInk, ha]
      · exact List.mem_takeWhile_imp hb
    · intro b hb
      have hn := List.head?_dropWhile_not Text.isInk t
      rw [Option.mem_def.mp hb] at hn
      simpa [Text.isInk] using hn
    · rw [List.cons_append, List.takeWhile_append_dropWhile, ← ht,
        List.takeWhile_append_dropWhile]

/-- Where there is no word, there is only a gap. -/
theorem isGap_of_next_none {c d : Cursor} (h : c.next = (none, d)) : IsGap c.rest := by
  cases ht : c.rest.dropWhile Text.isBlank with
  | nil => exact List.dropWhile_eq_nil_iff.mp ht
  | cons a t => simp [next_of_dropWhile_eq_cons ht] at h

theorem words_append {w t : Text} (hw : IsWord w) (ht : Closes t) :
    words ⟨w ++ t⟩ = w :: words ⟨t⟩ :=
  words_of_next_some (@next_gap_append [] w t nofun hw ht)

theorem words_append_blank {w : Text} (hw : IsWord w) {b : Char} (hb : Text.isBlank b = true)
    (t : Text) : words ⟨w ++ b :: t⟩ = w :: words ⟨t⟩ := by
  rw [words_append hw (by simpa [Closes] using hb), words_blank_cons hb]

theorem words_of_word {w : Text} (hw : IsWord w) : words ⟨w⟩ = [w] := by
  have h := words_append hw (t := []) nofun
  rwa [List.append_nil, words_empty] at h

theorem exists_next_of_words_cons {c : Cursor} {w : Text} {ws : List Text} (h : c.words = w :: ws) :
    ∃ d, c.next = (some w, d) ∧ d.words = ws := by
  refine ⟨c.next.2, Prod.ext ?_ rfl, ?_⟩
  · rw [next_fst, h]
    rfl
  · rw [words_next, h]
    rfl

theorem isWord_of_mem_words {c : Cursor} {w : Text} (h : w ∈ c.words) : IsWord w := by
  generalize hws : c.words = ws at h
  induction ws generalizing c with
  | nil => cases h
  | cons v ws ih =>
    obtain ⟨d, hn, hd⟩ := exists_next_of_words_cons hws
    rcases List.mem_cons.mp h with rfl | h
    · obtain ⟨_, _, hw, _⟩ := exists_gap_of_next hn
      exact hw
    · exact ih hd h

/-! ## What stands behind the first words -/

/-- `rest` is what stands in a line behind its first `n` words, blanks included. -/
inductive Behind : Nat → Text → Text → Prop
  | start (line : Text) : Behind 0 line line
  | word {n : Nat} {gap w t rest : Text} (hg : IsGap gap) (hw : IsWord w) (ht : Closes t)
      (h : Behind n t rest) : Behind (n + 1) (gap ++ (w ++ t)) rest

theorem behind_skip {n : Nat} {c : Cursor} (h : n ≤ c.words.length) :
    Behind n c.rest (skip n c).rest := by
  induction n generalizing c with
  | zero => exact .start c.rest
  | succ n ih =>
    obtain ⟨w, ws, hw⟩ := List.exists_cons_of_length_pos (Nat.lt_of_lt_of_le n.succ_pos h)
    obtain ⟨d, hn, hd⟩ := exists_next_of_words_cons hw
    obtain ⟨gap, hg, hw', ht, he⟩ := exists_gap_of_next hn
    rw [he, skip, hn]
    refine .word hg hw' ht (ih ?_)
    rw [hw, List.length_cons] at h
    rw [hd]
    exact Nat.le_of_succ_le_succ h

/-- Nothing else stands behind the first words of a line. -/
theorem skip_of_behind {n : Nat} {line rest : Text} (h : Behind n line rest) :
    skip n ⟨line⟩ = ⟨rest⟩ := by
  induction h with
  | start line => rfl
  | word hg hw ht _ ih => rw [skip, next_gap_append hg hw ht, ih]

end RegisterConsole.Cursor
