import RegisterConsole.Proofs.Words

/-!
# Lines cut into words and gaps

Every line is, in exactly one way, a gap and then words with a gap behind each, where only the first
and the last gap may be empty. A cursor goes through a line along this cut: each call takes the next
word with the gap before it, and leaves the gap behind it.

* `next_text`: one call takes the first word of a layout, and leaves the layout behind it;
* `skip_text`, `words_text`: after `n` calls the line stands as it is behind its `n`-th word, and the
  words that are taken to the end are those of the layout;
* `text_injective`, `exists_layout`: no line has two layouts, and every line has one;
* `cursor_follows_layout`: all of this together, and that each word taken makes the line shorter.
-/

namespace RegisterConsole

open Cursor (IsWord IsGap Closes)

/-- A line cut into its words, with a gap before them and a gap behind each. -/
@[ext] structure Layout where
  lead : Text
  /-- Each word with the gap behind it. -/
  pieces : List (Text × Text)
  isGap_lead : IsGap lead
  isWord : ∀ p ∈ pieces, IsWord p.1
  isGap : ∀ p ∈ pieces, IsGap p.2
  /-- Only the last gap may be empty, apart from the first. -/
  apart : ∀ p ∈ pieces.dropLast, p.2 ≠ []

namespace Layout

/-- The words and gaps put together again. -/
def join (pieces : List (Text × Text)) : Text := pieces.flatMap fun p => p.1 ++ p.2

def text (l : Layout) : Text := l.lead ++ join l.pieces

def words (l : Layout) : List Text := l.pieces.map Prod.fst

/-- The gaps, of which there is one more than there are words. -/
def gaps (l : Layout) : List Text := l.lead :: l.pieces.map Prod.snd

/-- What stands behind the first `n` words: the gap there, and then the other words and gaps. -/
def behind (l : Layout) (n : Nat) : Text := l.gaps.getD n [] ++ join (l.pieces.drop n)

/-! ## Behind the first word -/

/-- The layout of what stands behind the first word. -/
def tail (l : Layout) : Layout where
  lead := l.gaps.getD 1 []
  pieces := l.pieces.tail
  isGap_lead := by
    cases h : l.pieces with
    | nil => simp [gaps, h, IsGap]
    | cons p ps => simpa [gaps, h] using l.isGap p (by simp [h])
  isWord p hp := l.isWord p (List.mem_of_mem_tail hp)
  isGap p hp := l.isGap p (List.mem_of_mem_tail hp)
  apart p hp := l.apart p (List.mem_of_mem_tail (by rwa [← List.tail_dropLast] at hp))

theorem behind_succ (l : Layout) (n : Nat) : l.behind (n + 1) = l.tail.behind n := by
  cases h : l.pieces with
  | nil => cases n <;> simp [behind, gaps, tail, h]
  | cons p ps => cases n <;> simp [behind, gaps, tail, h]

theorem text_of_pieces_nil {l : Layout} (h : l.pieces = []) : l.text = l.lead := by
  simp [text, join, h]

theorem text_of_pieces_cons {l : Layout} {w gap : Text} {ps : List (Text × Text)}
    (h : l.pieces = (w, gap) :: ps) : l.text = l.lead ++ (w ++ l.tail.text) := by
  simp [text, join, tail, gaps, h]

/-- The text of a layout begins with a blank or is empty, unless its first word stands in front. -/
theorem closes_text_iff {l : Layout} : Closes l.text ↔ (l.pieces ≠ [] → l.lead ≠ []) := by
  cases hl : l.lead with
  | cons b gap =>
    have hb : Text.isBlank b = true := l.isGap_lead b (by simp [hl])
    simp [Closes, text, hl, hb]
  | nil =>
    cases hp : l.pieces with
    | nil => simp [Closes, text, join, hl, hp]
    | cons p ps =>
      obtain ⟨hne, hw⟩ := l.isWord p (by simp [hp])
      obtain ⟨a, u, hu⟩ := List.exists_cons_of_ne_nil hne
      have ha : Text.isBlank a = false := by simpa [Text.isInk] using hw a (by simp [hu])
      simp [Closes, text, join, hl, hp, hu, ha]

/-- What stands behind the first word closes it. -/
theorem closes_tail (l : Layout) : Closes l.tail.text := by
  rw [closes_text_iff]
  cases h : l.pieces with
  | nil => simp [tail, h]
  | cons p ps =>
    intro hne
    have hps : ps ≠ [] := by simpa [tail, h] using hne
    simpa [tail, gaps, h] using l.apart p (by simp [h, List.dropLast_cons_of_ne_nil hps])

/-! ## Calls -/

/-- **One call takes one word**, and leaves what stands behind it. -/
theorem next_text (l : Layout) : Cursor.next ⟨l.text⟩ = (l.words.head?, ⟨l.tail.text⟩) := by
  cases h : l.pieces with
  | nil =>
    have hb : l.text.dropWhile Text.isBlank = [] := by
      rw [text_of_pieces_nil h, List.dropWhile_eq_nil_iff]
      exact l.isGap_lead
    rw [Cursor.next_of_dropWhile_eq_nil (c := ⟨l.text⟩) hb]
    simp [words, text, join, tail, gaps, h]
  | cons p ps =>
    have hw : IsWord p.1 := l.isWord p (by simp [h])
    rw [text_of_pieces_cons h, Cursor.next_gap_append l.isGap_lead hw l.closes_tail]
    simp [words, h]

/-- After `n` calls what is left of the line stands as it is behind the `n`-th word. -/
theorem skip_text (l : Layout) (n : Nat) : Cursor.skip n ⟨l.text⟩ = ⟨l.behind n⟩ := by
  induction n generalizing l with
  | zero => rfl
  | succ n ih => rw [Cursor.skip, next_text, ih, behind_succ]

/-- The words of a line are those of its layout. -/
theorem words_text (l : Layout) : Cursor.words ⟨l.text⟩ = l.words := by
  induction h : l.pieces generalizing l with
  | nil =>
    have hn : Cursor.next ⟨l.text⟩ = (none, ⟨l.tail.text⟩) := by simp [next_text, words, h]
    rw [Cursor.words_of_next_none hn, words, h, List.map_nil]
  | cons p ps ih =>
    have hn : Cursor.next ⟨l.text⟩ = (some p.1, ⟨l.tail.text⟩) := by simp [next_text, words, h]
    have ht : l.tail.pieces = ps := by simp [tail, h]
    rw [Cursor.words_of_next_some hn, ih l.tail ht, words, words, ht, h, List.map_cons]

theorem behind_of_length_lt {l : Layout} {n : Nat} (h : l.words.length < n) : l.behind n = [] := by
  have hs : Cursor.skip n ⟨l.text⟩ = ⟨[]⟩ := Cursor.skip_eq_of_length_lt (by rwa [words_text])
  rw [skip_text] at hs
  exact Cursor.mk.inj hs

/-- The next call gives the next word of the layout. -/
theorem next_skip_text (l : Layout) (n : Nat) :
    (Cursor.skip n ⟨l.text⟩).next.1 = l.words[n]? := by
  rw [Cursor.next_fst, Cursor.words_skip, words_text, List.head?_drop]

/-! ## One layout for each line -/

/-- No line has two layouts. -/
theorem text_injective {l m : Layout} (h : l.text = m.text) : l = m := by
  induction hl : l.pieces generalizing l m with
  | nil =>
    have hn : l.words.head? = m.words.head? := by
      simpa [next_text] using congrArg (fun t => (Cursor.next ⟨t⟩).1) h
    have hm : m.pieces = [] := by simpa [words, hl] using hn.symm
    rw [text_of_pieces_nil hl, text_of_pieces_nil hm] at h
    exact Layout.ext h (hl.trans hm.symm)
  | cons p ps ih =>
    have hn : (l.words.head?, Cursor.mk l.tail.text) = (m.words.head?, ⟨m.tail.text⟩) := by
      rw [← next_text, ← next_text, h]
    obtain ⟨hw, ht⟩ : l.words.head? = m.words.head? ∧ l.tail.text = m.tail.text := by
      simpa using hn
    cases hm : m.pieces with
    | nil => simp [words, hl, hm] at hw
    | cons q qs =>
      have hpq : p.1 = q.1 := by simpa [words, hl, hm] using hw
      have htail : l.tail = m.tail := ih ht (by simp [tail, hl])
      have hgap : p.2 = q.2 := by simpa [tail, gaps, hl, hm] using congrArg Layout.lead htail
      have hps : ps = qs := by simpa [tail, hl, hm] using congrArg Layout.pieces htail
      have hlead : l.lead = m.lead := by
        rw [text_of_pieces_cons hl, text_of_pieces_cons hm, hpq, htail] at h
        exact List.append_cancel_right h
      exact Layout.ext hlead (by rw [hl, hm, hps, Prod.ext hpq hgap])

/-- The layout with a word in front of it, behind a gap. -/
theorem exists_cons {gap w : Text} {l : Layout} (hg : IsGap gap) (hw : IsWord w)
    (hl : Closes l.text) : ∃ m : Layout, m.text = gap ++ (w ++ l.text) := by
  refine ⟨⟨gap, (w, l.lead) :: l.pieces, hg, ?_, ?_, ?_⟩, ?_⟩
  · exact List.forall_mem_cons.mpr ⟨hw, l.isWord⟩
  · exact List.forall_mem_cons.mpr ⟨l.isGap_lead, l.isGap⟩
  · intro p hp
    by_cases hps : l.pieces = []
    · simp [hps] at hp
    · rw [List.dropLast_cons_of_ne_nil hps, List.mem_cons] at hp
      rcases hp with rfl | hp
      · exact closes_text_iff.mp hl hps
      · exact l.apart p hp
  · simp [text, join]

/-- Every line has a layout. -/
theorem exists_layout (line : Text) : ∃ l : Layout, l.text = line := by
  generalize hc : Cursor.words ⟨line⟩ = ws
  induction ws generalizing line with
  | nil =>
    have hg : IsGap line := Cursor.isGap_of_next_none (Cursor.next_of_words_nil hc)
    exact ⟨⟨line, [], hg, by simp, by simp, by simp⟩, List.append_nil line⟩
  | cons w ws ih =>
    obtain ⟨d, hn, hd⟩ := Cursor.exists_next_of_words_cons hc
    obtain ⟨gap, hg, hw, ht, rfl⟩ := Cursor.exists_gap_of_next hn
    obtain ⟨m, hm⟩ := ih d.rest hd
    rw [← hm] at ht ⊢
    exact exists_cons hg hw ht

/-- **A cursor follows the layout of its line.** Every line has one layout. The calls give its words
one after the other, and after `n` of them the line stands as it is behind the `n`-th word; once
there is no word left, they give none and leave nothing. Taken to the end, the words are those of
the layout, whichever words and gaps it has. Each word taken makes the line shorter. -/
theorem cursor_follows_layout :
    (∀ line, ∃! l : Layout, l.text = line) ∧
      (∀ (l : Layout) (n : Nat),
        (Cursor.skip n ⟨l.text⟩).next.1 = l.words[n]? ∧
          (Cursor.skip n ⟨l.text⟩).rest = l.behind n ∧
          (l.words.length < n → (Cursor.skip n ⟨l.text⟩).rest = [])) ∧
      (∀ l : Layout, Cursor.words ⟨l.text⟩ = l.words) ∧
      ∀ (c d : Cursor) (w : Text), c.next = (some w, d) → d.rest.length < c.rest.length := by
  refine ⟨?_, ?_, words_text, fun c d w => Cursor.length_next_lt⟩
  · intro line
    obtain ⟨l, hl⟩ := exists_layout line
    exact ⟨l, hl, fun m hm => text_injective (hm.trans hl.symm)⟩
  · intro l n
    rw [next_skip_text, skip_text]
    exact ⟨rfl, rfl, behind_of_length_lt⟩

/-- Two words among blanks of several kinds: the first call gives the first of them, and the third
leaves nothing. -/
theorem cursor_follows_layout_to_end :
    let line : Cursor := ⟨.ofString "\u3000r0 \t5 "⟩
    let rest : Cursor := ⟨.ofString " \t5 "⟩
    line.next = (some (.ofString "r0"), rest) ∧ rest.rest.length < line.rest.length ∧
      line.words = [.ofString "r0", .ofString "5"] ∧ (line.skip 3).rest = [] := by
  intro line rest
  let l : Layout := ⟨['\u3000'], [(.ofString "r0", .ofString " \t"), (.ofString "5", [' '])],
    by decide, by decide, by decide, by decide⟩
  have hl : l.text = line.rest := by decide
  have hn : line.next = (some (.ofString "r0"), rest) := by decide +kernel
  have hs := (cursor_follows_layout.2.1 l 3).2.2 (by decide)
  have hw := cursor_follows_layout.2.2.1 l
  rw [hl] at hs hw
  exact ⟨hn, cursor_follows_layout.2.2.2 line rest _ hn, hw, hs⟩

end Layout

end RegisterConsole
