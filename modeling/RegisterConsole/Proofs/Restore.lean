import RegisterConsole.Proofs.Saturation
import RegisterConsole.Proofs.TableText
import RegisterConsole.Proofs.Writes

/-!
# Typing a table back in

A printed table has all that is needed to restore its context from the console.

* `request?_writeLine`: the line made of a name and the text of a word writes that word there;
* `get_after_writeLines`: after such lines, in any order, each register that one of them names holds
  its word;
* `table_restores`: the lines cut from the table of a context restore it from any other.
-/

namespace RegisterConsole

/-! ## The lines of a table -/

/-- What a table shows of a register: its name and the text of its word. -/
def Context.entry (c : Context) (r : Register) : Text × Text := (r.name, (c.get r).text)

theorem Context.entry_injective {c : Context} {q r : Register} (h : c.entry q = c.entry r) :
    q = r :=
  Register.name_injective (congrArg Prod.fst h)

theorem Register.isWord_name (r : Register) : Cursor.IsWord r.name := by
  have hn : r.name.all Text.isInk = true := by cases r <;> rfl
  exact ⟨by cases r <;> decide, List.all_eq_true.mp hn⟩

theorem Word.isWord_text (w : Word) : Cursor.IsWord w.text := by
  refine ⟨List.cons_ne_nil _ _, fun c h => ?_⟩
  rw [text, List.mem_cons, List.mem_cons] at h
  rcases h with rfl | rfl | h
  · rfl
  · rfl
  · obtain ⟨d, hd, rfl⟩ := Hex.mem_fixed h
    have : ∀ d < 16, Text.isInk (Hex.digitOf d) = true := by decide
    exact this d hd

namespace Session

/-- The line that gives the register of a name a value. -/
def Step.writeLine (entry : Text × Text) : Step :=
  .line (Text.ofString "r " ++ entry.1 ++ ' ' :: entry.2)

theorem words_writeLine (r : Register) (w : Word) :
    Cursor.words ⟨Text.ofString "r " ++ r.name ++ ' ' :: w.text⟩ = [['r'], r.name, w.text] := by
  have hl : Text.ofString "r " ++ r.name ++ ' ' :: w.text =
      ['r'] ++ ' ' :: (r.name ++ ' ' :: w.text) := by simp [Text.ofString]
  have hc : Cursor.IsWord ['r'] := ⟨List.cons_ne_nil _ _, List.all_eq_true.mp rfl⟩
  rw [hl, Cursor.words_append_blank hc rfl, Cursor.words_append_blank r.isWord_name rfl,
    Cursor.words_of_word w.isWord_text]

theorem request?_writeLine (p : Policy) (r : Register) (w : Word) :
    (Step.writeLine (r.name, w.text)).request? p = some (.write r w) := by
  have hv : Value.read p w.text = .ok w := Value.read_of_spells p (Value.spells_text w)
  have hq : Request.ofWord p r.name (some w.text) = .write r w :=
    Request.ofWord_eq_write_iff.mpr ⟨Text.SameFold.refl _, w.text, rfl, hv⟩
  simp only [Step.writeLine, Step.request?, words_writeLine]
  exact congrArg some hq

/-! ## Restoring a context -/

theorem get_after_writeLines {c : Context} {entries : List (Text × Text)}
    (h : ∀ e ∈ entries, ∃ q, e = c.entry q) (s : Session) (r : Register) :
    (s.after (entries.map Step.writeLine)).context.get r =
      if c.entry r ∈ entries then c.get r else s.context.get r := by
  induction entries generalizing s with
  | nil => rfl
  | cons e entries ih =>
    obtain ⟨⟨q, rfl⟩, hn⟩ := List.forall_mem_cons.mp h
    have hs : (s.step (Step.writeLine (c.entry q))).1.context = s.context.set q (c.get q) := by
      rw [Context.entry, step_of_request (request?_writeLine _ q (c.get q))]
      rfl
    rw [List.map_cons, after_cons, ih hn, hs]
    by_cases hm : c.entry r ∈ entries
    · rw [if_pos hm, if_pos (List.mem_cons_of_mem _ hm)]
    · by_cases hq : r = q
      · subst hq
        rw [if_neg hm, if_pos List.mem_cons_self, Context.get_set_self]
      · rw [if_neg hm, Context.get_set_ne _ _ hq, if_neg]
        rintro hc
        rcases List.mem_cons.mp hc with he | he
        · exact hq (Context.entry_injective he)
        · exact hm he

/-- The answer to a line that writes tells of nothing else and prints nothing. -/
theorem answers_writeLines {c : Context} {entries : List (Text × Text)}
    (h : ∀ e ∈ entries, ∃ q, e = c.entry q) (s : Session) :
    ∀ a ∈ s.answers (entries.map Step.writeLine),
      (∃ rest, a.result = .ran .proceed rest) ∧ a.output = [] ∧ ∀ e ∈ a.log, e.1 = .debug := by
  induction entries generalizing s with
  | nil => simp [answers]
  | cons e entries ih =>
    obtain ⟨⟨q, rfl⟩, hn⟩ := List.forall_mem_cons.mp h
    intro a ha
    rcases List.mem_cons.mp ha with rfl | ha
    · rw [Context.entry, step_of_request (request?_writeLine _ q (c.get q))]
      refine ⟨⟨_, rfl⟩, rfl, fun e he => ?_⟩
      simp only [carryOut, Request.run, journal] at he
      obtain ⟨f, hf, rfl⟩ := List.mem_map.mp he
      have hm := (List.mem_filter.mp hf).1
      split at hm
      · rw [List.mem_singleton.mp hm]
        rfl
      · cases hm
    · exact ih hn _ a ha

theorem output_dump (s : Session) (h : s.sink.room = none) :
    (s.step .dump).2.output = Text.utf8 s.context.tableText :=
  (s.sink.takes_printLines s.context.table).accepted_of_open h

/-- **A table restores its context.** In the text that a dump prints each label occurs once; the
lines made of the labels and the digits behind them, typed in any order into a console with any
context and either policy, are all accepted, print nothing, and leave the context that was shown.
So no other context prints that text. -/
theorem table_restores (d s : Session) (text : Text) (entries : List (Text × Text))
    (hd : d.sink.room = none) (ht : (d.step .dump).2.output = Text.utf8 text)
    (hl : entries.Perm text.pairs) :
    (∀ r : Register, (Text.occurrences r.label text).length = 1) ∧
      entries.length = 11 ∧
      (∀ e ∈ entries, ∃ r w, (Step.writeLine e).Writes s.options.policy r w) ∧
      (∀ a ∈ s.answers (entries.map Step.writeLine),
        (∃ rest, a.result = .ran .proceed rest) ∧ a.output = [] ∧ ∀ e ∈ a.log, e.1 = .debug) ∧
      (s.after (entries.map Step.writeLine)).context = d.context ∧
      ∀ d' : Session, d'.sink.room = none → (d'.step .dump).2.output = Text.utf8 text →
        d'.context = d.context := by
  have htext : text = d.context.tableText := Text.utf8_injective (ht.symm.trans (output_dump d hd))
  have hp : text.pairs = Register.all.map d.context.entry := by
    rw [htext, Context.pairs_tableText]
    rfl
  rw [hp] at hl
  have he : ∀ e ∈ entries, ∃ q, e = d.context.entry q := by
    intro e h
    obtain ⟨q, _, rfl⟩ := List.mem_map.mp (hl.mem_iff.mp h)
    exact ⟨q, rfl⟩
  refine ⟨fun r => ?_, hl.length_eq, fun e h => ?_, answers_writeLines he s, ?_, ?_⟩
  · have hr := congrArg List.length (Context.occurrences_label d.context r)
    rwa [List.length_map, ← htext] at hr
  · obtain ⟨q, rfl⟩ := he e h
    exact ⟨q, d.context.get q, writes_line_iff.mpr (request?_writeLine _ q _)⟩
  · apply Context.ext_get
    intro r
    rw [get_after_writeLines he, if_pos (hl.mem_iff.mpr (List.mem_map_of_mem (Register.mem_all r)))]
  · intro d' hd' ht'
    have := Text.utf8_injective (ht'.symm.trans (output_dump d' hd'))
    exact Context.tableText_injective (this.symm.trans htext)

/-- The lines of a table typed from its end. -/
theorem table_restores_from_end :
    let d : Session := { context := { r3 := 31, ip := 0x7fff } }
    let s : Session := { context := { r0 := 1 }, options := { policy := .lenient } }
    let text := d.context.tableText
    d.sink.room = none ∧ (d.step .dump).2.output = Text.utf8 text ∧
      text.pairs.reverse.Perm text.pairs ∧
      (s.after (text.pairs.reverse.map Step.writeLine)).context = d.context := by
  intro d s text
  have ht : (d.step .dump).2.output = Text.utf8 text := output_dump d rfl
  have hl : text.pairs.reverse.Perm text.pairs := List.reverse_perm _
  exact ⟨rfl, ht, hl, (table_restores d s text _ rfl ht hl).2.2.2.2.1⟩

end Session

end RegisterConsole
