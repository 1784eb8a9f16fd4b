import RegisterConsole.Context
import RegisterConsole.Proofs.Values

/-!
# Reading a printed table

The words of a context are cut out of its printed table again by searching the text for the labels
of the registers.

* `occurrences_label`: in the table of a context each label occurs once, and the digits of the
  register stand behind it;
* `pairs_tableText`: the pairs cut from a table are the names and the texts of its words;
* `tableText_injective`: no two contexts have the same table.
-/

namespace RegisterConsole

/-! ## Searching a text -/

namespace Text

/-- What stands behind each occurrence of `marker` in a text. -/
def occurrences (marker : Text) : Text → List Text
  | [] => []
  | c :: t => (behind? marker (c :: t)).toList ++ occurrences marker t

theorem occurrences_append_of_ne {a : Char} {m u : Text} (h : ∀ c ∈ u, a ≠ c) (t : Text) :
    occurrences (a :: m) (u ++ t) = occurrences (a :: m) t := by
  induction u with
  | nil => rfl
  | cons c u ih =>
    obtain ⟨hc, hu⟩ := List.forall_mem_cons.mp h
    rw [List.cons_append, occurrences, behind?_cons_of_ne hc]
    exact ih hu

end Text

/-- What stands before the digits of a register in a table. -/
def Register.label (r : Register) : Text := ' ' :: r.name ++ Text.ofString " - 0x"

/-- The names of registers in a text, each with the marker and the sixteen digits that stand behind
it there. -/
def Text.pairs (t : Text) : List (Text × Text) :=
  Register.all.flatMap fun r =>
    (occurrences r.label t).map fun rest => (r.name, '0' :: 'x' :: rest.take 16)

namespace Register

/-! ## Labels -/

theorem label_append (r : Register) (t : Text) :
    r.label ++ t = ' ' :: (r.name ++ ' ' :: '-' :: ' ' :: '0' :: 'x' :: t) := by
  simp [label, Text.ofString]

/-- One label stands at the front of another only if they are the same. -/
theorem behind?_label (q r : Register) (t : Text) :
    Text.behind? q.label (r.label ++ t) = if q = r then some t else none := by
  by_cases h : q = r
  · rw [if_pos h, h, Text.behind?_append]
  · rw [if_neg h]
    cases hb : Text.behind? q.label (r.label ++ t) with
    | none => rfl
    | some u =>
      have he := Text.eq_append_of_behind? hb
      rw [label_append, label_append] at he
      have hn := congrArg (List.takeWhile (· ≠ ' ')) (List.cons.inj he).2
      rw [takeWhile_name_append, takeWhile_name_append] at hn
      exact absurd (name_injective hn.symm) h

/-- A label begins with a blank and a letter. -/
theorem label_eq_cons (r : Register) : ∃ a m, r.label = ' ' :: a :: m ∧ a.isAlpha = true := by
  cases r <;> exact ⟨_, _, rfl, by decide⟩

theorem occurrences_label_blank (q : Register) {b : Char} (hb : b.isAlpha = false) (t : Text) :
    Text.occurrences q.label (' ' :: b :: t) = Text.occurrences q.label (b :: t) := by
  obtain ⟨a, m, hl, ha⟩ := q.label_eq_cons
  have hab : a ≠ b := by
    rintro rfl
    rw [ha] at hb
    cases hb
  rw [hl, Text.occurrences, Text.behind?_cons_self, Text.behind?_cons_of_ne hab]
  rfl

theorem occurrences_label_append (q : Register) {u : Text} (h : ∀ c ∈ u, ' ' ≠ c) (t : Text) :
    Text.occurrences q.label (u ++ t) = Text.occurrences q.label t := by
  obtain ⟨a, m, hl, _⟩ := q.label_eq_cons
  rw [hl, Text.occurrences_append_of_ne h]

/-- Within a label and the digits behind it, a label begins at the front or nowhere. -/
theorem occurrences_label_label (q r : Register) {digits : Text} (h : ∀ c ∈ digits, ' ' ≠ c)
    (t : Text) :
    Text.occurrences q.label (r.label ++ (digits ++ t)) =
      (if q = r then [digits ++ t] else []) ++ Text.occurrences q.label t := by
  have hfront := behind?_label q r (digits ++ t)
  rw [label_append] at hfront ⊢
  rw [Text.occurrences, hfront, occurrences_label_append q fun c => blank_ne_of_mem_name,
    occurrences_label_blank q rfl]
  have hdash := occurrences_label_append q (u := ['-']) (by simp)
    (' ' :: '0' :: 'x' :: (digits ++ t))
  have hmark := occurrences_label_append q (u := ['0', 'x']) (by simp) (digits ++ t)
  simp only [List.cons_append, List.nil_append] at hdash hmark
  rw [hdash, occurrences_label_blank q rfl, hmark, occurrences_label_append q h]
  split <;> rfl

end Register

namespace Context

/-! ## The table as one text -/

/-- The table of a context as it is printed. -/
def tableText (c : Context) : Text := Text.unlines c.table

/-- What stands before the field of a register in a table. -/
def lead : Register → Text
  | .r0 => [' ']
  | .r1 | .r3 | .r5 | .r7 | .controlFlags => [',']
  | .r2 | .r4 | .r6 | .flags | .ip => ['\n', ' ']

theorem tableText_eq (c : Context) :
    c.tableText = (Register.all.flatMap fun r => lead r ++ c.field r) ++ ['\n'] := by
  simp [tableText, table, tableRows, row, Text.unlines, Register.all, Register.table, lead,
    List.intercalate]

theorem field_eq (c : Context) (r : Register) :
    c.field r = r.label ++ Hex.fixed 16 (c.get r).toNat := by
  simp [field, Register.label, Word.text, Text.ofString]

theorem occurrences_lead (q r : Register) (t : Text) :
    Text.occurrences q.label (lead r ++ (r.label ++ t)) =
      Text.occurrences q.label (r.label ++ t) := by
  obtain ⟨a, m, hl, _⟩ := r.label_eq_cons
  rw [hl]
  have hcomma := Register.occurrences_label_append q (u := [',']) (by simp) (' ' :: a :: (m ++ t))
  have hline := Register.occurrences_label_append q (u := ['\n']) (by simp)
    (' ' :: ' ' :: a :: (m ++ t))
  have hblank := Register.occurrences_label_blank q (b := ' ') rfl (a :: (m ++ t))
  cases r with
  | r0 => exact hblank
  | r1 | r3 | r5 | r7 | controlFlags => exact hcomma
  | r2 | r4 | r6 | flags | ip => exact hline.trans hblank

theorem blank_ne_of_mem_fixed {width n : Nat} {c : Char} (h : c ∈ Hex.fixed width n) : ' ' ≠ c := by
  obtain ⟨d, hd, rfl⟩ := Hex.mem_fixed h
  have : ∀ d < 16, ' ' ≠ Hex.digitOf d := by decide
  exact this d hd

theorem occurrences_fields (c : Context) (q : Register) (rs : List Register) (t : Text) :
    (Text.occurrences q.label ((rs.flatMap fun r => lead r ++ c.field r) ++ t)).map (List.take 16) =
      ((rs.filter (q = ·)).map fun r => Hex.fixed 16 (c.get r).toNat) ++
        (Text.occurrences q.label t).map (List.take 16) := by
  induction rs with
  | nil => rfl
  | cons r rs ih =>
    have hd : ∀ ch ∈ Hex.fixed 16 (c.get r).toNat, ' ' ≠ ch := fun ch => blank_ne_of_mem_fixed
    simp only [List.flatMap_cons, List.append_assoc, field_eq] at ih ⊢
    rw [occurrences_lead, Register.occurrences_label_label q r hd, List.map_append, ih]
    by_cases h : q = r
    · simp [h]
    · simp [h]

/-- **Each label occurs once in a table**, and the digits of its register stand behind it. -/
theorem occurrences_label (c : Context) (q : Register) :
    (Text.occurrences q.label c.tableText).map (List.take 16) = [Hex.fixed 16 (c.get q).toNat] := by
  have hall : Register.all.filter (q = ·) = [q] := by cases q <;> decide
  have hend : Text.occurrences q.label ['\n'] = [] := by
    obtain ⟨a, m, hl, _⟩ := q.label_eq_cons
    rw [hl]
    rfl
  rw [tableText_eq, occurrences_fields, hall, hend]
  rfl

theorem pairs_tableText (c : Context) :
    c.tableText.pairs = Register.all.map fun r => (r.name, (c.get r).text) := by
  have h (r : Register) : ((Text.occurrences r.label c.tableText).map fun rest =>
      (r.name, '0' :: 'x' :: rest.take 16)) = [(r.name, (c.get r).text)] := by
    have hr := congrArg (List.map fun digits : Text => (r.name, '0' :: 'x' :: digits))
      (occurrences_label c r)
    rwa [List.map_map] at hr
  simp only [Text.pairs, h]
  exact List.map_eq_flatMap.symm

theorem tableText_injective {c d : Context} (h : c.tableText = d.tableText) : c = d := by
  apply ext_get
  intro r
  have hr := occurrences_label c r
  rw [h, occurrences_label d r, List.cons.injEq] at hr
  apply Word.text_injective
  rw [Word.text, Word.text, hr.1]

end Context

end RegisterConsole
