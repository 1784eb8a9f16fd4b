import RegisterConsole.Proofs.Effects
import RegisterConsole.Proofs.Saturation
import RegisterConsole.Proofs.TableText
import RegisterConsole.Proofs.Writes

/-!
# What a write changes of the table

The table of a context has sixteen digits for each register, in a place that is the same for all
contexts. A write puts the digits of its word there and leaves the rest of the table as it is.

* `read_digits`: digits in either case, with zeros in front or without, behind a marker or not, are
  accepted as the word they stand for;
* `tableText_eq_around`, `ahead_set`, `behind_set`: the table, cut at the digits of a register, and
  what a write to that register leaves of it;
* `write_moves_one_field`: the table shown after a typed write differs from the one before in those
  digits alone.
-/

namespace RegisterConsole

/-! ## Spellings of a word -/

namespace Value

/-- Digits behind an optional marker are accepted as the word they stand for. -/
theorem read_digits (p : Policy) {marker : Text} (hm : marker ∈ markers) {t : Text} (hne : t ≠ [])
    (h : ∀ c ∈ t, (Hex.digit? c).isSome) {w : Word} (hw : Hex.value t = w.toNat) :
    read p (marker ++ t) = .ok w :=
  read_of_spells p ⟨marker, hm, t, hne, rfl, Hex.numeral_iff.mpr ⟨h, hw⟩⟩

end Value

/-! ## The place of a register in a table -/

namespace Context

/-- The fields of some registers, each with what stands before it in a table. -/
def fields (c : Context) (rs : List Register) : Text := rs.flatMap fun r => lead r ++ c.field r

/-- What stands in a table before the digits of a register. -/
def ahead (c : Context) (r : Register) : Text :=
  c.fields (Register.all.take r.index) ++ lead r ++ r.label

/-- What stands in a table behind the digits of a register. -/
def behind (c : Context) (r : Register) : Text :=
  c.fields (Register.all.drop (r.index + 1)) ++ ['\n']

theorem all_eq_around (r : Register) :
    Register.all = Register.all.take r.index ++ r :: Register.all.drop (r.index + 1) := by
  cases r <;> rfl

/-- A table is the digits of a register between what stands before and behind them. -/
theorem tableText_eq_around (c : Context) (r : Register) :
    c.tableText = c.ahead r ++ (Hex.fixed 16 (c.get r).toNat ++ c.behind r) := by
  have h : c.tableText = c.fields Register.all ++ ['\n'] := tableText_eq c
  rw [h, all_eq_around r, fields, List.flatMap_append, List.flatMap_cons, field_eq]
  simp only [ahead, behind, fields, List.append_assoc]

theorem fields_set {rs : List Register} {r : Register} (h : r ∉ rs) (c : Context) (w : Word) :
    (c.set r w).fields rs = c.fields rs := by
  apply List.flatMap_congr
  intro q hq
  have hne : q ≠ r := fun e => h (e ▸ hq)
  rw [field, field, get_set_ne c w hne]

theorem ahead_set (c : Context) (r : Register) (w : Word) : (c.set r w).ahead r = c.ahead r := by
  have h : r ∉ Register.all.take r.index := by cases r <;> decide
  rw [ahead, ahead, fields_set h]

theorem behind_set (c : Context) (r : Register) (w : Word) :
    (c.set r w).behind r = c.behind r := by
  have h : r ∉ Register.all.drop (r.index + 1) := by cases r <;> decide
  rw [behind, behind, fields_set h]

/-- The table after a write has the digits of the word in the place of the register, and nothing
else changed. -/
theorem tableText_set (c : Context) (r : Register) (w : Word) :
    (c.set r w).tableText = c.ahead r ++ (Hex.fixed 16 w.toNat ++ c.behind r) := by
  rw [tableText_eq_around _ r, ahead_set, behind_set, get_set_self]

end Context

/-! ## Lengths -/

/-- Every digit takes one byte. -/
theorem Hex.length_utf8_fixed (width n : Nat) : (Text.utf8 (fixed width n)).length = width := by
  have hd : ∀ d < 16, (String.utf8EncodeChar (digitOf d)).length = 1 := by decide
  induction width generalizing n with
  | zero => rfl
  | succ width ih =>
    rw [fixed, Text.utf8_append, List.length_append, ih]
    simp [Text.utf8, hd (n % 16) (Nat.mod_lt n (by decide))]

theorem Context.length_utf8_around (ahead behind : Text) (v w : Word) :
    (Text.utf8 (ahead ++ (Hex.fixed 16 v.toNat ++ behind))).length =
      (Text.utf8 (ahead ++ (Hex.fixed 16 w.toNat ++ behind))).length := by
  simp only [Text.utf8_append, List.length_append, Hex.length_utf8_fixed]

/-- How many bytes a sink accepts of a text depends on the number of its bytes alone. -/
theorem Sink.length_accepts_congr (s : Sink) {t u : Text}
    (h : (Text.utf8 t).length = (Text.utf8 u).length) :
    (s.accepts t).length = (s.accepts u).length := by
  rw [accepts, accepts, List.length_take, List.length_take, h]

namespace Session

theorem output_step_dump (s : Session) :
    (s.step .dump).2.output = s.sink.accepts s.context.tableText :=
  s.sink.printLines_accepted s.context.table

/-- A line of the command alone shows the registers. -/
theorem request?_of_words_singleton (p : Policy) {line command : Text}
    (hw : Cursor.words ⟨line⟩ = [command]) (hm : registerCommand.matches command = true) :
    (Step.line line).request? p = some .display := by
  rw [request?_line, hw, Request.ofLine?, if_pos hm]
  rfl

theorem output_step_display {s : Session} {x : Step}
    (h : x.request? s.options.policy = some .display) :
    (s.step x).2.output = s.sink.accepts s.context.tableText := by
  rw [step_of_request h, answer_carryOut]
  rfl

/-- A line that writes prints nothing and changes its register only. -/
theorem step_of_writes {s : Session} {line : Text} {r : Register} {w : Word}
    (h : (Step.line line).Writes s.options.policy r w) :
    (s.step (.line line)).2.output = [] ∧
      (s.step (.line line)).1 = { s with context := s.context.set r w } := by
  rw [step_of_request (writes_line_iff.mp h), answer_carryOut, session_carryOut]
  exact ⟨s.sink.accepts_nil, rfl⟩

/-- **A write shows in one field of the table.** A line of the command, the name of a register in
any case and a text that the policy accepts as `w` prints nothing; the table that is shown next is
the one that a dump prints before, but for the sixteen digits behind the label of the register, and
these are the digits of `w`. Digits in either case, with or without marker and zeros in front, are
such a text. -/
theorem write_moves_one_field (s : Session) (r : Register) (w : Word) :
    (∀ marker ∈ Value.markers, ∀ digits : Text, digits ≠ [] →
        (∀ c ∈ digits, (Hex.digit? c).isSome) → Hex.value digits = w.toNat →
        Value.read s.options.policy (marker ++ digits) = .ok w) ∧
      ∀ (line next command command' name text : Text) (more : List Text),
        Cursor.words ⟨line⟩ = command :: name :: text :: more →
        registerCommand.matches command = true → Text.SameFold r.name name →
        Value.read s.options.policy text = .ok w →
        Cursor.words ⟨next⟩ = [command'] → registerCommand.matches command' = true →
        (s.step (.line line)).2.output = [] ∧
          ∃ ahead behind : Text, r.label <:+ ahead ∧
            (s.step .dump).2.output =
              s.sink.accepts (ahead ++ (Hex.fixed 16 (s.context.get r).toNat ++ behind)) ∧
            ((s.step (.line line)).1.step (.line next)).2.output =
              s.sink.accepts (ahead ++ (Hex.fixed 16 w.toNat ++ behind)) ∧
            ((s.step (.line line)).1.step (.line next)).2.output.length =
              (s.step .dump).2.output.length := by
  constructor
  · intro marker hm digits hne hd hw
    exact Value.read_digits s.options.policy hm hne hd hw
  · intro line next command command' name text more hl hc hn hv hnext hc'
    have hwrites : (Step.line line).Writes s.options.policy r w :=
      ⟨command, name, text, more, hl, registerCommand_matches_iff.mp hc, hn, hv⟩
    obtain ⟨hout, hstep⟩ := step_of_writes hwrites
    have hbefore : (s.step .dump).2.output = s.sink.accepts
        (s.context.ahead r ++ (Hex.fixed 16 (s.context.get r).toNat ++ s.context.behind r)) := by
      rw [output_step_dump, Context.tableText_eq_around _ r]
    have hafter : ((s.step (.line line)).1.step (.line next)).2.output = s.sink.accepts
        (s.context.ahead r ++ (Hex.fixed 16 w.toNat ++ s.context.behind r)) := by
      rw [hstep, output_step_display (request?_of_words_singleton _ hnext hc'),
        Context.tableText_set]
    refine ⟨hout, s.context.ahead r, s.context.behind r, ⟨_, rfl⟩, hbefore, hafter, ?_⟩
    rw [hafter, hbefore]
    exact s.sink.length_accepts_congr (Context.length_utf8_around _ _ w (s.context.get r))

/-- A word in capitals behind a marker, for a name in small letters, in a context with other words. -/
theorem write_moves_one_field_of_controlFlags :
    let s : Session := { context := { r3 := 31, controlFlags := 7 } }
    let line := Text.ofString " R  controlflags 0X00AB"
    Value.read .strict (.ofString "0X00AB") = .ok 0xab ∧
      Cursor.words ⟨line⟩ = [.ofString "R", .ofString "controlflags", .ofString "0X00AB"] ∧
      Text.SameFold Register.controlFlags.name (.ofString "controlflags") ∧
      (s.step (.line line)).2.output = [] ∧
      ((s.step (.line line)).1.step (.line ['r'])).2.output.length =
        (s.step .dump).2.output.length := by
  intro s line
  have hv : Value.read .strict (.ofString "0X00AB") = .ok 0xab := by decide +kernel
  have hl : Cursor.words ⟨line⟩ =
      [.ofString "R", .ofString "controlflags", .ofString "0X00AB"] := by decide +kernel
  have hn : Text.SameFold Register.controlFlags.name (.ofString "controlflags") := by decide
  have hnext : Cursor.words ⟨['r']⟩ = [['r']] := by decide +kernel
  obtain ⟨hout, _, _, _, _, _, hlen⟩ := (write_moves_one_field s .controlFlags 0xab).2 line ['r']
    (.ofString "R") ['r'] (.ofString "controlflags") (.ofString "0X00AB") [] hl (by decide) hn hv
    hnext (by decide)
  exact ⟨hv, hl, hn, hout, hlen⟩

end Session

end RegisterConsole
