import RegisterConsole.Proofs.Effects
import RegisterConsole.Proofs.TableText

/-!
# How a call of the register command ends

A call ends in one of five ways. The argument, the next word of the line and the policy settle which
of them it is: a value is missed before it is judged, and judged before the register is looked up.
On a sink that accepts everything the ending settles all the rest.

* `asks_of_arises`, `eq_ofRequest`: what leads to an ending leads to its request, and to no other's;
* `exists_arises`: every call has an ending;
* `refused_reject`: a request that is refused leaves one line and one record with the same text;
* `command_has_one_ending`: every call has exactly one ending, and leaves what belongs to it.
-/

namespace RegisterConsole

/-- How a call of the register command can end. -/
inductive Ending where
  | shown
  | valueMissing (name : Text)
  | valueRefused (name word : Text)
  | nameUnknown (name : Text)
  | written (r : Register) (w : Word)

namespace Ending

/-! ## What leads to an ending -/

/-- The argument, the words that are left of the line and the policy lead to the ending. -/
def Arises (p : Policy) (arg : Option Text) (line : Cursor) : Ending → Prop
  | shown => arg = none
  | valueMissing name => arg = some name ∧ line.words = []
  | valueRefused name word =>
    arg = some name ∧ line.words.head? = some word ∧ ∀ w, Value.read p word ≠ .ok w
  | nameUnknown name =>
    arg = some name ∧ (∃ word w, line.words.head? = some word ∧ Value.read p word = .ok w) ∧
      ∀ r : Register, ¬ Text.SameFold r.name name
  | written r w =>
    ∃ name word, arg = some name ∧ line.words.head? = some word ∧ Value.read p word = .ok w ∧
      Text.SameFold r.name name

/-- The request comes to the ending. -/
def Asks (q : Request) : Ending → Prop
  | shown => q = .display
  | valueMissing name => q = .reject name .missingValue
  | valueRefused name word =>
    q = .reject name (.malformedNumber word) ∨ q = .reject name (.numberTooLarge word)
  | nameUnknown name => q = .reject name (.unknownRegister name)
  | written r w => q = .write r w

theorem asks_of_arises {p : Policy} {arg : Option Text} {line : Cursor} {e : Ending}
    (h : e.Arises p arg line) : e.Asks (Request.read p arg line).1 := by
  cases e with
  | shown =>
    obtain rfl : arg = none := h
    rfl
  | valueMissing name =>
    obtain ⟨rfl, hw⟩ := h
    rw [Request.read_some, Cursor.next_fst, hw]
    rfl
  | valueRefused name word =>
    obtain ⟨rfl, hw, hv⟩ := h
    rw [Request.read_some, Cursor.next_fst, hw]
    cases hr : Value.read p word with
    | ok w => exact absurd hr (hv w)
    | error fault =>
      simp only [Asks, Request.ofWord, hr]
      rcases Value.read_eq_error hr with rfl | rfl
      · exact Or.inl rfl
      · exact Or.inr rfl
  | nameUnknown name =>
    obtain ⟨rfl, ⟨word, w, hw, hv⟩, hn⟩ := h
    have hr : Register.resolve name = .error (.unknownRegister name) :=
      Register.resolve_eq_error_iff.mpr ⟨Register.find?_eq_none_iff.mpr hn, rfl⟩
    simp only [Request.read_some, Cursor.next_fst, hw, Asks, Request.ofWord, hv, hr]
  | written r w =>
    obtain ⟨name, word, rfl, hw, hv, hn⟩ := h
    rw [Request.read_some, Cursor.next_fst, hw]
    exact Request.ofWord_eq_write_iff.mpr ⟨hn, word, rfl, hv⟩

/-- The ending of a request. -/
def ofRequest : Request → Ending
  | .display => shown
  | .write r w => written r w
  | .reject name (.malformedNumber word) | .reject name (.numberTooLarge word) =>
    valueRefused name word
  | .reject name (.unknownRegister _) => nameUnknown name
  | .reject name _ => valueMissing name

theorem eq_ofRequest {q : Request} {e : Ending} (h : e.Asks q) : e = ofRequest q := by
  cases e with
  | valueRefused name word => rcases h with rfl | rfl <;> rfl
  | _ => cases h; rfl

/-- No call has two endings. -/
theorem arises_unique {p : Policy} {arg : Option Text} {line : Cursor} {e e' : Ending}
    (h : e.Arises p arg line) (h' : e'.Arises p arg line) : e = e' :=
  (eq_ofRequest (asks_of_arises h)).trans (eq_ofRequest (asks_of_arises h')).symm

/-- Every call has an ending. -/
theorem exists_arises (p : Policy) (arg : Option Text) (line : Cursor) :
    ∃ e : Ending, e.Arises p arg line := by
  cases arg with
  | none => exact ⟨shown, rfl⟩
  | some name =>
    cases hw : line.words with
    | nil => exact ⟨valueMissing name, rfl, hw⟩
    | cons word words =>
      have hh : line.words.head? = some word := by rw [hw]; rfl
      cases hv : Value.read p word with
      | error fault => exact ⟨valueRefused name word, rfl, hh, by simp [hv]⟩
      | ok w =>
        cases hf : Register.find? name with
        | none => exact ⟨nameUnknown name, rfl, ⟨word, w, hh, hv⟩, Register.find?_eq_none_iff.mp hf⟩
        | some r => exact ⟨written r w, name, word, rfl, hh, hv, Register.find?_eq_some hf⟩

/-! ## What a call leaves -/

/-- The call has shown the context, and taken no word. -/
structure Shown (c : Context) (line : Cursor) (out : Outcome) : Prop where
  context : out.effect.context = c
  line : out.line = line
  output : out.effect.output = Text.utf8 c.tableText
  log : journal (some .trace) out.effect.events =
    [(.debug, Text.ofString "printing registers, ip = " ++ c.ip.text)]

/-- The call has told a diagnostic, in a line and in a record that names the register. -/
structure Refused (c : Context) (line : Cursor) (name diagnostic : Text) (out : Outcome) :
    Prop where
  context : out.effect.context = c
  line : out.line = line.next.2
  output : out.effect.output = Text.utf8 (diagnostic ++ ['\n'])
  log : journal (some .trace) out.effect.events =
    [(.warn, Text.ofString "register command rejected `" ++ name ++ Text.ofString "': " ++
      diagnostic)]

/-- The call has written to a register, and printed nothing. -/
structure Wrote (o : Options) (c : Context) (line : Cursor) (r : Register) (w : Word)
    (out : Outcome) : Prop where
  written : out.effect.context.get r = w
  kept : ∀ q ≠ r, out.effect.context.get q = c.get q
  line : out.line = line.next.2
  output : out.effect.output = []
  log : journal (some .trace) out.effect.events =
    if o.logWrites then
      [(.debug, Text.ofString "set " ++ r.name ++ Text.ofString " to " ++ w.text)]
    else []

/-- The call leaves what belongs to the ending. -/
def Leaves (o : Options) (c : Context) (line : Cursor) (out : Outcome) : Ending → Prop
  | shown => Shown c line out
  | valueMissing name => Refused c line name (.ofString "Invalid Register Value") out
  | valueRefused name word =>
    Refused c line name (Text.ofString "Invalid Register Value - " ++ word) out
  | nameUnknown name => Refused c line name (Text.ofString "Invalid Register - " ++ name) out
  | written r w => Wrote o c line r w out

/-- The outcome of a request for which `line` is left. -/
def outcome (o : Options) (c : Context) (s : Sink) (line : Cursor) (q : Request) : Outcome :=
  { status := .proceed, line := line, effect := q.run o c s }

section OpenSink

variable {s : Sink} (hs : s.room = none) (o : Options) (c : Context) (line : Cursor)
include hs

theorem shown_display : Shown c line (outcome o c s line .display) := by
  have hl : journal (some .trace) (Request.run o c s .display).events =
      [(.debug, Text.ofString "printing registers, ip = " ++ c.ip.text)] := by
    rw [Request.run_eq, Sink.failure?_of_open hs, journal_trace]
    rfl
  refine ⟨rfl, rfl, ?_, hl⟩
  show (Request.run o c s .display).output = _
  rw [Request.run_eq, Sink.accepts_of_open hs]
  rfl

/-- A request that is refused leaves one line and one record with the same text. -/
theorem refused_reject (name : Text) (fault : Fault) :
    Refused c line name fault.message (outcome o c s line.next.2 (.reject name fault)) := by
  have hl : journal (some .trace) (Request.run o c s (.reject name fault)).events =
      [(.warn, Text.ofString "register command rejected `" ++ name ++ Text.ofString "': " ++
        fault.message)] := by
    rw [Request.run_eq, Sink.failure?_of_open hs, journal_trace]
    rfl
  refine ⟨rfl, rfl, ?_, hl⟩
  show (Request.run o c s (.reject name fault)).output = _
  rw [Request.run_eq, Sink.accepts_of_open hs]
  simp [Request.lines, Text.unlines]

omit hs in
theorem wrote_write (r : Register) (w : Word) :
    Wrote o c line r w (outcome o c s line.next.2 (.write r w)) := by
  refine ⟨c.get_set_self r w, fun q hq => c.get_set_ne w hq, rfl, rfl, ?_⟩
  show journal (some .trace) (if o.logWrites then [.wrote r w] else []) = _
  rw [journal_trace]
  split <;> rfl

/-- A call leaves what belongs to its ending. -/
theorem leaves_of_arises {arg : Option Text} {e : Ending} (h : e.Arises o.policy arg line) :
    e.Leaves o c line
      (outcome o c s (Request.read o.policy arg line).2 (Request.read o.policy arg line).1) := by
  have hq := asks_of_arises h
  cases e with
  | shown =>
    obtain rfl : arg = none := h
    exact shown_display hs o c line
  | valueMissing name =>
    obtain ⟨rfl, _⟩ := h
    simp only [Asks] at hq
    rw [hq]
    exact refused_reject hs o c line name .missingValue
  | valueRefused name word =>
    obtain ⟨rfl, _⟩ := h
    -- the two faults of a number have the same message
    rcases hq with hq | hq
    · rw [hq]
      exact refused_reject hs o c line name (.malformedNumber word)
    · rw [hq]
      exact refused_reject hs o c line name (.numberTooLarge word)
  | nameUnknown name =>
    obtain ⟨rfl, _⟩ := h
    simp only [Asks] at hq
    rw [hq]
    exact refused_reject hs o c line name (.unknownRegister name)
  | written r w =>
    obtain ⟨name, _, rfl, _⟩ := h
    simp only [Asks] at hq
    rw [hq]
    exact wrote_write o c line r w

end OpenSink

theorem Refused.output_ne_nil {c : Context} {line : Cursor} {name diagnostic : Text} {out : Outcome}
    (h : Refused c line name diagnostic out) : out.effect.output ≠ [] := by
  rw [h.output, Text.utf8_append]
  exact List.append_ne_nil_of_right_ne_nil _ (by decide)

/-- With an argument, a call that leaves what belongs to its ending prints nothing just where it has
written to a register. -/
theorem output_eq_nil_iff {o : Options} {c : Context} {line : Cursor} {out : Outcome} {e : Ending}
    (h : e.Leaves o c line out) (he : e ≠ shown) :
    out.effect.output = [] ↔ ∃ r w, e = written r w := by
  cases e with
  | shown => exact absurd rfl he
  | written r w => exact ⟨fun _ => ⟨r, w, rfl⟩, fun _ => h.output⟩
  | _ => exact ⟨fun ho => absurd ho h.output_ne_nil, fun ⟨_, _, hw⟩ => nomatch hw⟩

/-- A call that prints leaves the context as it was. -/
theorem context_of_output_ne_nil {o : Options} {c : Context} {line : Cursor} {out : Outcome}
    {e : Ending} (h : e.Leaves o c line out) (ho : out.effect.output ≠ []) :
    out.effect.context = c := by
  cases e with
  | written r w => exact absurd h.output ho
  | _ => exact h.context

/-- **Every call of the register command has one ending.** On a sink that accepts everything the
console always goes on; exactly one of the five endings arises from the argument, the line and the
policy, and the call leaves what belongs to it. Hence a call with an argument prints nothing just
where it writes to a register, and where it prints it leaves the context as it was. -/
theorem command_has_one_ending (t : Trap) (o : Options) (arg : Option Text) (line : Cursor)
    (c : Context) (s : Sink) (hs : s.room = none) :
    let out := registerCommand.handler t o arg line c s
    out.status = .proceed ∧
      (∃! e : Ending, e.Arises o.policy arg line) ∧
      (∀ e : Ending, e.Arises o.policy arg line → e.Leaves o c line out) ∧
      ∀ name, arg = some name →
        (out.effect.output = [] ↔ ∃ r w, (written r w).Arises o.policy arg line) ∧
          (out.effect.output ≠ [] → out.effect.context = c) := by
  intro out
  have hl : ∀ e : Ending, e.Arises o.policy arg line → e.Leaves o c line out := fun e h =>
    leaves_of_arises hs o c line h
  obtain ⟨e, he⟩ := exists_arises o.policy arg line
  refine ⟨rfl, ⟨e, he, fun e' h' => arises_unique h' he⟩, hl, fun name hname => ⟨?_, ?_⟩⟩
  · have hne : e ≠ shown := by
      rintro rfl
      rw [show arg = none from he] at hname
      cases hname
    rw [output_eq_nil_iff (hl e he) hne]
    constructor
    · rintro ⟨r, w, rfl⟩
      exact ⟨r, w, he⟩
    · rintro ⟨r, w, h⟩
      exact ⟨r, w, arises_unique he h⟩
  · exact context_of_output_ne_nil (hl e he)

/-- An unknown name with a text that is no number: the text is told, and not the name. -/
theorem command_has_one_ending_of_two_faults :
    let s : Sink := { interrupts := true }
    let name := Text.ofString "Foo"
    let line : Cursor := ⟨.ofString "  zz 5"⟩
    let out := registerCommand.handler .breakpoint { logWrites := false } (some name) line {} s
    s.room = none ∧
      (valueRefused name (.ofString "zz")).Arises .strict (some name) line ∧
      out.effect.output = Text.utf8 (.ofString "Invalid Register Value - zz\n") ∧
      out.effect.context = {} := by
  intro s name line out
  have hw : line.words.head? = some (.ofString "zz") := by decide +kernel
  have hv : Value.read .strict (.ofString "zz") = .error (.malformedNumber (.ofString "zz")) := by
    decide
  have ha : (valueRefused name (.ofString "zz")).Arises .strict (some name) line :=
    ⟨rfl, hw, by simp [hv]⟩
  have hl := (command_has_one_ending .breakpoint { logWrites := false } (some name) line {} s
    rfl).2.2.1 _ ha
  exact ⟨rfl, ha, hl.output, hl.context⟩

end Ending

end RegisterConsole
