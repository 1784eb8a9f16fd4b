import RegisterConsole.Proofs.Words
import RegisterConsole.Session

/-!
# Steps and their requests

A step reaches the register command or it does not, and the words of its line alone decide which
request it makes there.

* `registerCommand_matches_iff`: the command is called by one letter, and by no other word;
* `step_of_request`: a step with a request carries it out, and does nothing else;
* `step_line_of_no_request`: a line without one changes nothing and prints nothing;
* `ofWord_eq_write_iff`: a request writes exactly where a value is accepted and a name is known.
-/

namespace RegisterConsole

/-! ## The name of the command -/

theorem eq_of_toLower_eq_r {c : Char} (h : c.toLower = 'r') : c = 'r' ∨ c = 'R' := by
  have hn := Text.toNat_toLower c
  rw [h] at hn
  have hr : 'r'.toNat = 114 := rfl
  have hc : c.toNat = 114 ∨ c.toNat = 82 := by
    split at hn <;> omega
  rcases hc with e | e
  · exact Or.inl (Char.toNat_inj.mp e)
  · exact Or.inr (Char.toNat_inj.mp e)

/-- The command is called `r` or `R`. -/
theorem registerCommand_matches_iff {word : Text} :
    registerCommand.matches word = true ↔ word = ['r'] ∨ word = ['R'] := by
  simp only [Command.matches, decide_eq_true_eq]
  constructor
  · intro h
    match word, h.length_eq with
    | [c], _ =>
      rcases eq_of_toLower_eq_r (Text.sameFold_cons.mp h).1.symm with rfl | rfl
      · exact Or.inl rfl
      · exact Or.inr rfl
  · rintro (rfl | rfl) <;> rfl

/-! ## Requests -/

/-- What a request that prints leaves behind: an event, and another where output was lost. -/
def Effect.printed (c : Context) (s : Sink) (lines : List Text) (e : Event) (lost : Text → Event) :
    Effect :=
  let w := s.printLines lines
  { context := c, sink := w.sink, output := w.accepted
    events := e :: (w.failure.map lost).toList }

namespace Request

theorem run_display (o : Options) (c : Context) (s : Sink) :
    display.run o c s = .printed c s c.table (.showing c.ip) .tableLost := rfl

theorem run_reject (o : Options) (c : Context) (s : Sink) (name : Text) (fault : Fault) :
    (reject name fault).run o c s =
      .printed c s [fault.message] (.rejected name fault) (.diagnosticLost fault) := rfl

/-- The request that the words behind a command make: a name, and the word behind it. -/
def ofWords (p : Policy) : List Text → Request
  | [] => .display
  | name :: words => ofWord p name words.head?

/-- What the words of a line ask for: something only where the first is the command. -/
def ofLine? (p : Policy) : List Text → Option Request
  | [] => none
  | command :: words => if registerCommand.matches command then some (ofWords p words) else none

theorem ofWord_eq_write_iff {p : Policy} {name : Text} {word? : Option Text} {r : Register}
    {w : Word} :
    ofWord p name word? = .write r w ↔
      Text.SameFold r.name name ∧ ∃ word, word? = some word ∧ Value.read p word = .ok w := by
  rw [← Register.find?_eq_some_iff]
  cases word? with
  | none => simp [ofWord]
  | some word =>
    cases hv : Value.read p word with
    | error fault => simp [ofWord, hv]
    | ok v =>
      cases hf : Register.find? name with
      | none => simp [ofWord, hv, Register.resolve, hf]
      | some q => simp [ofWord, hv, Register.resolve, hf]

end Request

namespace Session

/-- What a step asks of the registers, where it reaches the register command. -/
def Step.request? (p : Policy) : Step → Option Request
  | .line text => Request.ofLine? p (Cursor.words ⟨text⟩)
  | .call none _ _ => some .display
  | .call (some name) text n => some (.ofWord p name ((Cursor.words ⟨text⟩).drop n).head?)
  | _ => none

theorem request?_line (p : Policy) (text : Text) :
    (Step.line text).request? p = Request.ofLine? p (Cursor.words ⟨text⟩) := rfl

/-- A step asks for nothing, for the display, or for what a name and perhaps a word make together;
which of them it is does not depend on the policy. -/
theorem request?_cases (x : Step) :
    (∀ p, x.request? p = none) ∨ (∀ p, x.request? p = some .display) ∨
      ∃ name word?, ∀ p, x.request? p = some (.ofWord p name word?) := by
  cases x with
  | line text =>
    simp only [request?_line]
    cases Cursor.words ⟨text⟩ with
    | nil => exact Or.inl fun _ => rfl
    | cons command words =>
      by_cases hm : registerCommand.matches command = true
      · simp only [Request.ofLine?, if_pos hm]
        cases words with
        | nil => exact Or.inr (Or.inl fun _ => rfl)
        | cons name words => exact Or.inr (Or.inr ⟨name, words.head?, fun _ => rfl⟩)
      · exact Or.inl fun _ => if_neg hm
  | call arg text n =>
    cases arg with
    | none => exact Or.inr (Or.inl fun _ => rfl)
    | some name => exact Or.inr (Or.inr ⟨name, _, fun _ => rfl⟩)
  | _ => exact Or.inl fun _ => rfl

/-- What is left of the line of a step once the register command is done with it. -/
def Step.rest : Step → Text
  | .line text => (Cursor.skip 3 ⟨text⟩).rest
  | .call none text n => (Cursor.skip n ⟨text⟩).rest
  | .call (some _) text n => (Cursor.skip (n + 1) ⟨text⟩).rest
  | _ => []

/-- What comes of a line that reaches no command. -/
def Step.idleResult (text : Text) : Result :=
  match Cursor.words ⟨text⟩ with
  | [] => .empty
  | word :: _ => .unknown word

/-- Carries out a request and leaves `rest` of the line. -/
def carryOut (s : Session) (q : Request) (rest : Text) : Session × Answer :=
  let e := q.run s.options s.context s.sink
  ({ s with context := e.context, sink := e.sink },
    { result := .ran .proceed rest
      output := e.output
      log := journal s.verbosity e.events
      context := e.context })

theorem call_eq_carryOut (s : Session) (arg : Option Text) (line : Cursor) :
    s.call arg line =
      s.carryOut (Request.read s.options.policy arg line).1
        (Request.read s.options.policy arg line).2.rest := rfl

/-- A call behind the first word makes the request of the words that follow it. -/
theorem call_next_eq_carryOut (s : Session) (c : Cursor) :
    s.call c.next.1 c.next.2 =
      s.carryOut (.ofWords s.options.policy c.words) (Cursor.skip 2 c).rest := by
  rw [call_eq_carryOut, Cursor.next_fst]
  cases hw : c.words with
  | nil =>
    have hs : Cursor.skip 2 c = ⟨[]⟩ := Cursor.skip_eq_of_length_lt (by simp [hw])
    rw [hs, Cursor.next_of_words_nil hw]
    rfl
  | cons name words =>
    have hn : c.next.2.next.1 = words.head? := by rw [Cursor.next_fst, Cursor.words_next, hw]; rfl
    simp only [List.head?_cons, Request.read_some, hn]
    rfl

theorem step_line (s : Session) (text : Text) :
    s.step (.line text) =
      match (Step.line text).request? s.options.policy with
      | some q => s.carryOut q (Step.line text).rest
      | none => s.reply (Step.idleResult text) := by
  show s.dispatch ⟨text⟩ = _
  have hf := Cursor.next_fst ⟨text⟩
  have hn := Cursor.words_next ⟨text⟩
  rcases h : Cursor.next ⟨text⟩ with ⟨_ | command, rest⟩
  · rw [h] at hf hn
    cases hw : Cursor.words ⟨text⟩ with
    | nil => simp only [dispatch, h, request?_line, Request.ofLine?, Step.idleResult, hw]
    | cons w ws => rw [hw] at hf; simp at hf
  · rw [h] at hf hn
    cases hw : Cursor.words ⟨text⟩ with
    | nil => rw [hw] at hf; simp at hf
    | cons w ws =>
      rw [hw] at hf hn
      obtain rfl : command = w := by simpa using hf
      have hs : Cursor.skip 3 ⟨text⟩ = Cursor.skip 2 rest := by rw [Cursor.skip, h]
      simp only [dispatch, h, request?_line, Request.ofLine?, Step.idleResult, hw, Step.rest, hs]
      cases hm : registerCommand.matches command with
      | false => rfl
      | true =>
        rw [if_pos rfl, if_pos rfl, call_next_eq_carryOut]
        rw [show rest.words = ws from hn]

/-- **A step with a request carries it out**, whatever else stands in its line. -/
theorem step_of_request {s : Session} {x : Step} {q : Request}
    (h : x.request? s.options.policy = some q) : s.step x = s.carryOut q x.rest := by
  cases x with
  | line text => rw [step_line, h]
  | call arg text n =>
    show s.call arg (Cursor.skip n ⟨text⟩) = _
    rw [call_eq_carryOut]
    cases arg with
    | none =>
      obtain rfl : Request.display = q := Option.some.inj h
      rfl
    | some name =>
      obtain rfl := Option.some.inj h
      rw [Request.read_some, Cursor.next_fst, Cursor.words_skip, Step.rest, Cursor.skip_succ_right]
  | _ => simp [Step.request?] at h

/-- A line without a request changes nothing and prints nothing. -/
theorem step_line_of_no_request {s : Session} {text : Text}
    (h : (Step.line text).request? s.options.policy = none) :
    s.step (.line text) = s.reply (Step.idleResult text) := by
  rw [step_line, h]

/-! ## What steps keep -/

theorem options_step (s : Session) (x : Step) :
    (s.step x).1.options =
      match x with
      | .options settings => .ofSettings settings
      | _ => s.options := by
  cases x with
  | line text =>
    rw [step_line]
    split <;> rfl
  | assign name w => simp only [step]; split <;> rfl
  | load bytes => simp only [step]; split <;> rfl
  | save buffer => simp only [step]; split <;> rfl
  | _ => rfl

theorem options_step_of_ne (s : Session) {x : Step} (h : ∀ settings, x ≠ .options settings) :
    (s.step x).1.options = s.options := by
  rw [options_step]
  cases x with
  | options settings => exact absurd rfl (h settings)
  | _ => rfl

theorem verbosity_step (s : Session) (x : Step) : (s.step x).1.verbosity = s.verbosity := by
  cases x with
  | line text => rw [step_line]; split <;> rfl
  | assign name w => simp only [step]; split <;> rfl
  | load bytes => simp only [step]; split <;> rfl
  | save buffer => simp only [step]; split <;> rfl
  | _ => rfl

/-- A step that neither reaches the command nor prints nor replaces the sink has nothing to do with
the sink, and logs nothing. -/
theorem step_quiet {s : Session} {x : Step} (hq : x.request? s.options.policy = none)
    (hd : x ≠ .dump) (hs : ∀ k, x ≠ .sink k) :
    (∀ k, { s with sink := k }.step x = ({ (s.step x).1 with sink := k }, (s.step x).2)) ∧
      (s.step x).2.output = [] ∧ (s.step x).2.log = [] := by
  cases x with
  | line text =>
    rw [step_line_of_no_request hq]
    exact ⟨fun k => step_line_of_no_request (s := { s with sink := k }) hq, rfl, rfl⟩
  | call arg text n => cases arg <;> simp [Step.request?] at hq
  | assign name w =>
    simp only [step]
    rcases s.context.assign name w with ⟨_ | _, _⟩ <;> exact ⟨fun _ => rfl, rfl, rfl⟩
  | load bytes =>
    simp only [step]
    cases Context.load bytes <;> exact ⟨fun _ => rfl, rfl, rfl⟩
  | save buffer =>
    simp only [step]
    rcases s.context.storeIn buffer with ⟨_ | _, _⟩ <;> exact ⟨fun _ => rfl, rfl, rfl⟩
  | dump => exact absurd rfl hd
  | sink k => exact absurd rfl (hs k)
  | _ => exact ⟨fun _ => rfl, rfl, rfl⟩

end Session

end RegisterConsole
