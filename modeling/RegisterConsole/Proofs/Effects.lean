import RegisterConsole.Proofs.Requests

/-!
# What a request comes to

All requests are carried out in one way: a request prints lines, changes the context, and tells of
itself by events, one of them for output that was lost. What the sink makes of the lines depends on
its room and its refusal alone.

* `printLines_accepted`, `printLines_failure`: what a sink accepts of a text, and why it fails;
* `run_eq`: the effect of a request, put together from its lines, its change and its events;
* `answer_carryOut`, `session_carryOut`: what a step with a request leads to;
* `step_eq_act`: what a step without one leads to, where it prints and replaces nothing either.
-/

namespace RegisterConsole

/-! ## Sinks and texts -/

namespace Sink

/-- What the sink accepts of a text. -/
def accepts (s : Sink) (t : Text) : List UInt8 :=
  (Text.utf8 t).take (s.fitting (Text.utf8 t).length)

/-- Why the sink fails to take all of a text, if it does. -/
def failure? (s : Sink) (t : Text) : Option Text :=
  if s.fitting (Text.utf8 t).length = (Text.utf8 t).length then none else some s.refusal.reason

theorem printLines_accepted (s : Sink) (lines : List Text) :
    (s.printLines lines).accepted = s.accepts (Text.unlines lines) :=
  (s.takes_printLines lines).accepted

theorem printLines_failure (s : Sink) (lines : List Text) :
    (s.printLines lines).failure = s.failure? (Text.unlines lines) :=
  (s.takes_printLines lines).failure

theorem accepts_nil (s : Sink) : s.accepts [] = [] := List.take_nil

theorem accepts_of_open {s : Sink} (h : s.room = none) (t : Text) : s.accepts t = Text.utf8 t := by
  rw [accepts, fitting_of_open h, List.take_length]

theorem failure?_of_open {s : Sink} (h : s.room = none) (t : Text) : s.failure? t = none := by
  rw [failure?, fitting_of_open h, if_pos rfl]

end Sink

/-! ## Requests -/

namespace Request

/-- The context that a request leaves. -/
def change (c : Context) : Request → Context
  | write r w => c.set r w
  | _ => c

/-- The lines that a request prints. -/
def lines (c : Context) : Request → List Text
  | display => c.table
  | write .. => []
  | reject _ fault => [fault.message]

/-- The events that tell of a request, where its lines could not be printed for the given reason. -/
def events (o : Options) (c : Context) (failure : Option Text) : Request → List Event
  | display => .showing c.ip :: (failure.map Event.tableLost).toList
  | write r w => if o.logWrites then [.wrote r w] else []
  | reject name fault => .rejected name fault :: (failure.map (Event.diagnosticLost fault)).toList

theorem change_eq_of_ne_write {q : Request} (h : ∀ r w, q ≠ write r w) (c : Context) :
    q.change c = c := by
  cases q with
  | write r w => exact absurd rfl (h r w)
  | _ => rfl

/-- **A request is carried out in one way**, whichever it is. -/
theorem run_eq (o : Options) (c : Context) (s : Sink) (q : Request) :
    q.run o c s =
      { context := q.change c
        sink := (s.printLines (q.lines c)).sink
        output := s.accepts (Text.unlines (q.lines c))
        events := q.events o c (s.failure? (Text.unlines (q.lines c))) } := by
  rw [← Sink.printLines_accepted, ← Sink.printLines_failure]
  cases q <;> rfl

end Request

namespace Session

/-- The level of the journal is never changed. -/
theorem verbosity_after (s : Session) (xs : List Step) : (s.after xs).verbosity = s.verbosity := by
  induction xs generalizing s with
  | nil => rfl
  | cons x xs ih => rw [after_cons, ih, verbosity_step]

/-! ## Steps with a request -/

/-- The text that a request prints in a session. -/
def printed (s : Session) (q : Request) : Text := Text.unlines (q.lines s.context)

/-- What a session answers to a request. -/
theorem answer_carryOut (s : Session) (q : Request) (rest : Text) :
    (s.carryOut q rest).2 =
      { result := .ran .proceed rest
        output := s.sink.accepts (s.printed q)
        log := journal s.verbosity (q.events s.options s.context (s.sink.failure? (s.printed q)))
        context := q.change s.context } := by
  simp only [carryOut, Request.run_eq, printed]

/-- What a session is after a request. -/
theorem session_carryOut (s : Session) (q : Request) (rest : Text) :
    (s.carryOut q rest).1 =
      { s with
        context := q.change s.context
        sink := (s.sink.printLines (q.lines s.context)).sink } := by
  simp only [carryOut, Request.run_eq]

/-! ## Steps without a request -/

/-- A step asks for something, prints the table, replaces the sink, or has nothing to do with the
sink. -/
theorem step_kinds (p : Policy) (x : Step) :
    (∃ q, x.request? p = some q) ∨ x = .dump ∨ (∃ k, x = .sink k) ∨
      (x.request? p = none ∧ x ≠ .dump ∧ ∀ k, x ≠ .sink k) := by
  cases hq : x.request? p with
  | some q => exact Or.inl ⟨q, rfl⟩
  | none =>
    by_cases hd : x = .dump
    · exact Or.inr (Or.inl hd)
    · by_cases hk : ∃ k, x = .sink k
      · exact Or.inr (Or.inr (Or.inl hk))
      · exact Or.inr (Or.inr (Or.inr ⟨rfl, hd, not_exists.mp hk⟩))

/-- The step replaces neither the options nor the trap. -/
def Step.KeepsSettings : Step → Prop
  | .options _ | .trap _ => False
  | _ => True

/-- What a step makes of a context: its result and the context that it leaves. -/
def Step.act (x : Step) (c : Context) : Result × Context :=
  let a := (({ context := c } : Session).step x).2
  (a.result, a.context)

theorem request?_eq_none {x : Step} {p : Policy} (h : x.request? p = none) (p' : Policy) :
    x.request? p' = none := by
  rcases request?_cases x with hn | hd | ⟨name, word?, hw⟩
  · exact hn p'
  · rw [hd p] at h
    cases h
  · rw [hw p] at h
    cases h

/-- A step that asks for nothing, prints nothing and replaces nothing but the context acts on the
context alone. -/
theorem step_eq_act {s : Session} {x : Step} (hq : x.request? s.options.policy = none)
    (hx : x.KeepsSettings) (hd : x ≠ .dump) (hk : ∀ k, x ≠ .sink k) :
    s.step x = ({ s with context := (x.act s.context).2 },
      { result := (x.act s.context).1, context := (x.act s.context).2 }) := by
  cases x with
  | line text =>
    rw [step_line_of_no_request hq, Step.act, step_line_of_no_request (request?_eq_none hq _)]
    rfl
  | call arg text n => cases arg <;> cases hq
  | assign name w =>
    simp only [Step.act, step]
    rcases s.context.assign name w with ⟨_ | _, _⟩ <;> rfl
  | load bytes =>
    simp only [Step.act, step]
    cases Context.load bytes <;> rfl
  | save buffer =>
    simp only [Step.act, step]
    rcases s.context.storeIn buffer with ⟨_ | _, _⟩ <;> rfl
  | dump => exact absurd rfl hd
  | sink k => exact absurd rfl (hk k)
  | options settings => exact hx.elim
  | trap code => exact hx.elim
  | _ => rfl

end Session

end RegisterConsole
