import RegisterConsole.Proofs.Effects
import RegisterConsole.Proofs.PrintedItems
import RegisterConsole.Proofs.Writes

/-!
# Lines in either order

Two typed lines are set in either order on a sink that accepts everything. What a line asks for is
settled by its words and the policy, so one line can touch another only through the context: by
writing to the same register, or by writing what the other shows.

* `change_comm`: two requests change a context in either order alike, unless they write different
  words to one register;
* `told_line_congr`: only a line that shows the registers tells of the context;
* `lines_commute`: two lines commute unless they are in conflict, and a line that is repeated at once
  has the same answer again.
-/

namespace RegisterConsole

/-! ## Two changes of a context -/

namespace Context

theorem set_comm {q r : Register} (h : q ≠ r) (c : Context) (v w : Word) :
    (c.set q v).set r w = (c.set r w).set q v := by
  apply ext_get
  intro t
  rw [get_set, get_set, get_set, get_set]
  by_cases hr : t = r
  · rw [if_pos hr, if_pos hr, if_neg fun hq => h (hq.symm.trans hr)]
  · rw [if_neg hr, if_neg hr]

theorem set_set (c : Context) (r : Register) (v w : Word) : (c.set r v).set r w = c.set r w := by
  cases r <;> rfl

end Context

namespace Request

/-- Two requests change a context in either order alike, unless they write different words to one
register. -/
theorem change_comm {a b : Request}
    (h : ∀ r v w, a = .write r v → b = .write r w → v = w) (c : Context) :
    b.change (a.change c) = a.change (b.change c) := by
  cases a with
  | write q v =>
    cases b with
    | write r w =>
      by_cases hq : q = r
      · subst hq
        rw [h q v w rfl rfl]
      · exact Context.set_comm hq c v w
    | _ => rfl
  | _ => rfl

theorem change_change (q : Request) (c : Context) : q.change (q.change c) = q.change c := by
  cases q with
  | write r w => exact Context.set_set c r w w
  | _ => rfl

/-- Only the display prints what stands in the context. -/
theorem lines_congr {q : Request} {c d : Context} (h : q = .display → c = d) :
    q.lines c = q.lines d := by
  cases q with
  | display => rw [h rfl]
  | _ => rfl

/-- Only the display tells of what stands in the context. -/
theorem events_congr {q : Request} {c d : Context} (h : q = .display → c = d) (o : Options)
    (failure : Option Text) : q.events o c failure = q.events o d failure := by
  cases q with
  | display => rw [h rfl]
  | _ => rfl

end Request

namespace Session

/-! ## One line in two sessions -/

/-- What an answer tells of its step: the result, the output and the log. -/
def Answer.told (a : Answer) : Result × List UInt8 × List Record := (a.result, a.output, a.log)

/-- The sessions have the same options and the same level of the journal, and their sinks accept
everything. -/
structure Peers (s t : Session) : Prop where
  options : s.options = t.options
  verbosity : s.verbosity = t.verbosity
  room : s.sink.room = none
  room' : t.sink.room = none

theorem options_step_line (s : Session) (text : Text) :
    (s.step (.line text)).1.options = s.options :=
  options_step_of_ne (x := .line text) s nofun

/-- After a line a session is a peer of what it was. -/
theorem peers_step {s : Session} (hs : s.sink.room = none) (text : Text) :
    Peers (s.step (.line text)).1 s :=
  ⟨options_step_line s text, verbosity_step s _, (output_step (x := .line text) hs nofun).2, hs⟩

theorem context_step_line (s : Session) (text : Text) :
    (s.step (.line text)).1.context =
      ((Step.line text).request? s.options.policy).elim s.context fun q => q.change s.context := by
  cases hq : (Step.line text).request? s.options.policy with
  | none => rw [step_line_of_no_request hq]; rfl
  | some q => rw [step_of_request hq, session_carryOut]; rfl

/-- A line that writes nothing leaves the context as it is. -/
theorem context_step_line_of_no_write {s : Session} {text : Text}
    (h : ∀ r w, ¬ (Step.line text).Writes s.options.policy r w) :
    (s.step (.line text)).1.context = s.context := by
  rw [context_step_line]
  cases hq : (Step.line text).request? s.options.policy with
  | none => rfl
  | some q =>
    apply Request.change_eq_of_ne_write
    rintro r w rfl
    exact h r w (writes_line_iff.mpr hq)

/-- A line is answered alike in peers, as long as it does not show two contexts. -/
theorem told_line_congr {s t : Session} (h : Peers s t) {text : Text}
    (hc : (Step.line text).request? t.options.policy = some .display → s.context = t.context) :
    (s.step (.line text)).2.told = (t.step (.line text)).2.told := by
  cases hq : (Step.line text).request? t.options.policy with
  | none =>
    have hq' : (Step.line text).request? s.options.policy = none := by rw [h.options, hq]
    rw [step_line_of_no_request hq, step_line_of_no_request hq']
    rfl
  | some q =>
    have hq' : (Step.line text).request? s.options.policy = some q := by rw [h.options, hq]
    have hd : q = .display → s.context = t.context := fun e => hc (by rw [hq, e])
    rw [step_of_request hq, step_of_request hq', answer_carryOut, answer_carryOut]
    simp only [Answer.told, printed, Sink.accepts_of_open h.room, Sink.accepts_of_open h.room',
      Sink.failure?_of_open h.room, Sink.failure?_of_open h.room', Request.lines_congr hd,
      Request.events_congr hd, h.options, h.verbosity]

/-! ## Two lines -/

/-- The lines write different words to one register. -/
def Clash (p : Policy) (a b : Text) : Prop :=
  ∃ r v w, v ≠ w ∧ (Step.line a).Writes p r v ∧ (Step.line b).Writes p r w

/-- The first line shows the registers, and the second writes to one. -/
def Shows (p : Policy) (a b : Text) : Prop :=
  (Step.line a).request? p = some .display ∧ ∃ r w, (Step.line b).Writes p r w

/-- Each line tells the same, whichever of the two is typed first. -/
def TellAlike (s : Session) (a b : Text) : Prop :=
  (s.step (.line a)).2.told = ((s.step (.line b)).1.step (.line a)).2.told ∧
    ((s.step (.line a)).1.step (.line b)).2.told = (s.step (.line b)).2.told

variable {s : Session}

/-- Two lines leave the same context in either order, unless they clash. -/
theorem context_comm {a b : Text} (h : ¬ Clash s.options.policy a b) :
    ((s.step (.line a)).1.step (.line b)).1.context =
      ((s.step (.line b)).1.step (.line a)).1.context := by
  rw [context_step_line, context_step_line, context_step_line, context_step_line,
    options_step_line, options_step_line]
  cases ha : (Step.line a).request? s.options.policy with
  | none => rfl
  | some q =>
    cases hb : (Step.line b).request? s.options.policy with
    | none => rfl
    | some q' =>
      apply Request.change_comm
      rintro r v w rfl rfl
      by_contra hne
      exact h ⟨r, v, w, hne, writes_line_iff.mpr ha, writes_line_iff.mpr hb⟩

/-- A line that writes leaves its word in the register, and the others as they are. -/
theorem get_step_of_writes {text : Text} {r : Register} {w : Word}
    (h : (Step.line text).Writes s.options.policy r w) (q : Register) :
    (s.step (.line text)).1.context.get q = if q = r then w else s.context.get q := by
  rw [step_of_request (writes_line_iff.mp h), session_carryOut]
  exact Context.get_set s.context r q w

/-- A line that writes shows nothing. -/
theorem not_shows_of_writes {p : Policy} {a b : Text} {r : Register} {w : Word}
    (h : (Step.line a).Writes p r w) : ¬ Shows p a b := by
  rintro ⟨hd, _⟩
  rw [writes_line_iff, hd] at h
  cases h

theorem not_clash_of_shows {p : Policy} {a b : Text} (h : Shows p a b ∨ Shows p b a) :
    ¬ Clash p a b := by
  rintro ⟨r, v, w, _, hv, hw⟩
  rcases h with h | h
  · exact not_shows_of_writes hv h
  · exact not_shows_of_writes hw h

section OpenSink

variable (hs : s.sink.room = none)
include hs

/-- A line tells the same behind another, unless it shows what the other writes. -/
theorem told_behind {a b : Text} (h : ¬ Shows s.options.policy a b) :
    ((s.step (.line b)).1.step (.line a)).2.told = (s.step (.line a)).2.told := by
  apply told_line_congr (peers_step hs b)
  intro hd
  apply context_step_line_of_no_write
  intro r w hw
  exact h ⟨hd, r, w, hw⟩

theorem tellAlike {a b : Text} (hab : ¬ Shows s.options.policy a b)
    (hba : ¬ Shows s.options.policy b a) : TellAlike s a b :=
  ⟨(told_behind hs hab).symm, told_behind hs hba⟩

/-- A line repeated at once has the same answer again. -/
theorem step_repeated (text : Text) :
    ((s.step (.line text)).1.step (.line text)).2 = (s.step (.line text)).2 := by
  have ht : ((s.step (.line text)).1.step (.line text)).2.told = (s.step (.line text)).2.told :=
    told_behind hs fun h => by
      obtain ⟨hd, r, w, hw⟩ := h
      exact not_shows_of_writes hw ⟨hd, r, w, hw⟩
  have hc : ((s.step (.line text)).1.step (.line text)).2.context =
      (s.step (.line text)).2.context := by
    rw [context_step, context_step, context_step_line, context_step_line,
      options_step_line]
    cases (Step.line text).request? s.options.policy with
    | none => rfl
    | some q => exact q.change_change s.context
  simp only [Answer.told, Prod.mk.injEq] at ht
  obtain ⟨hr, ho, hl⟩ := ht
  rw [Answer.mk.injEq]
  exact ⟨hr, ho, hl, hc⟩

/-- **Lines commute unless they are in conflict.** Two lines typed in either order leave the same
context and are each answered alike, but for two kinds of pairs. Where both write to one register,
and not the same word, the later one counts there, and all else is the same. Where one shows the
registers and the other writes to one, the contexts are the same. A line that is repeated at once
has the same answer again. -/
theorem lines_commute (a b : Text) :
    let p := s.options.policy
    let sa := (s.step (.line a)).1
    let sb := (s.step (.line b)).1
    (¬ Clash p a b → ¬ Shows p a b → ¬ Shows p b a →
        (sa.step (.line b)).1.context = (sb.step (.line a)).1.context ∧ TellAlike s a b) ∧
      (∀ r v w, v ≠ w → (Step.line a).Writes p r v → (Step.line b).Writes p r w →
        (sa.step (.line b)).1.context.get r = w ∧ (sb.step (.line a)).1.context.get r = v ∧
          (∀ q ≠ r, (sa.step (.line b)).1.context.get q = (sb.step (.line a)).1.context.get q) ∧
          TellAlike s a b) ∧
      (Shows p a b ∨ Shows p b a →
        (sa.step (.line b)).1.context = (sb.step (.line a)).1.context) ∧
      (sa.step (.line a)).2 = (s.step (.line a)).2 := by
  intro p sa sb
  refine ⟨fun hc hab hba => ⟨context_comm hc, tellAlike hs hab hba⟩, ?_,
    fun h => context_comm (not_clash_of_shows h), step_repeated hs a⟩
  intro r v w _ ha hb
  have ha' : (Step.line a).Writes sb.options.policy r v := by
    rw [show sb.options = s.options from options_step_line s b]
    exact ha
  have hb' : (Step.line b).Writes sa.options.policy r w := by
    rw [show sa.options = s.options from options_step_line s a]
    exact hb
  have htell := tellAlike hs (not_shows_of_writes ha) (not_shows_of_writes hb)
  refine ⟨?_, ?_, fun q hq => ?_, htell⟩
  · rw [get_step_of_writes hb', if_pos rfl]
  · rw [get_step_of_writes ha', if_pos rfl]
  · rw [get_step_of_writes hb', get_step_of_writes ha', if_neg hq, if_neg hq,
      get_step_of_writes ha, get_step_of_writes hb, if_neg hq, if_neg hq]

end OpenSink

/-- Two words for one register, in either order; and a line that is refused beside one that is
repeated. -/
theorem lines_commute_beside_conflict :
    let s : Session := { sink := { interrupts := true } }
    let a := Text.ofString "r R1 5"
    let b := Text.ofString "R r1 0x6"
    let d := Text.ofString "r Foo"
    s.sink.room = none ∧ (Step.line a).Writes .strict .r1 5 ∧ (Step.line b).Writes .strict .r1 6 ∧
      ((s.step (.line a)).1.step (.line b)).1.context.get .r1 = 6 ∧
      ((s.step (.line b)).1.step (.line a)).1.context.get .r1 = 5 ∧
      ¬ Clash .strict a d ∧ ¬ Shows .strict a d ∧ ¬ Shows .strict d a ∧ TellAlike s a d ∧
      ((s.step (.line a)).1.step (.line a)).2 = (s.step (.line a)).2 := by
  intro s a b d
  have ha : (Step.line a).Writes .strict .r1 5 := writes_line_iff.mpr (by decide +kernel)
  have hb : (Step.line b).Writes .strict .r1 6 := writes_line_iff.mpr (by decide +kernel)
  have hd : (Step.line d).request? .strict = some (.reject (.ofString "Foo") .missingValue) := by
    decide +kernel
  have hc : ¬ Clash .strict a d := by
    rintro ⟨r, v, w, _, _, h⟩
    rw [writes_line_iff, hd] at h
    cases h
  have had : ¬ Shows .strict a d := not_shows_of_writes ha
  have hda : ¬ Shows .strict d a := by
    rintro ⟨h, _⟩
    rw [hd] at h
    cases h
  obtain ⟨h₁, h₂, _⟩ := (lines_commute (s := s) rfl a b).2.1 .r1 5 6 (by decide) ha hb
  obtain ⟨hfree, _, _, hrep⟩ := lines_commute (s := s) rfl a d
  exact ⟨rfl, ha, hb, h₁, h₂, hc, had, hda, (hfree hc had hda).2, hrep⟩

end Session

end RegisterConsole
