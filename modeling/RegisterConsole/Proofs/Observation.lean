import RegisterConsole.Proofs.Effects
import RegisterConsole.Proofs.WriteJournal

/-!
# Watching a session

How much of a session is recorded is settled by the level of its journal and by whether writes are
told of; why the machine stopped is known to it as well. None of the three reaches anything but the
log. The invariant that carries this over a run is that two sessions that were the same but for
these three are the same but for them after every step.

* `journal_eq_filter`, `journal_events`: what a journal keeps of the events of a request is filtered
  from what it could keep at most;
* `step_observed`: a step acts as it does under the fullest journal, and its log is filtered from
  the fullest one;
* `observation_is_passive`: over a run, however it is watched, results, outputs and contexts are the
  same; a lower level leaves out the records above it, and a journal without writes leaves out the
  records of writes and no others.
-/

namespace RegisterConsole

/-! ## Records of writes -/

/-- The event tells of a write. -/
def Event.isWrite : Event → Bool
  | wrote .. => true
  | _ => false

/-- The record reads `set NAME to VALUE`. -/
def Record.IsWrite (r : Record) : Prop :=
  ∃ q w, r = (.debug, Text.ofString "set " ++ Register.name q ++ Text.ofString " to " ++
    Word.text w)

/-- The record of an event is read as a write just where the event is one. -/
theorem isSome_write?_record (e : Event) :
    (Record.write? (e.level, e.message)).isSome = e.isWrite := by
  cases e with
  | showing ip => rfl
  | wrote r w => exact congrArg Option.isSome (write?_wrote r w)
  | rejected name fault => rfl
  | tableLost reason => rfl
  | diagnosticLost fault reason => rfl

theorem isSome_write?_iff (e : Event) :
    (Record.write? (e.level, e.message)).isSome = true ↔ Record.IsWrite (e.level, e.message) := by
  constructor
  · rw [isSome_write?_record]
    intro h
    cases e with
    | wrote r w => exact ⟨r, w, rfl⟩
    | _ => cases h
  · rintro ⟨r, w, h⟩
    rw [h]
    exact congrArg Option.isSome (write?_wrote r w)

/-! ## Journals -/

theorem Verbosity.keeps_trace (l : Level) : Verbosity.keeps (some .trace) l = true := by
  cases l <;> rfl

/-- A journal keeps what the fullest one keeps at the levels that it keeps. -/
theorem journal_eq_filter (v : Verbosity) (es : List Event) :
    journal v es = (journal (some .trace) es).filter fun r => v.keeps r.1 := by
  rw [journal_trace, List.filter_map]
  rfl

/-- The journal of all events but the writes is the journal without the records of writes. -/
theorem journal_filter_isWrite (v : Verbosity) (es : List Event) :
    journal v (es.filter fun e => !e.isWrite) =
      (journal v es).filter fun r => r.write?.isNone := by
  have hp : ((fun r : Record => r.write?.isNone) ∘ fun e : Event => (e.level, e.message)) =
      fun e => !e.isWrite := by
    funext e
    rw [Function.comp_apply, ← Option.not_isSome, isSome_write?_record]
  rw [journal, journal, List.filter_map, hp, List.filter_filter, List.filter_filter]
  simp only [Bool.and_comm]

namespace Request

/-- The events of a request where writes are not told of are those that are no writes. -/
theorem events_logWrites (o : Options) (l : Bool) (c : Context) (failure : Option Text)
    (q : Request) :
    q.events { o with logWrites := l } c failure =
      (q.events { o with logWrites := true } c failure).filter fun e => l || !e.isWrite := by
  cases q with
  | write r w => cases l <;> rfl
  | display => cases failure <;> simp [events, Event.isWrite]
  | reject name fault => cases failure <;> simp [events, Event.isWrite]

end Request

/-- The records of a log that a journal of this level keeps, with or without those of writes. -/
def keep (v : Verbosity) (logWrites : Bool) (log : List Record) : List Record :=
  log.filter fun r => v.keeps r.1 && (logWrites || r.write?.isNone)

/-- What a journal keeps of a request is what it keeps of the fullest log of that request. -/
theorem journal_events (v : Verbosity) (o : Options) (l : Bool) (c : Context)
    (failure : Option Text) (q : Request) :
    journal v (q.events { o with logWrites := l } c failure) =
      keep v l (journal (some .trace) (q.events { o with logWrites := true } c failure)) := by
  rw [journal_eq_filter, Request.events_logWrites, keep]
  cases l with
  | true => simp
  | false => simp [journal_filter_isWrite, List.filter_filter]

namespace Session

/-! ## One step -/

/-- The session with another journal, and another reason why the machine stopped. -/
def observed (s : Session) (v : Verbosity) (logWrites : Bool) (t : Trap) : Session :=
  { s with verbosity := v, options := { s.options with logWrites := logWrites }, trap := t }

/-- The answer with what a journal keeps of its log. -/
def Answer.kept (v : Verbosity) (logWrites : Bool) (a : Answer) : Answer :=
  { a with log := keep v logWrites a.log }

theorem carryOut_observed (s : Session) (v : Verbosity) (l : Bool) (t t' : Trap) (q : Request)
    (rest : Text) :
    (s.observed v l t).carryOut q rest =
      (((s.observed (some .trace) true t').carryOut q rest).1.observed v l t,
        ((s.observed (some .trace) true t').carryOut q rest).2.kept v l) := by
  refine Prod.ext ?_ ?_
  · rw [session_carryOut, session_carryOut]
    rfl
  · rw [answer_carryOut, answer_carryOut, Answer.kept]
    simp only [observed, printed, journal_events v s.options l]

/-- **A step does not depend on how it is watched.** It leaves the same session, and the same answer
but for what the journal keeps of its log. -/
theorem step_observed (s : Session) (v : Verbosity) (l : Bool) (t t' : Trap) {x : Step}
    (hx : x.KeepsSettings) :
    (s.observed v l t).step x =
      (((s.observed (some .trace) true t').step x).1.observed v l t,
        ((s.observed (some .trace) true t').step x).2.kept v l) := by
  rcases step_kinds s.options.policy x with ⟨q, hq⟩ | rfl | ⟨k, rfl⟩ | ⟨hq, hd, hk⟩
  · have h : x.request? (s.observed v l t).options.policy = some q := hq
    have h' : x.request? (s.observed (some .trace) true t').options.policy = some q := hq
    rw [step_of_request h, step_of_request h', carryOut_observed]
  · rfl
  · rfl
  · have h := step_eq_act (s := s.observed v l t) hq hx hd hk
    have h' := step_eq_act (s := s.observed (some .trace) true t') hq hx hd hk
    rw [h, h']
    rfl

/-! ## Runs -/

/-- A run does not depend on how it is watched. -/
theorem answers_observed (s : Session) (v : Verbosity) (l : Bool) (t t' : Trap) {xs : List Step}
    (hx : ∀ x ∈ xs, x.KeepsSettings) :
    (s.observed v l t).answers xs =
      ((s.observed (some .trace) true t').answers xs).map (Answer.kept v l) := by
  induction xs generalizing s with
  | nil => rfl
  | cons x xs ih =>
    obtain ⟨hk, hxs⟩ := List.forall_mem_cons.mp hx
    have hstep := step_observed s v l t t' hk
    -- the session of the fullest journal keeps that journal, so the step can be taken again
    have hfull : ((s.observed (some .trace) true t').step x).1.observed (some .trace) true t' =
        ((s.observed (some .trace) true t').step x).1 :=
      (congrArg Prod.fst (step_observed s (some .trace) true t' t' hk)).symm
    have hn := ih ((s.observed (some .trace) true t').step x).1 hxs
    rw [hfull] at hn
    simp only [answers, hstep, List.map_cons, hn]

/-- Every record of a log tells of an event. -/
theorem exists_event_of_mem_log {s : Session} {x : Step} {r : Record}
    (h : r ∈ (s.step x).2.log) : ∃ e : Event, r = (e.level, e.message) := by
  rcases step_kinds s.options.policy x with ⟨q, hq⟩ | rfl | ⟨k, rfl⟩ | ⟨hq, hd, hk⟩
  · rw [step_of_request hq, answer_carryOut] at h
    obtain ⟨e, _, rfl⟩ := List.mem_map.mp h
    exact ⟨e, rfl⟩
  · cases h
  · cases h
  · rw [(step_quiet hq hd hk).2.2] at h
    cases h

theorem exists_event_of_mem_answers {s : Session} {xs : List Step} {a : Answer}
    (ha : a ∈ s.answers xs) {r : Record} (h : r ∈ a.log) :
    ∃ e : Event, r = (e.level, e.message) := by
  obtain ⟨i, hi⟩ := List.mem_iff_getElem?.mp ha
  rw [getElem?_answers, Option.map_eq_some_iff] at hi
  obtain ⟨x, _, rfl⟩ := hi
  exact exists_event_of_mem_log h

/-- The answer without its log. -/
def Answer.unlogged (a : Answer) : Answer := { a with log := [] }

/-- **Watching a session does not change it.** Two runs of the same steps, the options and the trap
left alone, from sessions that differ in the level of the journal, in whether writes are told of and
in the trap, have the same results, outputs and contexts at every step. The log of each step at one
level is the log at the fullest level without the records that the level does not keep; and the
fullest log where writes are not told of is the one where they are without the records that read
`set NAME to VALUE`, and such are the records of writes alone: those of displays, of what is rejected
and of lost output stay. -/
theorem observation_is_passive (s : Session) (xs : List Step) (hx : ∀ x ∈ xs, x.KeepsSettings)
    (v v' : Verbosity) (l l' : Bool) (t t' : Trap) :
    ((s.observed v l t).answers xs).map Answer.unlogged =
        ((s.observed v' l' t').answers xs).map Answer.unlogged ∧
      ((s.observed v l t).answers xs).map Answer.log =
        ((s.observed (some .trace) l t').answers xs).map
          (fun a => a.log.filter fun r => v.keeps r.1) ∧
      ((s.observed (some .trace) false t).answers xs).map Answer.log =
        ((s.observed (some .trace) true t').answers xs).map
          (fun a => a.log.filter fun r => r.write?.isNone) ∧
      ∀ a ∈ (s.observed (some .trace) true t').answers xs, ∀ r ∈ a.log,
        (r.write?.isSome = true ↔ r.IsWrite) ∧
          ∃ e : Event, r = (e.level, e.message) ∧ (r.IsWrite ↔ e.isWrite = true) := by
  have h (v : Verbosity) (l : Bool) (t : Trap) := answers_observed s v l t t' hx
  refine ⟨?_, ?_, ?_, ?_⟩
  · rw [h v l t, h v' l' t', List.map_map, List.map_map]
    rfl
  · rw [h v l t, h (some .trace) l t', List.map_map, List.map_map]
    congr 1
    funext a
    simp [Answer.kept, keep, List.filter_filter, Verbosity.keeps_trace]
  · rw [h (some .trace) false t, List.map_map]
    congr 1
    funext a
    simp [Answer.kept, keep, Verbosity.keeps_trace]
  · intro a ha r hr
    obtain ⟨e, rfl⟩ := exists_event_of_mem_answers ha hr
    have hw := isSome_write?_iff e
    refine ⟨hw, e, rfl, ?_⟩
    rw [← hw, isSome_write?_record]

/-- A write, a name that is unknown and a table on a sink that runs full, watched in two ways. -/
theorem observation_is_passive_on_full_sink :
    let s : Session := { sink := { room := some 30 } }
    let xs : List Step :=
      [.line (.ofString "r R1 5"), .line (.ofString "r Foo 5"), .set .ip 1, .line (.ofString "r")]
    (∀ x ∈ xs, x.KeepsSettings) ∧
      ((s.observed none false .overflow).answers xs).map Answer.unlogged =
        ((s.observed (some .warn) true .breakpoint).answers xs).map Answer.unlogged ∧
      ((s.observed (some .trace) false .overflow).answers xs).map Answer.log =
        ((s.observed (some .trace) true .breakpoint).answers xs).map
          (fun a => a.log.filter fun r => r.write?.isNone) := by
  intro s xs
  have hx : ∀ x ∈ xs, x.KeepsSettings := by simp [xs, Step.KeepsSettings]
  have h := observation_is_passive s xs hx none (some .warn) false true .overflow .breakpoint
  exact ⟨hx, h.1, h.2.2.1⟩

end Session

end RegisterConsole
