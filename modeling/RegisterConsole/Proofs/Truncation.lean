import RegisterConsole.Proofs.Requests

/-!
# Sinks that run full

A run on a sink with bounded room is set beside the same run on a sink that accepts everything. The
invariant that ties the two (`Trails`) is that they differ in their sinks alone, and that the room
left is what the open run has not yet used of it.

* `Trails.follows`: one step keeps the invariant, and cuts the output at the room that is left;
* `run_truncated`: over a run, the output is cut once, at the room there was at the start; contexts,
  results and all records but those of failures are the same, and failures are told of exactly
  where output was lost.
-/

namespace RegisterConsole

/-! ## Two sinks -/

/-- What comes of writing the same bytes to a sink with `room` left and to an open one. -/
structure Sink.CutAt (room : Nat) (reason : Text) (w v : Written) : Prop where
  accepted : w.accepted = v.accepted.take room
  failure : w.failure = if w.accepted.length < v.accepted.length then some reason else none
  room_left : w.sink.room = some (room - v.accepted.length)
  still_open : v.sink.room = none
  refusal : w.sink.refusal.reason = reason

theorem Sink.Takes.cutAt {s k : Sink} {bytes : List UInt8} {w v : Written} {room : Nat}
    (hw : s.Takes bytes w) (hs : s.room = some room) (hv : k.Takes bytes v) (hk : k.room = none) :
    CutAt room s.refusal.reason w v := by
  have hb : v.accepted = bytes := hv.accepted_of_open hk
  have hfit : s.fitting bytes.length = min bytes.length room := by simp [fitting, hs]
  have hlen : w.accepted.length = min bytes.length room := by
    rw [hw.accepted, hfit, List.length_take]
    omega
  constructor
  · rw [hw.accepted, hfit, hb, Nat.min_comm, ← List.take_eq_take_min]
  · rw [hw.failure, hfit, hb, hlen]
    by_cases h : bytes.length ≤ room
    · rw [if_pos (by omega), if_neg (by omega)]
    · rw [if_neg (by omega), if_pos (by omega)]
  · rw [hw.room, hs, hb]; rfl
  · rw [hv.room, hk]; rfl
  · rw [hw.refusal]

/-! ## Records of failures -/

/-- The records of failures in a log. -/
def errors (log : List Record) : List Record := log.filter fun r => r.1 = .error

/-- The records of everything else. -/
def notes (log : List Record) : List Record := log.filter fun r => r.1 ≠ .error

theorem keeps_error {v : Verbosity} (h : v ≠ none) : v.keeps .error = true := by
  match v with
  | none => exact absurd rfl h
  | some least => cases least <;> rfl

/-- The journal of an event and of a failure that may have come with it. -/
theorem notes_journal (v : Verbosity) {e : Event} {lost : Text → Event} (failure : Option Text)
    (he : e.level ≠ .error) (hl : ∀ reason, (lost reason).level = .error) :
    notes (journal v (e :: (failure.map lost).toList)) = journal v [e] := by
  cases failure <;> cases h : v.keeps e.level <;> cases h' : v.keeps .error <;>
    simp [notes, journal, he, hl, h, h']

theorem length_errors_journal {v : Verbosity} {e : Event} {lost : Text → Event}
    (failure : Option Text) (hv : v ≠ none) (he : e.level ≠ .error)
    (hl : ∀ reason, (lost reason).level = .error) :
    (errors (journal v (e :: (failure.map lost).toList))).length = failure.toList.length := by
  cases failure <;> cases h : v.keeps e.level <;>
    simp [errors, journal, he, hl, h, keeps_error hv]

/-! ## One request -/

/-- What comes of a request on a sink with `room` left, and of the same request on an open sink. -/
structure Effect.CutAt (v : Verbosity) (room : Nat) (reason : Text) (f g : Effect) : Prop where
  context : f.context = g.context
  output : f.output = g.output.take room
  notes : notes (journal v f.events) = notes (journal v g.events)
  errors : v ≠ none →
    (errors (journal v f.events)).length = if f.output.length < g.output.length then 1 else 0
  room_left : f.sink.room = some (room - g.output.length)
  still_open : g.sink.room = none
  refusal : f.sink.refusal.reason = reason

theorem Effect.printed_cutAt (v : Verbosity) (c : Context) {s k : Sink} {room : Nat}
    (hs : s.room = some room) (hk : k.room = none) (lines : List Text) {e : Event}
    {lost : Text → Event} (he : e.level ≠ .error) (hl : ∀ reason, (lost reason).level = .error) :
    CutAt v room s.refusal.reason (printed c s lines e lost) (printed c k lines e lost) := by
  have cut := (s.takes_printLines lines).cutAt hs (k.takes_printLines lines) hk
  refine ⟨rfl, cut.accepted, ?_, fun hv => ?_, cut.room_left, cut.still_open, cut.refusal⟩
  · simp only [printed, notes_journal v _ he hl]
  · simp only [printed, length_errors_journal _ hv he hl, cut.failure]
    by_cases h : (s.printLines lines).accepted.length < (k.printLines lines).accepted.length
    · rw [if_pos h, if_pos h]; rfl
    · rw [if_neg h, if_neg h]; rfl

theorem Request.run_cutAt (v : Verbosity) (o : Options) (c : Context) {s k : Sink} {room : Nat}
    (hs : s.room = some room) (hk : k.room = none) (q : Request) :
    Effect.CutAt v room s.refusal.reason (q.run o c s) (q.run o c k) := by
  cases q with
  | display =>
    rw [run_display, run_display]
    exact Effect.printed_cutAt v c hs hk c.table nofun fun _ => rfl
  | reject name fault =>
    rw [run_reject, run_reject]
    exact Effect.printed_cutAt v c hs hk [fault.message] nofun fun _ => rfl
  | write r w =>
    have he : errors (journal v (if o.logWrites then [.wrote r w] else [])) = [] := by
      split <;> cases h : v.keeps .debug <;> simp [errors, journal, Event.level, h]
    exact ⟨rfl, by simp [run], rfl, fun _ => by simp [run, he], hs, hk, rfl⟩

namespace Session

/-! ## Two runs -/

/-- The second session is the first on an open sink, and the first has `room` left on its own. -/
structure Trails (room : Nat) (reason : Text) (s t : Session) : Prop where
  same : t = { s with sink := t.sink }
  room_left : s.sink.room = some room
  refusal : s.sink.refusal.reason = reason
  still_open : t.sink.room = none

/-- What a full sink changes in the answer to a step: of the answer `b` on an open sink it leaves
all but lost output, and tells of that in its own way. -/
structure Truncated (v : Verbosity) (reason : Text) (x : Step) (a b : Answer) : Prop where
  context : a.context = b.context
  notes : notes a.log = notes b.log
  result : x ≠ .dump → a.result = b.result
  errors : x ≠ .dump → v ≠ none →
    (errors a.log).length = if a.output.length < b.output.length then 1 else 0
  fault : x = .dump →
    a.result = if a.output.length < b.output.length then .fault (.sinkFailed reason) else .done

/-- What one step keeps of two such runs. -/
structure Follows (room : Nat) (reason : Text) (x : Step) (s t : Session) : Prop where
  truncated : Truncated s.verbosity reason x (s.step x).2 (t.step x).2
  output : (s.step x).2.output = (t.step x).2.output.take room
  trails : Trails (room - (t.step x).2.output.length) reason (s.step x).1 (t.step x).1

section

variable {s : Session} {k : Sink} {room : Nat} (hs : s.sink.room = some room) (hk : k.room = none)
include hs hk

theorem follows_dump : Follows room s.sink.refusal.reason .dump s { s with sink := k } := by
  have cut := (s.sink.takes_printLines s.context.table).cutAt hs
    (k.takes_printLines s.context.table) hk
  constructor
  · refine ⟨rfl, rfl, fun e => absurd rfl e, fun e => absurd rfl e, ?_⟩
    intro _
    simp only [step, dump, cut.failure]
    split <;> rfl
  · exact cut.accepted
  · exact ⟨rfl, cut.room_left, cut.refusal, cut.still_open⟩

theorem follows_of_request {x : Step} {q : Request} (hd : x ≠ .dump)
    (hq : x.request? s.options.policy = some q) :
    Follows room s.sink.refusal.reason x s { s with sink := k } := by
  have cut := q.run_cutAt s.verbosity s.options s.context hs hk
  have e := step_of_request hq
  have e' := step_of_request (s := { s with sink := k }) hq
  constructor
  · rw [e, e']
    exact ⟨cut.context, cut.notes, fun _ => rfl, fun _ => cut.errors, fun h => absurd h hd⟩
  · rw [e, e']
    exact cut.output
  · rw [e, e']
    refine ⟨?_, cut.room_left, cut.refusal, cut.still_open⟩
    simp only [carryOut, cut.context]

theorem follows_of_quiet {x : Step} (hd : x ≠ .dump) (hx : ∀ k, x ≠ .sink k)
    (hq : x.request? s.options.policy = none) :
    Follows room s.sink.refusal.reason x s { s with sink := k } := by
  obtain ⟨hsame, hout, hlog⟩ := step_quiet hq hd hx
  have hsink : (s.step x).1.sink = s.sink := congrArg (fun p => p.1.sink) (hsame s.sink)
  constructor
  · rw [hsame k]
    refine ⟨rfl, rfl, fun _ => rfl, ?_, fun h => absurd h hd⟩
    intro _ _
    simp [hlog, errors]
  · rw [hsame k, hout, List.take_nil]
  · rw [hsame k]
    refine ⟨rfl, ?_, by rw [hsink], hk⟩
    rw [hsink, hs, hout]
    rfl

end

/-- One step keeps the invariant, and cuts the output at the room that is left. -/
theorem Trails.follows {room : Nat} {reason : Text} {s t : Session} (h : Trails room reason s t)
    {x : Step} (hx : ∀ k, x ≠ .sink k) : Follows room reason x s t := by
  obtain ⟨same, hs, rfl, hk⟩ := h
  rw [same]
  by_cases hd : x = .dump
  · rw [hd]
    exact follows_dump hs hk
  · cases hq : x.request? s.options.policy with
    | some q => exact follows_of_request hs hk hd hq
    | none => exact follows_of_quiet hs hk hd hx hq

/-! ## Runs -/

/-- What the sink accepted over some steps. -/
def output (s : Session) (xs : List Step) : List UInt8 := (s.answers xs).flatMap fun a => a.output

theorem run_trails {room : Nat} {reason : Text} {s t : Session} (h : Trails room reason s t)
    {xs : List Step} (hx : ∀ x ∈ xs, ∀ k, x ≠ .sink k) :
    s.output xs = (t.output xs).take room ∧
      ∀ (i : Nat) x a b, xs[i]? = some x → (s.answers xs)[i]? = some a →
        (t.answers xs)[i]? = some b → Truncated s.verbosity reason x a b := by
  induction xs generalizing s t room with
  | nil => exact ⟨by simp [output, answers], fun i x a b e => by simp at e⟩
  | cons x xs ih =>
    obtain ⟨hd, hxs⟩ := List.forall_mem_cons.mp hx
    obtain ⟨ht, ho, hn⟩ := h.follows hd
    obtain ⟨ho', ht'⟩ := ih hn hxs
    constructor
    · simp only [output, answers, List.flatMap_cons] at ho' ⊢
      rw [ho, ho', List.take_append]
    · intro i y a b hy ha hb
      cases i with
      | zero =>
        simp only [answers, List.getElem?_cons_zero, Option.some.injEq] at hy ha hb
        subst hy ha hb
        exact ht
      | succ i =>
        rw [← verbosity_step s x]
        exact ht' i y a b hy ha hb

/-- **A sink that runs full cuts a session once.** Beside the run on an open sink, a run that begins
with room for `capacity` bytes puts out the first `capacity` bytes and nothing else; step by step
the answers agree as `Truncated` says. -/
theorem run_truncated (s : Session) (k : Sink) (capacity : Nat) (xs : List Step)
    (hs : s.sink.room = some capacity) (hk : k.room = none) (hx : ∀ x ∈ xs, ∀ k, x ≠ .sink k) :
    s.output xs = (output { s with sink := k } xs).take capacity ∧
      ∀ (i : Nat) x a b, xs[i]? = some x → (s.answers xs)[i]? = some a →
        (answers { s with sink := k } xs)[i]? = some b →
        Truncated s.verbosity s.sink.refusal.reason x a b :=
  run_trails ⟨rfl, hs, rfl, hk⟩ hx

/-- A table and a diagnostic on an interrupting sink that runs full within the table: the dump has a
fault for its result, and the line tells of the lost diagnostic in an error. -/
theorem run_truncated_within_table :
    let s : Session :=
      { sink := { room := some 60, refusal := .fails (.ofString "full"), interrupts := true } }
    let t : Session := { s with sink := {} }
    let xs : List Step := [.dump, .line (.ofString "r R1"), .get .r1]
    s.sink.room = some 60 ∧ (∀ x ∈ xs, ∀ k, x ≠ .sink k) ∧
      s.output xs = (t.output xs).take 60 ∧
      (∃ a b, (s.answers xs)[0]? = some a ∧ (t.answers xs)[0]? = some b ∧
        Truncated s.verbosity (.ofString "full") .dump a b ∧
        a.result = .fault (.sinkFailed (.ofString "full"))) ∧
      ∃ a b, (s.answers xs)[1]? = some a ∧ (t.answers xs)[1]? = some b ∧
        Truncated s.verbosity (.ofString "full") (.line (.ofString "r R1")) a b ∧
        (errors a.log).length = 1 := by
  intro s t xs
  have hx : ∀ x ∈ xs, ∀ k, x ≠ .sink k := by simp [xs]
  obtain ⟨ho, ha⟩ := run_truncated s {} 60 xs rfl rfl hx
  have dumped := ha 0 .dump _ _ rfl rfl rfl
  have typed := ha 1 (.line (.ofString "r R1")) _ _ rfl rfl rfl
  refine ⟨rfl, hx, ho, ⟨_, _, rfl, rfl, dumped, ?_⟩, _, _, rfl, rfl, typed, ?_⟩
  · exact (dumped.fault rfl).trans (if_pos (by decide +kernel))
  · exact (typed.errors nofun nofun).trans (if_pos (by decide +kernel))

end Session

end RegisterConsole
