import RegisterConsole.Proofs.Values
import RegisterConsole.Proofs.Writes

/-!
# The log as a journal of writes

The texts of a log alone are read back as writes (`Record.write?`) and carried out again on the
context there was at the start (`replay`).

* `write?_wrote`: the record of a write tells the register and the word, whatever they are;
* `writes_of_run`, `writes_of_step`: a request or a step tells of the write it makes and of no other;
* `journal_complete`: after each step of a run, the context is what the log so far makes of the
  context at its start.
-/

namespace RegisterConsole

/-! ## Reading records back -/

/-- The word that sixteen hexadecimal digits stand for. -/
def Word.ofDigits? (t : Text) : Option Word :=
  if t.length = 16 ∧ ∀ c ∈ t, (Hex.digit? c).isSome then some (UInt64.ofNat (Hex.value t)) else none

/-- The write that a record tells of, as far as its level and its text show. -/
def Record.write? : Record → Option (Register × Word)
  | (.debug, text) => do
    let t ← Text.behind? (.ofString "set ") text
    let r ← Register.ofName? (t.takeWhile (· ≠ ' '))
    let digits ← Text.behind? (.ofString " to 0x") (t.dropWhile (· ≠ ' '))
    let w ← Word.ofDigits? digits
    return (r, w)
  | _ => none

/-- The writes that a log tells of, carried out on a context in their order. -/
def replay (c : Context) (log : List Record) : Context :=
  (log.filterMap Record.write?).foldl (fun c rw => c.set rw.1 rw.2) c

theorem replay_append (c : Context) (log more : List Record) :
    replay c (log ++ more) = replay (replay c log) more := by
  simp [replay]

theorem Word.ofDigits?_fixed (w : Word) : ofDigits? (Hex.fixed 16 w.toNat) = some w := by
  have hd : ∀ c ∈ Hex.fixed 16 w.toNat, (Hex.digit? c).isSome := fun c =>
    Hex.isSome_digit?_of_mem_fixed
  have hv : Hex.value (Hex.fixed 16 w.toNat) = w.toNat := value_text w
  rw [ofDigits?, if_pos ⟨Hex.length_fixed 16 _, hd⟩, hv, UInt64.ofNat_toNat]

/-- Behind the name of a register, the rest of a record is read for the word. -/
theorem write?_set (r : Register) (t : Text) :
    Record.write? (.debug, Text.ofString "set " ++ (r.name ++ ' ' :: t)) = do
      let digits ← Text.behind? (.ofString " to 0x") (' ' :: t)
      let w ← Word.ofDigits? digits
      return (r, w) := by
  rw [Record.write?, Text.behind?_append]
  simp only [Option.bind_eq_bind, Option.bind_some, Register.takeWhile_name_append,
    Register.dropWhile_name_append, Register.ofName?_name]

theorem message_wrote (r : Register) (w : Word) :
    (Event.wrote r w).message = Text.ofString "set " ++
      (r.name ++ ' ' :: (Text.ofString "to 0x" ++ Hex.fixed 16 w.toNat)) := by
  simp [Event.message, Word.text, Text.ofString]

/-- The record of a write tells the register and the word. -/
theorem write?_wrote (r : Register) (w : Word) :
    Record.write? (.debug, (Event.wrote r w).message) = some (r, w) := by
  have hto : ' ' :: (Text.ofString "to 0x" ++ Hex.fixed 16 w.toNat) =
      Text.ofString " to 0x" ++ Hex.fixed 16 w.toNat := by
    simp [Text.ofString]
  rw [message_wrote, write?_set, hto, Text.behind?_append, Option.bind_eq_bind, Option.bind_some,
    Word.ofDigits?_fixed]
  rfl

/-- The record of a display is not taken for a write. -/
theorem write?_showing (ip : Word) :
    Record.write? (.debug, (Event.showing ip).message) = none := rfl

theorem write?_of_ne_debug {r : Record} (h : r.1 ≠ .debug) : r.write? = none := by
  obtain ⟨level, text⟩ := r
  cases level with
  | debug => exact absurd rfl h
  | _ => rfl

/-! ## What a step tells -/

theorem writes_of_printed (v : Verbosity) (c : Context) (s : Sink) (lines : List Text) {e : Event}
    {lost : Text → Event} (he : Record.write? (e.level, e.message) = none)
    (hl : ∀ reason, (lost reason).level = .error) :
    (journal v (Effect.printed c s lines e lost).events).filterMap Record.write? = [] := by
  have hne : ∀ reason, Record.write? ((lost reason).level, (lost reason).message) = none := by
    intro reason
    exact write?_of_ne_debug (by simp [hl])
  apply List.filterMap_eq_nil_iff.mpr
  intro r hr
  obtain ⟨f, hf, rfl⟩ := List.mem_map.mp hr
  rcases List.mem_cons.mp (List.mem_filter.mp hf).1 with rfl | hf
  · exact he
  · rw [Option.mem_toList, Option.map_eq_some_iff] at hf
    obtain ⟨reason, _, rfl⟩ := hf
    exact hne reason

/-- The write that a request makes, if it makes one. -/
def Request.writes : Request → List (Register × Word)
  | .write r w => [(r, w)]
  | _ => []

/-- A request tells of the write it makes, and of no other. -/
theorem writes_of_run {v : Verbosity} (hv : v.keeps .debug = true) {o : Options}
    (ho : o.logWrites = true) (c : Context) (s : Sink) (q : Request) :
    (journal v (q.run o c s).events).filterMap Record.write? = q.writes := by
  cases q with
  | display => exact writes_of_printed v c s c.table (write?_showing c.ip) fun _ => rfl
  | reject name fault =>
    exact writes_of_printed v c s [fault.message] (write?_of_ne_debug nofun) fun _ => rfl
  | write r w =>
    have hk : v.keeps (Event.wrote r w).level = true := hv
    simp only [Request.run, ho, if_true, journal, List.filter_cons, hk, List.filter_nil,
      List.map_cons, List.map_nil, List.filterMap_cons, List.filterMap_nil]
    rw [show (Event.wrote r w).level = .debug from rfl, write?_wrote]
    rfl

namespace Session

/-- The steps that change the context in no other way than through the register command. -/
def Step.Journaled : Step → Prop
  | .line _ | .call .. | .get _ | .save _ | .flags | .dump | .sink _ | .trap _ => True
  | .set .. | .assign .. | .load _ | .options _ => False

theorem writes_iff_of_journaled {p : Policy} {r : Register} {w : Word} {x : Step}
    (hx : x.Journaled) : x.Writes p r w ↔ x.request? p = some (.write r w) := by
  cases x with
  | line text => exact writes_line_iff
  | call arg text n => exact writes_call_iff
  | set | assign | load | options => exact hx.elim
  | _ => exact ⟨False.elim, nofun⟩

/-- A step without a request logs nothing and leaves the context as it is. -/
theorem quiet_of_journaled {s : Session} {x : Step} (hx : x.Journaled)
    (hq : x.request? s.options.policy = none) :
    (s.step x).2.log = [] ∧ (s.step x).1.context = s.context := by
  cases x with
  | line text =>
    rw [step_line_of_no_request hq]
    exact ⟨rfl, rfl⟩
  | call arg text n => cases arg <;> simp [Step.request?] at hq
  | save buffer =>
    simp only [step]
    rcases s.context.storeIn buffer with ⟨_ | _, _⟩ <;> exact ⟨rfl, rfl⟩
  | set | assign | load | options => exact hx.elim
  | _ => exact ⟨rfl, rfl⟩

variable {s : Session}

/-- A step tells of the write it makes, and of no other; its context is what it tells. -/
theorem writes_of_step {x : Step} (hx : x.Journaled) (ho : s.options.logWrites = true)
    (hv : s.verbosity.keeps .debug = true) :
    (∀ r w, x.Writes s.options.policy r w →
        (s.step x).2.log.filterMap Record.write? = [(r, w)]) ∧
      ((∀ r w, ¬ x.Writes s.options.policy r w) →
        (s.step x).2.log.filterMap Record.write? = []) ∧
      (s.step x).1.context = replay s.context (s.step x).2.log := by
  simp only [writes_iff_of_journaled hx]
  cases hq : x.request? s.options.policy with
  | none =>
    obtain ⟨hl, hc⟩ := quiet_of_journaled hx hq
    rw [hl, hc]
    refine ⟨fun _ _ e => ?_, fun _ => rfl, rfl⟩
    cases e
  | some q =>
    have hw := writes_of_run hv ho s.context s.sink q
    rw [step_of_request hq]
    simp only [carryOut, replay, hw]
    cases q with
    | write r w =>
      refine ⟨fun _ _ e => ?_, fun h => absurd rfl (h r w), rfl⟩
      obtain ⟨rfl, rfl⟩ := Request.write.inj (Option.some.inj e)
      rfl
    | display =>
      refine ⟨fun _ _ e => ?_, fun _ => rfl, rfl⟩
      cases e
    | reject name fault =>
      refine ⟨fun _ _ e => ?_, fun _ => rfl, rfl⟩
      cases e

/-! ## Runs -/

/-- All that was logged over some steps. -/
def log (s : Session) (xs : List Step) : List Record := (s.answers xs).flatMap fun a => a.log

theorem options_of_journaled {x : Step} (hx : x.Journaled) :
    (s.step x).1.options = s.options := by
  apply options_step_of_ne
  rintro settings rfl
  exact hx

theorem after_of_journaled {xs : List Step} (hx : ∀ x ∈ xs, x.Journaled) :
    (s.after xs).options = s.options ∧ (s.after xs).verbosity = s.verbosity := by
  induction xs generalizing s with
  | nil => exact ⟨rfl, rfl⟩
  | cons x xs ih =>
    obtain ⟨hj, hxs⟩ := List.forall_mem_cons.mp hx
    obtain ⟨ho, hv⟩ := ih (s := (s.step x).1) hxs
    rw [after_cons, ho, hv, verbosity_step, options_of_journaled hj]
    exact ⟨rfl, rfl⟩

theorem context_after_eq_replay {xs : List Step} (hx : ∀ x ∈ xs, x.Journaled)
    (ho : s.options.logWrites = true) (hv : s.verbosity.keeps .debug = true) :
    (s.after xs).context = replay s.context (s.log xs) := by
  induction xs generalizing s with
  | nil => rfl
  | cons x xs ih =>
    obtain ⟨hj, hxs⟩ := List.forall_mem_cons.mp hx
    have hn := ih (s := (s.step x).1) hxs (by rw [options_of_journaled hj, ho])
      (by rw [verbosity_step, hv])
    simp only [after_cons, hn, log, answers, List.flatMap_cons, replay_append]
    rw [(writes_of_step hj ho hv).2.2]

/-- **The log is a journal of all writes.** Where writes are logged and debug records are kept, the
context after each step is the first one with the writes of the log so far carried out on it; the
log has one such record for each write that a step makes, and none besides. -/
theorem journal_complete (s : Session) (xs : List Step) (ho : s.options.logWrites = true)
    (hv : s.verbosity = some .debug ∨ s.verbosity = some .trace)
    (hx : ∀ x ∈ xs, x.Journaled) :
    (∀ i : Nat, (s.after (xs.take i)).context = replay s.context (s.log (xs.take i))) ∧
      ∀ (i : Nat) x a, xs[i]? = some x → (s.answers xs)[i]? = some a →
        (∀ r w, x.Writes s.options.policy r w → a.log.filterMap Record.write? = [(r, w)]) ∧
          ((∀ r w, ¬ x.Writes s.options.policy r w) → a.log.filterMap Record.write? = []) := by
  have hk : s.verbosity.keeps .debug = true := by rcases hv with h | h <;> rw [h] <;> rfl
  have ht : ∀ i, ∀ x ∈ xs.take i, x.Journaled := fun i x h => hx x (List.mem_of_mem_take h)
  constructor
  · intro i
    exact context_after_eq_replay (ht i) ho hk
  · intro i x a hi ha
    obtain ⟨e, e'⟩ := after_of_journaled (s := s) (ht i)
    rw [getElem?_answers, hi, Option.map_some, Option.some.injEq] at ha
    have hs := writes_of_step (s := s.after (xs.take i)) (hx x (List.mem_of_getElem? hi))
      (by rw [e, ho]) (by rw [e', hk])
    rw [e, ha] at hs
    exact ⟨hs.1, hs.2.1⟩

/-- A run in which a write is accepted, one is refused, and the sink fails. -/
theorem journal_complete_beside_failures :
    let s : Session := { verbosity := some .debug, sink := { room := some 3 } }
    let xs : List Step :=
      [.line (.ofString "r r1 0x10"), .dump, .call (some (.ofString "R2")) (.ofString "g") 0]
    (∀ x ∈ xs, x.Journaled) ∧ (s.after xs).context = replay s.context (s.log xs) := by
  intro s xs
  have hx : ∀ x ∈ xs, x.Journaled := by simp [xs, Step.Journaled]
  exact ⟨hx, (journal_complete s xs rfl (Or.inl rfl) hx).1 3⟩

end Session

end RegisterConsole
