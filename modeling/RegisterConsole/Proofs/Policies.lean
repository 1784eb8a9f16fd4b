import RegisterConsole.Proofs.Requests
import RegisterConsole.Proofs.Saturation

/-!
# Sessions under either policy

A session under the strict policy is run again under the lenient one. The two part company only
where a number is refused, since everything else that a step does is decided by its request.

* `ofWord_lenient`: a request that is not refused for its number is the same under both policies;
* `step_withPolicy`: a step with the same request under another policy has the same answer there,
  and leaves two sessions that again differ in their policies alone;
* `lenient_extends_strict`: a run in which no number is refused has the same answers under the
  lenient policy, and a number refused as too large would be written there as the greatest word.
-/

namespace RegisterConsole

/-- The fault is one of the number that was given. -/
def Fault.isNumber : Fault → Bool
  | malformedNumber _ | numberTooLarge _ => true
  | _ => false

theorem Value.isNumber_of_strict_error {t : Text} {fault : Fault}
    (h : strict t = .error fault) : fault.isNumber = true := by
  rcases strict_eq_error h with rfl | rfl
  · rfl
  · rfl

/-! ## One request -/

namespace Request

/-- The request is refused for the number in it. -/
def refusesNumber : Request → Bool
  | reject _ fault => fault.isNumber
  | _ => false

/-- A request that is not refused for its number is the same under the lenient policy. -/
theorem ofWord_lenient {name : Text} {word? : Option Text}
    (h : (ofWord .strict name word?).refusesNumber = false) :
    ofWord .lenient name word? = ofWord .strict name word? := by
  cases word? with
  | none => rfl
  | some word =>
    cases hs : Value.strict word with
    | error fault =>
      have hr : ofWord .strict name (some word) = .reject name fault := by
        simp [ofWord, Value.read, hs]
      rw [hr, refusesNumber, Value.isNumber_of_strict_error hs] at h
      cases h
    | ok w => simp [ofWord, Value.read, hs, Value.lenient_of_strict hs]

/-- A request with a number that is too large writes the greatest word under the lenient policy. -/
theorem ofWord_lenient_of_tooLarge {name told : Text} {word? : Option Text} {fault : Fault}
    {r : Register} (h : ofWord .strict name word? = .reject told fault) (hc : fault.causes ≠ [])
    (hr : Text.SameFold r.name told) :
    ofWord .lenient name word? = .write r 0xffffffffffffffff := by
  cases word? with
  | none =>
    obtain ⟨rfl, rfl⟩ := Request.reject.inj h
    exact absurd rfl hc
  | some word =>
    cases hs : Value.strict word with
    | error f =>
      simp only [ofWord, Value.read, hs] at h
      obtain ⟨rfl, rfl⟩ := Request.reject.inj h
      have hl : Value.read .lenient word = .ok 0xffffffffffffffff :=
        congrArg Except.ok (Value.lenient_of_tooLarge hs hc)
      exact ofWord_eq_write_iff.mpr ⟨hr, word, rfl, hl⟩
    | ok w =>
      simp only [ofWord, Value.read, hs] at h
      split at h
      · next f hf =>
        obtain ⟨rfl, rfl⟩ := Request.reject.inj h
        rw [(Register.resolve_eq_error_iff.mp hf).2] at hc
        exact absurd rfl hc
      · cases h

end Request

namespace Session

/-! ## One step -/

/-- Under the policy `p` the step is refused for the number that it gives. -/
def Step.refusesNumber (p : Policy) (x : Step) : Bool :=
  (x.request? p).elim false Request.refusesNumber

theorem request?_lenient {x : Step} (h : x.refusesNumber .strict = false) :
    x.request? .lenient = x.request? .strict := by
  rcases request?_cases x with hx | hx | ⟨name, word?, hx⟩
  · rw [hx, hx]
  · rw [hx, hx]
  · rw [Step.refusesNumber, hx] at h
    rw [hx, hx, Request.ofWord_lenient h]

theorem request?_lenient_of_tooLarge {x : Step} {told : Text} {fault : Fault} {r : Register}
    (h : x.request? .strict = some (.reject told fault)) (hc : fault.causes ≠ [])
    (hr : Text.SameFold r.name told) :
    x.request? .lenient = some (.write r 0xffffffffffffffff) := by
  rcases request?_cases x with hx | hx | ⟨name, word?, hx⟩
  · rw [hx] at h
    cases h
  · rw [hx] at h
    cases h
  · rw [hx] at h
    rw [hx, Request.ofWord_lenient_of_tooLarge (Option.some.inj h) hc hr]

/-- The session with values read under the policy `p`. -/
def withPolicy (s : Session) (p : Policy) : Session :=
  { s with options := { s.options with policy := p } }

/-- Nothing but the reading of a value depends on the policy. -/
theorem carryOut_withPolicy (s : Session) (p : Policy) (q : Request) (rest : Text) :
    (s.withPolicy p).carryOut q rest =
      ((s.carryOut q rest).1.withPolicy p, (s.carryOut q rest).2) := by
  cases q <;> rfl

/-- A step with the same request under another policy has the same answer there. -/
theorem step_withPolicy {s : Session} {x : Step} {p : Policy}
    (hx : ∀ settings, x ≠ .options settings)
    (hq : x.request? p = x.request? s.options.policy) :
    (s.withPolicy p).step x = ((s.step x).1.withPolicy p, (s.step x).2) := by
  cases h : x.request? s.options.policy with
  | some q =>
    have h' : x.request? (s.withPolicy p).options.policy = some q := hq.trans h
    rw [step_of_request h, step_of_request h', carryOut_withPolicy]
  | none =>
    cases x with
    | line text =>
      have h' : (Step.line text).request? (s.withPolicy p).options.policy = none := hq.trans h
      rw [step_line_of_no_request h, step_line_of_no_request h']
      rfl
    | call arg text n => cases arg <;> cases h
    | assign name w =>
      simp only [step, withPolicy]
      rcases s.context.assign name w with ⟨_ | _, _⟩ <;> rfl
    | load bytes =>
      simp only [step]
      cases Context.load bytes <;> rfl
    | save buffer =>
      simp only [step, withPolicy]
      rcases s.context.storeIn buffer with ⟨_ | _, _⟩ <;> rfl
    | options settings => exact absurd rfl (hx settings)
    | _ => rfl

/-! ## Runs -/

/-- A run whose steps have the same requests under another policy has the same answers there. -/
theorem answers_withPolicy {s : Session} {p : Policy} {xs : List Step}
    (hx : ∀ x ∈ xs, ∀ settings, x ≠ .options settings)
    (hq : ∀ x ∈ xs, x.request? p = x.request? s.options.policy) :
    (s.withPolicy p).answers xs = s.answers xs := by
  induction xs generalizing s with
  | nil => rfl
  | cons x xs ih =>
    obtain ⟨ho, hxs⟩ := List.forall_mem_cons.mp hx
    obtain ⟨hr, hqs⟩ := List.forall_mem_cons.mp hq
    have hn : ∀ y ∈ xs, y.request? p = y.request? (s.step x).1.options.policy := by
      rw [options_step_of_ne s ho]
      exact hqs
    simp only [answers, step_withPolicy ho hr, ih hxs hn]

/-- **The lenient policy extends the strict one.** A run under the strict policy in which no number
is refused has the same answers, step by step, under the lenient policy. Where a number is refused
because no word can hold it, the lenient policy, from the same state and for a known name, writes
the greatest word. -/
theorem lenient_extends_strict (s : Session) (xs : List Step) (hp : s.options.policy = .strict)
    (hx : ∀ x ∈ xs, ∀ settings, x ≠ .options settings) :
    ((∀ x ∈ xs, x.refusesNumber .strict = false) →
        (s.withPolicy .lenient).answers xs = s.answers xs) ∧
      ∀ (i : Nat) x name fault r, xs[i]? = some x →
        x.request? .strict = some (.reject name fault) → fault.causes ≠ [] →
        Text.SameFold r.name name →
        (((s.after (xs.take i)).withPolicy .lenient).step x).1.context =
          (s.after (xs.take i)).context.set r 0xffffffffffffffff := by
  constructor
  · intro hn
    apply answers_withPolicy hx
    intro x hm
    rw [hp]
    exact request?_lenient (hn x hm)
  · intro i x name fault r _ hq hc hr
    have hl : x.request? ((s.after (xs.take i)).withPolicy .lenient).options.policy =
        some (.write r 0xffffffffffffffff) := request?_lenient_of_tooLarge hq hc hr
    rw [step_of_request hl]
    rfl

/-- A run with a write, an unknown name and a table, and a number too large behind it. -/
theorem lenient_extends_strict_to_too_large :
    let s : Session := { context := { r2 := 7 } }
    let xs : List Step := [.line (.ofString "r R1 0X0010"), .line (.ofString "r Foo 5"), .dump]
    let x : Step := .line (.ofString "r ip 10000000000000000")
    s.options.policy = .strict ∧ (∀ y ∈ xs ++ [x], ∀ settings, y ≠ .options settings) ∧
      (∀ y ∈ xs, y.refusesNumber .strict = false) ∧
      (s.withPolicy .lenient).answers xs = s.answers xs ∧
      (((s.after xs).withPolicy .lenient).step x).1.context =
        (s.after xs).context.set .ip 0xffffffffffffffff := by
  intro s xs x
  have hx : ∀ y ∈ xs ++ [x], ∀ settings, y ≠ .options settings := by simp [xs, x]
  have hn : ∀ y ∈ xs, y.refusesNumber .strict = false := by decide +kernel
  have hxs : ∀ y ∈ xs, ∀ settings, y ≠ .options settings := fun y hy =>
    hx y (List.mem_append_left _ hy)
  have hq : x.request? .strict =
      some (.reject (.ofString "ip") (.numberTooLarge (.ofString "10000000000000000"))) := by
    decide +kernel
  exact ⟨rfl, hx, hn, (lenient_extends_strict s xs rfl hxs).1 hn,
    (lenient_extends_strict s (xs ++ [x]) rfl hx).2 3 x _ _ .ip rfl hq (by decide) (by decide)⟩

end Session

end RegisterConsole
