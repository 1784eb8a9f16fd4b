import RegisterConsole.Proofs.Requests

/-!
# The last write counts

What a step writes is said from the step and the policy alone (`Step.Writes`), without running it.

* `get_step`: in every register, a step leaves what it writes there, or what was there;
* `writes_unique`: a step writes no two words to one register;
* `get_after_eq_iff`: after any steps a register holds the word of the last write to it, or, where
  there was none, the word it held before.
-/

namespace RegisterConsole.Session

/-! ## Writes -/

/-- The step puts `w` into `r`, where values are read under `p`. -/
def Step.Writes (p : Policy) (r : Register) (w : Word) : Step → Prop
  | .set q v => q = r ∧ v = w
  | .assign name v => Text.SameFold r.name name ∧ v = w
  | .load bytes => imageSize ≤ bytes.length ∧ w.bytes <+: bytes.drop (8 * r.index)
  | .line text =>
    ∃ command name word words, Cursor.words ⟨text⟩ = command :: name :: word :: words ∧
      (command = ['r'] ∨ command = ['R']) ∧ Text.SameFold r.name name ∧
      Value.read p word = .ok w
  | .call arg text n =>
    ∃ name word words, arg = some name ∧ Text.SameFold r.name name ∧
      (Cursor.words ⟨text⟩).drop n = word :: words ∧ Value.read p word = .ok w
  | _ => False

theorem writes_line_iff {p : Policy} {r : Register} {w : Word} {text : Text} :
    (Step.line text).Writes p r w ↔ (Step.line text).request? p = some (.write r w) := by
  simp only [Step.Writes, request?_line]
  cases Cursor.words ⟨text⟩ with
  | nil => simp [Request.ofLine?]
  | cons command words =>
    rw [Request.ofLine?]
    by_cases hm : registerCommand.matches command = true
    · rw [if_pos hm, Option.some.injEq]
      cases words with
      | nil => simp [Request.ofWords]
      | cons name words =>
        rw [Request.ofWords, Request.ofWord_eq_write_iff]
        constructor
        · rintro ⟨_, _, word, ws, e, _, hn, hv⟩
          obtain ⟨rfl, rfl, rfl⟩ : command = _ ∧ name = _ ∧ words = word :: ws := by simpa using e
          exact ⟨hn, word, rfl, hv⟩
        · rintro ⟨hn, word, hw, hv⟩
          obtain ⟨ws, rfl⟩ : ∃ ws, words = word :: ws := List.head?_eq_some_iff.mp hw
          exact ⟨command, name, word, ws, rfl, registerCommand_matches_iff.mp hm, hn, hv⟩
    · rw [if_neg hm]
      constructor
      · rintro ⟨_, _, _, _, e, hc, _, _⟩
        obtain rfl : command = _ := (List.cons.inj e).1
        exact absurd (registerCommand_matches_iff.mpr hc) hm
      · intro e
        cases e

theorem writes_call_iff {p : Policy} {r : Register} {w : Word} {arg : Option Text} {text : Text}
    {n : Nat} :
    (Step.call arg text n).Writes p r w ↔
      (Step.call arg text n).request? p = some (.write r w) := by
  cases arg with
  | none => simp [Step.Writes, Step.request?]
  | some name =>
    simp only [Step.Writes, Step.request?, Option.some.injEq, Request.ofWord_eq_write_iff,
      List.head?_eq_some_iff]
    constructor
    · rintro ⟨_, word, words, rfl, hn, hw, hv⟩
      exact ⟨hn, word, ⟨words, hw⟩, hv⟩
    · rintro ⟨hn, word, ⟨words, hw⟩, hv⟩
      exact ⟨name, word, words, rfl, hn, hw, hv⟩

/-- A step writes no two words to one register. -/
theorem writes_unique {p : Policy} {r : Register} {v w : Word} {x : Step}
    (hv : x.Writes p r v) (hw : x.Writes p r w) : v = w := by
  cases x with
  | set q u => exact hv.2.symm.trans hw.2
  | assign name u => exact hv.2.symm.trans hw.2
  | load bytes =>
    have ev := (Context.prefix_drop_iff hv.1 r v).mp hv.2
    have ew := (Context.prefix_drop_iff hw.1 r w).mp hw.2
    exact ev.symm.trans ew
  | line text =>
    rw [writes_line_iff] at hv hw
    exact (Request.write.inj (Option.some.inj (hv.symm.trans hw))).2
  | call arg text n =>
    rw [writes_call_iff] at hv hw
    exact (Request.write.inj (Option.some.inj (hv.symm.trans hw))).2
  | _ => exact hv.elim

/-! ## One step -/

/-- A change of `q` puts its word into `r`, where that is `q`, or leaves `r` as it was. -/
theorem get_set_cases (c : Context) (q r : Register) (w : Word) :
    (q = r ∧ w = (c.set q w).get r) ∨ (q ≠ r ∧ (c.set q w).get r = c.get r) := by
  by_cases h : q = r
  · subst h
    exact Or.inl ⟨rfl, (Context.get_set_self _ _ _).symm⟩
  · exact Or.inr ⟨h, Context.get_set_ne _ _ (Ne.symm h)⟩

/-- A request leaves in a register what it writes there, or what was there. -/
theorem get_carryOut (s : Session) (q : Request) (rest : Text) (r : Register) :
    q = .write r ((s.carryOut q rest).1.context.get r) ∨
      ((∀ w, q ≠ .write r w) ∧ (s.carryOut q rest).1.context.get r = s.context.get r) := by
  cases q with
  | display => exact Or.inr ⟨fun _ => Request.noConfusion, rfl⟩
  | reject name fault => exact Or.inr ⟨fun _ => Request.noConfusion, rfl⟩
  | write q w =>
    simp only [carryOut, Request.context_run_write]
    rcases get_set_cases s.context q r w with ⟨rfl, hw⟩ | ⟨hne, he⟩
    · rw [← hw]
      exact Or.inl rfl
    · refine Or.inr ⟨?_, he⟩
      intro v e
      exact hne (Request.write.inj e).1

/-- A step leaves in a register what it writes there, or what was there. -/
theorem get_step (s : Session) (x : Step) (r : Register) :
    x.Writes s.options.policy r ((s.step x).1.context.get r) ∨
      ((∀ w, ¬ x.Writes s.options.policy r w) ∧
        (s.step x).1.context.get r = s.context.get r) := by
  cases x with
  | line text =>
    simp only [writes_line_iff]
    cases hq : (Step.line text).request? s.options.policy with
    | none => exact Or.inr ⟨fun _ => nofun, by rw [step_line_of_no_request hq]; rfl⟩
    | some q => simpa [step_of_request hq] using get_carryOut s q (Step.line text).rest r
  | call arg text n =>
    simp only [writes_call_iff]
    cases hq : (Step.call arg text n).request? s.options.policy with
    | none => cases arg <;> simp [Step.request?] at hq
    | some q => simpa [step_of_request hq] using get_carryOut s q (Step.call arg text n).rest r
  | set q w =>
    rcases get_set_cases s.context q r w with h | ⟨hne, he⟩
    · exact Or.inl h
    · refine Or.inr ⟨?_, he⟩
      intro v e
      exact hne e.1
  | assign name w =>
    cases hf : Register.find? name with
    | none =>
      simp only [Step.Writes, step, Context.assign_of_unknown hf]
      exact Or.inr ⟨fun _ e => Register.find?_eq_none_iff.mp hf r e.1, rfl⟩
    | some q =>
      simp only [Step.Writes, step, Context.assign_of_find? hf]
      rcases get_set_cases s.context q r w with ⟨rfl, hw⟩ | ⟨hne, he⟩
      · exact Or.inl ⟨Register.find?_eq_some hf, hw⟩
      · refine Or.inr ⟨?_, he⟩
        intro v e
        exact hne (Option.some.inj (hf.symm.trans (Register.find?_eq_some_iff.mpr e.1)))
  | load bytes =>
    by_cases h : imageSize ≤ bytes.length
    · left
      refine ⟨h, (Context.prefix_drop_iff h r _).mpr ?_⟩
      simp [step, Context.load_of_le h, reply]
    · right
      constructor
      · intro v e
        exact h e.1
      · simp [step, Context.load_of_short (Nat.lt_of_not_le h), reply]
  | save buffer =>
    refine Or.inr ⟨fun _ => id, ?_⟩
    simp only [step]
    split <;> rfl
  | _ => exact Or.inr ⟨fun _ => id, rfl⟩

/-! ## Runs -/

/-- The policy in force after some steps: the one chosen last in the last options among them, or the
strict one where those choose none; `p` where there are no options among them. -/
def policyAfter (p : Policy) : List Step → Policy
  | [] => p
  | .options settings :: xs =>
    policyAfter ((settings.filterMap Setting.policy?).getLast?.getD .strict) xs
  | _ :: xs => policyAfter p xs

theorem policy_after (s : Session) (xs : List Step) :
    (s.after xs).options.policy = policyAfter s.options.policy xs := by
  induction xs generalizing s with
  | nil => rfl
  | cons x xs ih =>
    rw [after_cons, ih, options_step]
    cases x with
    | options settings => simp only [policyAfter, Options.ofSettings_eq]
    | _ => rfl

/-- The step at place `i` puts `w` into `r`, by the policy that is in force there. -/
def WritesAt (p : Policy) (xs : List Step) (r : Register) (w : Word) (i : Nat) : Prop :=
  ∃ x, xs[i]? = some x ∧ x.Writes (policyAfter p (xs.take i)) r w

theorem lt_of_writesAt {p : Policy} {xs : List Step} {r : Register} {w : Word} {i : Nat}
    (h : WritesAt p xs r w i) : i < xs.length := by
  obtain ⟨x, hx, _⟩ := h
  exact (List.getElem?_eq_some_iff.mp hx).1

theorem writesAt_unique {p : Policy} {xs : List Step} {r : Register} {v w : Word} {i : Nat}
    (hv : WritesAt p xs r v i) (hw : WritesAt p xs r w i) : v = w := by
  obtain ⟨x, hx, hv⟩ := hv
  obtain ⟨y, hy, hw⟩ := hw
  obtain rfl := Option.some.inj (hx.symm.trans hy)
  exact writes_unique hv hw

theorem writesAt_concat_iff {p : Policy} {xs : List Step} {x : Step} {r : Register} {w : Word}
    {i : Nat} :
    WritesAt p (xs ++ [x]) r w i ↔
      WritesAt p xs r w i ∨ (i = xs.length ∧ x.Writes (policyAfter p xs) r w) := by
  rcases Nat.lt_trichotomy i xs.length with h | rfl | h
  · simp [WritesAt, List.getElem?_append_left h, List.take_append_of_le_length (Nat.le_of_lt h),
      Nat.ne_of_lt h]
  · simp [WritesAt]
  · have e : (xs ++ [x])[i]? = none := List.getElem?_eq_none (by simp; omega)
    have e' : xs[i]? = none := List.getElem?_eq_none (Nat.le_of_lt h)
    simp [WritesAt, e, e', Nat.ne_of_gt h]

/-- What a register holds after some steps comes from the last write to it, or from the start. -/
theorem get_after_cases (s : Session) (xs : List Step) (r : Register) :
    (∃ i, WritesAt s.options.policy xs r ((s.after xs).context.get r) i ∧
        ∀ j > i, ∀ v, ¬ WritesAt s.options.policy xs r v j) ∨
      ((∀ i v, ¬ WritesAt s.options.policy xs r v i) ∧
        (s.after xs).context.get r = s.context.get r) := by
  induction xs using List.reverseRecOn with
  | nil => exact Or.inr ⟨fun i v h => absurd (lt_of_writesAt h) (by simp), rfl⟩
  | append_singleton xs x ih =>
    have hs := get_step (s.after xs) x r
    rw [policy_after] at hs
    simp only [after_append, after_cons, after_nil, writesAt_concat_iff]
    rcases hs with hw | ⟨hn, he⟩
    · refine Or.inl ⟨xs.length, Or.inr ⟨rfl, hw⟩, fun j hj v => ?_⟩
      rintro (h | ⟨h, _⟩)
      · have := lt_of_writesAt h
        omega
      · omega
    · rw [he]
      rcases ih with ⟨i, hi, hl⟩ | ⟨hl, hg⟩
      · refine Or.inl ⟨i, Or.inl hi, fun j hj v => ?_⟩
        rintro (h | ⟨_, h⟩)
        · exact hl j hj v h
        · exact hn v h
      · refine Or.inr ⟨fun i v => ?_, hg⟩
        rintro (h | ⟨_, h⟩)
        · exact hl i v h
        · exact hn v h

/-- **The last write counts.** After any steps, whatever the sink, the options and the failures in
between, a register holds `w` exactly when the last write to it puts `w` there, or when nothing was
written to it and it held `w` before. -/
theorem get_after_eq_iff (s : Session) (xs : List Step) (r : Register) (w : Word) :
    (s.after xs).context.get r = w ↔
      (∃ i, WritesAt s.options.policy xs r w i ∧
          ∀ j > i, ∀ v, ¬ WritesAt s.options.policy xs r v j) ∨
        ((∀ i v, ¬ WritesAt s.options.policy xs r v i) ∧ s.context.get r = w) := by
  have hc := get_after_cases s xs r
  constructor
  · rintro rfl
    rcases hc with h | ⟨hn, he⟩
    · exact Or.inl h
    · exact Or.inr ⟨hn, he.symm⟩
  · rintro (⟨i, hi, hl⟩ | ⟨hn, hw⟩)
    · rcases hc with ⟨j, hj, hm⟩ | ⟨hn, _⟩
      · obtain rfl : i = j := by
          rcases Nat.lt_trichotomy i j with h | h | h
          · exact absurd hj (hl j h _)
          · exact h
          · exact absurd hi (hm i h _)
        exact writesAt_unique hj hi
      · exact absurd hi (hn i w)
    · rcases hc with ⟨j, hj, _⟩ | ⟨_, he⟩
      · exact absurd hj (hn j _)
      · exact he.trans hw

end RegisterConsole.Session
