import RegisterConsole.Proofs.Requests

/-!
# The first three words of a line

A typed line acts through its first three words: the command, a name and a value. How they are set
apart, and what follows them, shows in nothing but the rest of the line that is given back.

* `request?_line_congr`, `idleResult_congr`: the first three words decide what a line asks for, or,
  where it asks for nothing, what is said of it;
* `line_acts_through_three_words`: lines with the same first three words have the same effect and
  the same answer, and what a command leaves of its line is what stands behind those words.
-/

namespace RegisterConsole

namespace Request

theorem ofWords_take (p : Policy) (words : List Text) :
    ofWords p (words.take 2) = ofWords p words := by
  match words with
  | [] => rfl
  | [_] => rfl
  | _ :: _ :: _ => rfl

theorem ofLine?_take (p : Policy) (words : List Text) :
    ofLine? p (words.take 3) = ofLine? p words := by
  cases words with
  | nil => rfl
  | cons command words => rw [List.take_succ_cons, ofLine?, ofWords_take, ofLine?]

end Request

namespace Session

/-! ## What a line asks for -/

theorem idleResult_eq (text : Text) :
    Step.idleResult text = (Cursor.words ⟨text⟩).head?.elim .empty .unknown := by
  unfold Step.idleResult
  cases Cursor.words ⟨text⟩ <;> rfl

theorem request?_line_congr (p : Policy) {a b : Text}
    (h : (Cursor.words ⟨a⟩).take 3 = (Cursor.words ⟨b⟩).take 3) :
    (Step.line a).request? p = (Step.line b).request? p := by
  rw [request?_line, ← Request.ofLine?_take, h, Request.ofLine?_take, request?_line]

theorem idleResult_congr {a b : Text}
    (h : (Cursor.words ⟨a⟩).take 3 = (Cursor.words ⟨b⟩).take 3) :
    Step.idleResult a = Step.idleResult b := by
  have hh := congrArg List.head? h
  rw [List.head?_take, List.head?_take, if_neg (by decide), if_neg (by decide)] at hh
  rw [idleResult_eq, idleResult_eq, hh]

/-- A line whose first word is the command asks for something. -/
theorem exists_request?_of_matches (p : Policy) {text command : Text} {words : List Text}
    (hw : Cursor.words ⟨text⟩ = command :: words) (hm : registerCommand.matches command = true) :
    ∃ q, (Step.line text).request? p = some q :=
  ⟨.ofWords p words, by rw [request?_line, hw, Request.ofLine?, if_pos hm]⟩

/-! ## What a line leaves -/

/-- What stands behind the first three words of a line: nothing, where there are fewer. -/
structure Leaves (line rest : Text) : Prop where
  behind : 3 ≤ (Cursor.words ⟨line⟩).length → ∀ t, Cursor.Behind 3 line t ↔ t = rest
  nothing : (Cursor.words ⟨line⟩).length < 3 → rest = []
  words : Cursor.words ⟨rest⟩ = (Cursor.words ⟨line⟩).drop 3

theorem leaves_rest (line : Text) : Leaves line (Step.line line).rest := by
  constructor
  · intro h t
    constructor
    · intro ht
      rw [Step.rest, Cursor.skip_of_behind ht]
    · rintro rfl
      exact Cursor.behind_skip h
  · intro h
    rw [Step.rest, Cursor.skip_eq_of_length_lt h]
  · exact Cursor.words_skip 3 ⟨line⟩

/-! ## Answers -/

/-- The result, without what is left of the line. -/
def Result.withoutRest : Result → Result
  | .ran status _ => .ran status []
  | r => r

/-- The answer, without what is left of the line. -/
def Answer.withoutRest (a : Answer) : Answer := { a with result := a.result.withoutRest }

/-- A request is carried out whatever is left of the line. -/
theorem carryOut_rest (s : Session) (q : Request) (rest other : Text) :
    (s.carryOut q rest).1 = (s.carryOut q other).1 ∧
      (s.carryOut q rest).2.withoutRest = (s.carryOut q other).2.withoutRest := ⟨rfl, rfl⟩

/-- **A line acts through its first three words.** Two lines with the same first three words, as far
as they have them, lead to the same state and to the same answer but for the rest of the line; and
where the first word is the command, that rest is what stands behind the third word. -/
theorem line_acts_through_three_words (s : Session) (a b : Text) :
    ((Cursor.words ⟨a⟩).take 3 = (Cursor.words ⟨b⟩).take 3 →
        (s.step (.line a)).1 = (s.step (.line b)).1 ∧
          (s.step (.line a)).2.withoutRest = (s.step (.line b)).2.withoutRest) ∧
      ∀ command words, Cursor.words ⟨a⟩ = command :: words →
        registerCommand.matches command = true →
        ∃ status rest, (s.step (.line a)).2.result = .ran status rest ∧ Leaves a rest := by
  constructor
  · intro h
    have hq := request?_line_congr s.options.policy h
    cases hr : (Step.line b).request? s.options.policy with
    | none =>
      rw [step_line_of_no_request hr, step_line_of_no_request (hq.trans hr), idleResult_congr h]
      exact ⟨rfl, rfl⟩
    | some q =>
      rw [step_of_request hr, step_of_request (hq.trans hr)]
      exact carryOut_rest s q _ _
  · intro command words hw hm
    obtain ⟨q, hq⟩ := exists_request?_of_matches s.options.policy hw hm
    rw [step_of_request hq]
    exact ⟨.proceed, (Step.line a).rest, rfl, leaves_rest a⟩

/-- The same three words, set apart in two ways, with other words behind them in the second line. -/
theorem line_acts_through_three_words_set_apart :
    let s : Session := {}
    let a := Text.ofString "r R1 5"
    let b := Text.ofString "  r\tR1 5  and more"
    (Cursor.words ⟨a⟩).take 3 = (Cursor.words ⟨b⟩).take 3 ∧
      (s.step (.line a)).1 = (s.step (.line b)).1 ∧
      (s.step (.line a)).2.withoutRest = (s.step (.line b)).2.withoutRest ∧
      (s.step (.line b)).2.result = .ran .proceed (.ofString "  and more") ∧
      Leaves b (.ofString "  and more") := by
  intro s a b
  have ha : Cursor.words ⟨a⟩ = [['r'], ['R', '1'], ['5']] := by decide +kernel
  have hb : Cursor.words ⟨b⟩ =
      [['r'], ['R', '1'], ['5'], Text.ofString "and", Text.ofString "more"] := by decide +kernel
  have hw : (Cursor.words ⟨a⟩).take 3 = (Cursor.words ⟨b⟩).take 3 := by rw [ha, hb]; rfl
  obtain ⟨hs, hr⟩ := (line_acts_through_three_words s a b).1 hw
  obtain ⟨status, rest, he, hl⟩ := (line_acts_through_three_words s b a).2 _ _ hb rfl
  have hran : (s.step (.line b)).2.result = .ran .proceed (.ofString "  and more") := by
    decide +kernel
  obtain ⟨rfl, rfl⟩ := Result.ran.inj (he.symm.trans hran)
  exact ⟨hw, hs, hr, hran, hl⟩

end Session

end RegisterConsole
