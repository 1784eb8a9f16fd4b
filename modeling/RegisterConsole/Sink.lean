import RegisterConsole.Text

/-!
Where a console prints to. A sink has room for so many bytes, or for any number; it takes what there
is room for and refuses the rest. It may interrupt every other attempt, which is then made again.

Of what is written a sink accepts as much as it has room for, and the write fails exactly when that
is not all (`takes_writeAll`). Neither interruptions nor the pieces in which a text is written show
in the outcome (`takes_writePieces`).
-/

namespace RegisterConsole

/-- How a full sink turns a write down. -/
inductive Refusal where
  | fails (reason : Text)
  | takesNothing
  deriving DecidableEq, Repr

/-- What is told of the refusal. -/
def Refusal.reason : Refusal → Text
  | fails reason => reason
  | takesNothing => .ofString "failed to write whole buffer"

theorem Refusal.reason_fails (reason : Text) : (fails reason).reason = reason := rfl

structure Sink where
  /-- The number of bytes there is room for, if it is bounded. -/
  room : Option Nat := none
  refusal : Refusal := .takesNothing
  /-- Whether every other attempt is interrupted. -/
  interrupts : Bool := false
  /-- Whether the last attempt was interrupted. -/
  interrupted : Bool := false
  deriving DecidableEq, Repr

namespace Sink

/-! ## One attempt -/

inductive Attempt where
  | interrupted
  | took (count : Nat)
  | failed (reason : Text)
  deriving DecidableEq, Repr

/-- What a sink does with `size` bytes when it lets the attempt through. -/
def answer (s : Sink) (size : Nat) : Attempt × Sink :=
  match s.room, s.refusal with
  | none, _ => (.took size, s)
  | some 0, .fails reason => (.failed reason, s)
  | some 0, .takesNothing => (.took 0, s)
  | some (room + 1), _ =>
    (.took (min size (room + 1)), { s with room := some (room + 1 - size) })

/-- One attempt to hand over `size` bytes. -/
def attempt (s : Sink) (size : Nat) : Attempt × Sink :=
  if s.interrupts && !s.interrupted then (.interrupted, { s with interrupted := true })
  else answer { s with interrupted := false } size

/-- The number of interruptions that come before the next attempt is let through. -/
def pending (s : Sink) : Nat := if s.interrupts && !s.interrupted then 1 else 0

theorem pending_le (s : Sink) : s.pending ≤ 1 := by
  unfold pending
  split <;> decide

theorem attempt_cases (s : Sink) (size : Nat) :
    (s.pending = 1 ∧ s.attempt size = (.interrupted, { s with interrupted := true })) ∨
      s.attempt size = answer { s with interrupted := false } size := by
  unfold attempt pending
  split
  · exact Or.inl ⟨rfl, rfl⟩
  · exact Or.inr rfl

theorem answer_ne_interrupted (s : Sink) (size : Nat) : (s.answer size).1 ≠ .interrupted := by
  unfold answer
  split <;> simp

theorem attempt_interrupted {s t : Sink} {size : Nat} (h : s.attempt size = (.interrupted, t)) :
    s.pending = 1 ∧ t = { s with interrupted := true } := by
  rcases attempt_cases s size with ⟨hp, e⟩ | e
  · exact ⟨hp, (Prod.mk.inj (h.symm.trans e)).2⟩
  · exact absurd (congrArg Prod.fst (e.symm.trans h)) (answer_ne_interrupted _ _)

theorem pending_of_interrupted {s t : Sink} {size : Nat}
    (h : s.attempt size = (.interrupted, t)) : t.pending < s.pending := by
  obtain ⟨hp, rfl⟩ := attempt_interrupted h
  rw [hp]
  simp [pending]

theorem attempt_failed {s t : Sink} {size : Nat} {reason : Text}
    (h : s.attempt size = (.failed reason, t)) :
    s.room = some 0 ∧ t.room = some 0 ∧ s.refusal = .fails reason ∧ t.refusal = s.refusal := by
  rcases attempt_cases s size with ⟨_, e⟩ | e
  · simp [e] at h
  · rw [e] at h
    rcases s with ⟨_ | _ | room, _ | _, _, _⟩ <;> simp [answer] at h
    obtain ⟨rfl, rfl⟩ := h
    exact ⟨rfl, rfl, rfl, rfl⟩

theorem attempt_took {s t : Sink} {size count : Nat} (h : s.attempt size = (.took count, t)) :
    count = min size (s.room.getD size) ∧ t.room = s.room.map (· - count) ∧
      t.refusal = s.refusal ∧ (s.room = some 0 → s.refusal = .takesNothing) := by
  rcases attempt_cases s size with ⟨_, e⟩ | e
  · simp [e] at h
  · rw [e] at h
    rcases s with ⟨_ | _ | room, _ | _, _, _⟩ <;> simp [answer] at h <;> obtain ⟨rfl, rfl⟩ := h <;>
      simp <;> omega

/-! ## Writing -/

/-- What came of a write: the sink after it, the bytes it accepted, and why it stopped short. -/
structure Written where
  sink : Sink
  accepted : List UInt8 := []
  failure : Option Text := none
  deriving DecidableEq, Repr

/-- Makes attempts until all bytes are taken or one attempt fails; an interrupted attempt is made
again, and one that takes nothing has failed. -/
def writeAll (s : Sink) (bytes : List UInt8) : Written :=
  match bytes with
  | [] => ⟨s, [], none⟩
  | b :: bs =>
    match h : s.attempt (bs.length + 1) with
    | (.interrupted, t) =>
      have := pending_of_interrupted h
      t.writeAll (b :: bs)
    | (.failed reason, t) => ⟨t, [], some reason⟩
    | (.took 0, t) => ⟨t, [], some Refusal.takesNothing.reason⟩
    | (.took (n + 1), t) =>
      let w := t.writeAll (bs.drop n)
      { w with accepted := b :: bs.take n ++ w.accepted }
termination_by 2 * bytes.length + s.pending
decreasing_by
  · omega
  · have := pending_le t
    simp only [List.length_drop, List.length_cons]
    omega

/-- How much of `size` bytes there is room for. -/
def fitting (s : Sink) (size : Nat) : Nat := min size (s.room.getD size)

/-- What comes of handing `bytes` to a sink: as many are accepted as fit, and where that is not all
of them the write has failed for the reason of the sink. -/
structure Takes (s : Sink) (bytes : List UInt8) (w : Written) : Prop where
  accepted : w.accepted = bytes.take (s.fitting bytes.length)
  failure : w.failure =
    if s.fitting bytes.length = bytes.length then none else some s.refusal.reason
  room : w.sink.room = s.room.map (· - bytes.length)
  refusal : w.sink.refusal = s.refusal

theorem takes_nil (s : Sink) : s.Takes [] ⟨s, [], none⟩ := by
  constructor <;> cases hr : s.room <;> simp [fitting, hr]

theorem takes_writeAll (s : Sink) (bytes : List UInt8) : s.Takes bytes (s.writeAll bytes) := by
  fun_induction writeAll s bytes with
  | case1 s => exact takes_nil s
  | case2 s b bs t h _ ih =>
    obtain ⟨_, rfl⟩ := attempt_interrupted h
    exact ⟨ih.accepted, ih.failure, ih.room, ih.refusal⟩
  | case3 s b bs reason t h =>
    obtain ⟨hs, ht, hf, hg⟩ := attempt_failed h
    constructor <;> simp [fitting, hs, ht, hg, hf, Refusal.reason_fails]
  | case4 s b bs t h =>
    obtain ⟨hc, ht, hg, hn⟩ := attempt_took h
    cases hr : s.room with
    | none => simp [hr] at hc
    | some room =>
      obtain rfl : room = 0 := by simp [hr] at hc; omega
      constructor <;> simp [fitting, hr, ht, hg, hn hr]
  | case5 s b bs n t h w ih =>
    obtain ⟨hc, ht, hg, _⟩ := attempt_took h
    obtain ⟨ha, hf, hm, hk⟩ := ih
    have hn : n ≤ bs.length := by omega
    have hfit : s.fitting (b :: bs).length = n + 1 + t.fitting (bs.drop n).length := by
      cases hr : s.room with
      | none => simp [fitting, hr, ht]; omega
      | some room => simp [hr] at hc; simp [fitting, hr, ht]; omega
    constructor
    · simp only [w, ha, hfit]
      rw [Nat.add_right_comm, List.take_succ_cons, List.cons_append, List.take_add]
    · simp only [w, hf, hfit, hg]
      congr 1
      simp
      omega
    · simp only [w, hm, ht]
      cases s.room <;> simp
      omega
    · simp [w, hk, hg]

/-! ## Pieces -/

/-- Writes one piece after the other, up to the first failure. -/
def writePieces (s : Sink) : List (List UInt8) → Written
  | [] => ⟨s, [], none⟩
  | piece :: pieces =>
    let w := s.writeAll piece
    if w.failure.isSome then w
    else
      let v := w.sink.writePieces pieces
      { v with accepted := w.accepted ++ v.accepted }

/-- A write that failed leaves no room, so whatever would follow it is lost as well. -/
theorem Takes.append_of_failure {s : Sink} {bytes more : List UInt8} {w : Written}
    (h : s.Takes bytes w) (hf : w.failure.isSome = true) : s.Takes (bytes ++ more) w := by
  have hne : s.fitting bytes.length ≠ bytes.length := by
    intro e
    rw [h.failure, if_pos e] at hf
    cases hf
  cases hr : s.room with
  | none => exact absurd (by simp [fitting, hr]) hne
  | some room =>
    have hlt : room < bytes.length := by simp [fitting, hr] at hne; omega
    have hfit : s.fitting bytes.length = room := by simp [fitting, hr]; omega
    have hfit' : s.fitting (bytes ++ more).length = room := by simp [fitting, hr]; omega
    constructor
    · rw [h.accepted, hfit, hfit', List.take_append_of_le_length (Nat.le_of_lt hlt)]
    · rw [h.failure, if_neg hne, hfit', if_neg (by simp; omega)]
    · rw [h.room, hr, List.length_append]
      simp only [Option.map_some, Option.some.injEq]
      omega
    · exact h.refusal

theorem Takes.append {s : Sink} {bytes more : List UInt8} {w v : Written}
    (h : s.Takes bytes w) (hf : w.failure = none) (hv : w.sink.Takes more v) :
    s.Takes (bytes ++ more) { v with accepted := w.accepted ++ v.accepted } := by
  have he : s.fitting bytes.length = bytes.length := by
    have := h.failure
    rw [hf] at this
    split at this
    · assumption
    · cases this
  have hfit : s.fitting (bytes ++ more).length = bytes.length + w.sink.fitting more.length := by
    cases hr : s.room with
    | none => simp [fitting, h.room, hr]
    | some room => simp [fitting, hr] at he; simp [fitting, h.room, hr]; omega
  constructor
  · simp only [h.accepted, hv.accepted, hfit, he, List.take_length]
    rw [List.take_append, List.take_of_length_le (Nat.le_add_right _ _), Nat.add_sub_cancel_left]
  · rw [hfit, List.length_append]
    simp only [hv.failure, h.refusal, Nat.add_left_cancel_iff]
  · simp only [hv.room, h.room, List.length_append, Option.map_map]
    congr 1
    funext room
    exact Nat.sub_sub ..
  · exact hv.refusal.trans h.refusal

/-- **Pieces do not matter.** However a text is cut up for writing, the sink takes as much of it as
it would in one piece, and fails or not as it would then. -/
theorem takes_writePieces (s : Sink) (pieces : List (List UInt8)) :
    s.Takes pieces.flatten (s.writePieces pieces) := by
  induction pieces generalizing s with
  | nil => exact takes_nil s
  | cons piece pieces ih =>
    have hw := takes_writeAll s piece
    rw [List.flatten_cons, writePieces]
    cases hf : (s.writeAll piece).failure with
    | some reason =>
      simp only [Option.isSome_some, if_pos]
      exact hw.append_of_failure (by rw [hf]; rfl)
    | none =>
      simp only [Option.isSome_none, Bool.false_eq_true, if_false]
      exact hw.append hf (ih _)

/-! ## Lines -/

/-- Prints each text as a line of its own: its characters, and then a line feed. -/
def printLines (s : Sink) (lines : List Text) : Written :=
  s.writePieces (lines.flatMap fun line => [Text.utf8 line, Text.utf8 ['\n']])

theorem takes_printLines (s : Sink) (lines : List Text) :
    s.Takes (Text.utf8 (Text.unlines lines)) (s.printLines lines) := by
  have h : (lines.flatMap fun line => [Text.utf8 line, Text.utf8 ['\n']]).flatten =
      Text.utf8 (Text.unlines lines) := by
    induction lines with
    | nil => rfl
    | cons line lines ih => simp [ih, ← Text.utf8_append]
  rw [← h]
  exact takes_writePieces s _

/-! ## Sinks that accept everything -/

theorem fitting_of_open {s : Sink} (h : s.room = none) (size : Nat) : s.fitting size = size := by
  simp [fitting, h]

theorem Takes.accepted_of_open {s : Sink} {bytes : List UInt8} {w : Written} (h : s.Takes bytes w)
    (hs : s.room = none) : w.accepted = bytes := by
  rw [h.accepted, fitting_of_open hs, List.take_length]

end Sink

end RegisterConsole
