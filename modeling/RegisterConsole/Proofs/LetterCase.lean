import RegisterConsole.Proofs.Effects
import RegisterConsole.Proofs.Folding
import RegisterConsole.Proofs.LeadingWords
import RegisterConsole.Proofs.PrintedItems

/-!
# The case of letters in a session

Lines are typed in two sessions, the same but for the case of ASCII letters. The invariant that ties
the two is that they differ at most in sinks with the same room and the same refusal: a change of
case changes no number of bytes, so a sink is as full in one as in the other.

* `alike_journal`: events that are the same but for the case of their echoes have records of the
  same levels, and the same texts but for that;
* `Alike.answer`, `Alike.step`: a line and its like have the same answer but for the case of echoes,
  and keep the invariant;
* `case_never_matters`: so it is at every step of a run.
-/

namespace RegisterConsole

/-! ## What is told and printed, with its echoes folded -/

theorem Fault.message_fold (fault : Fault) :
    Text.fold fault.fold.message = Text.fold fault.message := by
  cases fault <;> simp [fold, message, Text.fold_append]

theorem Fault.shown_fold (fault : Fault) : fault.fold.shown = fault.shown.fold := by
  cases fault <;> rfl

/-- The event with its echoes folded. -/
def Event.fold : Event → Event
  | rejected name fault => rejected (Text.fold name) fault.fold
  | diagnosticLost fault reason => diagnosticLost fault.fold reason
  | e => e

/-- The item with its echo folded. -/
def Item.fold : Item → Item
  | table c => table c
  | diagnostic fault => diagnostic fault.fold

/-- The result with the words and the rest of the line in it folded. -/
def Session.Result.fold : Result → Result
  | unknown w => unknown (Text.fold w)
  | ran status rest => ran status (Text.fold rest)
  | r => r

namespace Event

theorem level_fold (e : Event) : e.fold.level = e.level := by cases e <;> rfl

theorem message_fold (e : Event) : Text.fold e.fold.message = Text.fold e.message := by
  cases e with
  | rejected name fault => simp [fold, message, Text.fold_append, Fault.message_fold]
  | diagnosticLost fault reason => simp [fold, message, Text.fold_append, Fault.message_fold]
  | _ => rfl

/-- The events of debug records echo no text, so they have no letters to change. -/
theorem fold_of_debug {e : Event} (h : e.level = .debug) : e.fold = e := by
  cases e with
  | showing ip => rfl
  | wrote r w => rfl
  | _ => cases h

end Event

theorem Item.sameFold_text {i j : Item} (h : i.fold = j.fold) : Text.SameFold i.text j.text := by
  have hf (i : Item) : Text.fold i.fold.text = Text.fold i.text := by
    cases i with
    | table c => rfl
    | diagnostic fault => simp [fold, text, lines, Text.fold_append, Fault.message_fold]
  rw [Text.SameFold, ← hf i, h, hf j]

/-- No case is echoed in a table. -/
theorem Item.eq_table_of_fold {c : Context} {i j : Option Item} (hi : i = some (.table c))
    (h : i.map fold = j.map fold) : j = some (.table c) := by
  subst hi
  cases j with
  | none => cases h
  | some j =>
    cases j with
    | table d => exact congrArg some (Option.some.inj h).symm
    | diagnostic fault => cases h

/-! ## Records -/

/-- The records are the same but for the case of letters, and just the same at the level of writes
and displays. -/
structure Record.Alike (r q : Record) : Prop where
  level : r.1 = q.1
  text : Text.SameFold r.2 q.2
  debug : r.1 = .debug → r.2 = q.2

theorem Event.alike_record {e f : Event} (h : e.fold = f.fold) :
    Record.Alike (e.level, e.message) (f.level, f.message) := by
  have hl : e.level = f.level := by rw [← level_fold e, h, level_fold f]
  refine ⟨hl, ?_, fun hd => ?_⟩
  · rw [Text.SameFold, ← message_fold e, h, message_fold f]
  · have he : e = f := by
      rw [← fold_of_debug hd, h, fold_of_debug (hl ▸ hd)]
    rw [he]

/-- Events that are the same but for their echoes have records that are. -/
theorem alike_journal (v : Verbosity) {es fs : List Event}
    (h : es.map Event.fold = fs.map Event.fold) :
    List.Forall₂ Record.Alike (journal v es) (journal v fs) := by
  have he : List.Forall₂ (fun e f => Event.fold e = Event.fold f) es fs := by
    rw [← List.forall₂_eq_eq_eq, List.forall₂_map_left_iff, List.forall₂_map_right_iff] at h
    exact h
  refine List.rel_map (fun e f hf => Event.alike_record hf) (List.rel_filter (fun e f hf => ?_) he)
  have hl : e.level = f.level := (Event.alike_record hf).level
  show v.keeps e.level = true ↔ v.keeps f.level = true
  rw [hl]

/-- Of any level there are the same records but for the case of letters. -/
theorem alike_filter {l m : List Record} (h : List.Forall₂ Record.Alike l m) (k : Level) :
    List.Forall₂ Record.Alike (l.filter fun r => r.1 = k) (m.filter fun r => r.1 = k) := by
  refine List.rel_filter (fun r q hr => ?_) h
  show decide (r.1 = k) = true ↔ decide (q.1 = k) = true
  rw [hr.level]

theorem debug_eq_of_alike {l m : List Record} (h : List.Forall₂ Record.Alike l m) :
    l.filter (fun r => r.1 = .debug) = m.filter fun r => r.1 = .debug := by
  have hd : ∀ r ∈ l.filter fun r => r.1 = .debug, r.1 = .debug := fun r hr =>
    of_decide_eq_true (List.mem_filter.mp hr).2
  have he := (List.forall₂_and_left _ _).mpr ⟨hd, alike_filter h .debug⟩
  rw [← List.forall₂_eq_eq_eq]
  exact he.imp fun r q hr => Prod.ext hr.2.level (hr.2.debug hr.1)

/-! ## Requests -/

namespace Request

theorem change_fold (q : Request) (c : Context) : q.fold.change c = q.change c := by
  cases q <;> rfl

theorem events_fold (o : Options) (c : Context) (failure : Option Text) (q : Request) :
    q.fold.events o c failure = (q.events o c failure).map Event.fold := by
  cases q with
  | display => cases failure <;> rfl
  | write r w =>
    simp only [fold, events]
    split <;> rfl
  | reject name fault => cases failure <;> rfl

theorem item?_fold (c : Context) (q : Request) : q.fold.item? c = (q.item? c).map Item.fold := by
  cases q with
  | reject name fault => exact congrArg (fun f => some (Item.diagnostic f)) fault.shown_fold
  | _ => rfl

end Request

namespace Session

/-- What a request prints is its item. -/
theorem printed_eq_item (s : Session) (q : Request) :
    s.printed q = (q.item? s.context).elim [] Item.text := by
  cases q with
  | reject name fault =>
    show Text.unlines [fault.message] = Text.unlines [fault.shown.message]
    rw [Fault.message_shown]
  | _ => rfl

/-! ## Answers -/

/-- What is printed for an item, if there is one. -/
def itemText (i : Option Item) : Text := i.elim [] Item.text

/-- The answers to two steps, which print the items `i` and `j`, are the same but for the case of
what is echoed in them. -/
structure SameButCase (v : Verbosity) (i j : Option Item) (a b : Answer) : Prop where
  context : a.context = b.context
  result : a.result.fold = b.result.fold
  items : i.map Item.fold = j.map Item.fold
  printed : ∃ n, a.output = (Text.utf8 (itemText i)).take n ∧
    b.output = (Text.utf8 (itemText j)).take n
  output : a.output.map Text.foldByte = b.output.map Text.foldByte
  length : a.output.length = b.output.length
  table : ∀ c, i = some (.table c) → a.output = b.output
  events : ∃ es fs, es.map Event.fold = fs.map Event.fold ∧ a.log = journal v es ∧
    b.log = journal v fs
  records : List.Forall₂ Record.Alike a.log b.log
  debug : a.log.filter (fun r => r.1 = .debug) = b.log.filter fun r => r.1 = .debug
  errors : (errors a.log).length = (errors b.log).length

theorem sameFold_itemText {i j : Option Item} (h : i.map Item.fold = j.map Item.fold) :
    Text.SameFold (itemText i) (itemText j) := by
  cases i with
  | none =>
    obtain rfl := Option.map_eq_none_iff.mp h.symm
    rfl
  | some i =>
    cases j with
    | none => cases h
    | some j => exact Item.sameFold_text (Option.some.inj h)

/-- Answers are the same but for case, where their items and their events are. -/
theorem sameButCase_of_events {v : Verbosity} {i j : Option Item} {a b : Answer} (n : Nat)
    (es fs : List Event) (hc : a.context = b.context) (hr : a.result.fold = b.result.fold)
    (hi : i.map Item.fold = j.map Item.fold) (ha : a.output = (Text.utf8 (itemText i)).take n)
    (hb : b.output = (Text.utf8 (itemText j)).take n)
    (he : es.map Event.fold = fs.map Event.fold) (hla : a.log = journal v es)
    (hlb : b.log = journal v fs) : SameButCase v i j a b := by
  have ho : a.output.map Text.foldByte = b.output.map Text.foldByte := by
    rw [ha, hb, List.map_take, List.map_take, (sameFold_itemText hi).map_foldByte]
  have hrec : List.Forall₂ Record.Alike a.log b.log := by
    rw [hla, hlb]
    exact alike_journal v he
  refine ⟨hc, hr, hi, ⟨n, ha, hb⟩, ho, ?_, fun c ht => ?_, ⟨es, fs, he, hla, hlb⟩, hrec,
    debug_eq_of_alike hrec, (alike_filter hrec .error).length_eq⟩
  · have hl := congrArg List.length ho
    rwa [List.length_map, List.length_map] at hl
  · rw [ha, hb, ht, Item.eq_table_of_fold ht hi]

end Session

/-! ## Sinks that cannot be told apart -/

/-- The sinks have the same room and the same refusal. -/
structure Sink.Alike (s k : Sink) : Prop where
  room : s.room = k.room
  refusal : s.refusal = k.refusal

namespace Sink.Alike

variable {s k : Sink} (h : s.Alike k)
include h

theorem fitting (n : Nat) : s.fitting n = k.fitting n := by
  rw [Sink.fitting, Sink.fitting, h.room]

theorem failure?_eq {t u : Text} (hl : (Text.utf8 t).length = (Text.utf8 u).length) :
    s.failure? t = k.failure? u := by
  rw [failure?, failure?, h.fitting, hl, h.refusal]

/-- Sinks that cannot be told apart cannot after they took the same number of bytes. -/
theorem printLines {lines lines' : List Text}
    (hl : (Text.utf8 (Text.unlines lines)).length = (Text.utf8 (Text.unlines lines')).length) :
    (s.printLines lines).sink.Alike (k.printLines lines').sink := by
  have hs := s.takes_printLines lines
  have hk := k.takes_printLines lines'
  constructor
  · rw [hs.room, hk.room, h.room, hl]
  · rw [hs.refusal, hk.refusal, h.refusal]

end Sink.Alike

namespace Session

/-! ## One line -/

/-- The sessions differ at most in sinks that cannot be told apart. -/
structure Alike (s t : Session) : Prop where
  same : t = { s with sink := t.sink }
  sink : s.sink.Alike t.sink

theorem Alike.refl (s : Session) : s.Alike s := ⟨rfl, rfl, rfl⟩

theorem request?_sameFold (p : Policy) {x y : Text} (h : Text.SameFold x y) :
    ((Step.line x).request? p).map Request.fold = ((Step.line y).request? p).map Request.fold := by
  rw [← request?_fold, h, request?_fold]

theorem rest_sameFold {x y : Text} (h : Text.SameFold x y) :
    Text.SameFold (Step.line x).rest (Step.line y).rest := by
  have hr (t : Text) : Text.fold (Step.line t).rest = (Step.line (Text.fold t)).rest :=
    (congrArg Cursor.rest (Cursor.skip_fold 3 ⟨t⟩)).symm
  rw [Text.SameFold, hr, h, hr]

theorem idleResult_sameFold {x y : Text} (h : Text.SameFold x y) :
    (Step.idleResult x).fold = (Step.idleResult y).fold := by
  have hf (t : Text) : (Step.idleResult t).fold = Step.idleResult (Text.fold t) := by
    rw [idleResult_eq, idleResult_eq, words_line_fold, List.head?_map]
    cases (Cursor.words ⟨t⟩).head? <;> rfl
  rw [hf, h, hf]

theorem item?_line (s : Session) (text : Text) :
    s.item? (.line text) =
      ((Step.line text).request? s.options.policy).bind (Request.item? s.context) :=
  if_neg nofun

variable {s t : Session}

theorem Alike.exists_sink (h : s.Alike t) : ∃ k, s.sink.Alike k ∧ t = { s with sink := k } :=
  ⟨t.sink, h.sink, h.same⟩

/-- Requests that are the same but for what they echo print texts that are. -/
theorem sameFold_printed {q q' : Request} (hq : q.fold = q'.fold) :
    Text.SameFold (s.printed q) (s.printed q') := by
  rw [printed_eq_item, printed_eq_item]
  apply sameFold_itemText
  rw [← Request.item?_fold, hq, Request.item?_fold]

/-- Requests that are the same but for what they echo are answered alike. -/
theorem Alike.carryOut_answer (h : s.Alike t) {q q' : Request} (hq : q.fold = q'.fold)
    {rest rest' : Text} (hr : Text.SameFold rest rest') :
    SameButCase s.verbosity (q.item? s.context) (q'.item? t.context) (s.carryOut q rest).2
      (t.carryOut q' rest').2 := by
  obtain ⟨k, hk, rfl⟩ := h.exists_sink
  -- as many bytes in either case, so both sinks cut what is printed in one place
  have hl := (sameFold_printed (s := s) hq).length_utf8
  have hf : s.sink.failure? (s.printed q) = k.failure? (s.printed q') := hk.failure?_eq hl
  rw [answer_carryOut, answer_carryOut]
  refine sameButCase_of_events (s.sink.fitting (Text.utf8 (s.printed q)).length) _ _
    ?_ (congrArg (Result.ran .proceed) hr) ?_ ?_ ?_ ?_ rfl rfl
  · exact (q.change_fold s.context).symm.trans (hq ▸ q'.change_fold s.context)
  · rw [← Request.item?_fold, hq, Request.item?_fold]
  · rw [Sink.accepts, printed_eq_item]
    rfl
  · rw [hl, hk.fitting]
    show k.accepts (s.printed q') = _
    rw [Sink.accepts, printed_eq_item]
    rfl
  · show (q.events s.options s.context _).map _ = (q'.events s.options s.context
      (k.failure? (s.printed q'))).map _
    rw [← Request.events_fold, hq, hf, Request.events_fold]

/-- Sessions that are alike stay so where they carry out such requests. -/
theorem Alike.carryOut_session (h : s.Alike t) {q q' : Request} (hq : q.fold = q'.fold)
    (rest rest' : Text) : (s.carryOut q rest).1.Alike (t.carryOut q' rest').1 := by
  obtain ⟨k, hk, rfl⟩ := h.exists_sink
  have hc : q'.change s.context = q.change s.context :=
    (q'.change_fold s.context).symm.trans (hq ▸ q.change_fold s.context)
  rw [session_carryOut, session_carryOut]
  refine ⟨?_, hk.printLines (sameFold_printed hq).length_utf8⟩
  rw [← hc]

/-- A line and its like ask alike sessions for the same, but for what is echoed, or for nothing. -/
theorem Alike.request? (h : s.Alike t) {x y : Text} (hxy : Text.SameFold x y) :
    ((Step.line x).request? s.options.policy = none ∧
        (Step.line y).request? t.options.policy = none) ∨
      ∃ q q', (Step.line x).request? s.options.policy = some q ∧
        (Step.line y).request? t.options.policy = some q' ∧ q.fold = q'.fold := by
  obtain ⟨k, _, rfl⟩ := h.exists_sink
  have hm := request?_sameFold s.options.policy hxy
  cases hx : (Step.line x).request? s.options.policy with
  | none =>
    rw [hx] at hm
    exact Or.inl ⟨rfl, Option.map_eq_none_iff.mp hm.symm⟩
  | some q =>
    rw [hx] at hm
    obtain ⟨q', hy, hq⟩ := Option.map_eq_some_iff.mp hm.symm
    exact Or.inr ⟨q, q', rfl, hy, hq.symm⟩

/-- **A line and its like have the same answer**, but for the case of what is echoed in it. -/
theorem Alike.answer (h : s.Alike t) {x y : Text} (hxy : Text.SameFold x y) :
    SameButCase s.verbosity (s.item? (.line x)) (t.item? (.line y)) (s.step (.line x)).2
      (t.step (.line y)).2 := by
  rcases h.request? hxy with ⟨hx, hy⟩ | ⟨q, q', hx, hy, hq⟩
  · rw [item?_line, item?_line, step_line_of_no_request hx, step_line_of_no_request hy, hx, hy]
    obtain ⟨k, _, rfl⟩ := h.exists_sink
    exact sameButCase_of_events 0 [] [] rfl (idleResult_sameFold hxy) rfl rfl rfl rfl rfl rfl
  · rw [item?_line, item?_line, step_of_request hx, step_of_request hy, hx, hy]
    exact h.carryOut_answer hq (rest_sameFold hxy)

/-- **Alike sessions stay alike** after a line and its like. -/
theorem Alike.step (h : s.Alike t) {x y : Text} (hxy : Text.SameFold x y) :
    (s.step (.line x)).1.Alike (t.step (.line y)).1 := by
  rcases h.request? hxy with ⟨hx, hy⟩ | ⟨q, q', hx, hy, hq⟩
  · rw [step_line_of_no_request hx, step_line_of_no_request hy]
    exact h
  · rw [step_of_request hx, step_of_request hy]
    exact h.carryOut_session hq _ _

/-! ## Runs -/

theorem Alike.after {xs ys : List Text} (h : s.Alike t) (hxy : List.Forall₂ Text.SameFold xs ys) :
    (s.after (xs.map Step.line)).Alike (t.after (ys.map Step.line)) := by
  induction hxy generalizing s t with
  | nil => exact h
  | cons hx _ ih => exact ih (h.step hx)

/-- **Case never matters to what a session does.** Where lines are typed that differ at most in the
case of ASCII letters, each has the same answer as its like, but for the case of what is echoed. -/
theorem case_never_matters (s : Session) {xs ys : List Text}
    (h : List.Forall₂ Text.SameFold xs ys) :
    (s.answers (xs.map Step.line)).length = (s.answers (ys.map Step.line)).length ∧
      ∀ (i : Nat) (x y : Text) (a b : Answer), xs[i]? = some x → ys[i]? = some y →
        (s.answers (xs.map Step.line))[i]? = some a →
        (s.answers (ys.map Step.line))[i]? = some b →
          SameButCase s.verbosity ((s.after ((xs.take i).map Step.line)).item? (.line x))
            ((s.after ((ys.take i).map Step.line)).item? (.line y)) a b := by
  refine ⟨?_, fun i x y a b hx hy ha hb => ?_⟩
  · rw [length_answers, length_answers, List.length_map, List.length_map, h.length_eq]
  · rw [getElem?_answers, List.getElem?_map, hx, ← List.map_take] at ha
    rw [getElem?_answers, List.getElem?_map, hy, ← List.map_take] at hb
    obtain rfl := Option.some.inj ha
    obtain rfl := Option.some.inj hb
    have hi := (Alike.refl s).after (List.forall₂_take i h)
    have hl : Text.SameFold x y := by
      obtain ⟨hn, rfl⟩ := List.getElem?_eq_some_iff.mp hx
      obtain ⟨hm, rfl⟩ := List.getElem?_eq_some_iff.mp hy
      exact h.get hn hm
    rw [← verbosity_after s ((xs.take i).map Step.line)]
    exact hi.answer hl

/-- A write, a name that is unknown and no command, typed in two ways on a sink that runs full. -/
theorem case_never_matters_on_full_sink :
    let s : Session := { sink := { room := some 20 } }
    let xs : List Text := [.ofString "r R1 0XAB", .ofString "r Foo 1", .ofString "Dump"]
    let ys : List Text := [.ofString "R r1 0xaB", .ofString "r fOO 1", .ofString "dUMP"]
    List.Forall₂ Text.SameFold xs ys ∧ xs ≠ ys ∧
      ∃ a b, (s.answers (xs.map Step.line))[1]? = some a ∧
        (s.answers (ys.map Step.line))[1]? = some b ∧
          SameButCase s.verbosity ((s.after ((xs.take 1).map Step.line)).item? (.line xs[1]))
            ((s.after ((ys.take 1).map Step.line)).item? (.line ys[1])) a b := by
  intro s xs ys
  have h : List.Forall₂ Text.SameFold xs ys :=
    .cons (by decide) (.cons (by decide) (.cons (by decide) .nil))
  exact ⟨h, by decide, _, _, rfl, rfl, (case_never_matters s h).2 1 _ _ _ _ rfl rfl rfl rfl⟩

end Session

end RegisterConsole
