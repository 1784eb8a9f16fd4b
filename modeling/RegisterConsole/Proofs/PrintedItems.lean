import RegisterConsole.Proofs.Restore
import RegisterConsole.Proofs.Truncation

/-!
# Reading printed output back

On a sink that accepts everything a session prints items: tables, each with all words of a context,
and diagnostics, each with its kind of fault and the word it echoes. Where lines are typed the echo
is a word, so it has no line feed, and no item can be taken for another or for the front of another.

* `text_append_inj`: an item at the front of a text can be read in one way only;
* `texts_injective`: so the items can be told from their texts one after the other;
* `output_eq_texts`: the output of a session is the texts of its items;
* `output_determines_items`: sessions with the same output have printed the same items.
-/

namespace RegisterConsole

/-! ## Items -/

/-- The fault without the cause behind it, which its message does not tell. -/
def Fault.shown : Fault → Fault
  | numberTooLarge text => malformedNumber text
  | fault => fault

theorem Fault.message_shown (fault : Fault) : fault.shown.message = fault.message := by
  cases fault <;> rfl

inductive Item where
  /-- The table of a context. -/
  | table (c : Context)
  /-- The message of a fault. -/
  | diagnostic (fault : Fault)
  deriving DecidableEq, Repr

namespace Item

def lines : Item → List Text
  | table c => c.table
  | diagnostic fault => [fault.message]

/-- The number of lines that an item takes. -/
def height : Item → Nat
  | table _ => 6
  | diagnostic _ => 1

def text (item : Item) : Text := Text.unlines item.lines

theorem length_lines (item : Item) : item.lines.length = item.height := by
  cases item <;> rfl

end Item

/-! ## Legible faults -/

/-- The faults that a typed line can have, as they are shown: their echoes have no line feed. -/
def Fault.Legible : Fault → Prop
  | missingValue => True
  | unknownRegister name => '\n' ∉ name
  | malformedNumber text => '\n' ∉ text
  | _ => False

theorem Fault.newline_notMem_message {fault : Fault} (h : fault.Legible) :
    '\n' ∉ fault.message := by
  cases fault with
  | missingValue => decide
  | unknownRegister name => simpa [message, Text.ofString, Legible] using h
  | malformedNumber text => simpa [message, Text.ofString, Legible] using h
  | _ => exact h.elim

/-- Legible faults have different messages. -/
theorem Fault.message_injective {f g : Fault} (hf : f.Legible) (hg : g.Legible)
    (h : f.message = g.message) : f = g := by
  cases f <;> cases g <;> simp_all [Legible, message, Text.ofString]

/-- The item is a table, or a diagnostic of a legible fault. -/
def Item.Legible : Item → Prop
  | table _ => True
  | diagnostic fault => fault.Legible

theorem Cursor.newline_notMem_of_isWord {w : Text} (h : IsWord w) : '\n' ∉ w := by
  intro hn
  have hi := h.2 _ hn
  rw [Text.isInk, Text.isBlank_newline] at hi
  cases hi

theorem Context.newline_notMem_of_mem_table {c : Context} {line : Text} (h : line ∈ c.table) :
    '\n' ∉ line := by
  have hn (r : Register) : '\n' ∉ r.name := Cursor.newline_notMem_of_isWord r.isWord_name
  have hw (w : Word) : '\n' ∉ w.text := Cursor.newline_notMem_of_isWord w.isWord_text
  have hf (r : Register) : '\n' ∉ c.field r := by simp [field, Text.ofString, hn, hw]
  simp only [table, tableRows, List.map_cons, List.map_nil, List.mem_cons, List.not_mem_nil,
    or_false] at h
  rcases h with rfl | rfl | rfl | rfl | rfl | rfl <;> simp [row, List.intercalate, hf]

/-- Every item is made of lines without line feeds. -/
theorem Item.newline_notMem_of_mem_lines {item : Item} (h : item.Legible) {line : Text}
    (hl : line ∈ item.lines) : '\n' ∉ line := by
  cases item with
  | table c => exact Context.newline_notMem_of_mem_table hl
  | diagnostic fault =>
    rw [List.mem_singleton.mp hl]
    exact Fault.newline_notMem_message h

/-! ## Reading items -/

/-- A line ends at the first line feed. -/
theorem Text.append_newline_inj {x y t u : Text} (hx : '\n' ∉ x) (hy : '\n' ∉ y)
    (h : x ++ '\n' :: t = y ++ '\n' :: u) : x = y ∧ t = u := by
  induction x generalizing y with
  | nil =>
    cases y with
    | nil => exact ⟨rfl, (List.cons.inj h).2⟩
    | cons b y => exact absurd ((List.cons.inj h).1 ▸ List.mem_cons_self) hy
  | cons a x ih =>
    cases y with
    | nil => exact absurd ((List.cons.inj h).1 ▸ List.mem_cons_self) hx
    | cons b y =>
      obtain ⟨rfl, hr⟩ := List.cons.inj h
      obtain ⟨rfl, ht⟩ := ih (List.not_mem_of_not_mem_cons hx) (List.not_mem_of_not_mem_cons hy) hr
      exact ⟨rfl, ht⟩

theorem Context.length_tableText (c d : Context) : c.tableText.length = d.tableText.length := by
  have hl (e : Context) : e.tableText.length =
      ((Register.all.map fun r => (lead r).length + (r.name.length + 22)).sum + 1) := by
    simp [tableText_eq, List.length_flatMap]
  rw [hl, hl]

theorem Context.tableText_eq_cons (c : Context) : ∃ t, c.tableText = ' ' :: t := ⟨_, rfl⟩

theorem Fault.message_eq_cons {fault : Fault} (h : fault.Legible) :
    ∃ t, fault.message = 'I' :: t := by
  cases fault with
  | missingValue => exact ⟨_, rfl⟩
  | unknownRegister name => exact ⟨_, rfl⟩
  | malformedNumber text => exact ⟨_, rfl⟩
  | _ => exact h.elim

namespace Item

theorem text_table (c : Context) : (table c).text = c.tableText := rfl

theorem text_diagnostic_append (fault : Fault) (t : Text) :
    (diagnostic fault).text ++ t = fault.message ++ '\n' :: t := by
  simp [text, lines, Text.unlines]

/-- No table begins as a diagnostic does. -/
theorem table_append_ne {c : Context} {fault : Fault} (h : fault.Legible) (t u : Text) :
    (table c).text ++ t ≠ (diagnostic fault).text ++ u := by
  obtain ⟨v, hv⟩ := c.tableText_eq_cons
  obtain ⟨w, hw⟩ := Fault.message_eq_cons h
  rw [text_table, text_diagnostic_append, hv, hw, List.cons_append, List.cons_append]
  intro e
  exact absurd (List.cons.inj e).1 (by decide)

/-- An item at the front of a text can be read in one way only. -/
theorem text_append_inj {a b : Item} (ha : a.Legible) (hb : b.Legible) {t u : Text}
    (h : a.text ++ t = b.text ++ u) : a = b ∧ t = u := by
  cases a with
  | table c =>
    cases b with
    | table d =>
      -- a table has no mark of its end, but all tables have the same length
      obtain ⟨hc, ht⟩ := List.append_inj h (Context.length_tableText c d)
      exact ⟨congrArg table (Context.tableText_injective hc), ht⟩
    | diagnostic g => exact absurd h (table_append_ne hb t u)
  | diagnostic f =>
    cases b with
    | table d => exact absurd h.symm (table_append_ne ha u t)
    | diagnostic g =>
      rw [text_diagnostic_append, text_diagnostic_append] at h
      obtain ⟨hm, ht⟩ := Text.append_newline_inj (Fault.newline_notMem_message ha)
        (Fault.newline_notMem_message hb) h
      exact ⟨congrArg diagnostic (Fault.message_injective ha hb hm), ht⟩

theorem text_ne_nil {a : Item} (h : a.Legible) : a.text ≠ [] := by
  cases a with
  | table c =>
    obtain ⟨t, ht⟩ := c.tableText_eq_cons
    rw [text_table, ht]
    exact List.cons_ne_nil _ _
  | diagnostic fault => simp [text, lines]

/-- Items can be told from their texts one after the other. -/
theorem texts_injective {as bs : List Item} (ha : ∀ a ∈ as, a.Legible) (hb : ∀ b ∈ bs, b.Legible)
    (h : as.flatMap text = bs.flatMap text) : as = bs := by
  induction as generalizing bs with
  | nil =>
    cases bs with
    | nil => rfl
    | cons b bs =>
      rw [List.flatMap_nil, List.flatMap_cons] at h
      have hn := (List.append_eq_nil_iff.mp h.symm).1
      exact absurd hn (text_ne_nil (hb b List.mem_cons_self))
  | cons a as ih =>
    obtain ⟨ha, has⟩ := List.forall_mem_cons.mp ha
    cases bs with
    | nil =>
      rw [List.flatMap_nil, List.flatMap_cons] at h
      exact absurd (List.append_eq_nil_iff.mp h).1 (text_ne_nil ha)
    | cons b bs =>
      obtain ⟨hb, hbs⟩ := List.forall_mem_cons.mp hb
      rw [List.flatMap_cons, List.flatMap_cons] at h
      obtain ⟨rfl, ht⟩ := text_append_inj ha hb h
      rw [ih has hbs ht]

end Item

/-! ## What a request prints -/

/-- An open sink takes what is printed to it, and stays open. -/
theorem Effect.printed_of_open (c : Context) {s : Sink} (hs : s.room = none) (lines : List Text)
    (e : Event) (lost : Text → Event) :
    (printed c s lines e lost).output = Text.utf8 (Text.unlines lines) ∧
      (printed c s lines e lost).sink.room = none := by
  have ht := s.takes_printLines lines
  constructor
  · exact ht.accepted_of_open hs
  · exact ht.room.trans (by rw [hs]; rfl)

namespace Request

/-- The item that a request prints. -/
def item? (c : Context) : Request → Option Item
  | display => some (.table c)
  | write .. => none
  | reject _ fault => some (.diagnostic fault.shown)

theorem output_run (o : Options) (c : Context) {s : Sink} (hs : s.room = none) (q : Request) :
    (q.run o c s).output = Text.utf8 ((q.item? c).elim [] Item.text) ∧
      (q.run o c s).sink.room = none := by
  cases q with
  | display => exact Effect.printed_of_open c hs c.table _ _
  | write r w => exact ⟨rfl, hs⟩
  | reject name fault =>
    obtain ⟨ho, hr⟩ := Effect.printed_of_open c hs [fault.message] (.rejected name fault)
      (.diagnosticLost fault)
    rw [run_reject]
    refine ⟨?_, hr⟩
    rw [ho, ← Fault.message_shown]
    rfl

/-- A request is refused for the want of a value, for the word it was given, or for its name. -/
theorem ofWord_eq_reject {p : Policy} {name told : Text} {word? : Option Text} {fault : Fault}
    (h : ofWord p name word? = .reject told fault) :
    fault = .missingValue ∨
      (∃ word, word? = some word ∧ (fault = .malformedNumber word ∨ fault = .numberTooLarge word)) ∨
      fault = .unknownRegister name := by
  cases word? with
  | none => exact Or.inl (Request.reject.inj h).2.symm
  | some word =>
    right
    simp only [ofWord] at h
    split at h
    · next f hf =>
      obtain rfl := (Request.reject.inj h).2
      exact Or.inl ⟨word, rfl, Value.read_eq_error hf⟩
    · split at h
      · next f hf =>
        obtain rfl := (Request.reject.inj h).2
        exact Or.inr (Register.resolve_eq_error_iff.mp hf).2
      · cases h

end Request

namespace Session

/-! ## What a step prints -/

/-- The item that a step prints. -/
def item? (s : Session) (x : Step) : Option Item :=
  if x = .dump then some (.table s.context)
  else (x.request? s.options.policy).bind (Request.item? s.context)

/-- A step prints its item, and leaves an open sink open. -/
theorem output_step {s : Session} (hs : s.sink.room = none) {x : Step} (hx : ∀ k, x ≠ .sink k) :
    (s.step x).2.output = Text.utf8 ((s.item? x).elim [] Item.text) ∧
      (s.step x).1.sink.room = none := by
  by_cases hd : x = .dump
  · subst hd
    refine ⟨output_dump s hs, ?_⟩
    have ht := s.sink.takes_printLines s.context.table
    exact ht.room.trans (by rw [hs]; rfl)
  · rw [item?, if_neg hd]
    cases hq : x.request? s.options.policy with
    | some q =>
      rw [step_of_request hq]
      exact Request.output_run s.options s.context hs q
    | none =>
      obtain ⟨hsame, ho, _⟩ := step_quiet hq hd hx
      rw [ho]
      refine ⟨rfl, ?_⟩
      rw [congrArg (fun r => r.1.sink) (hsame s.sink)]
      exact hs

/-- The steps of a console session proper. -/
def Step.LineOrDump : Step → Prop
  | .line _ | .dump => True
  | _ => False

theorem ne_sink_of_lineOrDump {x : Step} (hx : x.LineOrDump) : ∀ k, x ≠ .sink k := by
  rintro k rfl
  exact hx

/-- The fault of a typed line echoes a word of it, if anything. -/
theorem legible_of_request?_line {p : Policy} {text name : Text} {fault : Fault}
    (h : (Step.line text).request? p = some (.reject name fault)) : fault.shown.Legible := by
  rw [request?_line] at h
  have hw : ∀ w ∈ Cursor.words ⟨text⟩, '\n' ∉ w := fun w hw =>
    Cursor.newline_notMem_of_isWord (Cursor.isWord_of_mem_words hw)
  match hc : Cursor.words ⟨text⟩ with
  | [] =>
    rw [hc] at h
    cases h
  | command :: words =>
    rw [hc, Request.ofLine?] at h
    rw [hc] at hw
    split at h
    · cases words with
      | nil => cases h
      | cons name words =>
        rcases Request.ofWord_eq_reject (Option.some.inj h) with rfl | ⟨word, hm, hf⟩ | rfl
        · trivial
        · have hn : '\n' ∉ word := hw word
            (List.mem_cons_of_mem _ (List.mem_cons_of_mem _ (List.mem_of_mem_head? hm)))
          rcases hf with rfl | rfl
          · exact hn
          · exact hn
        · exact hw name (List.mem_cons_of_mem _ List.mem_cons_self)
    · cases h

theorem legible_of_item? {s : Session} {x : Step} (hx : x.LineOrDump) {item : Item}
    (h : s.item? x = some item) : item.Legible := by
  cases x with
  | dump =>
    obtain rfl := Option.some.inj h
    trivial
  | line text =>
    rw [item?, if_neg nofun, Option.bind_eq_some_iff] at h
    obtain ⟨q, hq, hi⟩ := h
    cases q with
    | display =>
      obtain rfl := Option.some.inj hi
      trivial
    | write r w => cases hi
    | reject name fault =>
      obtain rfl := Option.some.inj hi
      exact legible_of_request?_line hq
  | _ => exact hx.elim

/-! ## Runs -/

/-- The items that are printed over some steps. -/
def items (s : Session) : List Step → List Item
  | [] => []
  | x :: xs => (s.item? x).toList ++ (s.step x).1.items xs

theorem legible_of_mem_items {s : Session} {xs : List Step} (hx : ∀ x ∈ xs, x.LineOrDump) :
    ∀ item ∈ s.items xs, item.Legible := by
  induction xs generalizing s with
  | nil => exact nofun
  | cons x xs ih =>
    obtain ⟨hd, hxs⟩ := List.forall_mem_cons.mp hx
    intro item hi
    rcases List.mem_append.mp hi with hi | hi
    · exact legible_of_item? hd (Option.mem_toList.mp hi)
    · exact ih hxs item hi

/-- The output of a session is the texts of its items. -/
theorem output_eq_texts {s : Session} (hs : s.sink.room = none) {xs : List Step}
    (hx : ∀ x ∈ xs, ∀ k, x ≠ .sink k) :
    s.output xs = Text.utf8 ((s.items xs).flatMap Item.text) := by
  induction xs generalizing s with
  | nil => rfl
  | cons x xs ih =>
    obtain ⟨hd, hxs⟩ := List.forall_mem_cons.mp hx
    obtain ⟨ho, hn⟩ := output_step hs hd
    have hr := ih hn hxs
    simp only [output, answers, List.flatMap_cons] at hr ⊢
    rw [ho, hr, items, List.flatMap_append, Text.utf8_append]
    cases s.item? x <;> simp

theorem room_after {s : Session} (hs : s.sink.room = none) {xs : List Step}
    (hx : ∀ x ∈ xs, ∀ k, x ≠ .sink k) : (s.after xs).sink.room = none := by
  induction xs generalizing s with
  | nil => exact hs
  | cons x xs ih =>
    obtain ⟨hd, hxs⟩ := List.forall_mem_cons.mp hx
    exact ih (output_step hs hd).2 hxs

/-- **Output can be read in one way only.** Where lines are typed and tables are asked for on sinks
that accept everything, sessions with the same output have printed the same tables, with the same
words in them, and the same diagnostics, with the same kinds of fault and the same echoes. A step
that prints at all prints the text of its item, in one line for a diagnostic and six for a table. -/
theorem output_determines_items (s t : Session) (xs ys : List Step) (hs : s.sink.room = none)
    (ht : t.sink.room = none) (hx : ∀ x ∈ xs, x.LineOrDump) (hy : ∀ y ∈ ys, y.LineOrDump) :
    (s.output xs = t.output ys → s.items xs = t.items ys) ∧
      ∀ (i : Nat) x a, xs[i]? = some x → (s.answers xs)[i]? = some a →
        ((s.after (xs.take i)).item? x = none → a.output = []) ∧
          ∀ item, (s.after (xs.take i)).item? x = some item →
            a.output = Text.utf8 item.text ∧ item.lines.length = item.height ∧
              ∀ line ∈ item.lines, '\n' ∉ line := by
  have hxs : ∀ x ∈ xs, ∀ k, x ≠ .sink k := fun x h => ne_sink_of_lineOrDump (hx x h)
  have hys : ∀ y ∈ ys, ∀ k, y ≠ .sink k := fun y h => ne_sink_of_lineOrDump (hy y h)
  constructor
  · intro h
    rw [output_eq_texts hs hxs, output_eq_texts ht hys] at h
    exact Item.texts_injective (legible_of_mem_items hx) (legible_of_mem_items hy)
      (Text.utf8_injective h)
  · intro i x a hi ha
    have hm : x ∈ xs := List.mem_of_getElem? hi
    have hr : (s.after (xs.take i)).sink.room = none :=
      room_after hs fun y h => hxs y (List.mem_of_mem_take h)
    rw [getElem?_answers, hi, Option.map_some, Option.some.injEq] at ha
    have ho := (output_step hr (hxs x hm)).1
    rw [ha] at ho
    constructor
    · intro hn
      rw [ho, hn]
      rfl
    · intro item hitem
      refine ⟨?_, item.length_lines, fun line => ?_⟩
      · rw [ho, hitem]
        rfl
      · exact Item.newline_notMem_of_mem_lines (legible_of_item? (hx x hm) hitem)

/-- Two faults and a table, printed in a session with other lines, options and journal. The first
line prints its fault, and a line that reaches no command prints nothing. -/
theorem output_determines_items_of_other_lines :
    let s : Session := { context := { ip := 0x4000 } }
    let t : Session := { context := { ip := 0x4000 }, options := { logWrites := false },
                         sink := { interrupts := true }, verbosity := none }
    let xs : List Step := [.line (.ofString "r Foo 5"), .line (.ofString "r R1 zz"), .dump]
    let ys : List Step := [.line (.ofString "R\tFoo 6 7"), .line (.ofString "stop"),
      .line (.ofString "r ip zz"), .line (.ofString " r")]
    s.sink.room = none ∧ t.sink.room = none ∧ (∀ x ∈ xs, x.LineOrDump) ∧
      (∀ y ∈ ys, y.LineOrDump) ∧ s.output xs = t.output ys ∧ s.items xs = t.items ys ∧
      (∃ a, (s.answers xs)[0]? = some a ∧
        a.output = Text.utf8 (Item.diagnostic (.unknownRegister (.ofString "Foo"))).text) ∧
      ∃ b, (t.answers ys)[1]? = some b ∧ b.output = [] := by
  intro s t xs ys
  have hx : ∀ x ∈ xs, x.LineOrDump := by simp [xs, Step.LineOrDump]
  have hy : ∀ y ∈ ys, y.LineOrDump := by simp [ys, Step.LineOrDump]
  have ho : s.output xs = t.output ys := by decide +kernel
  obtain ⟨same, printed⟩ := output_determines_items s t xs ys rfl rfl hx hy
  have foo := (printed 0 _ _ rfl rfl).2 (.diagnostic (.unknownRegister (.ofString "Foo")))
    (by decide +kernel)
  have stop := ((output_determines_items t s ys xs rfl rfl hy hx).2 1 _ _ rfl rfl).1
    (by decide +kernel)
  exact ⟨rfl, rfl, hx, hy, ho, same ho, ⟨_, rfl, foo.1⟩, _, rfl, stop⟩

end Session

end RegisterConsole
