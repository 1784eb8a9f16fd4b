import RegisterConsole.Text

/-!
The eleven registers of the machine, their names, and the look-up of a register by a name in either
case. Names are told from one table and looked up in it, and each stands there in the place of its
register (`getElem?_table`).
-/

namespace RegisterConsole

inductive Register where
  | r0 | r1 | r2 | r3 | r4 | r5 | r6 | r7
  | flags
  | controlFlags
  | ip
  deriving DecidableEq, Repr

namespace Register

/-- Every register with its name, in the order of a context image. -/
def table : List (Register × Text) :=
  [(r0, .ofString "R0"), (r1, .ofString "R1"), (r2, .ofString "R2"), (r3, .ofString "R3"),
    (r4, .ofString "R4"), (r5, .ofString "R5"), (r6, .ofString "R6"), (r7, .ofString "R7"),
    (flags, .ofString "Flags"), (controlFlags, .ofString "ControlFlags"), (ip, .ofString "Ip")]

/-- The registers, in the order of a context image. -/
def all : List Register := table.map Prod.fst

/-- The place of a register in the order in which they are declared. -/
def index (r : Register) : Nat := r.ctorIdx

theorem index_lt (r : Register) : r.index < all.length := by cases r <;> decide

/-- The name that stands in the place of the register. -/
def name (r : Register) : Text := (table.get ⟨r.index, r.index_lt⟩).2

/-- The register of the first entry whose name is `word` up to the case of ASCII letters. -/
def findIn? (entries : List (Register × Text)) (word : Text) : Option Register :=
  (entries.find? fun e => Text.SameFold e.2 word).map Prod.fst

/-- The register that `word` means, if it means one. -/
def find? (word : Text) : Option Register := findIn? table word

/-- The register that is called exactly so. -/
def ofName? (name : Text) : Option Register := all.find? fun r => r.name = name

@[simp] theorem ofName?_name (r : Register) : ofName? r.name = some r := by cases r <;> decide

@[simp] theorem mem_all (r : Register) : r ∈ all := by cases r <;> decide

theorem blank_ne_of_mem_name {r : Register} {c : Char} (h : c ∈ r.name) : ' ' ≠ c := by
  have hn : ' ' ∉ r.name := by cases r <;> decide
  rintro rfl
  exact hn h

theorem decide_ne_blank_of_mem_name {r : Register} : ∀ c ∈ r.name, decide (c ≠ ' ') = true := by
  intro c h
  exact decide_eq_true (blank_ne_of_mem_name h).symm

/-- A name ends at the first blank behind it. -/
theorem takeWhile_name_append (r : Register) (t : Text) :
    (r.name ++ ' ' :: t).takeWhile (· ≠ ' ') = r.name := by
  rw [List.takeWhile_append_of_pos decide_ne_blank_of_mem_name,
    List.takeWhile_cons_of_neg (by decide), List.append_nil]

theorem dropWhile_name_append (r : Register) (t : Text) :
    (r.name ++ ' ' :: t).dropWhile (· ≠ ' ') = ' ' :: t := by
  rw [List.dropWhile_append_of_pos decide_ne_blank_of_mem_name,
    List.dropWhile_cons_of_neg (by decide)]

theorem getElem?_index (r : Register) : all[r.index]? = some r := by cases r <;> rfl

/-- No two names are the same up to case. -/
theorem eq_of_sameFold_name {r s : Register} (h : Text.SameFold r.name s.name) : r = s := by
  have : ∀ r ∈ all, ∀ s ∈ all, Text.SameFold r.name s.name → r = s := by decide
  exact this r (mem_all r) s (mem_all s) h

theorem name_injective {r s : Register} (h : r.name = s.name) : r = s :=
  eq_of_sameFold_name (h ▸ Text.SameFold.refl _)

/-! ## Look-ups -/

theorem getElem?_table (r : Register) : table[r.index]? = some (r, r.name) := by cases r <;> rfl

theorem mem_table_iff {e : Register × Text} : e ∈ table ↔ e.2 = e.1.name := by
  have hn : ∀ e ∈ table, e.2 = e.1.name := by decide
  constructor
  · exact hn e
  · intro h
    have he : (e.1, e.1.name) ∈ table := List.mem_of_getElem? (getElem?_table e.1)
    rwa [← h] at he

theorem sameFold_of_findIn? {entries : List (Register × Text)} (h : ∀ e ∈ entries, e ∈ table)
    {word : Text} {r : Register} (hf : findIn? entries word = some r) :
    Text.SameFold r.name word := by
  obtain ⟨e, he, rfl⟩ := Option.map_eq_some_iff.mp hf
  have hn := mem_table_iff.mp (h e (List.mem_of_find?_eq_some he))
  simpa [hn] using List.find?_some he

/-- In entries that are those of the table, in whatever order, a name means the register that it is
the name of up to case. -/
theorem findIn?_eq_some_iff {entries : List (Register × Text)}
    (h : ∀ e, e ∈ entries ↔ e ∈ table) {word : Text} {r : Register} :
    findIn? entries word = some r ↔ Text.SameFold r.name word := by
  have hsub : ∀ e ∈ entries, e ∈ table := fun e => (h e).mp
  constructor
  · exact sameFold_of_findIn? hsub
  · intro hr
    cases hf : findIn? entries word with
    | none =>
      have hm : (r, r.name) ∈ entries := (h _).mpr (mem_table_iff.mpr rfl)
      exact absurd hr (by simpa using List.find?_eq_none.mp (Option.map_eq_none_iff.mp hf) _ hm)
    | some q => rw [eq_of_sameFold_name ((sameFold_of_findIn? hsub hf).trans hr.symm)]

/-- A name means a register exactly when it is the name of that register up to case. -/
theorem find?_eq_some_iff {word : Text} {r : Register} :
    find? word = some r ↔ Text.SameFold r.name word :=
  findIn?_eq_some_iff fun _ => Iff.rfl

theorem find?_eq_some {word : Text} {r : Register} (h : find? word = some r) :
    Text.SameFold r.name word := find?_eq_some_iff.mp h

theorem find?_eq_none_iff {word : Text} :
    find? word = none ↔ ∀ r : Register, ¬ Text.SameFold r.name word := by
  simp only [Option.eq_none_iff_forall_ne_some, Ne, find?_eq_some_iff]

end Register

end RegisterConsole
