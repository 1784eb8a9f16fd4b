import RegisterConsole.Proofs.Requests

/-!
# Traps and their codes

A code is told by the trap that is made of it. A trap is told by its code, unless it keeps as invalid
a code that has a name: then the named trap is made of the code.

* `ofCode_mem_named`, `ofCode_of_lt`: the codes up to ten have names, and no others;
* `ofCode_code_eq_iff`: the traps that are made again of their codes;
* `code_eq_iff`: the traps that share a code;
* `codes_tell_traps`: both directions together;
* `Session.not_misnamed_after`: a session never comes to hold a trap that its code does not tell.
-/

namespace RegisterConsole

namespace Trap

/-- The trap keeps as invalid a code that has a name. -/
def Misnamed (t : Trap) : Prop := ∃ v : UInt32, v ≤ 10 ∧ t = invalid v

/-! ## Traps with names -/

theorem mem_named_iff {t : Trap} : t ∈ named ↔ ∀ v, t ≠ invalid v := by
  cases t <;> simp [named]

/-- A trap has a name, or keeps its own code. -/
theorem mem_named_or_eq (t : Trap) : t ∈ named ∨ t = invalid t.code := by
  cases t with
  | invalid v => exact Or.inr rfl
  | _ => exact Or.inl (by decide)

theorem code_le_of_mem {t : Trap} (h : t ∈ named) : t.code ≤ 10 := by
  have hn : ∀ t ∈ named, t.code ≤ 10 := by decide
  exact hn t h

theorem ofCode_mem_named {v : UInt32} (h : v ≤ 10) : ofCode v ∈ named := by
  have hn : ∀ n < 11, ofCode (UInt32.ofNat n) ∈ named := by decide
  have hv := hn v.toNat (Nat.lt_succ_of_le h)
  rwa [UInt32.ofNat_toNat] at hv

theorem ofCode_of_lt {v : UInt32} (h : 10 < v) : ofCode v = invalid v := by
  rcases mem_named_or_eq (ofCode v) with hm | he
  · have hle := code_le_of_mem hm
    rw [code_ofCode] at hle
    exact absurd hle (UInt32.not_le.mpr h)
  · rwa [code_ofCode] at he

/-- No two traps with names share a code. -/
theorem eq_of_code_eq {t u : Trap} (ht : t ∈ named) (hu : u ∈ named) (h : t.code = u.code) :
    t = u := by
  rw [← ofCode_code_of_mem ht, h, ofCode_code_of_mem hu]

/-! ## There and back -/

/-- A trap is made again of its code unless it is misnamed. -/
theorem ofCode_code_eq_iff {t : Trap} : ofCode t.code = t ↔ ¬ Misnamed t := by
  constructor
  · rintro h ⟨v, hv, rfl⟩
    exact mem_named_iff.mp (ofCode_mem_named hv) v h
  · intro h
    rcases mem_named_or_eq t with ht | ht
    · exact ofCode_code_of_mem ht
    · have hlt : 10 < t.code := UInt32.not_le.mp fun hle => h ⟨t.code, hle, ht⟩
      exact (ofCode_of_lt hlt).trans ht.symm

theorem not_misnamed_ofCode (v : UInt32) : ¬ Misnamed (ofCode v) := by
  rw [← ofCode_code_eq_iff, code_ofCode]

/-- Two traps share a code just where one has a name and the other keeps the code of that name. -/
theorem code_eq_iff {t u : Trap} :
    t ≠ u ∧ t.code = u.code ↔
      (t ∈ named ∧ u = invalid t.code) ∨ (u ∈ named ∧ t = invalid u.code) := by
  constructor
  · rintro ⟨hne, hc⟩
    rcases mem_named_or_eq t with ht | ht
    · rcases mem_named_or_eq u with hu | hu
      · exact absurd (eq_of_code_eq ht hu hc) hne
      · exact Or.inl ⟨ht, by rwa [hc]⟩
    · rcases mem_named_or_eq u with hu | hu
      · exact Or.inr ⟨hu, by rwa [← hc]⟩
      · exact absurd (by rw [ht, hu, hc]) hne
  · rintro (⟨ht, rfl⟩ | ⟨hu, rfl⟩)
    · exact ⟨mem_named_iff.mp ht _, rfl⟩
    · exact ⟨(mem_named_iff.mp hu _).symm, rfl⟩

/-- **Codes tell traps, but for one ambiguity.** The trap that is made of a code has that code. A trap
is made again of its code unless it keeps one of the codes up to ten as invalid; what is made then is
the trap with the name of that code, and nothing changes from there on. So two traps share a code just
where one has a name and the other keeps the code of that name. -/
theorem codes_tell_traps :
    (∀ v : UInt32, (ofCode v).code = v) ∧
      (∀ t : Trap, ofCode t.code = t ↔ ¬ Misnamed t) ∧
      (∀ v : UInt32, v ≤ 10 →
        ofCode (invalid v).code ∈ named ∧ (ofCode (invalid v).code).code = v ∧
          ∀ t ∈ named, t.code = v → t = ofCode (invalid v).code) ∧
      (∀ t : Trap, ofCode (ofCode t.code).code = ofCode t.code) ∧
      ∀ t u : Trap, t ≠ u ∧ t.code = u.code ↔
        (t ∈ named ∧ u = invalid t.code) ∨ (u ∈ named ∧ t = invalid u.code) := by
  refine ⟨code_ofCode, fun t => ofCode_code_eq_iff, fun v hv => ?_, fun t => ?_,
    fun t u => code_eq_iff⟩
  · have hm := ofCode_mem_named hv
    refine ⟨hm, code_ofCode v, fun t ht hc => eq_of_code_eq ht hm ?_⟩
    rw [hc]
    exact (code_ofCode v).symm
  · rw [code_ofCode]

/-- The code of a breakpoint, kept as invalid, is told apart from one and is made into one. -/
theorem codes_tell_traps_of_breakpoint :
    breakpoint ≠ invalid 3 ∧ breakpoint.code = (invalid 3).code ∧
      ofCode (invalid 3).code ≠ invalid 3 ∧ ofCode (invalid 3).code = breakpoint := by
  obtain ⟨_, hback, hnamed, _, hshare⟩ := codes_tell_traps
  obtain ⟨hne, hc⟩ := (hshare breakpoint (invalid 3)).mpr (Or.inl ⟨by decide, rfl⟩)
  have hm : Misnamed (invalid 3) := ⟨3, by decide, rfl⟩
  exact ⟨hne, hc, fun h => (hback _).mp h hm,
    ((hnamed 3 (by decide)).2.2 breakpoint (by decide) rfl).symm⟩

end Trap

/-! ## Traps in a session -/

namespace Session

theorem trap_step (s : Session) (x : Step) :
    (s.step x).1.trap = s.trap ∨ ∃ v, (s.step x).1.trap = .ofCode v := by
  cases x with
  | line text => rw [step_line]; split <;> exact Or.inl rfl
  | assign name w => simp only [step]; split <;> exact Or.inl rfl
  | load bytes => simp only [step]; split <;> exact Or.inl rfl
  | save buffer => simp only [step]; split <;> exact Or.inl rfl
  | trap v => exact Or.inr ⟨v, rfl⟩
  | _ => exact Or.inl rfl

/-- A session that holds no misnamed trap never comes to hold one. -/
theorem not_misnamed_after {s : Session} (h : ¬ s.trap.Misnamed) (steps : List Step) :
    ¬ (s.after steps).trap.Misnamed := by
  induction steps generalizing s with
  | nil => exact h
  | cons x steps ih =>
    apply ih
    rcases trap_step s x with he | ⟨v, he⟩
    · rwa [he]
    · rw [he]
      exact Trap.not_misnamed_ofCode v

end Session

end RegisterConsole
