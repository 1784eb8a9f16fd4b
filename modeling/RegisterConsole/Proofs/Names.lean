import RegisterConsole.Proofs.Folding

/-!
# What names mean

A register is meant by its name in any case of ASCII letters, and by nothing else. Texts are compared
character by character here, with no reference to how they are folded.

* `sameFold_iff`: texts are the same folded if they have the same characters up to the case of ASCII
  letters;
* `findIn?_perm`: the order in which the names are gone through does not matter;
* `find?_eq_none_of_mem`: a text with a character beyond ASCII means nothing;
* `names_mean_registers`: what a text means, and what is written where it is assigned to.
-/

namespace RegisterConsole

/-! ## Letters in either case -/

namespace Text

def IsCapital (c : Char) : Prop := 'A'.toNat ≤ c.toNat ∧ c.toNat ≤ 'Z'.toNat

/-- The characters are the same, or one is a capital of ASCII and the other its small form. -/
def SameLetter (a b : Char) : Prop :=
  a = b ∨ (IsCapital a ∧ b.toNat = a.toNat + 32) ∨ (IsCapital b ∧ a.toNat = b.toNat + 32)

/-- The texts have the same characters one by one, up to the case of ASCII letters. -/
def SameLetters : Text → Text → Prop := List.Forall₂ SameLetter

theorem toLower_eq_toLower_iff {a b : Char} : a.toLower = b.toLower ↔ SameLetter a b := by
  have hcap (c : Char) : IsCapital c ↔ 65 ≤ c.toNat ∧ c.toNat ≤ 90 := Iff.rfl
  rw [← Char.toNat_inj, toNat_toLower, toNat_toLower, SameLetter, hcap, hcap, ← Char.toNat_inj]
  split <;> split <;> omega

theorem sameFold_iff {s t : Text} : SameFold s t ↔ SameLetters s t := by
  rw [SameFold, fold, fold, ← List.forall₂_eq_eq_eq, List.forall₂_map_left_iff,
    List.forall₂_map_right_iff]
  simp only [toLower_eq_toLower_iff, SameLetters]

/-- Beyond ASCII a character stands for itself alone. -/
theorem SameLetter.eq_of_le {a b : Char} (h : SameLetter a b) (hb : 128 ≤ b.toNat) : a = b := by
  have hz : 'Z'.toNat = 90 := rfl
  rcases h with h | ⟨⟨_, ha⟩, hn⟩ | ⟨⟨_, hc⟩, _⟩
  · exact h
  · omega
  · omega

theorem mem_of_sameFold {s t : Text} (h : SameFold s t) {c : Char} (hc : c ∈ t)
    (hn : 128 ≤ c.toNat) : c ∈ s := by
  have hm : c.toLower ∈ fold s := by
    rw [h]
    exact List.mem_map_of_mem hc
  obtain ⟨a, ha, hl⟩ := List.mem_map.mp hm
  rwa [← (toLower_eq_toLower_iff.mp hl).eq_of_le hn]

end Text

namespace Register

/-! ## Look-ups -/

/-- The names can be gone through in any order. -/
theorem findIn?_perm {entries : List (Register × Text)} (h : entries.Perm table) (word : Text) :
    findIn? entries word = find? word := by
  apply Option.ext
  intro r
  rw [findIn?_eq_some_iff fun _ => h.mem_iff, find?_eq_some_iff]

theorem toNat_lt_of_mem_name {r : Register} {c : Char} (h : c ∈ r.name) : c.toNat < 128 := by
  have hn : r.name.all (fun c => c.toNat < 128) = true := by cases r <;> rfl
  simpa using List.all_eq_true.mp hn c h

/-- A text with a character beyond ASCII means nothing. -/
theorem find?_eq_none_of_mem {word : Text} {c : Char} (hc : c ∈ word) (hn : 128 ≤ c.toNat) :
    find? word = none := by
  rw [find?_eq_none_iff]
  intro r h
  exact absurd (toNat_lt_of_mem_name (Text.mem_of_sameFold h hc hn)) (Nat.not_lt.mpr hn)

theorem find?_name (r : Register) : find? r.name = some r :=
  find?_eq_some_iff.mpr (Text.SameFold.refl _)

/-- **A text means the one register whose name it is**, up to the case of ASCII letters. It means the
same in whatever order the names are gone through, and nothing where a character is not of ASCII. A
register has its name in its own place, and is meant by it. To assign to a text is to write to the
register that it means and to no other, or else to leave all as it was and tell the text itself. -/
theorem names_mean_registers (word : Text) :
    (∀ r, find? word = some r ↔ Text.SameLetters r.name word) ∧
      (∀ r q : Register, Text.SameLetters r.name word → Text.SameLetters q.name word → r = q) ∧
      (∀ entries : List (Register × Text), entries.Perm table →
        findIn? entries word = find? word) ∧
      (∀ c ∈ word, 128 ≤ c.toNat → find? word = none) ∧
      (∀ r : Register, table[r.index]? = some (r, r.name) ∧ find? r.name = some r) ∧
      ∀ (c : Context) (w : Word),
        (∀ r, find? word = some r →
          (c.assign word w).1 = .ok r ∧ (c.assign word w).2.get r = w ∧
            ∀ q, q ≠ r → (c.assign word w).2.get q = c.get q) ∧
          (find? word = none → c.assign word w = (.error (.unknownRegister word), c)) := by
  have hmeans (r : Register) : find? word = some r ↔ Text.SameLetters r.name word := by
    rw [find?_eq_some_iff, Text.sameFold_iff]
  refine ⟨hmeans, fun r q hr hq => ?_, fun entries h => findIn?_perm h word,
    fun c hc hn => find?_eq_none_of_mem hc hn, fun r => ⟨getElem?_table r, find?_name r⟩,
    fun c w => ⟨fun r h => ?_, fun h => Context.assign_of_unknown h c w⟩⟩
  · rw [← hmeans] at hr hq
    exact Option.some.inj (hr.symm.trans hq)
  · rw [Context.assign_of_find? h]
    exact ⟨rfl, c.get_set_self r w, fun q hq => c.get_set_ne w hq⟩

/-- A name with its case turned round is found from the other end of the table; one with a long s for
its last letter is not found. -/
theorem names_mean_registers_unless_look_alikes :
    let word := Text.ofString "cONTROLfLAGS"
    let like := Text.ofString "Flag\u017f"
    findIn? table.reverse word = some controlFlags ∧
      (Context.assign {} word 7).1 = .ok controlFlags ∧
      (Context.assign {} word 7).2.get flags = 0 ∧ find? like = none ∧
      Context.assign {} like 7 = (.error (.unknownRegister like), {}) := by
  intro word like
  obtain ⟨hmeans, _, horder, _, _, hassign⟩ := names_mean_registers word
  obtain ⟨_, _, _, hbeyond, _, hassign'⟩ := names_mean_registers like
  have hw : find? word = some controlFlags :=
    (hmeans controlFlags).mpr (Text.sameFold_iff.mp (by decide))
  have hl : find? like = none := hbeyond '\u017f' (by decide) (by decide)
  obtain ⟨hr, _, hkept⟩ := (hassign {} 7).1 controlFlags hw
  exact ⟨(horder _ (List.reverse_perm table)).trans hw, hr, hkept flags (by decide), hl,
    (hassign' {} 7).2 hl⟩

end Register

end RegisterConsole
