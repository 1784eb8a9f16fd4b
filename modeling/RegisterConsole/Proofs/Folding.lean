import RegisterConsole.Proofs.Requests
import RegisterConsole.Proofs.Values

/-!
# Texts with their capitals made small

Folding a line changes nothing that is read from it: no character becomes a blank or stops being one,
the command and the registers have names in either case, and so have the markers and the digits of a
value. Only what is echoed is folded with it.

* `utf8_fold`: a text takes the same bytes folded, but for those of its capitals;
* `words_fold`, `skip_fold`: the words of a folded line are the folded words;
* `read_fold`: a folded value is read alike under both policies;
* `request?_fold`: a folded line asks for the same, and echoes its words folded.
-/

namespace RegisterConsole

/-! ## Characters -/

namespace Text

/-- Only capitals have another small form. -/
theorem toLower_eq_self {c : Char} (h : ¬ (65 ≤ c.toNat ∧ c.toNat ≤ 90)) : c.toLower = c := by
  apply Char.toNat_inj.mp
  rw [toNat_toLower, if_neg h]

theorem isBlank_toLower (c : Char) : isBlank c.toLower = isBlank c := by
  by_cases h : 65 ≤ c.toNat ∧ c.toNat ≤ 90
  · have hl : c.toLower.toNat = c.toNat + 32 := by rw [toNat_toLower, if_pos h]
    rw [isBlank_eq_false (c := c) (by omega), isBlank_eq_false (by omega)]
  · rw [toLower_eq_self h]

theorem isInk_toLower (c : Char) : isInk c.toLower = isInk c := congrArg (! ·) (isBlank_toLower c)

/-! ## Texts -/

@[simp] theorem fold_fold (t : Text) : fold (fold t) = fold t := by
  simp only [fold, List.map_map]
  exact List.map_congr_left fun c _ => Char.toLower_toLower_eq_toLower c

theorem sameFold_fold_right {s t : Text} : SameFold s (fold t) ↔ SameFold s t := by
  rw [SameFold, fold_fold, SameFold]

theorem fold_append (s t : Text) : fold (s ++ t) = fold s ++ fold t := List.map_append

theorem dropWhile_fold {p : Char → Bool} (h : ∀ c, p c.toLower = p c) (t : Text) :
    (fold t).dropWhile p = fold (t.dropWhile p) := by
  have hp : p ∘ Char.toLower = p := funext h
  rw [fold, List.dropWhile_map, hp, fold]

theorem takeWhile_fold {p : Char → Bool} (h : ∀ c, p c.toLower = p c) (t : Text) :
    (fold t).takeWhile p = fold (t.takeWhile p) := by
  have hp : p ∘ Char.toLower = p := funext h
  rw [fold, List.takeWhile_map, hp, fold]

/-! ## Bytes -/

/-- The byte with a capital of ASCII made small. -/
def foldByte (b : UInt8) : UInt8 := if 65 ≤ b ∧ b ≤ 90 then b + 32 else b

theorem toNat_foldByte (b : UInt8) :
    (foldByte b).toNat = if 65 ≤ b.toNat ∧ b.toNat ≤ 90 then b.toNat + 32 else b.toNat := by
  have hb : (65 ≤ b ∧ b ≤ 90) ↔ (65 ≤ b.toNat ∧ b.toNat ≤ 90) := Iff.rfl
  rw [foldByte]
  by_cases h : 65 ≤ b.toNat ∧ b.toNat ≤ 90
  · rw [if_pos (hb.mpr h), if_pos h, UInt8.toNat_add]
    show (b.toNat + 32) % 256 = _
    omega
  · rw [if_neg (mt hb.mp h), if_neg h]

theorem foldByte_eq_self {b : UInt8} (h : 128 ≤ b.toNat) : foldByte b = b := by
  apply UInt8.toNat_inj.mp
  rw [toNat_foldByte, if_neg (by omega)]

theorem utf8EncodeChar_of_ascii {c : Char} (h : c.toNat ≤ 127) :
    String.utf8EncodeChar c = [UInt8.ofNat c.toNat] := if_pos h

/-- A character beyond ASCII takes no byte of ASCII. -/
theorem le_toNat_of_mem_utf8EncodeChar {c : Char} (h : 127 < c.toNat) {b : UInt8}
    (hb : b ∈ String.utf8EncodeChar c) : 128 ≤ b.toNat := by
  have hn : ¬ c.val.toNat ≤ 127 := Nat.not_le.mpr h
  simp only [String.utf8EncodeChar, if_neg hn] at hb
  split at hb
  · simp only [List.mem_cons, List.not_mem_nil, or_false] at hb
    rcases hb with rfl | rfl <;> rw [UInt8.toNat_ofNat'] <;> omega
  · split at hb
    · simp only [List.mem_cons, List.not_mem_nil, or_false] at hb
      rcases hb with rfl | rfl | rfl <;> rw [UInt8.toNat_ofNat'] <;> omega
    · simp only [List.mem_cons, List.not_mem_nil, or_false] at hb
      rcases hb with rfl | rfl | rfl | rfl <;> rw [UInt8.toNat_ofNat'] <;> omega

theorem utf8EncodeChar_toLower (c : Char) :
    String.utf8EncodeChar c.toLower = (String.utf8EncodeChar c).map foldByte := by
  by_cases h : c.toNat ≤ 127
  · have hl : c.toLower.toNat ≤ 127 := by
      rw [toNat_toLower]
      split <;> omega
    rw [utf8EncodeChar_of_ascii h, utf8EncodeChar_of_ascii hl, List.map_singleton,
      List.singleton_inj, ← UInt8.toNat_inj, toNat_foldByte, UInt8.toNat_ofNat', UInt8.toNat_ofNat',
      toNat_toLower]
    split <;> split <;> omega
  · have hb : ∀ b ∈ String.utf8EncodeChar c, foldByte b = b := fun b hb =>
      foldByte_eq_self (le_toNat_of_mem_utf8EncodeChar (by omega) hb)
    rw [toLower_eq_self (by omega), List.map_congr_left hb, List.map_id']

/-- A text takes the same bytes folded, but for those of its capitals. -/
theorem utf8_fold (t : Text) : utf8 (fold t) = (utf8 t).map foldByte := by
  simp only [utf8, fold, List.flatMap_map, List.map_flatMap, utf8EncodeChar_toLower]

theorem SameFold.map_foldByte {s t : Text} (h : SameFold s t) :
    (utf8 s).map foldByte = (utf8 t).map foldByte := by
  rw [← utf8_fold, ← utf8_fold, h]

theorem SameFold.length_utf8 {s t : Text} (h : SameFold s t) :
    (utf8 s).length = (utf8 t).length := by
  have hb := congrArg List.length h.map_foldByte
  rwa [List.length_map, List.length_map] at hb

end Text

/-! ## Words -/

namespace Cursor

def fold (c : Cursor) : Cursor := ⟨Text.fold c.rest⟩

theorem next_fold (c : Cursor) : c.fold.next = (c.next.1.map Text.fold, c.next.2.fold) := by
  have hd : c.fold.rest.dropWhile Text.isBlank = Text.fold (c.rest.dropWhile Text.isBlank) :=
    Text.dropWhile_fold Text.isBlank_toLower c.rest
  cases ht : c.rest.dropWhile Text.isBlank with
  | nil =>
    rw [ht] at hd
    rw [next_of_dropWhile_eq_nil ht, next_of_dropWhile_eq_nil hd]
    rfl
  | cons a t =>
    have htake := Text.takeWhile_fold Text.isInk_toLower t
    have hdrop := Text.dropWhile_fold Text.isInk_toLower t
    rw [ht] at hd
    rw [next_of_dropWhile_eq_cons ht, next_of_dropWhile_eq_cons hd, ← Text.fold, htake, hdrop]
    rfl

theorem skip_fold (n : Nat) (c : Cursor) : skip n c.fold = (skip n c).fold := by
  induction n generalizing c with
  | zero => rfl
  | succ n ih => rw [skip, skip, next_fold, ih]

/-- The words of a folded line are the folded words. -/
theorem words_fold (c : Cursor) : c.fold.words = c.words.map Text.fold := by
  generalize hws : c.words = ws
  induction ws generalizing c with
  | nil =>
    have hn : c.fold.next = (none, ⟨[]⟩) := by
      rw [next_fold, next_of_words_nil hws]
      rfl
    exact words_of_next_none hn
  | cons w ws ih =>
    obtain ⟨d, hn, hd⟩ := exists_next_of_words_cons hws
    have hf : c.fold.next = (some (Text.fold w), d.fold) := by
      rw [next_fold, hn]
      rfl
    rw [words_of_next_some hf, ih d hd, List.map_cons]

end Cursor

/-! ## Values -/

/-- The fault with its echo folded. -/
def Fault.fold : Fault → Fault
  | unknownRegister name => unknownRegister (Text.fold name)
  | malformedNumber text => malformedNumber (Text.fold text)
  | numberTooLarge text => numberTooLarge (Text.fold text)
  | fault => fault

namespace Value

theorem toLower_eq_x_iff {c : Char} : c.toLower = 'x' ↔ c = 'x' ∨ c = 'X' := by
  rw [← Char.toNat_inj, ← Char.toNat_inj, ← Char.toNat_inj, Text.toNat_toLower]
  show _ = 120 ↔ c.toNat = 120 ∨ c.toNat = 88
  split <;> omega

theorem toLower_eq_zero_iff {c : Char} : c.toLower = '0' ↔ c = '0' := by
  rw [← Char.toNat_inj, ← Char.toNat_inj, Text.toNat_toLower]
  show _ = 48 ↔ c.toNat = 48
  split <;> omega

theorem dropCross_cons (c : Char) (t : Text) :
    dropCross (c :: t) = if c.toLower = 'x' then t else c :: t := by
  by_cases h : c = 'x' ∨ c = 'X'
  · rw [if_pos (toLower_eq_x_iff.mpr h)]
    rcases h with rfl | rfl <;> rfl
  · rw [if_neg (mt toLower_eq_x_iff.mp h)]
    rw [not_or] at h
    unfold dropCross
    split
    · next e => exact absurd (List.cons.inj e).1 h.1
    · next e => exact absurd (List.cons.inj e).1 h.2
    · rfl

theorem dropCross_fold (t : Text) : dropCross (Text.fold t) = Text.fold (dropCross t) := by
  cases t with
  | nil => rfl
  | cons c t =>
    have hf : Text.fold (c :: t) = c.toLower :: Text.fold t := rfl
    rw [hf, dropCross_cons, dropCross_cons, Char.toLower_toLower_eq_toLower]
    split
    · rfl
    · exact hf.symm

theorem dropMarker_cons_cons (a c : Char) (t : Text) :
    dropMarker (a :: c :: t) =
      if a.toLower = '0' ∧ c.toLower = 'x' then t else a :: c :: t := by
  by_cases h : a = '0' ∧ (c = 'x' ∨ c = 'X')
  · rw [if_pos ⟨toLower_eq_zero_iff.mpr h.1, toLower_eq_x_iff.mpr h.2⟩]
    obtain ⟨rfl, rfl | rfl⟩ := h <;> rfl
  · rw [if_neg fun e => h ⟨toLower_eq_zero_iff.mp e.1, toLower_eq_x_iff.mp e.2⟩]
    unfold dropMarker
    split
    · next e =>
      obtain ⟨ha, hc⟩ := List.cons.inj e
      exact absurd ⟨ha, Or.inl (List.cons.inj hc).1⟩ h
    · next e =>
      obtain ⟨ha, hc⟩ := List.cons.inj e
      exact absurd ⟨ha, Or.inr (List.cons.inj hc).1⟩ h
    · rfl

theorem dropMarker_singleton (c : Char) : dropMarker [c] = [c] := by
  unfold dropMarker
  split
  · next e => cases (List.cons.inj e).2
  · next e => cases (List.cons.inj e).2
  · rfl

theorem dropMarker_fold (t : Text) : dropMarker (Text.fold t) = Text.fold (dropMarker t) := by
  match t with
  | [] => rfl
  | [c] => exact (dropMarker_singleton _).trans (congrArg Text.fold (dropMarker_singleton c)).symm
  | a :: c :: t =>
    have hf : Text.fold (a :: c :: t) = a.toLower :: c.toLower :: Text.fold t := rfl
    rw [hf, dropMarker_cons_cons, dropMarker_cons_cons, Char.toLower_toLower_eq_toLower,
      Char.toLower_toLower_eq_toLower]
    split
    · rfl
    · exact hf.symm

theorem digit?_toLower (c : Char) : Hex.digit? c.toLower = Hex.digit? c :=
  Hex.digit?_congr (Char.toLower_toLower_eq_toLower c)

theorem leadingDigits_fold (t : Text) : leadingDigits (Text.fold t) = leadingDigits t := by
  induction t with
  | nil => rfl
  | cons c t ih =>
    have hf : Text.fold (c :: t) = c.toLower :: Text.fold t := rfl
    rw [hf, leadingDigits, leadingDigits, digit?_toLower, ih]

theorem readDigits_fold (t : Text) : readDigits (Text.fold t) = readDigits t := by
  have hz : ∀ c : Char, decide (c.toLower = '0') = decide (c = '0') := fun c =>
    decide_eq_decide.mpr toLower_eq_zero_iff
  rw [readDigits, Text.dropWhile_fold Text.isBlank_toLower, Text.dropWhile_fold hz, dropCross_fold,
    leadingDigits_fold, readDigits]

theorem lenient_fold (t : Text) : lenient (Text.fold t) = lenient t :=
  congrArg (saturate 0) (readDigits_fold t)

theorem strict_fold (t : Text) : strict (Text.fold t) = (strict t).mapError Fault.fold := by
  have hm : (Text.fold (dropMarker t)).mapM Hex.digit? = (dropMarker t).mapM Hex.digit? := by
    rw [Text.fold, List.mapM_map]
    exact congrArg (fun f => (dropMarker t).mapM f) (funext digit?_toLower)
  rw [strict, dropMarker_fold, hm, strict]
  split
  · rfl
  · rfl
  · split <;> rfl

/-- A folded value is read alike, and echoed folded. -/
theorem read_fold (p : Policy) (t : Text) :
    read p (Text.fold t) = (read p t).mapError Fault.fold := by
  cases p with
  | strict => exact strict_fold t
  | lenient => exact congrArg Except.ok (lenient_fold t)

end Value

/-! ## Requests -/

theorem Register.resolve_fold (name : Text) :
    resolve (Text.fold name) = (resolve name).mapError Fault.fold := by
  have hf : find? (Text.fold name) = find? name := by
    simp only [find?, findIn?, Text.sameFold_fold_right]
  rw [resolve, hf, resolve]
  cases find? name <;> rfl

theorem Command.matches_fold (c : Command) (word : Text) :
    c.matches (Text.fold word) = c.matches word := by
  simp only [Command.matches, Text.sameFold_fold_right]

namespace Request

/-- The request with all that it echoes folded. -/
def fold : Request → Request
  | reject name fault => reject (Text.fold name) fault.fold
  | q => q

theorem ofWord_fold (p : Policy) (name : Text) (word? : Option Text) :
    ofWord p (Text.fold name) (word?.map Text.fold) = (ofWord p name word?).fold := by
  cases word? with
  | none => rfl
  | some word =>
    simp only [Option.map_some, ofWord, Value.read_fold, Register.resolve_fold]
    cases Value.read p word with
    | error fault => rfl
    | ok w => cases Register.resolve name <;> rfl

theorem ofLine?_fold (p : Policy) (words : List Text) :
    ofLine? p (words.map Text.fold) = (ofLine? p words).map fold := by
  match words with
  | [] => rfl
  | [command] =>
    simp only [List.map_cons, List.map_nil, ofLine?, Command.matches_fold]
    split <;> rfl
  | command :: name :: words =>
    have hw : (words.map Text.fold).head? = words.head?.map Text.fold := List.head?_map
    simp only [List.map_cons, ofLine?, Command.matches_fold, ofWords, hw, ofWord_fold]
    split <;> rfl

end Request

namespace Session

theorem words_line_fold (text : Text) :
    Cursor.words ⟨Text.fold text⟩ = (Cursor.words ⟨text⟩).map Text.fold :=
  Cursor.words_fold ⟨text⟩

/-- **A folded line asks for the same**, and echoes its words folded. -/
theorem request?_fold (p : Policy) (text : Text) :
    (Step.line (Text.fold text)).request? p =
      ((Step.line text).request? p).map Request.fold := by
  rw [request?_line, words_line_fold, Request.ofLine?_fold, request?_line]

end Session

end RegisterConsole
