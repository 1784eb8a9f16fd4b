import Mathlib
import RegisterConsole.Context.Image

/-!
# Images of contexts

Every run of bytes of the right length is the image of one context, and every context has one image.

* `encode_eq`: words put in their places one after the other make the image, and touch nothing else;
* `load_image_append`: an image with anything behind it is loaded as its context;
* `image_ofFn_wordAt`: what is loaded has the bytes that it was loaded from as its image;
* `image_laws`: where each bit of a context stands, and both inverse laws, for buffers of any size.
-/

namespace RegisterConsole

/-! ## Bytes of a word -/

/-- The bits of the `j`-th byte of a word are those of the word from the bit `8 * j` on. -/
theorem Word.testBit_bytes (w : Word) {j : Nat} (hj : j < 8) :
    ∃ b, w.bytes[j]? = some b ∧
      ∀ k < 8, b.toNat.testBit k = w.toNat.testBit (8 * j + k) := by
  refine ⟨UInt8.ofNat (w.toNat >>> (8 * j)), ?_, fun k hk => ?_⟩
  · rw [bytes, List.getElem?_map, List.getElem?_range hj]
    rfl
  · rw [UInt8.toNat_ofNat', Nat.testBit_mod_two_pow, Nat.testBit_shiftRight, decide_eq_true hk,
      Bool.true_and]

/-! ## Blocks of one length -/

theorem take_drop_flatMap {α β : Type} {f : α → List β} {n : Nat} (hf : ∀ a, (f a).length = n)
    {xs : List α} {i : Nat} {a : α} (h : xs[i]? = some a) (tail : List β) :
    ((xs.flatMap f ++ tail).drop (n * i)).take n = f a := by
  induction xs generalizing i with
  | nil => simp at h
  | cons x xs ih =>
    rw [List.flatMap_cons, List.append_assoc]
    cases i with
    | zero =>
      obtain rfl : x = a := by simpa using h
      rw [Nat.mul_zero, List.drop_zero, List.take_left' (hf x)]
    | succ i =>
      rw [Nat.mul_succ, Nat.add_comm, ← List.drop_drop, List.drop_left' (hf x)]
      exact ih (by simpa using h)

/-- The windows of one length in a list, from its front on, make up its front. -/
theorem flatMap_range_take_drop {α : Type} (xs : List α) (n m : Nat) :
    ((List.range m).flatMap fun i => (xs.drop (n * i)).take n) = xs.take (n * m) := by
  induction m with
  | zero => simp
  | succ m ih => rw [List.range_succ, List.flatMap_append, ih, Nat.mul_succ, List.take_add]; simp

namespace Register

theorem index_of_append {front back : List Register} {r : Register}
    (h : front ++ r :: back = all) : r.index = front.length := by
  have hn : all.Nodup := by decide
  have hf : all[front.length]? = some r := by simp [← h]
  exact (List.getElem?_inj r.index_lt hn).mp ((getElem?_index r).trans hf.symm)

theorem map_index_all : all.map index = List.range 11 := by decide

end Register

namespace Context

/-! ## Storing in place -/

theorem patch_append (front tail bytes : List UInt8) :
    patch (front ++ tail) front.length bytes = front ++ bytes ++ tail.drop bytes.length := by
  rw [patch, List.take_left, List.drop_append]
  simp

theorem length_flatMap_bytes (c : Context) (rs : List Register) :
    (rs.flatMap fun r => (c.get r).bytes).length = 8 * rs.length := by
  induction rs with
  | nil => rfl
  | cons r rs ih => simp [ih]; omega

/-- The words of the registers in `back`, put in their places behind those of the registers in
`front`. -/
theorem foldl_patch (c : Context) (front : List Register) {back : List Register}
    (h : front ++ back = Register.all) (tail : List UInt8) :
    back.foldl (fun b r => patch b (8 * r.index) (c.get r).bytes)
        ((front.flatMap fun r => (c.get r).bytes) ++ tail) =
      c.image ++ tail.drop (8 * back.length) := by
  -- each word is put where the words before it end, so it moves from `back` to `front`
  induction back generalizing front tail with
  | nil =>
    rw [List.append_nil] at h
    simp [image, h]
  | cons r back ih =>
    have hp := patch_append (front.flatMap fun r => (c.get r).bytes) tail (c.get r).bytes
    rw [length_flatMap_bytes, ← Register.index_of_append h, Word.length_bytes] at hp
    have hn := ih (front ++ [r]) (by simpa using h) (tail.drop 8)
    rw [List.foldl_cons, hp]
    simp only [List.flatMap_append, List.flatMap_singleton, List.drop_drop] at hn
    rw [hn, List.length_cons, Nat.mul_succ, Nat.add_comm]

/-- The words put in their places make the image, and nothing behind it is touched. -/
theorem encode_eq (c : Context) (buffer : List UInt8) :
    c.encode buffer = c.image ++ buffer.drop imageSize :=
  foldl_patch c [] rfl buffer

/-- The image is what the words make of a buffer of its size, whatever that held before. -/
theorem encode_of_length_eq (c : Context) {buffer : List UInt8} (h : buffer.length = imageSize) :
    c.encode buffer = c.image := by
  rw [encode_eq, ← h, List.drop_length, List.append_nil]

/-! ## Loading -/

theorem take_drop_image (c : Context) {i : Nat} {r : Register} (h : Register.all[i]? = some r)
    (tail : List UInt8) : ((c.image ++ tail).drop (8 * i)).take 8 = (c.get r).bytes :=
  take_drop_flatMap (fun r => Word.length_bytes (c.get r)) h tail

theorem load_image_append (c : Context) (tail : List UInt8) : load (c.image ++ tail) = .ok c := by
  have hle : imageSize ≤ (c.image ++ tail).length := by
    rw [List.length_append, length_image]
    omega
  have hg (r : Register) : (ofFn (wordAt (c.image ++ tail))).get r = c.get r := by
    rw [get_ofFn, wordAt, take_drop_image c r.getElem?_index, Word.ofBytes_bytes]
  rw [load_of_le hle, ext_get hg]

theorem image_injective {c d : Context} (h : c.image = d.image) : c = d := by
  have hc := load_image_append c []
  rw [h, load_image_append d []] at hc
  exact (Except.ok.inj hc).symm

theorem image_ofFn_wordAt {bytes : List UInt8} (h : imageSize ≤ bytes.length) :
    (ofFn (wordAt bytes)).image = bytes.take imageSize := by
  have hw : (ofFn (wordAt bytes)).image =
      (Register.all.map Register.index).flatMap fun i => (bytes.drop (8 * i)).take 8 := by
    simp only [image, get_ofFn, bytes_wordAt h, List.flatMap_map]
  rw [hw, Register.map_index_all, flatMap_range_take_drop]
  rfl

/-- Only the front of a run of bytes decides what is loaded from it. -/
theorem load_congr {bytes other : List UInt8} (h : imageSize ≤ bytes.length)
    (he : other.take imageSize = bytes.take imageSize) : load other = load bytes := by
  have hle : imageSize ≤ other.length := by
    have hl := congrArg List.length he
    rw [List.length_take, List.length_take] at hl
    omega
  have hi : (ofFn (wordAt other)).image = (ofFn (wordAt bytes)).image := by
    rw [image_ofFn_wordAt hle, image_ofFn_wordAt h, he]
  rw [load_of_le hle, load_of_le h, image_injective hi]

/-! ## The laws of images -/

/-- **Images and contexts correspond.** An image is what the words make of an empty buffer of its
size, and its byte `8 * i + j` has the bits of the `i`-th register from `8 * j` on. Storing in a
buffer with room for an image puts the image at its front, leaves the rest, and is undone by
loading; what is loaded from enough bytes depends on the image at their front alone, and has it as
its image. Where there are too few bytes both fail, tell how many there are, and leave the buffer
as it was. -/
theorem image_laws :
    (∀ c : Context, c.encode (List.replicate 88 0) = c.image) ∧
      (∀ (c : Context) (i j : Nat), i < 11 → j < 8 →
        ∃ r b, Register.all[i]? = some r ∧ c.image[8 * i + j]? = some b ∧
          ∀ k < 8, b.toNat.testBit k = (c.get r).toNat.testBit (8 * j + k)) ∧
      (∀ (c : Context) (buffer : List UInt8), 88 ≤ buffer.length →
        c.storeIn buffer = (.ok (), c.image ++ buffer.drop 88) ∧
          load (c.storeIn buffer).2 = .ok c) ∧
      (∀ bytes : List UInt8, 88 ≤ bytes.length →
        ∃ c, load bytes = .ok c ∧ c.image = bytes.take 88 ∧
          ∀ other : List UInt8, other.take 88 = bytes.take 88 → load other = .ok c) ∧
      ∀ bytes : List UInt8, bytes.length < 88 →
        load bytes = .error (.shortImage bytes.length) ∧
          ∀ c : Context, c.storeIn bytes = (.error (.shortImage bytes.length), bytes) := by
  refine ⟨fun c => c.encode_of_length_eq rfl, fun c i j hi hj => ?_, fun c buffer h => ?_,
    fun bytes h => ?_, fun bytes h => ?_⟩
  · obtain ⟨r, hr⟩ : ∃ r, Register.all[i]? = some r := ⟨_, List.getElem?_eq_getElem hi⟩
    obtain ⟨b, hb, hk⟩ := (c.get r).testBit_bytes hj
    refine ⟨r, b, hr, ?_, hk⟩
    rw [← hb, ← take_drop_image c hr [], List.append_nil, List.getElem?_take_of_lt hj,
      List.getElem?_drop]
  · rw [storeIn_of_le h, encode_eq]
    exact ⟨rfl, load_image_append c _⟩
  · refine ⟨ofFn (wordAt bytes), load_of_le h, image_ofFn_wordAt h, fun other he => ?_⟩
    rw [load_congr h he, load_of_le h]
  · exact ⟨load_of_short h, fun c => storeIn_of_short h⟩

/-- A buffer with two bytes behind the image, and a buffer that is one byte too short for it. -/
theorem image_laws_of_long_and_short_buffer :
    let c : Context := { r1 := 0x0123456789abcdef, ip := 0x4000 }
    let long : List UInt8 := List.replicate 90 7
    let short : List UInt8 := List.replicate 87 7
    (∃ r b, Register.all[1]? = some r ∧ c.image[8 * 1 + 6]? = some b ∧
        ∀ k < 8, b.toNat.testBit k = (c.get r).toNat.testBit (8 * 6 + k)) ∧
      88 ≤ long.length ∧ c.storeIn long = (.ok (), c.image ++ [7, 7]) ∧
      load (c.storeIn long).2 = .ok c ∧ load (long.take 88) = load long ∧
      short.length < 88 ∧ load short = .error (.shortImage 87) ∧
      c.storeIn short = (.error (.shortImage 87), short) := by
  intro c long short
  have hlong : 88 ≤ long.length := by decide
  have hshort : short.length < 88 := by decide
  obtain ⟨-, bits, store, loaded, refused⟩ := image_laws
  obtain ⟨hs, hl⟩ := store c long hlong
  obtain ⟨d, hd, -, front⟩ := loaded long hlong
  obtain ⟨hf, hu⟩ := refused short hshort
  refine ⟨bits c 1 6 (by decide) (by decide), hlong, hs, hl, ?_, hshort, hf, hu c⟩
  rw [hd, front (long.take 88) (List.take_take ..)]

end Context

end RegisterConsole
