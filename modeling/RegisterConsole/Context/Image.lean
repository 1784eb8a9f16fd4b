import RegisterConsole.Context

/-!
The image of a context: the words of all registers in order, each as eight bytes with the least
first. An image is stored at the front of a buffer and loaded from there; what follows it is no
part of it. A buffer too short for an image is left as it is.
-/

namespace RegisterConsole.Context

def image (c : Context) : List UInt8 := Register.all.flatMap fun r => (c.get r).bytes

/-- The word of a register in an image. -/
def wordAt (bytes : List UInt8) (r : Register) : Word :=
  Word.ofBytes ((bytes.drop (8 * r.index)).take 8)

/-- The context whose image stands at the front of `bytes`. -/
def load (bytes : List UInt8) : Except Fault Context :=
  if bytes.length < imageSize then .error (.shortImage bytes.length)
  else .ok (ofFn (wordAt bytes))

/-! ## In place -/

/-- The buffer with `bytes` in the place of what stood there from `start` on. -/
def patch (buffer : List UInt8) (start : Nat) (bytes : List UInt8) : List UInt8 :=
  buffer.take start ++ bytes ++ buffer.drop (start + bytes.length)

/-- Puts the words of all registers in their places, one after the other. -/
def encode (c : Context) (buffer : List UInt8) : List UInt8 :=
  Register.all.foldl (fun b r => patch b (8 * r.index) (c.get r).bytes) buffer

/-- Stores the image in a buffer: what came of it, and the buffer afterwards. -/
def storeIn (c : Context) (buffer : List UInt8) : Except Fault Unit × List UInt8 :=
  if buffer.length < imageSize then (.error (.shortImage buffer.length), buffer)
  else (.ok (), c.encode buffer)

/-! ## Short and long buffers -/

@[simp] theorem length_image (c : Context) : c.image.length = imageSize := rfl

theorem storeIn_of_short {c : Context} {buffer : List UInt8} (h : buffer.length < imageSize) :
    c.storeIn buffer = (.error (.shortImage buffer.length), buffer) := if_pos h

theorem storeIn_of_le {c : Context} {buffer : List UInt8} (h : imageSize ≤ buffer.length) :
    c.storeIn buffer = (.ok (), c.encode buffer) := if_neg (Nat.not_lt.mpr h)

theorem load_of_short {bytes : List UInt8} (h : bytes.length < imageSize) :
    load bytes = .error (.shortImage bytes.length) := if_pos h

theorem load_of_le {bytes : List UInt8} (h : imageSize ≤ bytes.length) :
    load bytes = .ok (ofFn (wordAt bytes)) := if_neg (Nat.not_lt.mpr h)

theorem bytes_wordAt {bytes : List UInt8} (h : imageSize ≤ bytes.length) (r : Register) :
    (wordAt bytes r).bytes = (bytes.drop (8 * r.index)).take 8 := by
  have hr : r.index < 11 := r.index_lt
  have hs : imageSize = 88 := rfl
  exact Word.bytes_ofBytes (by simp only [List.length_take, List.length_drop]; omega)

/-- The word of a register is the one whose bytes stand in its place. -/
theorem prefix_drop_iff {bytes : List UInt8} (h : imageSize ≤ bytes.length) (r : Register)
    (w : Word) : w.bytes <+: bytes.drop (8 * r.index) ↔ wordAt bytes r = w := by
  rw [List.prefix_iff_eq_take, Word.length_bytes, ← bytes_wordAt h r]
  constructor
  · intro e
    rw [← Word.ofBytes_bytes (wordAt bytes r), ← e, Word.ofBytes_bytes]
  · rintro rfl
    rfl

end RegisterConsole.Context
