import Chromium.Lib.BigEndian

/-!
# Numbers with the lowest byte first

`toLe` and `leNat` write and read a number with its lowest byte first, which is how it stands in memory.
`arrayBytes` is an array of such numbers and `readArray` reads as many as it is told (`readArray_arrayBytes`).
-/

namespace Lib

/-- The number that `bytes` stand for, the lowest first. -/
def leNat (bytes : List UInt8) : ℕ := beNat bytes.reverse

/-- A number in `w` bytes, the lowest first. -/
def toLe (w n : ℕ) : List UInt8 := (toBe w n).reverse

/-- An array of numbers of `w` bytes. -/
def arrayBytes (w : ℕ) (numbers : List ℕ) : List UInt8 := numbers.flatMap (toLe w)

/-- So many numbers of `w` bytes. -/
def readArray (w : ℕ) : ℕ → List UInt8 → List ℕ
  | 0, _ => []
  | count + 1, bytes => leNat (bytes.take w) :: readArray w count (bytes.drop w)

variable {w n : ℕ}

@[simp]
theorem length_toLe (w n : ℕ) : (toLe w n).length = w := by rw [toLe, List.length_reverse, length_toBe]

theorem leNat_toLe (h : n < 256 ^ w) : leNat (toLe w n) = n := by
  rw [leNat, toLe, List.reverse_reverse, beNat_toBe_of_lt h]

theorem leNat_lt (bytes : List UInt8) : leNat bytes < 256 ^ bytes.length := by
  have h := beNat_lt bytes.reverse
  rwa [List.length_reverse] at h

theorem toLe_leNat (bytes : List UInt8) : toLe bytes.length (leNat bytes) = bytes := by
  rw [toLe, leNat, ← List.length_reverse, toBe_beNat, List.reverse_reverse]

@[simp]
theorem length_arrayBytes (w : ℕ) (numbers : List ℕ) :
    (arrayBytes w numbers).length = numbers.length * w := by
  induction numbers with
  | nil => rw [List.length_nil, Nat.zero_mul]; rfl
  | cons n numbers ih =>
    rw [arrayBytes, List.flatMap_cons, List.length_append, length_toLe, ← arrayBytes, ih,
      List.length_cons, Nat.succ_mul, Nat.add_comm]

/-- **An array is read as it was written**, if its numbers have no more bytes. -/
theorem readArray_arrayBytes {numbers : List ℕ} (h : ∀ n ∈ numbers, n < 256 ^ w) :
    readArray w numbers.length (arrayBytes w numbers) = numbers := by
  induction numbers with
  | nil => rfl
  | cons n numbers ih =>
    have hcons : arrayBytes w (n :: numbers) = toLe w n ++ arrayBytes w numbers := List.flatMap_cons
    have hn : n < 256 ^ w := h n List.mem_cons_self
    rw [List.length_cons, readArray, hcons, List.take_left' (length_toLe w n),
      List.drop_left' (length_toLe w n), leNat_toLe hn, ih fun m hm => h m (List.mem_cons_of_mem _ hm)]

end Lib
