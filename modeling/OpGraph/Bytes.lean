/-!
# `Bytes` — numbers as little-endian byte strings

`ofNat n x` writes the low `n` bytes of `x`, least significant first; `toNat` reads a byte string of any
length back. The two laws say that reading undoes writing up to the width, and that writing undoes
reading. `ofNats` and `toNats` do the same for numbers one behind the other, all of one width.
-/

namespace OpGraph.Bytes

/-- The low `n` bytes of `x`, least significant first. -/
def ofNat : (n : Nat) → (x : Nat) → List UInt8
  | 0, _ => []
  | n + 1, x => UInt8.ofNat x :: ofNat n (x / 256)

/-- The number a byte string stands for. -/
def toNat : List UInt8 → Nat
  | [] => 0
  | b :: bs => b.toNat + 256 * toNat bs

/-- Number of byte strings of a length. -/
def count : Nat → Nat
  | 0 => 1
  | n + 1 => 256 * count n

/-- Numbers as a byte string, `n` bytes each. -/
def ofNats (n : Nat) (xs : List Nat) : List UInt8 := xs.flatMap (ofNat n)

/-- The numbers a byte string stands for, `n` bytes each. -/
def toNats (n : Nat) (bs : List UInt8) : List Nat :=
  (List.range (bs.length / n)).map fun i => toNat ((bs.drop (n * i)).take n)

/-- A byte string with others in the place of as many of its bytes, from place `o` on. -/
def splice (o : Nat) (new bs : List UInt8) : List UInt8 :=
  bs.take o ++ new ++ bs.drop (o + new.length)

/-- Two lower-case hexadecimal digits. -/
def hexByte (b : UInt8) : List Char :=
  [Nat.digitChar (b.toNat / 16), Nat.digitChar (b.toNat % 16)]

/-- A byte string as hexadecimal digits, two a byte. -/
def hex (bs : List UInt8) : String := String.ofList (bs.flatMap hexByte)

@[simp] theorem length_ofNat (n x : Nat) : (ofNat n x).length = n := by
  induction n generalizing x with
  | zero => rfl
  | succ n ih => simp [ofNat, ih]

@[simp] theorem length_ofNats (n : Nat) (xs : List Nat) : (ofNats n xs).length = xs.length * n := by
  induction xs with
  | nil => simp [ofNats]
  | cons x xs ih =>
      have h : ofNats n (x :: xs) = ofNat n x ++ ofNats n xs := rfl
      rw [h, List.length_append, length_ofNat, ih, List.length_cons, Nat.succ_mul, Nat.add_comm]

@[simp] theorem length_toNats (n : Nat) (bs : List UInt8) : (toNats n bs).length = bs.length / n := by
  simp [toNats]

theorem toNat_lt_count (bs : List UInt8) : toNat bs < count bs.length := by
  induction bs with
  | nil => exact Nat.one_pos
  | cons b bs ih =>
      have hb : b.toNat < 256 := b.toNat_lt
      simp only [toNat, List.length_cons, count]
      omega

theorem toNat_ofNat (n x : Nat) : toNat (ofNat n x) = x % count n := by
  induction n generalizing x with
  | zero => simp [ofNat, toNat, count, Nat.mod_one]
  | succ n ih =>
      have hb : (UInt8.ofNat x).toNat = x % 256 := UInt8.toNat_ofNat'
      rw [ofNat, toNat, ih, hb, count, Nat.mod_mul]

theorem ofNat_toNat (bs : List UInt8) : ofNat bs.length (toNat bs) = bs := by
  induction bs with
  | nil => rfl
  | cons b bs ih =>
      have hb : b.toNat < 256 := b.toNat_lt
      have hd : (b.toNat + 256 * toNat bs) / 256 = toNat bs := by omega
      have hm : UInt8.ofNat (b.toNat + 256 * toNat bs) = b := by
        apply UInt8.toNat_inj.mp
        rw [UInt8.toNat_ofNat']
        omega
      simp [ofNat, toNat, hd, hm, ih]

end OpGraph.Bytes
