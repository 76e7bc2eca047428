import Mathlib.Algebra.Divisibility.Basic
import Mathlib.Algebra.Ring.Nat
import Mathlib.Data.List.Forall2
import Mathlib.Data.Set.Function
import Mathlib.Order.Interval.Set.Defs
import OpGraph.Tensor.Shape

/-!
# `Proofs.Offsets` — where the strides of a shape put its elements

An index into a shape names a number for each dimension, less than it. With the strides for place values an
index is a numeral in mixed radix: the first digit counts blocks of as many elements as the rest of the shape
has, and the other digits stay within one block (`Shape.offset_lt`). So every place below the element count is
that of one index, the one that division with remainder finds (`Shape.indexAt`), and the order of places is
the order of indices, first dimension first (`Shape.laid_out_row_major`).

A stride times its dimension is the element count of a shape further in. Where no dimension is zero it is at
most that of the whole shape, so words of 64 bits that hold the one hold the other (`Shape.strides_fit`).
-/

namespace OpGraph.Shape

/-- Indices into a shape: a number for each dimension, less than it. -/
def indices (s : Shape) : Set (List Nat) := {is | List.Forall₂ (· < ·) is s}

/-- The place of the element at an index: as many strides along each dimension as the index says. -/
def offset (s : Shape) (is : List Nat) : Nat := (List.zipWith (· * ·) is s.strides).sum

/-- The index of the element at a place: how often each stride goes into what the ones before it left. -/
def indexAt : Shape → Nat → List Nat
  | [], _ => []
  | _ :: rest, n => n / count rest :: indexAt rest (n % count rest)

variable {s : Shape} {is js : List Nat} {d i n : Nat}

theorem strides_cons (d : Nat) (s : Shape) : strides (d :: s) = count s :: strides s := rfl

@[simp] theorem offset_nil (is : List Nat) : offset [] is = 0 := by
  simp [offset, strides]

@[simp] theorem offset_cons (d : Nat) (s : Shape) (i : Nat) (is : List Nat) :
    offset (d :: s) (i :: is) = i * count s + offset s is := by
  simp [offset, strides]

/-! ## Places and indices -/

/-- What lies in a block lies before every later block. -/
theorem lt_block {i j o c : Nat} (ho : o < c) (hij : i < j) : i * c + o < j * c :=
  calc i * c + o < i * c + c := Nat.add_lt_add_left ho _
    _ = (i + 1) * c := (Nat.succ_mul i c).symm
    _ ≤ j * c := Nat.mul_le_mul_right c hij

/-- The place of an index is one of the shape's. -/
theorem offset_lt (h : is ∈ s.indices) : s.offset is < s.count := by
  induction h with
  | nil => simp
  | cons hi _ ih =>
      rw [offset_cons, count_cons]
      exact lt_block ih hi

/-- Where there is a place, the blocks that the first dimension counts are not empty. -/
theorem count_pos_of_lt (h : n < count (d :: s)) : 0 < count s := by
  apply Nat.pos_of_ne_zero
  intro hzero
  rw [count_cons, hzero] at h
  exact Nat.not_lt_zero _ h

theorem indexAt_mem (h : n < s.count) : s.indexAt n ∈ s.indices := by
  induction s generalizing n with
  | nil => exact .nil
  | cons d s ih =>
      have hpos := count_pos_of_lt h
      exact .cons ((Nat.div_lt_iff_lt_mul hpos).mpr h) (ih (Nat.mod_lt n hpos))

/-- The index of a place has that place. -/
theorem offset_indexAt (h : n < s.count) : s.offset (s.indexAt n) = n := by
  induction s generalizing n with
  | nil =>
      rw [count_nil, Nat.lt_one_iff] at h
      rw [offset_nil, h]
  | cons d s ih =>
      have hpos := count_pos_of_lt h
      rw [indexAt, offset_cons, ih (Nat.mod_lt n hpos)]
      exact Nat.div_add_mod' n (count s)

/-- An index is that of its place. -/
theorem indexAt_offset (h : is ∈ s.indices) : s.indexAt (s.offset is) = is := by
  induction h with
  | nil => rfl
  | @cons i d is s hi hrest ih =>
      have hlt : offset s is < count s := offset_lt hrest
      have hpos : 0 < count s := Nat.zero_lt_of_lt hlt
      -- What the other digits add is less than one block.
      have hdiv : (i * count s + offset s is) / count s = i := by
        rw [Nat.mul_comm, Nat.mul_add_div hpos, Nat.div_eq_of_lt hlt, Nat.add_zero]
      have hmod : (i * count s + offset s is) % count s = offset s is := by
        rw [Nat.mul_comm, Nat.mul_add_mod, Nat.mod_eq_of_lt hlt]
      rw [offset_cons, indexAt, hdiv, hmod, ih]

/-- **Every place below the element count is that of exactly one index.** -/
theorem bijOn_offset (s : Shape) : Set.BijOn s.offset s.indices (Set.Iio s.count) := by
  have hinv : Set.InvOn s.indexAt s.offset s.indices (Set.Iio s.count) := by
    constructor
    · intro is his
      exact indexAt_offset his
    · intro n hn
      exact offset_indexAt hn
  apply hinv.bijOn
  · intro is his
    exact offset_lt his
  · intro n hn
    exact indexAt_mem hn

/-- **Of two indices, the one that is less in the first dimension where they differ comes first.** -/
theorem offset_lt_of_lex (his : is ∈ s.indices) (hjs : js ∈ s.indices) (h : List.Lex (· < ·) is js) :
    s.offset is < s.offset js := by
  -- The induction is on where the two first differ; `rel` is the dimension where they do.
  induction h generalizing s with
  | nil =>
      cases his
      cases hjs
  | @cons i is js _ ih =>
      cases his with
      | cons _ his =>
          cases hjs with
          | cons _ hjs =>
              rw [offset_cons, offset_cons]
              exact Nat.add_lt_add_left (ih his hjs) _
  | @rel i is j js hij =>
      cases his with
      | @cons _ d _ s _ his =>
          rw [offset_cons, offset_cons]
          exact Nat.lt_of_lt_of_le (lt_block (offset_lt his) hij) (Nat.le_add_right _ _)

/-! ## The size of a stride -/

/-- **A stride times its dimension divides the element count.** -/
theorem stride_mul_dvd (s : Shape) : ∀ p ∈ s.zip s.strides, p.2 * p.1 ∣ s.count := by
  induction s with
  | nil =>
      intro p hp
      cases hp
  | cons d s ih =>
      intro p hp
      rw [strides_cons, List.zip_cons_cons] at hp
      rcases List.mem_cons.mp hp with rfl | hp
      · exact dvd_of_eq (Nat.mul_comm (count s) d)
      · exact (ih p hp).trans (Nat.dvd_mul_left _ _)

theorem stride_dvd {x : Nat} (h : x ∈ s.strides) : x ∣ s.count := by
  have hsnd : (s.zip s.strides).map Prod.snd = s.strides := List.map_snd_zip (Nat.le_of_eq (length_strides s))
  obtain ⟨p, hp, rfl⟩ := List.mem_map.mp (hsnd ▸ h)
  exact (Nat.dvd_mul_right p.2 p.1).trans (s.stride_mul_dvd p hp)

theorem count_pos (h : ∀ d ∈ s, 1 ≤ d) : 0 < s.count := by
  induction s with
  | nil => exact Nat.one_pos
  | cons d s ih =>
      rw [List.forall_mem_cons] at h
      exact Nat.mul_pos h.1 (ih h.2)

/-! ## Sizes in words -/

theorem product?_eq_some_iff {a b c : Nat} : product? a b = some c ↔ c = a * b ∧ c < 2 ^ 64 := by
  unfold product?
  constructor
  · intro h
    split at h
    next hlt =>
        obtain rfl := Option.some.inj h
        exact ⟨rfl, hlt⟩
    · cases h
  · rintro ⟨rfl, hlt⟩
    exact if_pos hlt

/-- Working out a product in words, one dimension after the other, finds it if words hold all products on the
    way, and nothing else. -/
theorem foldlM_product?_eq_some_iff {a : Nat} (ha : a < 2 ^ 64) :
    s.foldlM product? a = some n ↔ n = a * s.count ∧ ∀ k, a * count (s.take k) < 2 ^ 64 := by
  induction s generalizing a with
  | nil =>
      simp only [List.foldlM_nil, Option.pure_def, Option.some.injEq, List.take_nil, count_nil, Nat.mul_one,
        forall_const, ha, and_true]
      exact eq_comm
  | cons d s ih =>
      have htake : (∀ k, a * count ((d :: s).take k) < 2 ^ 64) ↔
          a * d < 2 ^ 64 ∧ ∀ k, a * d * count (s.take k) < 2 ^ 64 := by
        constructor
        · intro h
          refine ⟨by simpa using h 1, fun k => ?_⟩
          have hk := h (k + 1)
          rwa [List.take_succ_cons, count_cons, ← Nat.mul_assoc] at hk
        · rintro ⟨-, h⟩ k
          cases k with
          | zero => simpa using ha
          | succ k =>
              rw [List.take_succ_cons, count_cons, ← Nat.mul_assoc]
              exact h k
      rw [List.foldlM_cons, htake, count_cons, ← Nat.mul_assoc, Option.bind_eq_bind, Option.bind_eq_some_iff]
      constructor
      · rintro ⟨b, hb, hrest⟩
        obtain ⟨rfl, hlt⟩ := product?_eq_some_iff.mp hb
        obtain ⟨rfl, hall⟩ := (ih hlt).mp hrest
        exact ⟨rfl, hlt, hall⟩
      · rintro ⟨rfl, hlt, hall⟩
        exact ⟨a * d, product?_eq_some_iff.mpr ⟨rfl, hlt⟩, (ih hlt).mpr ⟨rfl, hall⟩⟩

/-- **Counting the elements in words finds how many there are** if words hold all products on the way, and
    nothing else. -/
theorem countInWords?_eq_some_iff :
    s.countInWords? = some n ↔ n = s.count ∧ ∀ k, count (s.take k) < 2 ^ 64 := by
  unfold countInWords?
  rw [foldlM_product?_eq_some_iff (by decide)]
  simp only [Nat.one_mul]

/-- **Working out the strides in words finds them if words hold them all, and nothing else.** -/
theorem stridesInWords?_eq_some_iff {xs : List Nat} :
    s.stridesInWords? = some xs ↔ xs = s.strides ∧ ∀ x ∈ s.strides, x < 2 ^ 64 := by
  fun_induction stridesInWords? s generalizing xs with
  | case1 => simp [strides, eq_comm]
  | case2 d => simp [strides, eq_comm]
  | case3 d' d rest ih =>
      -- The head of the inner strides is the element count of what is further in.
      have hhead : (strides (d :: rest)).headD 1 * d = count (d :: rest) := Nat.mul_comm _ _
      rw [strides_cons, List.forall_mem_cons]
      simp only [Option.bind_eq_bind, Option.bind_eq_some_iff, Option.pure_def, Option.some.injEq]
      constructor
      · rintro ⟨inner, hinner, stride, hstride, rfl⟩
        obtain ⟨rfl, hall⟩ := ih.mp hinner
        obtain ⟨rfl, hlt⟩ := product?_eq_some_iff.mp hstride
        rw [hhead] at hlt ⊢
        exact ⟨rfl, hlt, hall⟩
      · rintro ⟨rfl, hlt, hall⟩
        exact ⟨_, ih.mpr ⟨rfl, hall⟩, _, product?_eq_some_iff.mpr ⟨hhead.symm, hlt⟩, rfl⟩

/-- **Strides fit in words that hold the element count**, where no dimension is zero. -/
theorem strides_fit (hpos : ∀ d ∈ s, 1 ≤ d) (hcount : s.count < 2 ^ 64) : ∀ x ∈ s.strides, x < 2 ^ 64 := by
  intro x hx
  exact Nat.lt_of_le_of_lt (Nat.le_of_dvd (count_pos hpos) (stride_dvd hx)) hcount

/-- **Strides lay elements out in row-major order.** Going as many strides along each dimension as an index
    says takes every index to a place of its own below the element count and leaves none of these out, and
    indices in lexicographic order are taken to places in order. Where no dimension is zero, each stride times
    its dimension divides the element count and is at most that; then working the strides out in words of 64
    bits goes well if a word holds the element count. -/
theorem laid_out_row_major (s : Shape) :
    Set.BijOn s.offset s.indices (Set.Iio s.count) ∧
    (∀ is ∈ s.indices, ∀ js ∈ s.indices, List.Lex (· < ·) is js → s.offset is < s.offset js) ∧
    ((∀ d ∈ s, 1 ≤ d) →
      (∀ p ∈ s.zip s.strides, p.2 * p.1 ∣ s.count ∧ p.2 * p.1 ≤ s.count) ∧
      (s.count < 2 ^ 64 → (∀ x ∈ s.strides, x < 2 ^ 64) ∧ s.stridesInWords? = some s.strides)) := by
  refine ⟨s.bijOn_offset, fun is his js hjs hlex => offset_lt_of_lex his hjs hlex, fun hpos => ⟨?_, ?_⟩⟩
  · intro p hp
    have hdvd := s.stride_mul_dvd p hp
    exact ⟨hdvd, Nat.le_of_dvd (count_pos hpos) hdvd⟩
  · intro hcount
    have hfit := strides_fit hpos hcount
    exact ⟨hfit, stridesInWords?_eq_some_iff.mpr ⟨rfl, hfit⟩⟩

/-- In two by three by four, the last index of the first half comes right before the first of the second. -/
theorem laid_out_row_major_halves : offset [2, 3, 4] [0, 2, 3] = 11 ∧ offset [2, 3, 4] [1, 0, 0] = 12 ∧
    offset [2, 3, 4] [0, 2, 3] < offset [2, 3, 4] [1, 0, 0] ∧ stridesInWords? [2, 3, 4] = some [12, 4, 1] := by
  obtain ⟨-, hlex, hwords⟩ := laid_out_row_major [2, 3, 4]
  have hfirst : [0, 2, 3] ∈ indices [2, 3, 4] := by simp [indices]
  have hsecond : [1, 0, 0] ∈ indices [2, 3, 4] := by simp [indices]
  exact ⟨rfl, rfl, hlex _ hfirst _ hsecond (.rel (by decide)), ((hwords (by decide)).2 (by decide)).2⟩

/-- With a zero dimension a stride can be more than the element count. -/
example : strides [3, 0, 2] = [0, 2, 1] ∧ count [3, 0, 2] = 0 := by decide

end OpGraph.Shape
