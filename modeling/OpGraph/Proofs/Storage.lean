import Mathlib.Algebra.Group.Nat.Defs
import Mathlib.Order.Bounds.Defs
import OpGraph.Proofs.Offsets
import OpGraph.Proofs.Outcome
import OpGraph.Tensor.Basic

/-!
# `Proofs.Storage` — what the words of a tensor hold

Words hold the bytes they were made of, eight each, and elements are read from bytes as they were written,
whatever their width. Writing puts bytes in the place of others and touches nothing else
(`Words.unpack_write`). A tensor is allocated with as few words as hold its elements and with zeros in all of
them, if words hold the sizes of its shape (`Shape.Fits`). Every write stays inside the bytes of the elements,
so what lies behind them is zeros ever after (`Tensor.Tight`): whole words differ only where elements do, and
comparing words compares tensors (`Tensor.Tight.eq_iff`).

A shape that fits holds no more bytes than an allocation can have. The converse is true of shapes with no zero
dimension (`Shape.fits_iff`); with one, there may be strides that no word holds for elements that are none.
-/

namespace OpGraph

open Outcome

/-! ## Bytes -/

namespace Bytes

variable {n o : Nat} {bs new : List UInt8} {xs : List Nat}

theorem count_eq (n : Nat) : count n = 2 ^ (8 * n) := by
  induction n with
  | zero => rfl
  | succ n ih =>
      rw [count, ih, Nat.mul_succ, Nat.pow_add]
      omega

theorem ofNat_zero (n : Nat) : ofNat n 0 = List.replicate n 0 := by
  induction n with
  | zero => rfl
  | succ n ih =>
      rw [ofNat, Nat.zero_div, ih, List.replicate_succ]
      rfl

/-! ### Numbers one behind the other -/

theorem ofNats_cons (n x : Nat) (xs : List Nat) : ofNats n (x :: xs) = ofNat n x ++ ofNats n xs := rfl

theorem toNats_eq_cons (hn : 0 < n) (h : n ≤ bs.length) :
    toNats n bs = toNat (bs.take n) :: toNats n (bs.drop n) := by
  have hcount : bs.length / n = (bs.drop n).length / n + 1 := by
    rw [List.length_drop, Nat.div_eq_sub_div hn h]
  unfold toNats
  rw [hcount, List.range_succ_eq_map, List.map_cons, List.map_map]
  congr 1
  refine List.map_congr_left fun i _ => ?_
  rw [Function.comp_apply, List.drop_drop, Nat.mul_succ, Nat.add_comm n]

/-- Numbers that fit their width are read back. -/
theorem toNats_ofNats (hn : 0 < n) (h : ∀ x ∈ xs, x < count n) : toNats n (ofNats n xs) = xs := by
  induction xs with
  | nil =>
      have hnone : (ofNats n []).length / n = 0 := by simp
      unfold toNats
      rw [hnone]
      rfl
  | cons x xs ih =>
      rw [List.forall_mem_cons] at h
      have hlen : n ≤ (ofNats n (x :: xs)).length := by
        rw [length_ofNats, List.length_cons, Nat.succ_mul]
        exact Nat.le_add_left ..
      rw [toNats_eq_cons hn hlen, ofNats_cons, List.take_left' (length_ofNat ..), List.drop_left' (length_ofNat ..),
        toNat_ofNat, Nat.mod_eq_of_lt h.1, ih h.2]

/-- Bytes that come to whole numbers are written back. -/
theorem ofNats_toNats (hn : 0 < n) (h : n ∣ bs.length) : ofNats n (toNats n bs) = bs := by
  obtain ⟨k, hk⟩ := h
  induction k generalizing bs with
  | zero =>
      obtain rfl : bs = [] := List.length_eq_zero_iff.mp hk
      unfold toNats
      rw [List.length_nil, Nat.zero_div]
      rfl
  | succ k ih =>
      rw [Nat.mul_succ] at hk
      have htake : (bs.take n).length = n := by
        rw [List.length_take]
        omega
      have hdrop : (bs.drop n).length = n * k := by
        rw [List.length_drop]
        omega
      have hfirst : ofNat n (toNat (bs.take n)) = bs.take n := by
        have hsame := ofNat_toNat (bs.take n)
        rwa [htake] at hsame
      rw [toNats_eq_cons hn (by omega), ofNats_cons, hfirst, ih hdrop, List.take_append_drop]

theorem toNats_lt (hx : o ∈ toNats n bs) : o < count n := by
  obtain ⟨i, -, rfl⟩ := List.mem_map.mp hx
  refine Nat.lt_of_lt_of_le (toNat_lt_count _) ?_
  rw [count_eq, count_eq]
  refine Nat.pow_le_pow_right (by omega) (Nat.mul_le_mul_left 8 ?_)
  rw [List.length_take]
  exact Nat.min_le_left ..

theorem ofNats_replicate (n k : Nat) : ofNats n (List.replicate k 0) = List.replicate (k * n) 0 := by
  induction k with
  | zero => simp [ofNats]
  | succ k ih =>
      rw [List.replicate_succ, ofNats_cons, ofNat_zero, ih, List.replicate_append_replicate, Nat.succ_mul, Nat.add_comm]

/-! ### Bytes in the place of others -/

theorem length_splice (h : o + new.length ≤ bs.length) : (splice o new bs).length = bs.length := by
  unfold splice
  rw [List.length_append, List.length_append, List.length_take, List.length_drop]
  omega

/-- What is before a place behind the new bytes has them in it. -/
theorem take_splice (h : o + new.length ≤ n) (hn : n ≤ bs.length) :
    (splice o new bs).take n = splice o new (bs.take n) := by
  have hlen : (bs.take o ++ new).length = o + new.length := by
    rw [List.length_append, List.length_take]
    omega
  unfold splice
  rw [List.take_append, List.take_of_length_le (by omega), hlen, List.drop_take, List.take_take,
    Nat.min_eq_left (by omega)]

/-- What lies behind the new bytes stays. -/
theorem drop_splice (h : o + new.length ≤ n) (hn : n ≤ bs.length) : (splice o new bs).drop n = bs.drop n := by
  have hlen : (bs.take o ++ new).length = o + new.length := by
    rw [List.length_append, List.length_take]
    omega
  unfold splice
  rw [List.drop_append, List.drop_of_length_le (by omega), hlen, List.nil_append, List.drop_drop,
    Nat.add_sub_cancel' h]

theorem splice_all (h : new.length = bs.length) : splice 0 new bs = new := by
  unfold splice
  rw [List.take_zero, List.nil_append, Nat.zero_add, h, List.drop_length, List.append_nil]

/-- A number in the place of another. -/
theorem splice_ofNats {i : Nat} (h : i < xs.length) (x : Nat) :
    splice (n * i) (ofNat n x) (ofNats n xs) = ofNats n (xs.set i x) := by
  induction xs generalizing i with
  | nil => cases h
  | cons y ys ih =>
      cases i with
      | zero =>
          unfold splice
          rw [Nat.mul_zero, List.take_zero, List.nil_append, Nat.zero_add, length_ofNat, ofNats_cons,
            List.drop_left' (length_ofNat ..)]
          rfl
      | succ i =>
          have hrest := ih (Nat.lt_of_succ_lt_succ h)
          have hplace : n * (i + 1) = n + n * i := by rw [Nat.mul_succ, Nat.add_comm]
          unfold splice at hrest ⊢
          rw [List.set_cons_succ, ofNats_cons, ofNats_cons, ← hrest, length_ofNat, hplace, Nat.add_assoc,
            List.take_append, List.drop_append, length_ofNat, Nat.add_sub_cancel_left, Nat.add_sub_cancel_left,
            List.take_of_length_le (by simp), List.drop_of_length_le (by simp), List.nil_append]
          simp only [List.append_assoc]

end Bytes

/-! ## Words -/

namespace Words

variable {o : Nat} {bs : List UInt8} {ws : List UInt64}

/-- As many words as needed hold the bytes, and fewer do not. -/
theorem needed_isLeast (n : Nat) : IsLeast {k | n ≤ 8 * k} (needed n) := by
  constructor
  · show n ≤ 8 * needed n
    unfold needed
    omega
  · intro k hk
    have hk : n ≤ 8 * k := hk
    unfold needed
    omega

theorem unpack_replicate (k : Nat) : unpack (List.replicate k 0) = List.replicate (k * 8) 0 := by
  unfold unpack
  rw [List.map_replicate]
  exact Bytes.ofNats_replicate 8 k

/-- Different words hold different bytes. -/
theorem unpack_injective : Function.Injective unpack := by
  intro ws ws' h
  have hread : ∀ ws : List UInt64, Bytes.toNats 8 (unpack ws) = ws.map (·.toNat) := by
    intro ws
    refine Bytes.toNats_ofNats (by decide) fun x hx => ?_
    obtain ⟨w, -, rfl⟩ := List.mem_map.mp hx
    exact w.toNat_lt
  have hsame := congrArg (Bytes.toNats 8) h
  rw [hread, hread] at hsame
  exact List.map_injective_iff.mpr (fun _ _ => UInt64.toNat_inj.mp) hsame

/-- Whole words hold the bytes they were made of. -/
theorem unpack_pack (h : 8 ∣ bs.length) : unpack (pack bs) = bs := by
  have hwords : ((Bytes.toNats 8 bs).map UInt64.ofNat).map (·.toNat) = Bytes.toNats 8 bs := by
    rw [List.map_map]
    conv_rhs => rw [← List.map_id (Bytes.toNats 8 bs)]
    refine List.map_congr_left fun x hx => ?_
    exact UInt64.toNat_ofNat_of_lt' (Bytes.toNats_lt hx)
  unfold unpack pack
  rw [hwords, Bytes.ofNats_toNats (by decide) h]

/-- **Writing puts bytes in the place of others.** -/
theorem unpack_write (h : o + bs.length ≤ ws.length * 8) :
    unpack (write o bs ws) = Bytes.splice o bs (unpack ws) := by
  unfold write
  refine unpack_pack ?_
  rw [Bytes.length_splice (by rwa [length_unpack]), length_unpack]
  exact Nat.dvd_mul_left ..

theorem length_write (h : o + bs.length ≤ ws.length * 8) : (write o bs ws).length = ws.length := by
  have hbytes := congrArg List.length (unpack_write h)
  rw [Bytes.length_splice (by rwa [length_unpack]), length_unpack, length_unpack] at hbytes
  omega

end Words

/-! ## Elements -/

theorem DataType.size_pos {d : DataType} (h : d.isDefined) : 0 < d.size := by
  cases d
  case undefined => cases h
  all_goals decide

theorem DataType.size_le (d : DataType) : d.size ≤ 8 := by
  cases d <;> decide

namespace Tensor

variable {d : DataType} {xs : List (Element d)} {t : Tensor} {bs : List UInt8}

@[simp] theorem length_encode (xs : List (Element d)) : (encode d xs).length = xs.length * d.size := by
  simp [encode]

/-- Reading elements undoes writing them. -/
theorem decode_encode (h : d.isDefined) (xs : List (Element d)) : decode d (encode d xs) = xs := by
  have hread : Bytes.toNats d.size (encode d xs) = xs.map (·.toNat) := by
    refine Bytes.toNats_ofNats (DataType.size_pos h) fun n hn => ?_
    obtain ⟨x, -, rfl⟩ := List.mem_map.mp hn
    rw [Bytes.count_eq]
    exact x.isLt
  unfold decode
  rw [hread, List.map_map]
  conv_rhs => rw [← List.map_id xs]
  refine List.map_congr_left fun x _ => ?_
  rw [Function.comp_apply, BitVec.ofNat_toNat, BitVec.setWidth_eq, id]

/-- Writing the elements that were read leaves the bytes as they are. -/
theorem encode_decode (h : d.isDefined) (hbs : d.size ∣ bs.length) : encode d (decode d bs) = bs := by
  have hnumbers : (decode d bs).map (·.toNat) = Bytes.toNats d.size bs := by
    unfold decode
    rw [List.map_map]
    conv_rhs => rw [← List.map_id (Bytes.toNats d.size bs)]
    refine List.map_congr_left fun n hn => ?_
    have hlt := Bytes.toNats_lt hn
    rw [Bytes.count_eq] at hlt
    rw [Function.comp_apply, BitVec.toNat_ofNat, id]
    exact Nat.mod_eq_of_lt hlt
  unfold encode
  rw [hnumbers, Bytes.ofNats_toNats (DataType.size_pos h) hbs]

theorem view_isOk : (∃ xs, t.view d = .ok xs) ↔ t.dtype = d := by
  unfold view
  by_cases h : t.dtype = d <;> simp [h]

theorem view_eq_ok : t.view d = .ok xs ↔ t.dtype = d ∧ xs = decode d t.bytes := by
  unfold view elementsAs
  by_cases h : t.dtype = d <;> simp [h, eq_comm]

end Tensor

/-! ## Sizes that words hold -/

/-- Words hold every size of the shape that is worked out for elements of some size: the products from the first
    dimension on, and the strides. And there can be storage for the elements. -/
structure Shape.Fits (s : Shape) (size : Nat) : Prop where
  counts : ∀ k, Shape.count (s.take k) < 2 ^ 64
  strides : ∀ x ∈ s.strides, x < 2 ^ 64
  bytes : s.count * size ≤ 2 ^ 63 - 8

namespace Shape

variable {s : Shape} {size : Nat}

theorem count_take_dvd (s : Shape) (k : Nat) : count (s.take k) ∣ s.count := by
  induction s generalizing k with
  | nil => simp
  | cons d s ih =>
      cases k with
      | zero => simp
      | succ k =>
          rw [List.take_succ_cons, count_cons, count_cons]
          exact Nat.mul_dvd_mul_left d (ih k)

/-- **Where no dimension is zero, all sizes fit if the bytes of the elements do.** -/
theorem fits_iff (hpos : ∀ d ∈ s, 1 ≤ d) (hsize : 0 < size) : s.Fits size ↔ s.count * size ≤ 2 ^ 63 - 8 := by
  refine ⟨Fits.bytes, fun h => ?_⟩
  have hcount : s.count < 2 ^ 64 := by
    have hle := Nat.le_mul_of_pos_right s.count hsize
    omega
  exact ⟨fun k => Nat.lt_of_le_of_lt (Nat.le_of_dvd (count_pos hpos) (s.count_take_dvd k)) hcount,
    strides_fit hpos hcount, h⟩

theorem fits_nil (d : DataType) : Fits [] d.size where
  counts k := by simp
  strides x hx := nomatch hx
  bytes := by
    have hsize := d.size_le
    rw [count_nil, Nat.one_mul]
    omega

theorem bytesInWords?_eq_some_iff {n : Nat} : s.bytesInWords? size = some n ↔
    n = s.count * size ∧ n < 2 ^ 64 ∧ ∀ k, count (s.take k) < 2 ^ 64 := by
  unfold bytesInWords?
  rw [Option.bind_eq_bind, Option.bind_eq_some_iff]
  constructor
  · rintro ⟨c, hc, hn⟩
    obtain ⟨rfl, hcounts⟩ := countInWords?_eq_some_iff.mp hc
    obtain ⟨rfl, hlt⟩ := product?_eq_some_iff.mp hn
    exact ⟨rfl, hlt, hcounts⟩
  · rintro ⟨rfl, hlt, hcounts⟩
    exact ⟨s.count, countInWords?_eq_some_iff.mpr ⟨rfl, hcounts⟩, product?_eq_some_iff.mpr ⟨rfl, hlt⟩⟩

end Shape

theorem Words.needed_le_most {n : Nat} : needed n ≤ most ↔ n ≤ 2 ^ 63 - 8 := by
  unfold needed most UInt64.size
  omega

/-! ## Making tensors -/

namespace Tensor

variable {d : DataType} {xs : List (Element d)} {shape : Shape} {t u : Tensor} {bs : List UInt8} {i o : Nat}
  {x : Element d}

/-- The tensor of zeros of a shape, with its sizes as they are. -/
def blank (d : DataType) (shape : Shape) : Tensor :=
  ⟨d, shape, shape.strides, shape.count * d.size, List.replicate (Words.needed (shape.count * d.size)) 0⟩

theorem zeros_of_fits (hd : d.isDefined) (h : shape.Fits d.size) : zeros d shape = .ok (blank d shape) := by
  have hbytes : shape.bytesInWords? d.size = some (shape.count * d.size) :=
    Shape.bytesInWords?_eq_some_iff.mpr ⟨rfl, Nat.lt_of_le_of_lt h.bytes (by decide), h.counts⟩
  have hstrides : shape.stridesInWords? = some shape.strides :=
    Shape.stridesInWords?_eq_some_iff.mpr ⟨rfl, h.strides⟩
  simp only [zeros, hd, hbytes, hstrides, Words.needed_le_most.mpr h.bytes, Bool.not_true, Bool.false_eq_true,
    if_true, if_false]
  rfl

/-- Where the sizes do not fit, a tensor cannot be asked for without ending whatever asks. -/
theorem zeros_of_not_fits (hd : d.isDefined) (h : ¬shape.Fits d.size) :
    ∃ e, zeros d shape = .error e ∧ e.panics = true := by
  unfold zeros
  rw [hd, Bool.not_true, if_neg Bool.false_ne_true]
  cases hbytes : shape.bytesInWords? d.size with
  | none => exact ⟨.overflow, rfl, rfl⟩
  | some n =>
      cases hstrides : shape.stridesInWords? with
      | none => exact ⟨.overflow, rfl, rfl⟩
      | some strides =>
          obtain ⟨rfl, -, hcounts⟩ := Shape.bytesInWords?_eq_some_iff.mp hbytes
          obtain ⟨-, hall⟩ := Shape.stridesInWords?_eq_some_iff.mp hstrides
          have hlarge : ¬Words.needed (shape.count * d.size) ≤ Words.most :=
            fun hle => h ⟨hcounts, hall, Words.needed_le_most.mp hle⟩
          exact ⟨.capacity, if_neg hlarge, rfl⟩

theorem zeros_eq_ok : zeros d shape = .ok t ↔ d.isDefined ∧ shape.Fits d.size ∧ t = blank d shape := by
  constructor
  · intro h
    have hd : d.isDefined := by
      unfold zeros at h
      cases hd : d.isDefined with
      | false => simp [hd] at h
      | true => rfl
    by_cases hfits : shape.Fits d.size
    · rw [zeros_of_fits hd hfits] at h
      exact ⟨hd, hfits, (Except.ok.inj h).symm⟩
    · obtain ⟨e, he, -⟩ := zeros_of_not_fits hd hfits
      rw [he] at h
      cases h
  · rintro ⟨hd, hfits, rfl⟩
    exact zeros_of_fits hd hfits

/-! ## Tight storage -/

/-- The sizes are those of the shape, there are as many words as the elements need, and zeros behind the
    elements. -/
structure Tight (t : Tensor) : Prop where
  defined : t.dtype.isDefined
  fits : t.shape.Fits t.dtype.size
  strides : t.strides = t.shape.strides
  byteLength : t.byteLength = t.count * t.dtype.size
  words : t.words.length = Words.needed t.byteLength
  padding : (Words.unpack t.words).drop t.byteLength =
    List.replicate (t.words.length * 8 - t.byteLength) 0

theorem Tight.le_words (h : t.Tight) : t.byteLength ≤ t.words.length * 8 := by
  have hfits : t.byteLength ≤ 8 * Words.needed t.byteLength := (Words.needed_isLeast t.byteLength).1
  rw [h.words]
  omega

theorem Tight.bytes_length (h : t.Tight) : t.bytes.length = t.byteLength := by
  unfold bytes
  rw [List.length_take, Words.length_unpack]
  exact Nat.min_eq_left h.le_words

theorem Tight.size_dvd (h : t.Tight) : t.dtype.size ∣ t.bytes.length := by
  rw [h.bytes_length, h.byteLength]
  exact Nat.dvd_mul_left ..

/-- All bytes of the words are those of the elements and zeros. -/
theorem Tight.unpack_words (h : t.Tight) : Words.unpack t.words =
    t.bytes ++ List.replicate (t.words.length * 8 - t.byteLength) 0 := by
  rw [← h.padding]
  exact (List.take_append_drop ..).symm

theorem Tight.blank (hd : d.isDefined) (h : shape.Fits d.size) : (blank d shape).Tight where
  defined := hd
  fits := h
  strides := rfl
  byteLength := rfl
  words := List.length_replicate
  padding := by
    show (Words.unpack (List.replicate _ 0)).drop _ = List.replicate ((List.replicate _ (0 : UInt64)).length * 8 - _) 0
    rw [Words.unpack_replicate, List.drop_replicate, List.length_replicate]

/-- Bytes put in the place of others, inside those of the elements, leave everything else as it was. -/
theorem Tight.put (h : t.Tight) (hin : o + bs.length ≤ t.byteLength) :
    (t.put o bs).Tight ∧ (t.put o bs).bytes = Bytes.splice o bs t.bytes := by
  have hwords : o + bs.length ≤ t.words.length * 8 := Nat.le_trans hin h.le_words
  have hunpack := Words.unpack_write hwords
  have hlen := Words.length_write hwords
  have hall : t.byteLength ≤ (Words.unpack t.words).length := by
    rw [Words.length_unpack]
    exact h.le_words
  constructor
  · refine ⟨h.defined, h.fits, h.strides, h.byteLength, hlen.trans h.words, ?_⟩
    show (Words.unpack (Words.write o bs t.words)).drop t.byteLength =
      List.replicate ((Words.write o bs t.words).length * 8 - t.byteLength) 0
    rw [hunpack, hlen, Bytes.drop_splice hin hall, h.padding]
  · show (Words.unpack (Words.write o bs t.words)).take t.byteLength = Bytes.splice o bs t.bytes
    rw [hunpack, Bytes.take_splice hin hall]
    rfl

/-- **Tensors with tight storage are the same exactly if their types, shapes and bytes are.** -/
theorem Tight.eq_iff (ht : t.Tight) (hu : u.Tight) :
    t = u ↔ t.dtype = u.dtype ∧ t.shape = u.shape ∧ t.bytes = u.bytes := by
  constructor
  · rintro rfl
    exact ⟨rfl, rfl, rfl⟩
  · rintro ⟨hdtype, hshape, hbytes⟩
    have hstrides : t.strides = u.strides := by rw [ht.strides, hu.strides, hshape]
    have hlength : t.byteLength = u.byteLength := by rw [← ht.bytes_length, ← hu.bytes_length, hbytes]
    have hcount : t.words.length = u.words.length := by rw [ht.words, hu.words, hlength]
    have hwords : t.words = u.words := by
      apply Words.unpack_injective
      rw [ht.unpack_words, hu.unpack_words, hbytes, hlength, hcount]
    cases t
    cases u
    simp_all

/-! ## Elements of tight tensors -/

theorem Tight.view_length (h : t.Tight) (hxs : t.view d = .ok xs) : xs.length = t.count := by
  obtain ⟨rfl, rfl⟩ := view_eq_ok.mp hxs
  unfold decode
  rw [List.length_map, Bytes.length_toNats, h.bytes_length, h.byteLength]
  exact Nat.mul_div_cancel _ (DataType.size_pos h.defined)

theorem Tight.encode_view (h : t.Tight) (hxs : t.view d = .ok xs) : encode d xs = t.bytes := by
  obtain ⟨rfl, rfl⟩ := view_eq_ok.mp hxs
  exact encode_decode h.defined h.size_dvd

theorem Tight.view_of_bytes (h : t.Tight) (hd : t.dtype = d) (hbytes : t.bytes = encode d xs) :
    t.view d = .ok xs := by
  subst hd
  exact view_eq_ok.mpr ⟨rfl, by rw [hbytes, decode_encode h.defined]⟩

/-- All elements replaced by as many others are read back. -/
theorem Tight.put_all (h : t.Tight) (hd : t.dtype = d) (hlen : xs.length = t.count) :
    (t.put 0 (encode d xs)).Tight ∧ (t.put 0 (encode d xs)).view d = .ok xs := by
  have hbytes : (encode d xs).length = t.byteLength := by rw [length_encode, hlen, h.byteLength, hd]
  have hin : 0 + (encode d xs).length ≤ t.byteLength := by rw [Nat.zero_add, hbytes]
  obtain ⟨htight, hput⟩ := h.put hin
  refine ⟨htight, htight.view_of_bytes hd ?_⟩
  rw [hput, Bytes.splice_all (hbytes.trans h.bytes_length.symm)]

/-- An element replaced by another is read back, and the others as they were. -/
theorem Tight.put_element (h : t.Tight) (hxs : t.view d = .ok xs) (hi : i < xs.length) (x : Element d) :
    (t.put (d.size * i) (Bytes.ofNat d.size x.toNat)).Tight ∧
      (t.put (d.size * i) (Bytes.ofNat d.size x.toNat)).view d = .ok (xs.set i x) := by
  have hencode := h.encode_view hxs
  have hbytes : t.byteLength = xs.length * d.size := by rw [← h.bytes_length, ← hencode, length_encode]
  have hin : d.size * i + (Bytes.ofNat d.size x.toNat).length ≤ t.byteLength := by
    rw [Bytes.length_ofNat, hbytes, ← Nat.mul_succ, Nat.mul_comm]
    exact Nat.mul_le_mul_right d.size hi
  obtain ⟨htight, hput⟩ := h.put hin
  refine ⟨htight, htight.view_of_bytes (view_eq_ok.mp hxs).1 ?_⟩
  rw [hput, ← hencode]
  unfold encode
  rw [Bytes.splice_ofNats (by rwa [List.length_map]), List.map_set]

theorem write_eq (h : t.view d = .ok xs) (i : Nat) (x : Element d) : t.write d i x =
    if i < xs.length then .ok (t.put (d.size * i) (Bytes.ofNat d.size x.toNat))
    else .error (.elementOutside i xs.length) := by
  unfold write
  rw [h]
  rfl

/-- Writing an element leaves all but the words alone. -/
theorem write_eq_ok (h : t.write d i x = .ok u) : ∃ xs, t.view d = .ok xs ∧ i < xs.length ∧
    u = t.put (d.size * i) (Bytes.ofNat d.size x.toNat) := by
  obtain ⟨xs, hxs, -⟩ := bind_eq_ok.mp h
  rw [write_eq hxs] at h
  split at h
  next hi => exact ⟨xs, hxs, hi, (Except.ok.inj h).symm⟩
  · cases h

/-- Replacing all elements leaves all but the words alone. -/
theorem overwrite_eq_ok (h : t.overwrite d xs = .ok u) : t.dtype = d ∧ u = t.put 0 (encode d xs) := by
  obtain ⟨old, hold, h⟩ := bind_eq_ok.mp h
  refine ⟨view_isOk.mp ⟨old, hold⟩, ?_⟩
  split at h
  · exact (Except.ok.inj h).symm
  · cases h

/-! ## Tensors that come about -/

/-- **A tensor comes of elements exactly if they are as many as the shape holds and its sizes fit.** -/
theorem ofElements_eq_ok : ofElements d xs shape = .ok t ↔ d.isDefined ∧ xs.length = shape.count ∧
    shape.Fits d.size ∧ t = (blank d shape).put 0 (encode d xs) := by
  have hoverwrite : ∀ {n}, d.isDefined → shape.Fits d.size → n = shape.count → xs.length = n →
      (blank d shape).overwrite d xs = .ok ((blank d shape).put 0 (encode d xs)) := by
    intro n hd hfits hn hlen
    obtain ⟨old, hold⟩ := view_isOk.mpr (show (blank d shape).dtype = d from rfl)
    have hcount : old.length = shape.count := (Tight.blank hd hfits).view_length hold
    unfold overwrite
    rw [hold]
    exact if_pos (by rw [hlen, hn, hcount])
  unfold ofElements
  cases hcount : shape.countInWords? with
  | none =>
      simp only [reduceCtorEq, false_iff]
      rintro ⟨-, -, hfits, -⟩
      rw [Shape.countInWords?_eq_some_iff.mpr ⟨rfl, hfits.counts⟩] at hcount
      cases hcount
  | some n =>
      obtain ⟨hn, -⟩ := Shape.countInWords?_eq_some_iff.mp hcount
      dsimp only
      constructor
      · intro h
        split at h
        next hlen =>
          obtain ⟨t₀, hzeros, h⟩ := bind_eq_ok.mp h
          obtain ⟨hd, hfits, rfl⟩ := zeros_eq_ok.mp hzeros
          rw [hoverwrite hd hfits hn hlen] at h
          exact ⟨hd, hlen.trans hn, hfits, (Except.ok.inj h).symm⟩
        · cases h
      · rintro ⟨hd, hlen, hfits, rfl⟩
        rw [if_pos (hlen.trans hn.symm), zeros_of_fits hd hfits]
        exact hoverwrite hd hfits hn (hlen.trans hn.symm)

/-- As many elements as the shape holds make no tensor if its sizes do not fit, nor do any if words do not hold
    the count. -/
theorem ofElements_of_not_fits (hd : d.isDefined) (hlen : xs.length = shape.count) (h : ¬shape.Fits d.size) :
    ∃ e, ofElements d xs shape = .error e ∧ e.panics = true := by
  unfold ofElements
  cases hcount : shape.countInWords? with
  | none => exact ⟨.overflow, rfl, rfl⟩
  | some n =>
      obtain ⟨hn, -⟩ := Shape.countInWords?_eq_some_iff.mp hcount
      obtain ⟨e, he, hpanics⟩ := zeros_of_not_fits hd h
      dsimp only
      rw [if_pos (hlen.trans hn.symm), he]
      exact ⟨e, rfl, hpanics⟩

/-- Elements of another number are refused, with the number the shape holds. -/
theorem ofElements_of_length_ne {n : Nat} (hcount : shape.countInWords? = some n) (hlen : xs.length ≠ n) :
    ofElements d xs shape = .error (.shapeMismatch shape n xs.length) := by
  unfold ofElements
  rw [hcount]
  exact if_neg hlen

/-- A tensor of one element has no dimensions. -/
theorem scalar_eq (hd : d.isDefined) (x : Element d) : ofElements d [x] [] = .ok (scalar d x) := by
  refine ofElements_eq_ok.mpr ⟨hd, rfl, Shape.fits_nil d, ?_⟩
  have hblank : blank d [] = ⟨d, [], [], d.size, List.replicate (Words.needed d.size) 0⟩ := by
    unfold blank
    rw [Shape.count_nil, Nat.one_mul]
    rfl
  have hencode : encode d [x] = Bytes.ofNat d.size x.toNat := List.append_nil _
  rw [hblank, hencode]
  rfl

/-- Tensors that come about: made of zeros, of elements or of one element, and written to element by
    element. A copy is the tensor itself. -/
inductive Made : Tensor → Prop
  | zeros {d : DataType} {shape : Shape} {t : Tensor} : Tensor.zeros d shape = .ok t → Made t
  | ofElements {d : DataType} {xs : List (Element d)} {shape : Shape} {t : Tensor} :
      Tensor.ofElements d xs shape = .ok t → Made t
  | scalar {d : DataType} : d.isDefined → (x : Element d) → Made (Tensor.scalar d x)
  | write {d : DataType} {i : Nat} {x : Element d} {t t' : Tensor} :
      Made t → t.write d i x = .ok t' → Made t'

/-- What is made of elements is tight and has these elements. -/
theorem ofElements_tight (h : ofElements d xs shape = .ok t) :
    t.Tight ∧ t.dtype = d ∧ t.shape = shape ∧ t.view d = .ok xs := by
  obtain ⟨hd, hlen, hfits, rfl⟩ := ofElements_eq_ok.mp h
  obtain ⟨htight, hview⟩ := (Tight.blank hd hfits).put_all rfl hlen
  exact ⟨htight, rfl, rfl, hview⟩

/-- **Whatever was done to a tensor, its storage is tight.** -/
theorem Made.tight (h : t.Made) : t.Tight := by
  induction h with
  | zeros h =>
      obtain ⟨hd, hfits, rfl⟩ := zeros_eq_ok.mp h
      exact .blank hd hfits
  | ofElements h => exact (ofElements_tight h).1
  | scalar hd x => exact (ofElements_tight (scalar_eq hd x)).1
  | write _ h ih =>
      obtain ⟨xs, hxs, hi, rfl⟩ := write_eq_ok h
      exact (ih.put_element hxs hi _).1

/-- **Tensors are stored exactly.** The words are the fewest that hold the elements, with zeros behind, so
    whole words tell tensors apart just as types, shapes and bytes do. Elements make a tensor exactly if they
    are as many as the shape holds and the sizes of the shape fit, which where no dimension is zero only asks
    that there can be storage for the bytes; other numbers of elements are refused, and sizes that do not fit
    end whatever asks. Elements are read back bit for bit; one that is written is read back, and the others
    with it as they were. Elements are read as those of the tensor's own type and of no other. -/
theorem stored_exactly :
    (∀ t : Tensor, t.Made → t.shape.countInWords? = some t.count ∧
      t.bytes.length = t.count * t.dtype.size ∧ IsLeast {k | t.bytes.length ≤ 8 * k} t.words.length ∧
      ∀ b ∈ (Words.unpack t.words).drop t.bytes.length, b = 0) ∧
    (∀ t u : Tensor, t.Made → u.Made → (t = u ↔ t.dtype = u.dtype ∧ t.shape = u.shape ∧ t.bytes = u.bytes)) ∧
    (∀ (d : DataType) (xs : List (Element d)) (shape : Shape), d.isDefined →
      ((∃ t, Tensor.ofElements d xs shape = .ok t) ↔ xs.length = shape.count ∧ shape.Fits d.size) ∧
      ((∀ n ∈ shape, 1 ≤ n) → (shape.Fits d.size ↔ shape.count * d.size ≤ 2 ^ 63 - 8)) ∧
      (∀ n, shape.countInWords? = some n → xs.length ≠ n →
        Tensor.ofElements d xs shape = .error (.shapeMismatch shape n xs.length)) ∧
      (xs.length = shape.count → ¬shape.Fits d.size →
        ∃ e, Tensor.ofElements d xs shape = .error e ∧ e.panics = true) ∧
      ∀ t, Tensor.ofElements d xs shape = .ok t → t.dtype = d ∧ t.shape = shape ∧ t.view d = .ok xs) ∧
    (∀ t : Tensor, t.Made → ∀ (d : DataType) (xs : List (Element d)) (i : Nat) (x : Element d),
      t.view d = .ok xs →
      (i < xs.length → ∃ t', t.write d i x = .ok t' ∧ t'.Made ∧ t'.dtype = t.dtype ∧ t'.shape = t.shape ∧
        t'.view d = .ok (xs.set i x)) ∧
      (xs.length ≤ i → t.write d i x = .error (.elementOutside i xs.length))) ∧
    (∀ (d : DataType) (x : Element d), d.isDefined → Tensor.ofElements d [x] [] = .ok (Tensor.scalar d x)) ∧
    (∀ (t : Tensor) (d : DataType),
      (t.dtype = d → ∃ xs, t.view d = .ok xs ∧ (t.Made → xs.length = t.count)) ∧
      (t.dtype ≠ d → t.view d = .error (.dtypeMismatch d t.dtype) ∧
        ∀ i x, t.write d i x = .error (.dtypeMismatch d t.dtype))) := by
  refine ⟨fun t ht => ?_, fun t u ht hu => ht.tight.eq_iff hu.tight, fun d xs shape hd => ⟨?_, ?_, ?_, ?_, ?_⟩,
    fun t ht d xs i x hxs => ⟨fun hi => ?_, fun hi => ?_⟩, fun d x hd => scalar_eq hd x,
    fun t d => ⟨fun hd => ?_, fun hd => ?_⟩⟩
  · have htight := ht.tight
    have hlen := htight.bytes_length
    rw [hlen, htight.words, htight.padding]
    exact ⟨Shape.countInWords?_eq_some_iff.mpr ⟨rfl, htight.fits.counts⟩, htight.byteLength,
      Words.needed_isLeast _, fun b hb => (List.mem_replicate.mp hb).2⟩
  · constructor
    · rintro ⟨t, ht⟩
      obtain ⟨-, hlen, hfits, -⟩ := ofElements_eq_ok.mp ht
      exact ⟨hlen, hfits⟩
    · rintro ⟨hlen, hfits⟩
      exact ⟨_, ofElements_eq_ok.mpr ⟨hd, hlen, hfits, rfl⟩⟩
  · exact fun hpos => Shape.fits_iff hpos (DataType.size_pos hd)
  · exact fun n hn hlen => ofElements_of_length_ne hn hlen
  · exact fun hlen hfits => ofElements_of_not_fits hd hlen hfits
  · exact fun t ht => (ofElements_tight ht).2
  · have hwrite : t.write d i x = .ok (t.put (d.size * i) (Bytes.ofNat d.size x.toNat)) := by
      rw [write_eq hxs, if_pos hi]
    exact ⟨_, hwrite, ht.write hwrite, rfl, rfl, (ht.tight.put_element hxs hi x).2⟩
  · rw [write_eq hxs, if_neg (Nat.not_lt.mpr hi)]
  · obtain ⟨xs, hxs⟩ := view_isOk.mpr hd
    exact ⟨xs, hxs, fun ht => ht.tight.view_length hxs⟩
  · have hview : t.view d = .error (.dtypeMismatch d t.dtype) := if_neg hd
    refine ⟨hview, fun i x => ?_⟩
    unfold write
    rw [hview]
    rfl

/-- Three bytes in one word, and the second of them written over. -/
theorem stored_exactly_bytes : ∃ t t' : Tensor,
    Tensor.ofElements .uint8 [1#8, 2#8, 3#8] [3] = .ok t ∧ t.write .uint8 1 9#8 = .ok t' ∧ t'.Made ∧
    t'.bytes = [1, 9, 3] ∧ IsLeast {k | 3 ≤ 8 * k} t'.words.length ∧
    (∀ b ∈ (Words.unpack t'.words).drop 3, b = 0) ∧ t'.view .uint8 = .ok [1#8, 9#8, 3#8] ∧ t ≠ t' := by
  obtain ⟨hstored, hsame, hmakes, hwrites, -, -⟩ := stored_exactly
  obtain ⟨hmade, hfits, -, -, hreads⟩ := hmakes .uint8 [1#8, 2#8, 3#8] [3] rfl
  obtain ⟨t, ht⟩ := hmade.mpr ⟨rfl, (hfits (by decide)).mpr (by decide)⟩
  obtain ⟨-, -, hview⟩ := hreads t ht
  have hmade : t.Made := .ofElements ht
  obtain ⟨t', ht', hmade', -, -, hview'⟩ := (hwrites t hmade .uint8 _ 1 9#8 hview).1 (by decide)
  have hbytes : t.bytes = [1, 2, 3] := by
    obtain rfl := Except.ok.inj ht
    decide
  have hbytes' : t'.bytes = [1, 9, 3] := by
    obtain rfl := Except.ok.inj ht
    obtain rfl := Except.ok.inj ht'
    decide
  obtain ⟨-, -, hleast, hzero⟩ := hstored t' hmade'
  rw [hbytes'] at hleast hzero
  refine ⟨t, t', ht, ht', hmade', hbytes', hleast, hzero, hview', fun heq => ?_⟩
  have hno := ((hsame t t' hmade hmade').mp heq).2.2
  rw [hbytes, hbytes'] at hno
  exact absurd hno (by decide)

/-- No elements are as many as a shape holds that has a zero dimension, but there is no tensor of them if words
    do not hold the strides of the shape. -/
theorem no_tensor_without_elements :
    Shape.countInWords? [0, 1099511627776, 1099511627776] = some ([] : List (Element .uint8)).length ∧
    Shape.stridesInWords? [0, 1099511627776, 1099511627776] = none ∧
    Tensor.ofElements .uint8 [] [0, 1099511627776, 1099511627776] = .error .overflow ∧
    ∀ t, Tensor.ofElements .uint8 [] [0, 1099511627776, 1099511627776] ≠ .ok t :=
  ⟨rfl, rfl, rfl, nofun⟩

end Tensor

end OpGraph
