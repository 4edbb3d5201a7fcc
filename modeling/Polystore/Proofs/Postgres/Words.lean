import Mathlib.Algebra.Group.Nat.Defs
import Mathlib.Data.List.Forall2
import Mathlib.Data.List.Induction
import Polystore.Postgres.Decode
import Polystore.Postgres.Encode

/-!
Words on the wire: what was written is read back, and reading stops where the word ends, whatever
comes after it.
-/

namespace Polystore

namespace Bytes

theorem cast_two_pow (bits : Nat) : ((2 ^ bits : Nat) : Int) = 2 ^ bits := by
  simp

theorem two_pow_succ_pred {bits : Nat} (h : 0 < bits) : (2 : Int) ^ bits = 2 * 2 ^ (bits - 1) := by
  obtain ⟨n, rfl⟩ := Nat.exists_eq_add_of_lt h
  rw [Nat.zero_add, Nat.add_sub_cancel, Int.pow_succ, Int.mul_comm]

theorem unsigned_lt (bits : Nat) (i : Int) : unsigned bits i < 2 ^ bits := by
  have hpos : (0 : Int) < 2 ^ bits := Int.pow_pos (by decide)
  have hlt : i % 2 ^ bits < 2 ^ bits := Int.emod_lt_of_pos i hpos
  have hcast := cast_two_pow bits
  rw [unsigned]
  omega

/-- A number within the range of a word is what its two's complement stands for. -/
theorem signed_unsigned {bits : Nat} {i : Int} (hbits : 0 < bits) (hlow : -(2 ^ (bits - 1)) ≤ i)
    (hhigh : i < 2 ^ (bits - 1)) : signed bits (unsigned bits i) = i := by
  have hpos : (0 : Int) < 2 ^ (bits - 1) := Int.pow_pos (by decide)
  have hdouble := two_pow_succ_pred hbits
  have hcast := cast_two_pow (bits - 1)
  rw [signed, unsigned]
  rcases Int.lt_or_le i 0 with hneg | hnonneg
  · have hmod : i % 2 ^ bits = i + 2 ^ bits := by
      rw [← Int.add_emod_right]
      exact Int.emod_eq_of_lt (by omega) (by omega)
    rw [hmod]
    split <;> omega
  · have hmod : i % 2 ^ bits = i := Int.emod_eq_of_lt hnonneg (by omega)
    rw [hmod]
    split <;> omega

theorem unsigned_natCast {bits n : Nat} (h : n < 2 ^ bits) : unsigned bits n = n := by
  have hcast := cast_two_pow bits
  rw [unsigned, Int.emod_eq_of_lt (by omega) (by omega), Int.toNat_natCast]

theorem signed_lt {bits n : Nat} (hbits : 0 < bits) (h : n < 2 ^ bits) :
    signed bits n < 2 ^ (bits - 1) := by
  have hpos : (0 : Int) < 2 ^ (bits - 1) := Int.pow_pos (by decide)
  have hcast := cast_two_pow (bits - 1)
  have hcast' := cast_two_pow bits
  have hdouble := two_pow_succ_pred hbits
  rw [signed]
  split <;> omega

theorem ofBigEndian_lt (bytes : Bytes) : ofBigEndian bytes < 256 ^ bytes.length := by
  induction bytes using List.reverseRecOn with
  | nil => decide
  | append_singleton bytes b ih =>
    have hb : b.toNat < 256 := b.toNat_lt
    rw [ofBigEndian_append_singleton, List.length_append, List.length_singleton, Nat.pow_succ]
    omega

theorem two_pow_eight_mul (width : Nat) : 2 ^ (8 * width) = 256 ^ width := by
  rw [Nat.pow_mul]

end Bytes

namespace Postgres

theorem take_append {n : Nat} {a : Bytes} (h : a.length = n) (b : Bytes) :
    take n (a ++ b) = .ok (a, b) := by
  subst h
  rw [take, if_pos (by simp), List.take_left, List.drop_left]

theorem length_word (width : Nat) (i : Int) : (word width i).length = width :=
  Bytes.length_bigEndian width _

theorem readWord_bigEndian {width n : Nat} (h : n < 256 ^ width) (rest : Bytes) :
    readWord width (Bytes.bigEndian width n ++ rest) = .ok (n, rest) := by
  rw [readWord, take_append (Bytes.length_bigEndian width n)]
  simp only [Except.map, Bytes.ofBigEndian_bigEndian h]

theorem readWord_word {width n : Nat} (h : n < 2 ^ (8 * width)) (rest : Bytes) :
    readWord width (word width n ++ rest) = .ok (n, rest) := by
  rw [word, Bytes.unsigned_natCast h]
  exact readWord_bigEndian (by rwa [← Bytes.two_pow_eight_mul]) rest

theorem readSigned_word {width : Nat} {i : Int} (hwidth : 0 < width)
    (hlow : -(2 ^ (8 * width - 1)) ≤ i) (hhigh : i < 2 ^ (8 * width - 1)) (rest : Bytes) :
    readSigned width (word width i ++ rest) = .ok (i, rest) := by
  have hword : Bytes.unsigned (8 * width) i < 256 ^ width := by
    rw [← Bytes.two_pow_eight_mul]
    exact Bytes.unsigned_lt _ i
  rw [readSigned, word, readWord_bigEndian hword]
  simp only [Except.map, Bytes.signed_unsigned (by omega : 0 < 8 * width) hlow hhigh]

theorem readMany_cons {α : Type} {reader : Bytes → Except Error (α × Bytes)} {n : Nat} {a : α}
    {as : List α} {bytes rest last : Bytes} (hfirst : reader bytes = .ok (a, rest))
    (hrest : readMany reader n rest = .ok (as, last)) :
    readMany reader (n + 1) bytes = .ok (a :: as, last) := by
  simp only [readMany, hfirst, hrest, bind, Except.bind, pure, Except.pure]

/-- What a reader makes of one thing after another, it makes of them in a row. -/
theorem readMany_forall₂ {α β : Type} {reader : Bytes → Except Error (β × Bytes)}
    {writer : α → Bytes} {as : List α} {bs : List β}
    (h : List.Forall₂ (fun a b => ∀ rest, reader (writer a ++ rest) = .ok (b, rest)) as bs)
    (rest : Bytes) : readMany reader as.length (as.flatMap writer ++ rest) = .ok (bs, rest) := by
  induction h with
  | nil => rfl
  | cons hfirst _ ih =>
    rw [List.flatMap_cons, List.append_assoc]
    exact readMany_cons (hfirst _) ih

/-- Items that a reader gives back one at a time are given back in a row. -/
theorem readMany_flatMap {α : Type} {reader : Bytes → Except Error (α × Bytes)}
    {writer : α → Bytes} {items : List α}
    (h : ∀ a ∈ items, ∀ rest, reader (writer a ++ rest) = .ok (a, rest)) (rest : Bytes) :
    readMany reader items.length (items.flatMap writer ++ rest) = .ok (items, rest) :=
  readMany_forall₂ (List.forall₂_same.mpr h) rest

/-- The count of an array's items is the product of its lengths, as far as a word goes. -/
theorem itemCount_eq (lengths : List Nat) : itemCount lengths = lengths.prod % 2 ^ 64 := by
  have hfold (count : UInt64) :
      (lengths.foldl (fun count length => count * UInt64.ofNat length) count).toNat =
        count.toNat * lengths.prod % 2 ^ 64 := by
    induction lengths generalizing count with
    | nil =>
      rw [List.foldl_nil, List.prod_nil, Nat.mul_one, Nat.mod_eq_of_lt count.toNat_lt]
    | cons length lengths ih =>
      rw [List.foldl_cons, ih, UInt64.toNat_mul, UInt64.toNat_ofNat', List.prod_cons,
        ← Nat.mul_assoc, Nat.mod_mul_mod, Nat.mul_right_comm, Nat.mul_mod_mod,
        Nat.mul_right_comm]
  rw [itemCount, hfold, UInt64.toNat_one, Nat.one_mul]

theorem itemCount_of_lt {lengths : List Nat} (h : lengths.prod < 2 ^ 64) :
    itemCount lengths = lengths.prod := by
  rw [itemCount_eq, Nat.mod_eq_of_lt h]

end Postgres

end Polystore
