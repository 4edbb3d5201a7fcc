import Mathlib.Tactic.ByContra
import Polystore.Text.Digits
import Polystore.Text.Percent

/-!
Text in which bytes are written as escapes, read back. Main statement: whichever digits the escapes
have, the text stands for the bytes it spells.
-/

namespace Polystore.Text.Percent

/-- A text spells bytes: plain characters as they are, and any other byte as an escape with
hexadecimal digits of either case. -/
inductive Spells : Bytes → List Char → Prop where
  | nil : Spells [] []
  | plain {b : UInt8} {bytes : Bytes} {text : List Char} :
    isPlain b = true → Spells bytes text → Spells (b :: bytes) (Char.ofNat b.toNat :: text)
  | escape {b : UInt8} {bytes : Bytes} {high low : Char} {text : List Char} :
    isPlain b = false → Hex.value? high = some (b.toNat / 16) →
    Hex.value? low = some (b.toNat % 16) → Spells bytes text →
    Spells (b :: bytes) ('%' :: high :: low :: text)

theorem spells_encode (bytes : Bytes) : Spells bytes (encode bytes) := by
  induction bytes with
  | nil => exact .nil
  | cons b bytes ih =>
    have hb := b.toNat_lt
    rw [encode, List.flatMap_cons]
    by_cases hplain : isPlain b = true
    · rw [if_pos hplain]
      exact .plain hplain ih
    · rw [if_neg hplain]
      exact .escape (eq_false_of_ne_true hplain) (Hex.value?_digit _ (by omega))
        (Hex.value?_digit _ (by omega)) ih

/-- The characters that texts with escapes are made of. -/
def isWritten (c : Char) : Bool :=
  c.isAlphanum || ['-', '.', '_', '~', '%'].contains c

theorem isWritten_of_isDigit {c : Char} (h : isDigit c = true) : isWritten c = true := by
  have hdigit : c.isDigit = true := h
  rw [isWritten, Char.isAlphanum, hdigit, Bool.or_true, Bool.true_or]

theorem isAlphanum_of_value? {c : Char} {n : Nat} (h : Hex.value? c = some n) :
    c.isAlphanum = true := by
  by_contra halnum
  have hlower : c.toLower = c := by
    refine dif_neg fun hupper => halnum ?_
    have hletter : c.isUpper = true := decide_eq_true hupper
    show (c.isUpper || c.isLower || c.isDigit) = true
    rw [hletter, Bool.true_or, Bool.true_or]
  have hnone : Hex.value? c = none := by
    rw [Hex.value?, hlower, List.findIdx?_eq_none_iff]
    intro d hd
    have hall : Hex.alphabet.all Char.isAlphanum = true := rfl
    have hdigit : d.isAlphanum = true := List.all_eq_true.mp hall d hd
    rw [beq_eq_false_iff_ne]
    rintro rfl
    exact halnum hdigit
  rw [hnone] at h
  cases h

/-- A plain character is one byte of a text, and no percent sign. -/
theorem plain_byte : ∀ n < 256, isPlain (UInt8.ofNat n) = true →
    isWritten (Char.ofNat n) = true ∧ Char.ofNat n ≠ '%' ∧
      Bytes.ofText (String.singleton (Char.ofNat n)) = [UInt8.ofNat n] := by
  decide +kernel

theorem of_isPlain {b : UInt8} (h : isPlain b = true) :
    isWritten (Char.ofNat b.toNat) = true ∧ Char.ofNat b.toNat ≠ '%' ∧
      Bytes.ofText (String.singleton (Char.ofNat b.toNat)) = [b] := by
  have hbyte := plain_byte b.toNat b.toNat_lt
  rw [UInt8.ofNat_toNat] at hbyte
  exact hbyte h

theorem Spells.isWritten {bytes : Bytes} {text : List Char} (h : Spells bytes text) :
    ∀ c ∈ text, isWritten c = true := by
  induction h with
  | nil => exact List.forall_mem_nil _
  | plain hplain _ ih => exact List.forall_mem_cons.mpr ⟨(of_isPlain hplain).1, ih⟩
  | escape _ hhigh hlow _ ih =>
    refine List.forall_mem_cons.mpr ⟨rfl, List.forall_mem_cons.mpr ⟨?_, List.forall_mem_cons.mpr ⟨?_, ih⟩⟩⟩
    · rw [Percent.isWritten, isAlphanum_of_value? hhigh, Bool.true_or]
    · rw [Percent.isWritten, isAlphanum_of_value? hlow, Bool.true_or]

theorem Spells.not_mem {bytes : Bytes} {text : List Char} (h : Spells bytes text) {c : Char}
    (hc : Percent.isWritten c = false) : c ∉ text := fun hmem =>
  Bool.false_ne_true (hc.symm.trans (h.isWritten c hmem))

theorem Spells.bytes? {bytes : Bytes} {text : List Char} (h : Spells bytes text) :
    bytes? text = some bytes := by
  induction h with
  | nil => rfl
  | plain hplain _ ih =>
    obtain ⟨-, hpercent, hbyte⟩ := of_isPlain hplain
    rw [Percent.bytes?]
    · rw [if_neg hpercent, ih, hbyte]
      rfl
    · exact fun high low rest hc => absurd hc hpercent
  | @escape b bytes high low text _ hhigh hlow _ ih =>
    rw [Percent.bytes?, hhigh, hlow, ih]
    simp only [Option.bind_eq_bind, Option.bind_some]
    rw [Nat.div_add_mod, UInt8.ofNat_toNat]
    rfl

theorem Spells.ne_nil {bytes : Bytes} {text : List Char} (h : Spells bytes text) (hne : bytes ≠ []) :
    text ≠ [] := by
  cases h with
  | nil => exact absurd rfl hne
  | plain _ _ => exact List.cons_ne_nil _ _
  | escape _ _ _ _ => exact List.cons_ne_nil _ _

end Polystore.Text.Percent
