import Polystore.Proofs.Number.Reading
import Polystore.Proofs.Number.Value
import Polystore.Value.Basic

/-!
The texts of decimals and identifiers, read back. A decimal keeps its places; only a zero loses its
sign.
-/

namespace Polystore

namespace Number.Decimal

open Polystore.Text

theorem text_eq_plainText (d : Decimal) : ∃ whole fraction, d.text.toList =
      plainText d.negative whole fraction ∧ IsRow whole ∧ whole ≠ [] ∧ IsRow fraction ∧
      fraction.length = d.scale ∧ ofDigits (whole ++ fraction) = d.mantissa := by
  have hrow := isRow_paddedDigits (d.scale + 1) d.mantissa
  have hlength : d.scale + 1 ≤ (paddedDigits (d.scale + 1) d.mantissa).length := by
    rw [paddedDigits, length_padLeft]
    exact Nat.le_max_left _ _
  have hvalue := ofDigits_paddedDigits (d.scale + 1) d.mantissa
  have hunsigned : d.unsignedText =
      let row := paddedDigits (d.scale + 1) d.mantissa
      let whole := row.take (row.length - d.scale)
      if d.scale = 0 then whole else whole ++ '.' :: row.drop (row.length - d.scale) := rfl
  generalize paddedDigits (d.scale + 1) d.mantissa = row at hrow hlength hvalue hunsigned
  refine ⟨row.take (row.length - d.scale), row.drop (row.length - d.scale), ?_, hrow.take _, ?_,
    hrow.drop _, ?_, ?_⟩
  · rw [text, String.toList_ofList, hunsigned, plainText]
    by_cases hscale : d.scale = 0
    · cases d.negative <;> simp [hscale]
    · have hfraction : (row.drop (row.length - d.scale)).isEmpty = false := by
        rw [List.isEmpty_eq_false_iff, ne_eq, List.drop_eq_nil_iff]
        omega
      cases d.negative <;> simp [hscale, hfraction]
  · rw [ne_eq, List.take_eq_nil_iff]
    rintro (hzero | rfl)
    · omega
    · simp at hlength
  · rw [List.length_drop]
    omega
  · rw [List.take_append_drop, hvalue]

theorem read_text (d : Decimal) : read d.text.toList = .ok d.unsignedZero := by
  obtain ⟨whole, fraction, htext, hwhole, hne, hfraction, hlength, hvalue⟩ := text_eq_plainText d
  obtain ⟨negative, mantissa, scale, hmantissa, hscale⟩ := d
  simp only at htext hlength hvalue
  subst hlength
  subst hvalue
  rw [htext, read_plainText negative hwhole hne hfraction hscale hmantissa]
  rfl

end Number.Decimal

namespace Text.Hex

theorem length_encode (bytes : Bytes) : (encode bytes).length = 2 * bytes.length := by
  induction bytes with
  | nil => rfl
  | cons b bytes ih =>
    rw [encode, List.length_cons, List.length_cons, ih, List.length_cons]
    omega

theorem digit_ne_hyphen : ∀ n < 16, digit n ≠ '-' := by
  decide

theorem not_mem_encode (bytes : Bytes) : '-' ∉ encode bytes := by
  induction bytes with
  | nil => exact List.not_mem_nil
  | cons b bytes ih =>
    have hb := b.toNat_lt
    rw [encode, List.mem_cons, List.mem_cons, not_or, not_or]
    exact ⟨(digit_ne_hyphen _ (by omega)).symm, (digit_ne_hyphen _ (by omega)).symm, ih⟩

end Text.Hex

namespace Uuid

open Polystore.Text

/-- The five groups of a row of 32 digits. -/
def groups (row : List Char) : List (List Char) :=
  [row.take 8, (row.drop 8).take 4, (row.drop 12).take 4, (row.drop 16).take 4, row.drop 20]

theorem withoutHyphens_groups {row : List Char} (hlength : row.length = 32) (hhyphen : '-' ∉ row) :
    withoutHyphens (['-'].intercalate (groups row)) = some row := by
  have hsplit : (['-'].intercalate (groups row)).splitOn '-' = groups row := by
    apply List.splitOn_intercalate
    · intro group hgroup hmem
      apply hhyphen
      simp only [groups, List.mem_cons, List.not_mem_nil, or_false] at hgroup
      rcases hgroup with rfl | rfl | rfl | rfl | rfl
      · exact List.mem_of_mem_take hmem
      · exact List.mem_of_mem_drop (List.mem_of_mem_take hmem)
      · exact List.mem_of_mem_drop (List.mem_of_mem_take hmem)
      · exact List.mem_of_mem_drop (List.mem_of_mem_take hmem)
      · exact List.mem_of_mem_drop hmem
    · exact List.cons_ne_nil _ _
  have hjoin (n : Nat) : (row.drop n).take 4 ++ row.drop (n + 4) = row.drop n := by
    rw [← List.drop_drop, List.take_append_drop]
  rw [withoutHyphens, hsplit, groups]
  simp only [List.length_take, List.length_drop, hlength]
  simp [List.append_assoc, hjoin 16, hjoin 12, hjoin 8]

theorem read?_text (u : Uuid) : read? u.text = some u := by
  have hlength : (Hex.encode u.octets).length = 32 := by rw [Hex.length_encode, u.length_eq]
  have hgroups := withoutHyphens_groups hlength (Hex.not_mem_encode u.octets)
  have htext : u.text.toList = ['-'].intercalate (groups (Hex.encode u.octets)) := by
    rw [text, String.toList_ofList]
    simp [groups, List.intercalate_cons_cons, List.intercalate_singleton]
  have hcount : u.text.toList.length = 36 := by
    rw [htext]
    simp [groups, List.intercalate_cons_cons, List.intercalate_singleton, hlength]
  have hshort : ¬ u.text.toList.length = 32 := by omega
  simp only [read?, if_neg hshort, if_pos hcount]
  rw [htext, hgroups, Option.bind_some, Hex.decode?_encode, Option.bind_some, ofOctets?,
    dif_pos u.length_eq]

end Uuid

end Polystore
