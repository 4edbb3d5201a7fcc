import Mathlib.Data.List.TakeWhile
import Polystore.Calendar.Iso
import Polystore.Proofs.Text.Reading

/-!
The ISO text of a stamp, read back. Main statement: a stamp comes back without its calendar mark, and
a leap second that does not end its minute as the second after it; everything else is kept.
-/

namespace Polystore.Calendar

open Polystore.Text

namespace Time

/-- What the text of a time says: a leap second that does not end its minute is written as the
second after it. -/
def written (t : Time) : Time :=
  if h : t.second % 60 ≠ 59 ∧ 1000000000 ≤ t.nano then
    ⟨t.second + 1, t.nano - 1000000000, by have := t.second_lt; omega, by have := t.nano_lt; omega⟩
  else t

end Time

def Parts.written : Parts → Parts
  | .date d => .date d
  | .time t => .time t.written
  | .both d t => .both d t.written

namespace Iso

/-- The text of date and time, without the offset. -/
def parts : Parts → List Char
  | .date d => date d
  | .time t => time t
  | .both d t => date d ++ 'T' :: time t

/-- What may come after date and time: nothing, or something that begins with a sign. -/
def IsTail (rest : List Char) : Prop :=
  rest = [] ∨ ∃ sign more, (sign = '+' ∨ sign = '-') ∧ rest = sign :: more

/-! ### Fields -/

theorem trimStart_cons {c : Char} (h : isBlank c = false) (rest : List Char) :
    trimStart (c :: rest) = c :: rest := by
  rw [trimStart, List.dropWhile_cons_of_neg (by simp [h])]

theorem readField_row {most : Nat} {row rest : List Char} (hrow : IsRow row) (hne : row ≠ [])
    (hlength : row.length ≤ most) (hrest : EndsRow rest) :
    readField most (row ++ rest) = some (ofDigits row, rest) := by
  have htrim : trimStart (row ++ rest) = row ++ rest := by
    obtain ⟨c, more, rfl⟩ := List.exists_cons_of_ne_nil hne
    exact trimStart_cons (isBlank_of_isDigit (hrow c List.mem_cons_self)) _
  simp only [readField, htrim, takeWhile_isDigit_append hrow hrest, List.take_of_length_le hlength,
    List.isEmpty_eq_false_iff.mpr hne, List.drop_left]
  rfl

theorem readField_padded {most width n : Nat} (hwidth : 0 < width) (hn : n < 10 ^ width)
    (hmost : width ≤ most) {rest : List Char} (hrest : EndsRow rest) :
    readField most (paddedDigits width n ++ rest) = some (n, rest) := by
  have hlength := length_paddedDigits hwidth hn
  have hne : paddedDigits width n ≠ [] := List.ne_nil_of_length_pos (by omega)
  rw [readField_row (isRow_paddedDigits width n) hne (by omega) hrest, ofDigits_paddedDigits]

theorem exists_cons_paddedDigits {width : Nat} (hwidth : 0 < width) (n : Nat) :
    ∃ c more, paddedDigits width n = c :: more ∧ isDigit c = true := by
  have hne : paddedDigits width n ≠ [] := by
    apply List.ne_nil_of_length_pos
    rw [paddedDigits, length_padLeft]
    omega
  obtain ⟨c, more, h⟩ := List.exists_cons_of_ne_nil hne
  exact ⟨c, more, h, isRow_paddedDigits width n c (by rw [h]; exact List.mem_cons_self)⟩

theorem readYear_digit {c : Char} (h : isDigit c = true) (text : List Char) :
    readYear (c :: text) = (readField 4 (c :: text)).map fun (n, rest) => ((n : Int), rest) := by
  unfold readYear
  rw [trimStart_cons (isBlank_of_isDigit h)]
  split
  · next heq =>
    cases heq
    cases h
  · next heq =>
    cases heq
    cases h
  · rfl

/-- A year with a sign is read to the end of its digits. -/
theorem readField_signed (n : Nat) {rest : List Char} (hrest : EndsRow rest) :
    readYear.startsWithDigit (paddedDigits 4 n ++ rest) = true ∧
      readField (paddedDigits 4 n ++ rest).length (paddedDigits 4 n ++ rest) = some (n, rest) := by
  obtain ⟨c, more, hpadded, hc⟩ := exists_cons_paddedDigits (by decide : 0 < 4) n
  constructor
  · rw [hpadded]
    exact hc
  · have hne : paddedDigits 4 n ≠ [] := by simp [hpadded]
    rw [readField_row (isRow_paddedDigits 4 n) hne (by simp) hrest, ofDigits_paddedDigits]

theorem readYear_year (y : Int) {rest : List Char} (hrest : EndsRow rest) :
    readYear (year y ++ rest) = some (y, rest) := by
  obtain ⟨hdigit, hfield⟩ := readField_signed y.natAbs hrest
  rw [year]
  split
  · next hplain =>
    have hfour : readField 4 (paddedDigits 4 y.natAbs ++ rest) = some (y.natAbs, rest) :=
      readField_padded (by decide) (by omega) (by decide) hrest
    obtain ⟨c, more, hpadded, hc⟩ := exists_cons_paddedDigits (by decide : 0 < 4) y.natAbs
    rw [hpadded, List.cons_append] at hfour ⊢
    rw [readYear_digit hc, hfour]
    simp only [Option.map_some, Int.natAbs_of_nonneg hplain.1]
  · by_cases hnegative : y < 0
    · have hy : -(y.natAbs : Int) = y := by omega
      rw [if_pos hnegative, List.cons_append]
      unfold readYear
      rw [trimStart_cons (by decide)]
      simp only [hdigit, if_true, hfield, Option.map_some, hy]
    · have hy : (y.natAbs : Int) = y := by omega
      rw [if_neg hnegative, List.cons_append]
      unfold readYear
      rw [trimStart_cons (by decide)]
      simp only [hdigit, if_true, hfield, Option.map_some, hy]

theorem day_lt (d : Date) : d.day < 10 ^ 2 := by
  have hlength : monthLength d.year d.month ≤ 31 := by
    unfold monthLength
    split
    · split <;> omega
    · split <;> omega
  have := d.valid.2.2.2
  omega

theorem readDate_date (d : Date) {rest : List Char} (hrest : EndsRow rest) :
    readDate (date d ++ rest) = some (d, rest) := by
  have hmonth := d.valid.2.1
  have hdash (text : List Char) : EndsRow ('-' :: text) := endsRow_cons (by decide) text
  have hmonths : readField 2 (paddedDigits 2 d.month ++ ('-' :: (paddedDigits 2 d.day ++ rest))) =
      some (d.month, '-' :: (paddedDigits 2 d.day ++ rest)) :=
    readField_padded (by decide) (by omega) (by decide) (hdash _)
  have hdays : readField 2 (paddedDigits 2 d.day ++ rest) = some (d.day, rest) :=
    readField_padded (by decide) (day_lt d) (by decide) hrest
  simp only [readDate, date, List.append_assoc, List.cons_append, readYear_year d.year (hdash _),
    expect, hmonths, hdays, d.ofYmd?_self, bind, Option.bind, if_true]
  rfl

theorem IsTail.endsRow {rest : List Char} (h : IsTail rest) : EndsRow rest := by
  rcases h with rfl | ⟨sign, more, hsign, rfl⟩
  · exact endsRow_nil
  · rcases hsign with rfl | rfl
    · exact endsRow_cons (by decide) more
    · exact endsRow_cons (by decide) more

theorem readFraction_none {rest : List Char} (h : IsTail rest) :
    readFraction rest = some (0, rest) := by
  rcases h with rfl | ⟨sign, more, hsign, rfl⟩
  · rfl
  · rcases hsign with rfl | rfl
    · rfl
    · rfl

theorem readFraction_padded {width n : Nat} (hwidth : 0 < width) (hwidth9 : width ≤ 9)
    (hn : n < 10 ^ width) {rest : List Char} (hrest : EndsRow rest) :
    readFraction ('.' :: (paddedDigits width n ++ rest)) = some (n * 10 ^ (9 - width), rest) := by
  have hrow := isRow_paddedDigits width n
  have hlength := length_paddedDigits hwidth hn
  have hne : (paddedDigits width n).isEmpty = false :=
    List.isEmpty_eq_false_iff.mpr (List.ne_nil_of_length_pos (by omega))
  have hkept : (paddedDigits width n).take 9 = paddedDigits width n :=
    List.take_of_length_le (by omega)
  rw [readFraction]
  simp only [takeWhile_isDigit_append hrow hrest, hne, hkept, ofDigits_paddedDigits,
    List.drop_left]
  rw [hlength]
  rfl

theorem readFraction_fraction {n : Nat} (hn : n < 1000000000) {rest : List Char}
    (hrest : IsTail rest) : readFraction (fraction n ++ rest) = some (n, rest) := by
  rw [fraction]
  split
  · next hzero =>
    rw [hzero]
    exact readFraction_none hrest
  · split
    · next hmillis =>
      rw [List.cons_append, readFraction_padded (by decide) (by decide) (by omega) hrest.endsRow]
      congr 2
      omega
    · split
      · next hmicros =>
        rw [List.cons_append, readFraction_padded (by decide) (by decide) (by omega) hrest.endsRow]
        congr 2
        omega
      · rw [List.cons_append, readFraction_padded (by decide) (by decide) (by omega) hrest.endsRow]
        congr 2
        omega

theorem ofHms?_second {second nano : Nat} (hsecond : second < 86400) (hnano : nano < 2000000000)
    (hleap : nano < 1000000000 ∨ second % 60 = 59) :
    Time.ofHms? (second / 3600) (second / 60 % 60) (second % 60) nano =
      some ⟨second, nano, hsecond, hnano⟩ := by
  have hparts : second / 3600 < 24 ∧ second / 60 % 60 < 60 ∧ second % 60 < 60 := by omega
  have hsum : second / 3600 * 3600 + second / 60 % 60 * 60 + second % 60 = second := by omega
  rw [Time.ofHms?, if_pos hparts, hsum, Time.ofSecond?, dif_pos ⟨hsecond, hnano⟩, if_pos hleap]

/-- The digits of a second and of the parts of one after it make the time that they have been
written for. -/
theorem ofHms?_written (t : Time) :
    (if t.second % 60 + t.nano / 1000000000 = 60 then
        Time.ofHms? (t.second / 3600) (t.second / 60 % 60) 59 (t.nano % 1000000000 + 1000000000)
      else Time.ofHms? (t.second / 3600) (t.second / 60 % 60)
        (t.second % 60 + t.nano / 1000000000) (t.nano % 1000000000)) = some t.written := by
  obtain ⟨second, nano, hsecond, hnano⟩ := t
  simp only [Time.written]
  by_cases hleap : 1000000000 ≤ nano
  · by_cases hlast : second % 60 = 59
    · have hnano' : nano % 1000000000 + 1000000000 = nano := by omega
      rw [if_pos (by omega), dif_neg (by omega), hnano', ← hlast]
      exact ofHms?_second hsecond hnano (.inr hlast)
    · have hnano' : nano % 1000000000 = nano - 1000000000 := by omega
      have hhour : second / 3600 = (second + 1) / 3600 := by omega
      have hminute : second / 60 % 60 = (second + 1) / 60 % 60 := by omega
      have hnext : second % 60 + nano / 1000000000 = (second + 1) % 60 := by omega
      rw [if_neg (by omega), dif_pos ⟨hlast, hleap⟩, hnano', hhour, hminute, hnext]
      exact ofHms?_second (by omega) (by omega) (.inl (by omega))
  · have hnano' : nano % 1000000000 = nano := by omega
    have hsame : second % 60 + nano / 1000000000 = second % 60 := by omega
    rw [if_neg (by omega), dif_neg (by omega), hnano', hsame]
    exact ofHms?_second hsecond hnano (.inl (by omega))

theorem readTime_time (t : Time) {rest : List Char} (hrest : IsTail rest) :
    readTime (time t ++ rest) = some (t.written, rest) := by
  have hsecond := t.second_lt
  have hnano := t.nano_lt
  have hcolon (text : List Char) : EndsRow (':' :: text) := endsRow_cons (by decide) text
  have hfraction : EndsRow (fraction (t.nano % 1000000000) ++ rest) := by
    unfold fraction
    split
    · exact hrest.endsRow
    · split
      · exact endsRow_cons (by decide) _
      · split
        · exact endsRow_cons (by decide) _
        · exact endsRow_cons (by decide) _
  have hhours (text : List Char) : readField 2 (paddedDigits 2 (t.second / 3600) ++ ':' :: text) =
      some (t.second / 3600, ':' :: text) :=
    readField_padded (by decide) (by omega) (by decide) (hcolon _)
  have hminutes (text : List Char) :
      readField 2 (paddedDigits 2 (t.second / 60 % 60) ++ ':' :: text) =
        some (t.second / 60 % 60, ':' :: text) :=
    readField_padded (by decide) (by omega) (by decide) (hcolon _)
  have hseconds : readField 2 (paddedDigits 2 (t.second % 60 + t.nano / 1000000000) ++
      (fraction (t.nano % 1000000000) ++ rest)) =
        some (t.second % 60 + t.nano / 1000000000, fraction (t.nano % 1000000000) ++ rest) :=
    readField_padded (by decide) (by omega) (by decide) hfraction
  have hnanos := readFraction_fraction (Nat.mod_lt t.nano (by decide : 0 < 1000000000)) hrest
  have hwritten := ofHms?_written t
  simp only [readTime, time, List.append_assoc, List.cons_append, hhours, expect, hminutes,
    hseconds, hnanos, bind, Option.bind, if_true]
  split
  · next hleap =>
    rw [if_pos hleap] at hwritten
    rw [hwritten]
    rfl
  · next hleap =>
    rw [if_neg hleap] at hwritten
    rw [hwritten]
    rfl

/-! ### Texts that are read as something else -/

theorem readTime_row {row : List Char} (hrow : IsRow row) (h : 2 < row.length)
    (rest : List Char) : readTime (row ++ rest) = none := by
  obtain ⟨a, b, c, more, rfl⟩ : ∃ a b c more, row = a :: b :: c :: more := by
    rcases row with _ | ⟨a, _ | ⟨b, _ | ⟨c, more⟩⟩⟩
    · cases h
    · simp at h
    · simp at h
    · exact ⟨a, b, c, more, rfl⟩
  have ha := hrow a (by simp)
  have hb := hrow b (by simp)
  have htake : ((a :: b :: c :: (more ++ rest)).takeWhile isDigit).take 2 = [a, b] := by
    simp [List.takeWhile_cons_of_pos, ha, hb]
  have hcolon : c ≠ ':' := by
    rintro rfl
    exact absurd (hrow ':' (by simp)) (by decide)
  have hfield : readField 2 (a :: b :: c :: (more ++ rest)) =
      some (ofDigits [a, b], c :: (more ++ rest)) := by
    simp only [readField, trimStart_cons (isBlank_of_isDigit ha), htake]
    rfl
  simp only [readTime, List.cons_append, hfield, expect, bind, Option.bind, if_neg hcolon]

theorem readTime_of_sign {sign : Char} (h : sign = '+' ∨ sign = '-') (rest : List Char) :
    readTime (sign :: rest) = none := by
  rcases h with rfl | rfl
  · rfl
  · rfl

theorem readTime_date (d : Date) (rest : List Char) : readTime (date d ++ rest) = none := by
  rw [date, year]
  split
  · next hplain =>
    have hlength : (paddedDigits 4 d.year.natAbs).length = 4 :=
      length_paddedDigits (by decide) (by omega)
    simp only [List.append_assoc]
    exact readTime_row (isRow_paddedDigits 4 d.year.natAbs) (by omega) _
  · by_cases hnegative : d.year < 0
    · simp only [if_pos hnegative, List.cons_append]
      exact readTime_of_sign (.inr rfl) _
    · simp only [if_neg hnegative, List.cons_append]
      exact readTime_of_sign (.inl rfl) _

theorem readDate_time (t : Time) (rest : List Char) : readDate (time t ++ rest) = none := by
  have hsecond := t.second_lt
  obtain ⟨c, more, hpadded, hc⟩ := exists_cons_paddedDigits (by decide : 0 < 2) (t.second / 3600)
  have hyear (text : List Char) : readYear (paddedDigits 2 (t.second / 3600) ++ ':' :: text) =
      some (((t.second / 3600 : Nat) : Int), ':' :: text) := by
    have hfield : readField 4 (paddedDigits 2 (t.second / 3600) ++ ':' :: text) =
        some (t.second / 3600, ':' :: text) :=
      readField_padded (by decide) (by omega) (by decide) (endsRow_cons (by decide) text)
    rw [hpadded, List.cons_append] at hfield ⊢
    rw [readYear_digit hc, hfield]
    rfl
  simp only [readDate, time, List.append_assoc, List.cons_append, hyear, expect, bind, Option.bind]
  rfl

section

variable {A : Type} {reader : List Char → Option (A × List Char)} {text : List Char}

theorem whole_of_none (h : reader text = none) : whole reader text = none := by
  unfold whole
  rw [h]

theorem whole_of_rest {a : A} {c : Char} {rest : List Char} (h : reader text = some (a, c :: rest)) :
    whole reader text = none := by
  unfold whole
  rw [h]

theorem whole_of_end {a : A} (h : reader text = some (a, [])) : whole reader text = some a := by
  unfold whole
  rw [h]

end

/-- A date that is not followed by the mark of a time is not the beginning of both. -/
theorem readDateTime_date (d : Date) {rest : List Char} (hrest : IsTail rest) :
    readDateTime (date d ++ rest) = none := by
  simp only [readDateTime, readDate_date d hrest.endsRow, bind, Option.bind]
  rcases hrest with rfl | ⟨sign, more, hsign, rfl⟩
  · rfl
  · rcases hsign with rfl | rfl
    · rfl
    · rfl

theorem readDateTime_time (t : Time) (rest : List Char) : readDateTime (time t ++ rest) = none := by
  simp only [readDateTime, readDate_time, bind, Option.bind]

theorem readDateTime_both (d : Date) (t : Time) {rest : List Char} (hrest : IsTail rest) :
    readDateTime (date d ++ 'T' :: (time t ++ rest)) = some (⟨d, t.written⟩, rest) := by
  simp only [readDateTime, readDate_date d (endsRow_cons (by decide : isDigit 'T' = false) _), expect,
    readTime_time t hrest, bind, Option.bind, if_true]
  rfl

theorem readParts_parts (p : Parts) : readParts (parts p) = some p.written := by
  have hend : IsTail [] := .inl rfl
  rw [← List.append_nil (parts p)]
  unfold readParts
  cases p with
  | date d =>
    rw [parts, whole_of_none (readDateTime_date d hend), whole_of_end (readDate_date d endsRow_nil)]
    rfl
  | time t =>
    rw [parts, whole_of_none (readDateTime_time t []), whole_of_none (readDate_time t []),
      whole_of_end (readTime_time t hend)]
    rfl
  | both d t =>
    rw [parts, List.append_assoc, List.cons_append, whole_of_end (readDateTime_both d t hend)]
    rfl

/-- What comes after date and time is not taken for a part of them. -/
theorem readParts_sign (p : Parts) {sign : Char} (hsign : sign = '+' ∨ sign = '-')
    (more : List Char) : readParts (parts p ++ sign :: more) = none := by
  have hrest : IsTail (sign :: more) := .inr ⟨sign, more, hsign, rfl⟩
  unfold readParts
  cases p with
  | date d =>
    rw [parts, whole_of_none (readDateTime_date d hrest),
      whole_of_rest (readDate_date d hrest.endsRow), whole_of_none (readTime_date d _)]
    rfl
  | time t =>
    rw [parts, whole_of_none (readDateTime_time t _), whole_of_none (readDate_time t _),
      whole_of_rest (readTime_time t hrest)]
    rfl
  | both d t =>
    rw [parts, List.append_assoc, List.cons_append, whole_of_rest (readDateTime_both d t hrest),
      whole_of_rest (readDate_date d (endsRow_cons (by decide) _)),
      whole_of_none (readTime_date d _)]
    rfl

/-! ### Offsets -/

theorem readPair_padded {n : Nat} (hn : n < 100) : readPair (paddedDigits 2 n) = some n := by
  have hlength := length_paddedDigits (by decide : 0 < 2) hn
  have hrow := isRow_paddedDigits 2 n
  have hvalue := ofDigits_paddedDigits 2 n
  rcases hpadded : paddedDigits 2 n with _ | ⟨a, _ | ⟨b, _ | ⟨c, more⟩⟩⟩
  · simp [hpadded] at hlength
  · simp [hpadded] at hlength
  · rw [hpadded] at hrow hvalue
    rw [readPair, hrow a (by simp), hrow b (by simp), hvalue]
    rfl
  · simp [hpadded] at hlength

theorem not_mem_padded {c : Char} (hc : isDigit c = false) (width n : Nat) :
    c ∉ paddedDigits width n := by
  intro h
  rw [isRow_paddedDigits width n c h] at hc
  cases hc

/-- Fields of two digits with colons between them. -/
def fields (numbers : List Nat) : List Char :=
  [':'].intercalate (numbers.map (paddedDigits 2))

theorem splitOn_fields {numbers : List Nat} (hne : numbers ≠ []) :
    (fields numbers).splitOn ':' = numbers.map (paddedDigits 2) := by
  apply List.splitOn_intercalate
  · intro row hrow
    obtain ⟨n, -, rfl⟩ := List.mem_map.mp hrow
    exact not_mem_padded (by decide) 2 n
  · simpa using hne

theorem not_mem_fields {c : Char} (hc : isDigit c = false) (hcolon : c ≠ ':') (numbers : List Nat) :
    c ∉ fields numbers := by
  induction numbers with
  | nil => exact List.not_mem_nil
  | cons n numbers ih =>
    cases numbers with
    | nil => simpa [fields] using not_mem_padded hc 2 n
    | cons m numbers =>
      have := not_mem_padded hc 2 n
      simp only [fields, List.map_cons, List.intercalate_cons_cons] at ih ⊢
      simp [ih, this, hcolon]

/-- The fields of an offset: the seconds only if there are any. -/
def offsetFields (o : Offset) : List Nat :=
  let n := o.seconds.natAbs
  if n % 60 = 0 then [n / 3600, n / 60 % 60] else [n / 3600, n / 60 % 60, n % 60]

theorem offset_eq (o : Offset) :
    offset o = (if o.seconds < 0 then '-' else '+') :: fields (offsetFields o) := by
  rw [offset, offsetFields]
  by_cases hwhole : o.seconds.natAbs % 60 = 0
  · simp only [if_pos hwhole]
    simp [fields]
  · simp only [if_neg hwhole]
    simp [fields]

theorem readOffset_pair {h m : Nat} (hh : h < 100) (hm : m < 100) (negative : Bool) :
    readOffset ((if negative then '-' else '+') :: fields [h, m]) =
      Offset.ofSeconds? ((if negative then -1 else 1) * ((h : Int) * 3600 + (m : Int) * 60)) := by
  have hsplit : (fields [h, m]).splitOn ':' = [paddedDigits 2 h, paddedDigits 2 m] :=
    splitOn_fields (by simp)
  cases negative with
  | false =>
    simp only [readOffset, Bool.false_eq_true, if_false, if_true, hsplit, bind, Option.bind,
      readPair_padded hh, readPair_padded hm]
  | true =>
    simp only [readOffset, if_true, if_neg (by decide : ¬ '-' = '+'), hsplit, bind, Option.bind,
      readPair_padded hh, readPair_padded hm]

theorem readOffset_triple {h m s : Nat} (hh : h < 100) (hm : m < 100) (hs : s < 100)
    (negative : Bool) :
    readOffset ((if negative then '-' else '+') :: fields [h, m, s]) =
      Offset.ofSeconds? ((if negative then -1 else 1) *
        ((h : Int) * 3600 + (m : Int) * 60 + (s : Int))) := by
  have hsplit : (fields [h, m, s]).splitOn ':' =
      [paddedDigits 2 h, paddedDigits 2 m, paddedDigits 2 s] :=
    splitOn_fields (by simp)
  cases negative with
  | false =>
    simp only [readOffset, Bool.false_eq_true, if_false, if_true, hsplit, bind, Option.bind,
      readPair_padded hh, readPair_padded hm, readPair_padded hs]
  | true =>
    simp only [readOffset, if_true, if_neg (by decide : ¬ '-' = '+'), hsplit, bind, Option.bind,
      readPair_padded hh, readPair_padded hm, readPair_padded hs]

theorem readOffset_offset (o : Offset) : readOffset (offset o) = some o := by
  have hvalid := o.valid
  have hback : Offset.ofSeconds? o.seconds = some o := dif_pos o.valid
  have hnegative : (if o.seconds < 0 then '-' else '+') =
      if decide (o.seconds < 0) then '-' else '+' := by simp
  rw [offset_eq, offsetFields, hnegative]
  by_cases hwhole : o.seconds.natAbs % 60 = 0
  · simp only [if_pos hwhole]
    rw [readOffset_pair (by omega) (by omega), ← hback]
    congr 1
    simp only [decide_eq_true_eq]
    split <;> omega
  · simp only [if_neg hwhole]
    rw [readOffset_triple (by omega) (by omega) (by omega), ← hback]
    congr 1
    simp only [decide_eq_true_eq]
    split <;> omega

theorem cutAtSign_append (body : List Char) {sign : Char} (hsign : sign = '+' ∨ sign = '-')
    {more : List Char} (hmore : ∀ c ∈ more, c ≠ '+' ∧ c ≠ '-') :
    cutAtSign (body ++ sign :: more) = some (body, sign :: more) := by
  have hbehind : ((body ++ sign :: more).reverse.takeWhile fun c => c != '+' && c != '-') =
      more.reverse := by
    have hall : ∀ c ∈ more.reverse, (c != '+' && c != '-') = true := by
      intro c hc
      simpa using hmore c (List.mem_reverse.mp hc)
    rw [List.reverse_append, List.reverse_cons, List.append_assoc, List.takeWhile_append_of_pos hall]
    rcases hsign with rfl | rfl
    · simp
    · simp
  have hcut : (body ++ sign :: more).length - more.length - 1 = body.length := by
    simp only [List.length_append, List.length_cons]
    omega
  simp only [cutAtSign, hbehind, List.length_reverse, hcut, List.take_left, List.drop_left]
  rw [if_pos]
  simp only [List.length_append, List.length_cons]
  omega

theorem readWithOffset_parts (p : Parts) (o : Option Offset) :
    readWithOffset (parts p ++ (o.map offset).getD []) = some (p.written, o) := by
  cases o with
  | none =>
    rw [Option.map_none, Option.getD_none, List.append_nil, readWithOffset, readParts_parts]
  | some o =>
    have hsign : (if o.seconds < 0 then '-' else '+') = '+' ∨
        (if o.seconds < 0 then '-' else '+') = '-' := by
      split
      · exact .inr rfl
      · exact .inl rfl
    have hfields : ∀ c ∈ fields (offsetFields o), c ≠ '+' ∧ c ≠ '-' ∧ c ≠ 'Z' := by
      rintro c hc
      refine ⟨?_, ?_, ?_⟩
      · rintro rfl
        exact not_mem_fields (by decide) (by decide) _ hc
      · rintro rfl
        exact not_mem_fields (by decide) (by decide) _ hc
      · rintro rfl
        exact not_mem_fields (by decide) (by decide) _ hc
    have hlast : (parts p ++ offset o).getLast? ≠ some 'Z' := by
      have hne : offset o ≠ [] := by
        rw [offset_eq]
        exact List.cons_ne_nil _ _
      have hgetLast : (parts p ++ offset o).getLast? = (offset o).getLast? := by
        rw [List.getLast?_append, List.getLast?_eq_some_getLast hne]
        rfl
      rw [hgetLast]
      intro h
      have hmem := List.mem_of_getLast? h
      rw [offset_eq] at hmem
      rcases List.mem_cons.mp hmem with h | h
      · rcases hsign with hsign | hsign
        · rw [hsign] at h
          exact absurd h (by decide)
        · rw [hsign] at h
          exact absurd h (by decide)
      · exact (hfields 'Z' h).2.2 rfl
    rw [Option.map_some, Option.getD_some, readWithOffset, if_neg hlast]
    rw [offset_eq, readParts_sign p hsign,
      cutAtSign_append _ hsign fun c hc => ⟨(hfields c hc).1, (hfields c hc).2.1⟩]
    simp only [bind, Option.bind, readParts_parts, ← offset_eq, readOffset_offset]
    rfl

end Iso

namespace Stamp

/-- The stamp that the text of a stamp says. -/
def written (s : Stamp) : Stamp :=
  ⟨s.parts.written, s.offset, none⟩

theorem ofIso?_iso (s : Stamp) : ofIso? s.iso = some s.written := by
  have htext : s.iso.toList = Iso.parts s.parts ++ (s.offset.map Iso.offset).getD [] := by
    rw [iso, String.toList_ofList]
    rfl
  rw [ofIso?, htext, Iso.readWithOffset_parts]
  rfl

end Stamp

end Polystore.Calendar
