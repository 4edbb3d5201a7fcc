import Polystore.Proofs.Calendar.DayNumber
import Polystore.Proofs.Postgres.Dimensions
import Polystore.Proofs.Postgres.Numeric
import Polystore.Value.Equality

/-!
Values sent to the server as the type chosen for them, and read back. A single datum comes back as
it was, or as what the type makes of it; an array comes back with the same nulls and the same length,
each other item as it would alone.
-/

namespace Polystore

namespace Calendar.Stamp

/-- A stamp without a calendar mark, a leap second or parts of a microsecond, whose offset belongs to
a time and leads to an instant within the calendar. -/
structure Plain (s : Stamp) : Prop where
  calendar : s.calendar = none
  time : ∀ t, s.time? = some t → t.nano < 1000000000 ∧ t.nano % 1000 = 0
  offset : s.isDateOnly = true → s.offset = none
  instant : s.local?.isSome = true → s.offset.isSome = true → s.instant?.isSome = true

end Calendar.Stamp

namespace Postgres

open Calendar (Date Time DateTime Offset Stamp)
open Number (Binary64 Decimal)

/-- A value that is neither null nor made of others. -/
structure Datum (v : Value) : Prop where
  scalar : v.kind.isScalar = true
  plain : ∀ s, v = .date s → s.Plain

/-- The bytes that a datum of no fixed size takes. -/
def bulk : Value → Nat
  | .string s => (Bytes.ofText s).length
  | .binary bytes => bytes.length
  | _ => 0

/-- Null, a datum, or an array of data of one type and nulls. -/
def Carried : Value → Prop
  | .null => True
  | .array items =>
    items.length < 2 ^ 31 ∧ ∃ type, ∀ item ∈ items,
      item.isNull = true ∨ (Datum item ∧ scalarType? item = some type ∧ bulk item < 2 ^ 31)
  | v => Datum v

/-- What the type of a datum makes of it: unsigned integers are exact numbers to the server, and
instants are kept at offset zero. -/
def narrowed : Value → Value
  | .uint n => .decimal (.ofUInt64 n)
  | .date s => .date s.toUtc
  | v => v

/-- A datum as it is read back. The server has no negative zero among its exact numbers. -/
def arrived (v : Value) : Value :=
  match narrowed v with
  | .decimal d => .decimal d.unsignedZero
  | v => v

def elementwise (f : Value → Value) : Value → Value
  | .array items => .array (items.map f)
  | v => f v

/-! ### Dates and times -/

theorem readSigned_word_alone {width : Nat} {i : Int} (hwidth : 0 < width)
    (hlow : -(2 ^ (8 * width - 1)) ≤ i) (hhigh : i < 2 ^ (8 * width - 1)) :
    readSigned width (word width i) = .ok (i, []) := by
  have h := readSigned_word hwidth hlow hhigh []
  rwa [List.append_nil] at h

theorem decodeDate_dayNumber (d : Date) :
    decodeDate (d.dayNumber - epochDay) = .ok (.date (.ofDate d)) := by
  have hbounds := d.dayNumber_bounds
  have hnumber : d.dayNumber - epochDay + 10957 = d.dayNumber := by
    rw [epochDay]
    omega
  rw [decodeDate, if_neg (by rw [epochDay]; omega), hnumber, Date.ofDayNumber?_dayNumber]

theorem timeMicros_bounds (t : Time) : -(2 ^ 63) ≤ timeMicros t ∧ timeMicros t < 2 ^ 63 := by
  have hsecond := t.second_lt
  have hnano := t.nano_lt
  rw [timeMicros]
  omega

theorem timeOfMicros_timeMicros {t : Time} (hnano : t.nano < 1000000000)
    (hwhole : t.nano % 1000 = 0) : timeOfMicros (timeMicros t) = .ok t := by
  obtain ⟨second, nano, hsecond, hnano'⟩ := t
  simp only at hnano hwhole
  have hquotient : timeMicros ⟨second, nano, hsecond, hnano'⟩ / 1000000 = second := by
    simp only [timeMicros]
    omega
  have hrest : (timeMicros ⟨second, nano, hsecond, hnano'⟩ % 1000000).toNat * 1000 = nano := by
    simp only [timeMicros]
    omega
  have hnonneg : (0 : Int) ≤ second := Int.natCast_nonneg second
  have htime : Time.ofSecond? second nano = some ⟨second, nano, hsecond, hnano'⟩ := by
    rw [Time.ofSecond?, dif_pos ⟨hsecond, hnano'⟩, if_pos (.inl hnano)]
  rw [timeOfMicros]
  simp only [hquotient, hrest, if_pos hnonneg, Int.toNat_natCast, htime]

theorem epochMicros_mul {t : DateTime} (hwhole : t.time.nano % 1000 = 0) :
    epochMicros t * 1000 = t.nanos - epochDay * 86400000000000 := by
  rw [epochMicros]
  apply Int.tdiv_mul_cancel
  rw [DateTime.nanos, epochDay]
  omega

theorem epochMicros_bounds {t : DateTime} (hwhole : t.time.nano % 1000 = 0) :
    -(2 ^ 63) ≤ epochMicros t ∧ epochMicros t < 2 ^ 63 := by
  have hmul := epochMicros_mul hwhole
  have hday := t.date.dayNumber_bounds
  have hsecond := t.time.second_lt
  have hnano := t.time.nano_lt
  rw [DateTime.nanos, DateTime.seconds, epochDay] at hmul
  omega

theorem dateTimeOfMicros_epochMicros {t : DateTime} (hnano : t.time.nano < 1000000000)
    (hwhole : t.time.nano % 1000 = 0) : dateTimeOfMicros (epochMicros t) = .ok t := by
  have hmul := epochMicros_mul hwhole
  have hnanos : (epochMicros t + 10957 * 86400000000) * 1000 = t.nanos := by
    rw [epochDay] at hmul
    omega
  unfold dateTimeOfMicros
  rw [hnanos, DateTime.ofNanos?_nanos hnano]

section

variable {bytes rest : Bytes} {micros : Int}

theorem decodeScalar_time {t : Time} (hread : readSigned 8 bytes = .ok (micros, rest))
    (hback : timeOfMicros micros = .ok t) :
    decodeScalar .time bytes = .ok (.date (.ofTime t)) := by
  simp only [decodeScalar, hread, hback, bind, Except.bind, pure, Except.pure]

theorem decodeTimetz_eq_ok {t : Time} {west : Int} {offset : Offset} {last : Bytes}
    (hread : readSigned 8 bytes = .ok (micros, rest)) (hwest : readSigned 4 rest = .ok (west, last))
    (hback : timeOfMicros micros = .ok t) (hoffset : Offset.ofSeconds? (-west) = some offset) :
    decodeTimetz bytes = .ok (.date ⟨.time t, some offset, none⟩) := by
  simp only [decodeTimetz, hread, hback, hwest, hoffset, bind, Except.bind]

theorem decodeScalar_timestamp {t : DateTime} (hread : readSigned 8 bytes = .ok (micros, rest))
    (hback : dateTimeOfMicros micros = .ok t) :
    decodeScalar .timestamp bytes = .ok (.date (.ofDateTime t)) ∧
      decodeScalar .timestamptz bytes = .ok (.date (.zoned t .utc)) := by
  simp only [decodeScalar, hread, hback, bind, Except.bind, pure, Except.pure, and_self]

end

/-- The bytes of a stamp are read back as the stamp, at offset zero if it was an instant. -/
theorem stamp_comes_back {s : Stamp} (h : s.Plain) :
    ∃ bytes, encodeStamp s (.scalar (stampType s)) = .ok bytes ∧
      decodeScalar (stampType s) bytes = .ok (.date s.toUtc) ∧ bytes.length ≤ 12 := by
  obtain ⟨parts, offset, calendar⟩ := s
  obtain ⟨hcalendar, htime, hoffset, hinstant⟩ := h
  obtain rfl : calendar = none := hcalendar
  cases parts with
  | date d =>
    obtain rfl : offset = none := hoffset rfl
    have hbounds := d.dayNumber_bounds
    have hread : readSigned 4 (word 4 (d.dayNumber - epochDay)) = .ok (d.dayNumber - epochDay, []) :=
      readSigned_word_alone (by decide) (by rw [epochDay]; omega) (by rw [epochDay]; omega)
    refine ⟨word 4 (d.dayNumber - epochDay), rfl, ?_, by rw [length_word]; decide⟩
    simp only [stampType, decodeScalar, hread, Except.bind]
    exact decodeDate_dayNumber d
  | time t =>
    have hplain := htime t rfl
    have hbounds := timeMicros_bounds t
    have hback := timeOfMicros_timeMicros hplain.1 hplain.2
    cases offset with
    | none =>
      have hread : readSigned 8 (word 8 (timeMicros t)) = .ok (timeMicros t, []) :=
        readSigned_word_alone (by decide) hbounds.1 hbounds.2
      exact ⟨word 8 (timeMicros t), rfl, decodeScalar_time hread hback, by rw [length_word]; decide⟩
    | some o =>
      have heast := o.valid
      have hmicros : readSigned 8 (word 8 (timeMicros t) ++ word 4 (-o.seconds)) =
          .ok (timeMicros t, word 4 (-o.seconds)) :=
        @readSigned_word 8 _ (by decide) hbounds.1 hbounds.2 _
      have hwest : readSigned 4 (word 4 (-o.seconds)) = .ok (-o.seconds, []) :=
        readSigned_word_alone (by decide) (by omega) (by omega)
      have hofSeconds : Offset.ofSeconds? (- -o.seconds) = some o := by
        rw [Int.neg_neg, Offset.ofSeconds?, dif_pos heast]
      refine ⟨word 8 (timeMicros t) ++ word 4 (-o.seconds), rfl,
        decodeTimetz_eq_ok hmicros hwest hback hofSeconds, ?_⟩
      rw [List.length_append, length_word, length_word]
  | both d t =>
    have hplain := htime t rfl
    cases offset with
    | none =>
      have hbounds : -(2 ^ 63) ≤ epochMicros ⟨d, t⟩ ∧ epochMicros ⟨d, t⟩ < 2 ^ 63 :=
        epochMicros_bounds hplain.2
      have hback : dateTimeOfMicros (epochMicros ⟨d, t⟩) = .ok ⟨d, t⟩ :=
        dateTimeOfMicros_epochMicros hplain.1 hplain.2
      have hread : readSigned 8 (word 8 (epochMicros ⟨d, t⟩)) = .ok (epochMicros ⟨d, t⟩, []) :=
        readSigned_word_alone (by decide) hbounds.1 hbounds.2
      exact ⟨word 8 (epochMicros ⟨d, t⟩), rfl, (decodeScalar_timestamp hread hback).1,
        by rw [length_word]; decide⟩
    | some o =>
      obtain ⟨u, hu⟩ := Option.isSome_iff_exists.mp (hinstant rfl rfl)
      have hnano : u.time.nano = t.nano := by
        have hshift : DateTime.shift? ⟨d, t⟩ (-o.seconds) = some u := hu
        exact DateTime.nano_shift? hshift
      have hutc : Stamp.toUtc ⟨.both d t, some o, none⟩ = Stamp.zoned u .utc := by
        rw [Stamp.toUtc, hu]
        rfl
      have hwhole : u.time.nano % 1000 = 0 := by rw [hnano]; exact hplain.2
      have hbounds := epochMicros_bounds hwhole
      have hback : dateTimeOfMicros (epochMicros u) = .ok u :=
        dateTimeOfMicros_epochMicros (by rw [hnano]; exact hplain.1) hwhole
      have hread : readSigned 8 (word 8 (epochMicros u)) = .ok (epochMicros u, []) :=
        readSigned_word_alone (by decide) hbounds.1 hbounds.2
      refine ⟨word 8 (epochMicros u), ?_, ?_, by rw [length_word]; decide⟩
      · simp only [stampType, encodeStamp, hutc]
        rfl
      · rw [hutc]
        exact (decodeScalar_timestamp hread hback).2

/-! ### Single data -/

theorem length_encodeDecimal (d : Decimal) : (encodeDecimal d).length < 2 ^ 31 := by
  have hcount := (Numeric.fits_ofDecimal d).count
  rw [encodeDecimal, Numeric.length_bytes]
  omega

theorem encodeWord_eq_ok {width : Nat} {i : Int} (target : String)
    (h : -(2 ^ (8 * width - 1)) ≤ i ∧ i < 2 ^ (8 * width - 1)) :
    encodeWord width target i = .ok (word width i) :=
  if_pos h

/-- A datum is written as the type chosen for it, and read back as what that type makes of it. -/
theorem datum_comes_back {v : Value} (h : Datum v) :
    ∃ type bytes, scalarType? v = some type ∧ encode v (.scalar type) = .ok (some bytes) ∧
      decodeScalar type bytes = .ok (arrived v) ∧ (bulk v < 2 ^ 31 → bytes.length < 2 ^ 31) := by
  obtain ⟨hscalar, hplain⟩ := h
  cases v with
  | null => cases hscalar
  | array items => cases hscalar
  | map entries => cases hscalar
  | payload p => cases hscalar
  | bool b =>
    refine ⟨.bool, [if b then 1 else 0], rfl, rfl, ?_, ?_⟩
    · cases b <;> rfl
    · intro _
      rw [List.length_singleton]
      decide
  | string s =>
    refine ⟨.text, Bytes.ofText s, rfl, rfl, ?_, id⟩
    rw [decodeScalar, decodeText, Bytes.toText?_ofText]
    rfl
  | int n =>
    have hrange : -(2 ^ 63) ≤ n.toInt ∧ n.toInt < 2 ^ 63 := ⟨n.le_toInt, n.toInt_lt⟩
    have hread : readSigned 8 (word 8 n.toInt) = .ok (n.toInt, []) :=
      readSigned_word_alone (by decide) hrange.1 hrange.2
    have hwritten : encodeWord 8 "int8" n.toInt = .ok (word 8 n.toInt) := encodeWord_eq_ok "int8" hrange
    refine ⟨.int8, word 8 n.toInt, rfl, ?_, ?_, fun _ => by rw [length_word]; decide⟩
    · simp only [encode, encodeInteger, hwritten, Except.map]
    · simp only [decodeScalar, hread, Except.map, Int64.ofInt_toInt]
      rfl
  | uint n =>
    refine ⟨.numeric, encodeDecimal (.ofUInt64 n), rfl, rfl, ?_, fun _ => length_encodeDecimal _⟩
    rw [decodeScalar, Numeric.decodeNumeric_encodeDecimal]
    rfl
  | float x =>
    have hbits : x.bits.toNat < 256 ^ 8 := x.bits.toNat_lt
    have hread : readWord 8 (Bytes.bigEndian 8 x.bits.toNat) = .ok (x.bits.toNat, []) := by
      have := readWord_bigEndian hbits []
      rwa [List.append_nil] at this
    refine ⟨.float8, Bytes.bigEndian 8 x.bits.toNat, rfl, rfl, ?_, ?_⟩
    · simp only [decodeScalar, hread, Except.map, UInt64.ofNat_toNat]
      rfl
    · intro _
      rw [Bytes.length_bigEndian]
      decide
  | decimal d =>
    refine ⟨.numeric, encodeDecimal d, rfl, rfl, ?_, fun _ => length_encodeDecimal _⟩
    rw [decodeScalar, Numeric.decodeNumeric_encodeDecimal]
    rfl
  | date s =>
    obtain ⟨bytes, hwritten, hread, hlength⟩ := stamp_comes_back (hplain s rfl)
    refine ⟨stampType s, bytes, rfl, ?_, hread, fun _ => by omega⟩
    rw [encode, hwritten]
    rfl
  | binary bytes => exact ⟨.bytea, bytes, rfl, rfl, rfl, id⟩
  | uuid u =>
    refine ⟨.uuid, u.octets, rfl, rfl, ?_, ?_⟩
    · simp only [decodeScalar, Uuid.ofOctets?, dif_pos u.length_eq]
      rfl
    · intro _
      rw [u.length_eq]
      decide

/-! ### Arrays -/

theorem arrived_null {v : Value} (h : v.isNull = true) : v = .null ∧ arrived v = .null := by
  cases v with
  | null => exact ⟨rfl, rfl⟩
  | _ => cases h

/-- One item after another: what was written is read back, whatever comes after it. -/
theorem items_come_back {type : Scalar} {items : List Value}
    (h : ∀ item ∈ items, item.isNull = true ∨
      (Datum item ∧ scalarType? item = some type ∧ bulk item < 2 ^ 31)) :
    ∃ bytes, encodeItems items (.scalar type) = .ok bytes ∧ ∀ rest,
      readMany (readItem (decodeScalar type)) items.length (bytes ++ rest) =
        .ok (items.map arrived, rest) := by
  induction items with
  | nil => exact ⟨[], rfl, fun rest => rfl⟩
  | cons v items ih =>
    obtain ⟨more, hmore, hreadMore⟩ := ih fun item hitem => h item (List.mem_cons_of_mem v hitem)
    rcases h v List.mem_cons_self with hnull | ⟨hdatum, htype, hbulk⟩
    · obtain ⟨rfl, harrived⟩ := arrived_null hnull
      refine ⟨word 4 (-1) ++ more, ?_, fun rest => ?_⟩
      · simp only [encodeItems, encode, framed, hmore, bind, Except.bind, pure, Except.pure]
      · rw [List.append_assoc, List.map_cons, harrived]
        exact readMany_cons (readItem_null _ _) (hreadMore rest)
    · obtain ⟨type', bytes, htype', hwritten, hread, hsize⟩ := datum_comes_back hdatum
      obtain rfl : type = type' := by
        rw [htype] at htype'
        exact Option.some.inj htype'
      have hsmall := hsize hbulk
      refine ⟨word 4 bytes.length ++ bytes ++ more, ?_, fun rest => ?_⟩
      · simp only [encodeItems, hwritten, framed, if_pos hsmall, hmore, bind, Except.bind, pure,
          Except.pure]
      · rw [List.append_assoc, List.append_assoc, List.map_cons]
        have hitem := readItem_framed (decodeScalar type) hsmall (more ++ rest)
        rw [hread] at hitem
        exact readMany_cons hitem (hreadMore rest)

/-- After the header of an array there are its items, in one dimension. -/
theorem decodeArray_header (decode : Bytes → Except Error Value) {items : List Value}
    (element : PgType) (body : Bytes) (hcount : items.length < 2 ^ 31) :
    decodeArray decode (arrayHeader items element ++ body) =
      (readMany (readItem decode) items.length body).map fun (back, _) => .array back := by
  have hheader : arrayHeader items element =
      writeHeader [(items.length, 1)] (if items.any Value.isNull then 1 else 0) element.number := by
    simp [arrayHeader, writeHeader, writeDimension]
  have hitems : itemCount [items.length] = items.length := by
    have hprod : [items.length].prod = items.length := by rw [List.prod_singleton]
    rw [itemCount_of_lt (by omega), hprod]
  have hone : [(items.length, (1 : Int))].length < 2 ^ 31 := by
    rw [List.length_singleton]
    decide
  rw [hheader, decodeArray_writeHeader decode (List.cons_ne_nil _ _) hone
    (List.forall_mem_singleton.mpr hcount), List.map_singleton, hitems]
  rfl

theorem array_comes_back {type : Scalar} {items : List Value} (hcount : items.length < 2 ^ 31)
    (h : ∀ item ∈ items, item.isNull = true ∨
      (Datum item ∧ scalarType? item = some type ∧ bulk item < 2 ^ 31)) :
    ∃ bytes, encode (.array items) (.arrayOf type) = .ok (some bytes) ∧
      decode (.arrayOf type) bytes = .ok (.array (items.map arrived)) := by
  obtain ⟨body, hbody, hread⟩ := items_come_back h
  have hitems := hread []
  rw [List.append_nil] at hitems
  refine ⟨arrayHeader items (.scalar type) ++ body, ?_, ?_⟩
  · simp only [encode, PgType.element?, if_pos hcount, hbody, Except.map]
  · rw [decode, decodeArray_header _ _ _ hcount, hitems]
    rfl

theorem commonType?_eq {type : Scalar} {items : List Value} (hne : items ≠ [])
    (h : ∀ item ∈ items, scalarType? item = some type) : commonType? items = some type := by
  obtain ⟨v, rest, rfl⟩ := List.exists_cons_of_ne_nil hne
  have hall : (rest.all fun w => scalarType? w = some type) = true := by
    rw [List.all_eq_true]
    intro w hw
    exact decide_eq_true (h w (List.mem_cons_of_mem v hw))
  rw [commonType?, h v List.mem_cons_self, Option.filter_some, if_pos hall]

/-- The type chosen for an array of data of one type. Without any datum it is that of texts. -/
theorem paramType_array {type : Scalar} {items : List Value}
    (h : ∀ item ∈ items, item.isNull = true ∨ scalarType? item = some type) :
    paramType (.array items) = .arrayOf type ∨
      (paramType (.array items) = .arrayOf .text ∧ ∀ item ∈ items, item.isNull = true) := by
  have hpresent : ∀ item ∈ items.filter (fun item => !item.isNull), scalarType? item = some type := by
    intro item hitem
    rw [List.mem_filter] at hitem
    rcases h item hitem.1 with hnull | htype
    · simp [hnull] at hitem
    · exact htype
  by_cases hempty : items.filter (fun item => !item.isNull) = []
  · refine .inr ⟨?_, ?_⟩
    · simp only [paramType, hempty]
      rfl
    · intro item hitem
      rw [List.filter_eq_nil_iff] at hempty
      simpa using hempty item hitem
  · refine .inl ?_
    have hcommon := commonType?_eq hempty hpresent
    have hsome : (items.filter fun item => !item.isNull).isEmpty = false :=
      List.isEmpty_eq_false_iff.mpr hempty
    simp only [paramType, hsome, hcommon]
    rfl

/-! ### What comes back is the same value -/

theorem sameNumber_self (x : Binary64) : x.sameNumber x = true :=
  (Binary64.sameNumber_iff_canonical_eq x x).mpr rfl

theorem numEq_unsignedZero (d : Decimal) : d.unsignedZero.numEq d = true := by
  rw [Decimal.numEq, d.signed_unsignedZero]
  exact beq_self_eq_true _

theorem same_arrived {v : Value} (h : v.isNull = true ∨ Datum v) :
    (arrived v).same (narrowed v) = true := by
  cases v with
  | null => rfl
  | bool b => exact beq_self_eq_true b
  | string s => exact beq_self_eq_true s
  | int n => exact beq_self_eq_true n
  | uint n => exact numEq_unsignedZero _
  | float x => exact sameNumber_self x
  | decimal d => exact numEq_unsignedZero d
  | date s => exact beq_self_eq_true s.toUtc
  | binary bytes => exact beq_self_eq_true bytes
  | uuid u => exact beq_self_eq_true u
  | array items => rcases h with h | ⟨h, -⟩ <;> cases h
  | map entries => rcases h with h | ⟨h, -⟩ <;> cases h
  | payload p => rcases h with h | ⟨h, -⟩ <;> cases h

theorem sameItems_arrived {items : List Value}
    (h : ∀ item ∈ items, item.isNull = true ∨ Datum item) :
    Value.sameItems (items.map arrived) (items.map narrowed) = true := by
  induction items with
  | nil => rfl
  | cons v items ih =>
    have hfirst := same_arrived (h v List.mem_cons_self)
    have hrest := ih fun item hitem => h item (List.mem_cons_of_mem v hitem)
    rw [List.map_cons, List.map_cons, Value.sameItems, hfirst, hrest]
    rfl

theorem paramType_datum {v : Value} {type : Scalar} (h : Datum v) (htype : scalarType? v = some type) :
    paramType v = .scalar type ∧ elementwise arrived v = arrived v ∧
      elementwise narrowed v = narrowed v := by
  have hscalar := h.scalar
  cases v with
  | null => cases hscalar
  | array items => cases hscalar
  | map entries => cases hscalar
  | payload p => cases hscalar
  | _ =>
    simp only [paramType, htype, Option.getD_some, elementwise, and_self]

/-- Null is written as no value at all. Everything else that is carried is written in full and read
back as the same value, narrowed to its type, item by item: a decimal keeps its places and a float
its bits, and an array its length and its nulls. -/
theorem carried_comes_back {v : Value} (h : Carried v) :
    (v.isNull = true → encode v (paramType v) = .ok none) ∧
      (v.isNull = false → ∃ bytes, encode v (paramType v) = .ok (some bytes) ∧
        decode (paramType v) bytes = .ok (elementwise arrived v) ∧
        (elementwise arrived v).same (elementwise narrowed v) = true) := by
  have hdatum (hd : Datum v) : ∃ bytes, encode v (paramType v) = .ok (some bytes) ∧
      decode (paramType v) bytes = .ok (elementwise arrived v) ∧
      (elementwise arrived v).same (elementwise narrowed v) = true := by
    obtain ⟨type, bytes, htype, hwritten, hread, -⟩ := datum_comes_back hd
    obtain ⟨hparam, harrived, hnarrowed⟩ := paramType_datum hd htype
    rw [hparam, harrived, hnarrowed]
    exact ⟨bytes, hwritten, hread, same_arrived (.inr hd)⟩
  cases v with
  | null => exact ⟨fun _ => rfl, fun hnull => nomatch hnull⟩
  | array items =>
    obtain ⟨hcount, type, hitems⟩ := h
    refine ⟨(fun hnull => nomatch hnull), fun _ => ?_⟩
    have hsame : Value.sameItems (items.map arrived) (items.map narrowed) = true :=
      sameItems_arrived fun item hitem => (hitems item hitem).imp_right And.left
    have htypes : ∀ item ∈ items, item.isNull = true ∨ scalarType? item = some type :=
      fun item hitem => (hitems item hitem).imp_right fun hitem => hitem.2.1
    rcases paramType_array htypes with hparam | ⟨hparam, hnulls⟩
    · obtain ⟨bytes, hwritten, hread⟩ := array_comes_back hcount hitems
      rw [hparam]
      exact ⟨bytes, hwritten, hread, hsame⟩
    · obtain ⟨bytes, hwritten, hread⟩ := @array_comes_back .text items hcount
        fun item hitem => .inl (hnulls item hitem)
      rw [hparam]
      exact ⟨bytes, hwritten, hread, hsame⟩
  | _ => exact ⟨(fun hnull => nomatch hnull), fun _ => hdatum h⟩

/-- Half past one in the morning of a leap day, two hours east. -/
def leapMorning : Stamp :=
  .zoned ⟨⟨2024, 2, 29, by decide⟩, ⟨5400, 500000000, by decide, by decide⟩⟩ ⟨7200, by decide⟩

/-- The same instant, which is still in the evening before at offset zero. -/
def leapEve : Stamp :=
  .zoned ⟨⟨2024, 2, 28, by decide⟩, ⟨84600, 500000000, by decide, by decide⟩⟩ .utc

theorem leapMorning_plain : leapMorning.Plain where
  calendar := rfl
  time := by
    intro t ht
    obtain rfl := Option.some.inj ht
    decide
  offset := fun h => nomatch h
  instant := fun _ _ => by decide +kernel

theorem leapMorning_toUtc : leapMorning.toUtc = leapEve := by
  decide +kernel

theorem carried_comes_back_instants :
    ∃ bytes, encode (.array [.date leapMorning, .null]) (.arrayOf .timestamptz) = .ok (some bytes) ∧
      decode (.arrayOf .timestamptz) bytes = .ok (.array [.date leapEve, .null]) := by
  have hcarried : Carried (.array [.date leapMorning, .null]) := by
    refine ⟨by decide, .timestamptz, ?_⟩
    intro item hitem
    rcases List.mem_cons.mp hitem with rfl | hitem
    · refine .inr ⟨⟨rfl, ?_⟩, rfl, by decide⟩
      rintro s ⟨⟩
      exact leapMorning_plain
    · obtain rfl := List.mem_singleton.mp hitem
      exact .inl rfl
  obtain ⟨bytes, hwritten, hread, -⟩ := (carried_comes_back hcarried).2 rfl
  refine ⟨bytes, hwritten, hread.trans ?_⟩
  change Except.ok (Value.array [.date leapMorning.toUtc, .null]) = _
  rw [leapMorning_toUtc]

end Postgres

end Polystore
