import Polystore.Proofs.Except
import Polystore.Proofs.Postgres.RoundTrip
import Polystore.Proofs.Value.Json

/-!
Which values the server's binary form can be read back from. A time of day that is a leap second at
the end of a day has more microseconds than a day. Main statement: apart from JSON text that is
nested too deep, such a time is all that is sent and cannot be read.
-/

namespace Polystore

namespace Calendar

/-- A leap second at the end of a day. Counted on from the start of the day, it belongs to the next. -/
def Time.Overruns (t : Time) : Prop :=
  t.second = 86399 ∧ 1000000000 ≤ t.nano

/-- A leap second that belongs to no day: one without a date, or at the end of the calendar. -/
def Stamp.Overruns (s : Stamp) : Prop :=
  match s.toUtc.parts with
  | .date _ => False
  | .time t => t.Overruns
  | .both d t => t.Overruns ∧ d = Date.last

theorem Stamp.exists_toUtc (d : Date) (t : Time) (offset : Option Offset)
    (calendar : Option System) :
    ∃ u : DateTime, (Stamp.mk (.both d t) offset calendar).toUtc.parts = .both u.date u.time := by
  rw [toUtc]
  split
  · next u _ => exact ⟨u, rfl⟩
  · exact ⟨⟨d, t⟩, rfl⟩

end Calendar

namespace Postgres

open Calendar (Date Time DateTime Offset Stamp)

/-! ### Dates and times -/

theorem exists_ofSecond?_iff {second nano : Nat} (hnano : nano < 1000000000) :
    (∃ t, Time.ofSecond? second nano = some t) ↔ second < 86400 := by
  rw [Time.ofSecond?]
  split
  · next h =>
    rw [if_pos (.inl hnano)]
    exact iff_of_true ⟨_, rfl⟩ h.1
  · next h =>
    refine iff_of_false ?_ (by omega)
    rintro ⟨_, hsome⟩
    cases hsome

theorem exists_timeOfMicros_iff (t : Time) :
    (∃ u, timeOfMicros (timeMicros t) = .ok u) ↔ ¬ t.Overruns := by
  have hsecond := t.second_lt
  have hnano := t.nano_lt
  have hmicros : timeMicros t = (t.second : Int) * 1000000 + (t.nano / 1000 : Nat) := rfl
  have hnonneg : 0 ≤ timeMicros t / 1000000 := by omega
  have hday : (timeMicros t / 1000000).toNat = t.second + t.nano / 1000000000 := by omega
  have hrest : (timeMicros t % 1000000).toNat * 1000 < 1000000000 := by omega
  have hiff : (∃ u, Time.ofSecond? (timeMicros t / 1000000).toNat
      ((timeMicros t % 1000000).toNat * 1000) = some u) ↔ ¬ t.Overruns := by
    rw [exists_ofSecond?_iff hrest, hday, Time.Overruns]
    omega
  rw [← hiff, timeOfMicros]
  simp only [if_pos hnonneg]
  cases Time.ofSecond? (timeMicros t / 1000000).toNat ((timeMicros t % 1000000).toNat * 1000) <;> simp

/-- Parts of a thousand are dropped toward zero. -/
theorem tdiv_near (n : Int) :
    (0 ≤ n → 0 ≤ n - n.tdiv 1000 * 1000 ∧ n - n.tdiv 1000 * 1000 < 1000) ∧
    (n < 0 → -1000 < n - n.tdiv 1000 * 1000 ∧ n - n.tdiv 1000 * 1000 ≤ 0) := by
  constructor
  · intro hn
    rw [Int.tdiv_eq_ediv_of_nonneg hn]
    omega
  · intro hn
    have hneg : n.tdiv 1000 = -((-n) / 1000) := by
      rw [← Int.tdiv_eq_ediv_of_nonneg (by omega), Int.neg_tdiv, Int.neg_neg]
    rw [hneg]
    omega

/-- Parts of a microsecond are dropped toward the start of 2000. -/
theorem epochMicros_near (t : DateTime) :
    (0 ≤ t.nanos - epochDay * 86400000000000 →
      0 ≤ t.nanos - epochDay * 86400000000000 - epochMicros t * 1000 ∧
      t.nanos - epochDay * 86400000000000 - epochMicros t * 1000 < 1000) ∧
    (t.nanos - epochDay * 86400000000000 < 0 →
      -1000 < t.nanos - epochDay * 86400000000000 - epochMicros t * 1000 ∧
      t.nanos - epochDay * 86400000000000 - epochMicros t * 1000 ≤ 0) :=
  tdiv_near _

theorem epochMicros_range (t : DateTime) : -(2 ^ 63) ≤ epochMicros t ∧ epochMicros t < 2 ^ 63 := by
  have hnear := epochMicros_near t
  have hday := t.date.dayNumber_bounds
  have hsecond := t.time.second_lt
  have hnano := t.time.nano_lt
  rw [DateTime.nanos, DateTime.seconds, epochDay] at hnear
  omega

/-- The day of the microseconds is that of the date, or the next one: if a leap second runs into it,
or if parts of a microsecond were dropped on the way to 2000. -/
theorem day_epochMicros (t : DateTime) :
    let day := (epochMicros t + 10957 * 86400000000) * 1000 / 1000000000 / 86400
    (day = t.date.dayNumber ∨ day = t.date.dayNumber + 1) ∧
      (t.time.Overruns → day = t.date.dayNumber + 1) ∧
      (epochDay ≤ t.date.dayNumber → ¬ t.time.Overruns → day = t.date.dayNumber) := by
  intro day
  have hday : day = (epochMicros t + 10957 * 86400000000) * 1000 / 1000000000 / 86400 := rfl
  clear_value day
  have hnear := epochMicros_near t
  have hsecond := t.time.second_lt
  have hnano := t.time.nano_lt
  rw [DateTime.nanos, DateTime.seconds, epochDay] at hnear
  rw [Time.Overruns, epochDay]
  omega

theorem exists_ofNanos?_iff (nanos : Int) : (∃ t, DateTime.ofNanos? nanos = some t) ↔
    Date.ofDayNumber? (nanos / 1000000000 / 86400) ≠ none := by
  rw [← Option.isSome_iff_exists, DateTime.ofNanos?, Option.isSome_map, Option.isSome_iff_ne_none]

theorem exists_dateTimeOfMicros (micros : Int) : (∃ u, dateTimeOfMicros micros = .ok u) ↔
    Date.ofDayNumber? ((micros + 10957 * 86400000000) * 1000 / 1000000000 / 86400) ≠ none := by
  rw [← exists_ofNanos?_iff]
  unfold dateTimeOfMicros
  cases DateTime.ofNanos? ((micros + 10957 * 86400000000) * 1000) <;> simp [unsupported]

theorem exists_dateTimeOfMicros_iff (t : DateTime) :
    (∃ u, dateTimeOfMicros (epochMicros t) = .ok u) ↔ ¬ (t.time.Overruns ∧ t.date = Date.last) := by
  have hday := day_epochMicros t
  rw [exists_dateTimeOfMicros]
  generalize (epochMicros t + 10957 * 86400000000) * 1000 / 1000000000 / 86400 = day at hday ⊢
  obtain ⟨hnear, hover, hwithin⟩ := hday
  by_cases hlast : t.date = Date.last
  · have hlate : epochDay ≤ t.date.dayNumber := by
      rw [hlast]
      decide
    by_cases hoverruns : t.time.Overruns
    · rw [hover hoverruns]
      exact iff_of_false (fun h => h ((Date.next_eq_none_iff _).mpr hlast))
        (fun h => h ⟨hoverruns, hlast⟩)
    · rw [hwithin hlate hoverruns, Date.ofDayNumber?_dayNumber]
      exact iff_of_true (fun h => nomatch h) fun h => hoverruns h.1
  · refine iff_of_true ?_ fun h => hlast h.2
    rcases hnear with rfl | rfl
    · rw [Date.ofDayNumber?_dayNumber]
      exact fun h => nomatch h
    · rwa [ne_eq, Date.next_eq_none_iff]

section

variable {bytes rest : Bytes} {micros : Int}

theorem exists_decodeScalar_time (hread : readSigned 8 bytes = .ok (micros, rest)) :
    (∃ w, decodeScalar .time bytes = .ok w) ↔ ∃ t, timeOfMicros micros = .ok t := by
  simp only [decodeScalar, hread]
  exact Except.exists_bind_eq_ok

theorem exists_decodeTimetz {west : Int} {offset : Offset} {last : Bytes}
    (hread : readSigned 8 bytes = .ok (micros, rest)) (hwest : readSigned 4 rest = .ok (west, last))
    (hoffset : Offset.ofSeconds? (-west) = some offset) :
    (∃ w, decodeTimetz bytes = .ok w) ↔ ∃ t, timeOfMicros micros = .ok t := by
  simp only [decodeTimetz, hread, bind, Except.bind]
  cases timeOfMicros micros <;> simp [hwest, hoffset]

theorem exists_decodeScalar_timestamp {type : Scalar} (htype : type = .timestamp ∨ type = .timestamptz)
    (hread : readSigned 8 bytes = .ok (micros, rest)) :
    (∃ w, decodeScalar type bytes = .ok w) ↔ ∃ t, dateTimeOfMicros micros = .ok t := by
  rcases htype with rfl | rfl
  all_goals
    simp only [decodeScalar, hread]
    exact Except.exists_bind_eq_ok

end

theorem readSigned_epochMicros (t : DateTime) :
    readSigned 8 (word 8 (epochMicros t)) = .ok (epochMicros t, []) :=
  readSigned_word_alone (by decide) (epochMicros_range t).1 (epochMicros_range t).2

/-- A stamp is written, and read back unless it overruns its day. -/
theorem exists_decode_stamp_iff (s : Stamp) : ∃ bytes,
    encodeStamp s (.scalar (stampType s)) = .ok bytes ∧
      ((∃ w, decodeScalar (stampType s) bytes = .ok w) ↔ ¬ s.Overruns) := by
  obtain ⟨parts, offset, calendar⟩ := s
  cases parts with
  | date d =>
    have hbounds := d.dayNumber_bounds
    have hread : readSigned 4 (word 4 (d.dayNumber - epochDay)) = .ok (d.dayNumber - epochDay, []) :=
      readSigned_word_alone (by decide) (by rw [epochDay]; omega) (by rw [epochDay]; omega)
    refine ⟨word 4 (d.dayNumber - epochDay), rfl, iff_of_true ⟨.date (.ofDate d), ?_⟩ ?_⟩
    · simp only [stampType, decodeScalar, hread, Except.bind]
      exact decodeDate_dayNumber d
    · cases offset <;> exact id
  | time t =>
    have hbounds := timeMicros_bounds t
    have hoverruns : Stamp.Overruns ⟨.time t, offset, calendar⟩ ↔ t.Overruns := by
      cases offset <;> exact Iff.rfl
    rw [hoverruns, ← exists_timeOfMicros_iff]
    cases offset with
    | none =>
      have hread : readSigned 8 (word 8 (timeMicros t)) = .ok (timeMicros t, []) :=
        readSigned_word_alone (by decide) hbounds.1 hbounds.2
      exact ⟨word 8 (timeMicros t), rfl, exists_decodeScalar_time hread⟩
    | some o =>
      have heast := o.valid
      have hmicros : readSigned 8 (word 8 (timeMicros t) ++ word 4 (-o.seconds)) =
          .ok (timeMicros t, word 4 (-o.seconds)) :=
        @readSigned_word 8 _ (by decide) hbounds.1 hbounds.2 _
      have hwest : readSigned 4 (word 4 (-o.seconds)) = .ok (-o.seconds, []) :=
        readSigned_word_alone (by decide) (by omega) (by omega)
      have hofSeconds : Offset.ofSeconds? (- -o.seconds) = some o := by
        rw [Int.neg_neg, Offset.ofSeconds?, dif_pos heast]
      exact ⟨word 8 (timeMicros t) ++ word 4 (-o.seconds), rfl,
        exists_decodeTimetz hmicros hwest hofSeconds⟩
  | both d t =>
    cases offset with
    | none =>
      refine ⟨word 8 (epochMicros ⟨d, t⟩), rfl, ?_⟩
      have hread := readSigned_epochMicros ⟨d, t⟩
      exact (exists_decodeScalar_timestamp (.inl rfl) hread).trans (exists_dateTimeOfMicros_iff ⟨d, t⟩)
    | some o =>
      obtain ⟨u, hu⟩ := Stamp.exists_toUtc d t (some o) calendar
      have hlocal : (Stamp.mk (.both d t) (some o) calendar).toUtc.local? = some u := by
        rw [Stamp.local?, hu]
      have hoverruns : Stamp.Overruns ⟨.both d t, some o, calendar⟩ ↔
          u.time.Overruns ∧ u.date = Date.last := by
        rw [Stamp.Overruns, hu]
      have hread := readSigned_epochMicros u
      refine ⟨word 8 (epochMicros u), ?_, ?_⟩
      · simp only [stampType, encodeStamp, hlocal, Option.getD_some]
      · rw [hoverruns, ← exists_dateTimeOfMicros_iff]
        exact exists_decodeScalar_timestamp (.inr rfl) hread

/-! ### Data and arrays -/

/-- What is written of a datum is read back, unless it is a stamp that overruns its day. -/
theorem exists_decode_datum_iff {v : Value} {type : Scalar} {bytes : Bytes}
    (htype : scalarType? v = some type) (hbytes : encode v (.scalar type) = .ok (some bytes)) :
    (∃ w, decodeScalar type bytes = .ok w) ↔ ∀ s, v = .date s → ¬ s.Overruns := by
  have hdatum (hd : Datum v) (hdate : ∀ s, v ≠ .date s) :
      (∃ w, decodeScalar type bytes = .ok w) ↔ ∀ s, v = .date s → ¬ s.Overruns := by
    obtain ⟨type', bytes', htype', hbytes', hread, -⟩ := datum_comes_back hd
    obtain rfl : type = type' := Option.some.inj (htype.symm.trans htype')
    obtain rfl : bytes = bytes' := Option.some.inj (Except.ok.inj (hbytes.symm.trans hbytes'))
    exact iff_of_true ⟨_, hread⟩ fun s hs => absurd hs (hdate s)
  cases v with
  | null => cases hbytes
  | date s =>
    obtain rfl : stampType s = type := Option.some.inj htype
    obtain ⟨bytes', hwritten, hiff⟩ := exists_decode_stamp_iff s
    rw [encode, hwritten] at hbytes
    obtain rfl : bytes' = bytes := Option.some.inj (Except.ok.inj hbytes)
    rw [hiff]
    exact ⟨fun h t ht => Value.date.inj ht ▸ h, fun h => h s rfl⟩
  | array items => cases htype
  | map entries => cases htype
  | payload p => cases htype
  | _ => exact hdatum ⟨rfl, fun s hs => by cases hs⟩ fun s hs => by cases hs

theorem encodeItems_cons_eq_ok {v : Value} {items : List Value} {element : PgType} {body : Bytes} :
    encodeItems (v :: items) element = .ok body ↔ ∃ item, encode v element = .ok item ∧
      ∃ bytes, framed item = .ok bytes ∧
        ∃ more, encodeItems items element = .ok more ∧ bytes ++ more = body := by
  simp only [encodeItems, Except.bind_eq_ok, pure, Except.pure, Except.ok.injEq]

/-- An item is read from its frame as it would be alone, and what comes after it is left. -/
theorem readItem_framed_eq {item : Option Bytes} {bytes : Bytes} (h : framed item = .ok bytes)
    (decode : Bytes → Except Error Value) (rest : Bytes) : readItem decode (bytes ++ rest) =
      ((item.map decode).getD (.ok .null)).map fun v => (v, rest) := by
  cases item with
  | none =>
    cases h
    exact readItem_null decode rest
  | some bytes' =>
    rw [framed] at h
    split at h
    · next hsize =>
      cases h
      rw [List.append_assoc, readItem_framed decode hsize]
      rfl
    · cases h

theorem readMany_eq_map {reader : Bytes → Except Error (Value × Bytes)} {x : Except Error Value}
    {bytes rest : Bytes} (h : reader bytes = x.map fun v => (v, rest)) (n : Nat) :
    readMany reader (n + 1) bytes =
      x >>= fun v => (readMany reader n rest).map fun (vs, last) => (v :: vs, last) := by
  rw [readMany, h]
  cases x with
  | error e => rfl
  | ok v =>
    simp only [Except.map, bind, Except.bind]
    cases readMany reader n rest <;> rfl

/-- The items of an array are read back if each of them is, and only then. -/
theorem exists_readMany_iff {type : Scalar} {items : List Value} {body : Bytes}
    (h : encodeItems items (.scalar type) = .ok body) (rest : Bytes) :
    (∃ back, readMany (readItem (decodeScalar type)) items.length (body ++ rest) = .ok back) ↔
      ∀ item ∈ items, ∀ bytes, encode item (.scalar type) = .ok (some bytes) →
        ∃ w, decodeScalar type bytes = .ok w := by
  induction items generalizing body with
  | nil => exact iff_of_true ⟨_, rfl⟩ (List.forall_mem_nil _)
  | cons v items ih =>
    obtain ⟨item, hitem, bytes, hbytes, more, hmore, rfl⟩ := encodeItems_cons_eq_ok.mp h
    have hread := readItem_framed_eq hbytes (decodeScalar type) (more ++ rest)
    have hfirst : (∃ w, (item.map (decodeScalar type)).getD (.ok .null) = .ok w) ↔
        ∀ bytes, encode v (.scalar type) = .ok (some bytes) → ∃ w, decodeScalar type bytes = .ok w := by
      rw [hitem]
      cases item with
      | none => exact iff_of_true ⟨.null, rfl⟩ fun _ h => nomatch h
      | some bytes' => exact ⟨fun h b hb => by cases hb; exact h, fun h => h bytes' rfl⟩
    rw [List.forall_mem_cons, ← hfirst, ← ih hmore, List.append_assoc, List.length_cons,
      readMany_eq_map hread]
    simp only [Except.bind_eq_ok, Except.map_eq_ok]
    constructor
    · rintro ⟨back, w, hw, vs, hvs, -⟩
      exact ⟨⟨w, hw⟩, vs, hvs⟩
    · rintro ⟨⟨w, hw⟩, vs, hvs⟩
      exact ⟨_, w, hw, vs, hvs, rfl⟩

end Postgres

namespace Value

/-- The stamp that a value is. -/
def stamp? : Value → Option Calendar.Stamp
  | .date s => some s
  | _ => none

/-- The stamp that a value is, or those that are its items. -/
def stamps : Value → List Calendar.Stamp
  | .array items => items.filterMap stamp?
  | v => v.stamp?.toList

theorem stamp?_eq_some_iff {v : Value} {s : Calendar.Stamp} : v.stamp? = some s ↔ v = .date s := by
  cases v <;> simp [stamp?]

end Value

namespace Postgres

theorem forall_stamps_array_iff {items : List Value} {P : Calendar.Stamp → Prop} :
    (∀ s ∈ (Value.array items).stamps, P s) ↔ ∀ item ∈ items, ∀ s, item = .date s → P s := by
  simp only [Value.stamps, List.mem_filterMap, Value.stamp?_eq_some_iff]
  constructor
  · exact fun h item hitem s hs => h s ⟨item, hitem, hs⟩
  · rintro h s ⟨item, hitem, hs⟩
    exact h item hitem s hs

theorem exists_decode_item_iff {v : Value} {type : Scalar}
    (htype : v.isNull = true ∨ scalarType? v = some type) :
    (∀ bytes, encode v (.scalar type) = .ok (some bytes) → ∃ w, decodeScalar type bytes = .ok w) ↔
      ∀ s, v = .date s → ¬ s.Overruns := by
  rcases htype with hnull | htype
  · obtain ⟨rfl, -⟩ := arrived_null hnull
    exact iff_of_true (fun _ h => nomatch h) fun _ h => nomatch h
  · constructor
    · rintro h s rfl
      obtain rfl : stampType s = type := Option.some.inj htype
      obtain ⟨bytes, hwritten, hiff⟩ := exists_decode_stamp_iff s
      exact hiff.mp (h bytes (by rw [encode, hwritten]; rfl))
    · exact fun h bytes hbytes => (exists_decode_datum_iff htype hbytes).mpr h

/-- An array of data is read back, unless an item is a stamp that overruns its day. -/
theorem exists_decode_array_iff {type : Scalar} {items : List Value} {bytes : Bytes}
    (htypes : ∀ item ∈ items, item.isNull = true ∨ scalarType? item = some type)
    (hbytes : encode (.array items) (.arrayOf type) = .ok (some bytes)) :
    (∃ w, decode (.arrayOf type) bytes = .ok w) ↔ ∀ s ∈ (Value.array items).stamps, ¬ s.Overruns := by
  simp only [encode, PgType.element?] at hbytes
  split at hbytes
  · next hcount =>
    obtain ⟨body, hbody, hframe⟩ := Except.map_eq_ok.mp hbytes
    obtain rfl := Option.some.inj hframe
    have hitems := exists_readMany_iff hbody []
    rw [List.append_nil] at hitems
    rw [decode, decodeArray_header _ _ _ hcount, Except.exists_map_eq_ok, hitems,
      forall_stamps_array_iff]
    exact forall₂_congr fun item hitem => exists_decode_item_iff (htypes item hitem)
  · cases hbytes

/-! ### Values -/

theorem exists_decode_json_iff {v : Value} {bytes : Bytes} (h : v.holdsPayload = false)
    (hbytes : (encodeJson v (.scalar .jsonb)).map some = .ok (some bytes)) :
    (∃ w, decode (.scalar .jsonb) bytes = .ok w) ↔ v.depth ≤ 127 := by
  obtain ⟨framed, hframed, hsome⟩ := Except.map_eq_ok.mp hbytes
  obtain ⟨text, htext, rfl⟩ := Except.map_eq_ok.mp hframed
  obtain rfl := Option.some.inj hsome
  exact Value.exists_ofJsonBytes_iff h htext

theorem scalarType?_of_commonType? {type : Scalar} {items : List Value}
    (h : commonType? items = some type) : ∀ item ∈ items, scalarType? item = some type := by
  cases items with
  | nil => exact List.forall_mem_nil _
  | cons v rest =>
    obtain ⟨hfirst, hrest⟩ := Option.filter_eq_some_iff.mp h
    refine List.forall_mem_cons.mpr ⟨hfirst, fun item hitem => ?_⟩
    exact of_decide_eq_true (List.all_eq_true.mp hrest item hitem)

/-- An array is sent as JSON text, or as an array of the one type that its items other than nulls
have. -/
theorem paramType_array_cases (items : List Value) :
    paramType (.array items) = .scalar .jsonb ∨ ∃ type, paramType (.array items) = .arrayOf type ∧
      ∀ item ∈ items, item.isNull = true ∨ scalarType? item = some type := by
  have hpresent (type : Scalar)
      (h : ∀ item ∈ items.filter fun item => !item.isNull, scalarType? item = some type) :
      ∀ item ∈ items, item.isNull = true ∨ scalarType? item = some type := by
    intro item hitem
    cases hnull : item.isNull with
    | true => exact .inl rfl
    | false => exact .inr (h item (List.mem_filter.mpr ⟨hitem, by rw [hnull]; rfl⟩))
  rw [paramType]
  split
  · next hempty =>
    refine .inr ⟨.text, rfl, hpresent .text ?_⟩
    rw [List.isEmpty_iff.mp hempty]
    exact List.forall_mem_nil _
  · split
    · next type htype => exact .inr ⟨type, rfl, hpresent type (scalarType?_of_commonType? htype)⟩
    · exact .inl rfl

theorem scalarType?_ne_jsonb (v : Value) : scalarType? v ≠ some .jsonb := by
  cases v with
  | date s =>
    obtain ⟨parts, offset, calendar⟩ := s
    cases parts <;> cases offset <;> exact fun h => nomatch h
  | _ => exact fun h => nomatch h

theorem exists_decode_jsonb_iff {v : Value} {bytes : Bytes} (h : v.holdsPayload = false)
    (htype : paramType v = .scalar .jsonb)
    (hbytes : encode v (.scalar .jsonb) = .ok (some bytes)) :
    (∃ w, decode (.scalar .jsonb) bytes = .ok w) ↔ v.depth ≤ 127 := by
  cases v with
  | array items => exact exists_decode_json_iff h hbytes
  | map entries => exact exists_decode_json_iff h hbytes
  | payload p => cases h
  | date s => exact absurd (congrArg some (PgType.scalar.inj htype)) (scalarType?_ne_jsonb (.date s))
  | _ => cases htype

theorem exists_decode_typed_iff {v : Value} {bytes : Bytes} (h : v.holdsPayload = false)
    (htype : paramType v ≠ .scalar .jsonb) (hbytes : encode v (paramType v) = .ok (some bytes)) :
    (∃ w, decode (paramType v) bytes = .ok w) ↔ ∀ s ∈ v.stamps, ¬ s.Overruns := by
  have hdatum (type : Scalar) (hscalar : scalarType? v = some type)
      (hparam : paramType v = .scalar type) (hstamps : v.stamps = v.stamp?.toList) :
      (∃ w, decode (paramType v) bytes = .ok w) ↔ ∀ s ∈ v.stamps, ¬ s.Overruns := by
    rw [hparam] at hbytes ⊢
    rw [hstamps, decode, exists_decode_datum_iff hscalar hbytes]
    simp only [Option.mem_toList, Value.stamp?_eq_some_iff]
  cases v with
  | null => cases hbytes
  | map entries => exact absurd rfl htype
  | payload p => cases h
  | array items =>
    rcases paramType_array_cases items with hjson | ⟨type, harray, htypes⟩
    · exact absurd hjson htype
    · rw [harray] at hbytes ⊢
      exact exists_decode_array_iff htypes hbytes
  | _ => exact hdatum _ rfl rfl rfl

/-- What is written of a value as the type chosen for it is read back, unless it is JSON text that is
nested too deep, or there is a stamp that overruns its day. -/
theorem exists_decode_iff {v : Value} {bytes : Bytes} (h : v.holdsPayload = false)
    (hbytes : encode v (paramType v) = .ok (some bytes)) :
    (∃ w, decode (paramType v) bytes = .ok w) ↔
      (paramType v = .scalar .jsonb → v.depth ≤ 127) ∧
        (paramType v ≠ .scalar .jsonb → ∀ s ∈ v.stamps, ¬ s.Overruns) := by
  by_cases htype : paramType v = .scalar .jsonb
  · rw [htype] at hbytes ⊢
    rw [exists_decode_jsonb_iff h htype hbytes]
    exact ⟨fun h => ⟨fun _ => h, fun hne => absurd rfl hne⟩, fun h => h.1 rfl⟩
  · rw [exists_decode_typed_iff h htype hbytes]
    exact ⟨fun h => ⟨fun heq => absurd heq htype, fun _ => h⟩, fun h => h.2 htype⟩

end Postgres

end Polystore
