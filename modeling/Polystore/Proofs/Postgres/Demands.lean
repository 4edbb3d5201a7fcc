import Mathlib.Algebra.Order.BigOperators.Group.List
import Mathlib.Data.List.Infix
import Polystore.Proofs.Except
import Polystore.Proofs.Postgres.Words

/-!
What the decoder asks for on its way: bytes off those that are left, the product of an array's
lengths, and room for parts that are still to be read. The watched decoder is the decoder with its
demands written down. No slice goes past the end; room beyond what is left is asked for only where
the image is refused; and a product of three lengths or more need not fit its word.
-/

namespace Polystore.Postgres

/-- What is asked for before it is known whether it can be had. -/
inductive Demand where
  /-- Bytes off those that are left. -/
  | slice (count left : Nat)
  /-- The product of the lengths of an array, in a 64-bit word. -/
  | product (lengths : List Nat)
  /-- Room for parts still to be read off what is left, each of the width at least. -/
  | room (count width left : Nat)
deriving DecidableEq

namespace Demand

/-- The product is taken from the first length on, and every step of it stays in the word. -/
def Met : Demand → Prop
  | .slice count left => count ≤ left
  | .product lengths => ∀ front ∈ lengths.inits, front.prod < 2 ^ 64
  | .room count width left => count * width ≤ left

instance : DecidablePred Met
  | .slice count left => inferInstanceAs (Decidable (count ≤ left))
  | .product lengths => inferInstanceAs (Decidable (∀ front ∈ lengths.inits, front.prod < 2 ^ 64))
  | .room count width left => inferInstanceAs (Decidable (count * width ≤ left))

/-- A piece of what is there. -/
def Within : Demand → Prop
  | .slice count left => count ≤ left
  | _ => False

/-- What holds of a demand whatever the image. -/
def Bounded : Demand → Prop
  | .product lengths => ∀ length ∈ lengths, length < 2 ^ 31
  | .room count _ _ => count < 2 ^ 64
  | d => d.Met

/-- What holds of a demand once the image has been decoded. -/
def Settled : Demand → Prop
  | .product _ => True
  | d => d.Met

theorem Within.bounded_settled {d : Demand} (h : d.Within) : d.Bounded ∧ d.Settled := by
  cases d with
  | slice count left => exact ⟨h, h⟩
  | product lengths => exact h.elim
  | room count width left => exact h.elim

/-- Two lengths of 31 bits never leave the word, whatever they are. -/
theorem product_met {lengths : List Nat} (hshort : lengths.length ≤ 2)
    (h : (product lengths).Bounded) : (product lengths).Met := by
  intro front hfront
  have hpos : 0 < 2 ^ 31 := by decide
  have hbound : front.prod ≤ (2 ^ 31) ^ front.length := by
    apply List.prod_le_pow_card
    intro length hlength
    have hinitial := (List.mem_inits _ _).mp hfront
    exact (h length (hinitial.subset hlength)).le
  have hlength : front.length ≤ 2 := ((List.mem_inits _ _).mp hfront).length_le.trans hshort
  calc front.prod ≤ (2 ^ 31) ^ front.length := hbound
    _ ≤ (2 ^ 31) ^ 2 := Nat.pow_le_pow_right hpos hlength
    _ < 2 ^ 64 := by decide

end Demand

/-- A computation together with what it has asked for. -/
structure Watched (α : Type) where
  demands : List Demand
  answer : Except Error α

namespace Watched

variable {α β : Type}

def of (answer : Except Error α) : Watched α := ⟨[], answer⟩

def ask (demand : Demand) : Watched Unit := ⟨[demand], .ok ()⟩

def map (f : α → β) (x : Watched α) : Watched β := ⟨x.demands, x.answer.map f⟩

/-- After a failure nothing more is asked for. -/
def bind (x : Watched α) (f : α → Watched β) : Watched β :=
  match x.answer with
  | .ok a => ⟨x.demands ++ (f a).demands, (f a).answer⟩
  | .error e => ⟨x.demands, .error e⟩

instance : Monad Watched where
  pure a := of (.ok a)
  bind := bind

def take (n : Nat) (bytes : Bytes) : Watched (Bytes × Bytes) :=
  if n ≤ bytes.length then do
    ask (.slice n bytes.length)
    pure (bytes.take n, bytes.drop n)
  else of (.error (.malformed (.truncated n bytes.length)))

def readWord (width : Nat) (bytes : Bytes) : Watched (Nat × Bytes) :=
  (take width bytes).map fun (word, rest) => (Bytes.ofBigEndian word, rest)

def readSigned (width : Nat) (bytes : Bytes) : Watched (Int × Bytes) :=
  (readWord width bytes).map fun (n, rest) => (Bytes.signed (8 * width) n, rest)

def readMany (reader : Bytes → Watched (α × Bytes)) : Nat → Bytes → Watched (List α × Bytes)
  | 0, bytes => pure ([], bytes)
  | n + 1, bytes => do
    let (a, rest) ← reader bytes
    let (as, rest) ← readMany reader n rest
    pure (a :: as, rest)

def decodeNumeric (bytes : Bytes) : Watched Value := do
  let (count, rest) ← readSigned 2 bytes
  let (weight, rest) ← readSigned 2 rest
  let (sign, rest) ← readWord 2 rest
  let (places, rest) ← readWord 2 rest
  if sign = Numeric.notANumber then of (.ok (.float .nan))
  else if sign = Numeric.positiveInfinity then of (.ok (.float .infinity))
  else if sign = Numeric.negativeInfinity then of (.ok (.float .negInfinity))
  else if sign = Numeric.positive ∨ sign = Numeric.negative then
    if count < 0 then of (.error (.malformed .negativeDigitCount))
    else do
      let (digits, _) ← readMany (readSigned 2) count.toNat rest
      of (Numeric.toValue ⟨digits, weight, sign, places⟩)
  else of (.error (.malformed (.numericSign sign)))

def decodeTimetz (bytes : Bytes) : Watched Value := do
  let (micros, rest) ← readSigned 8 bytes
  let time ← of (timeOfMicros micros)
  let (west, _) ← readSigned 4 rest
  of (match Calendar.Offset.ofSeconds? (-west) with
    | some offset => .ok (.date ⟨.time time, some offset, none⟩)
    | none => .error (.malformed (.zoneOffset west)))

/-- The bytes that a type of a fixed size reads, in one word. -/
def wordOf? : Scalar → Option Nat
  | .bool => some 1
  | .int2 => some 2
  | .int4 | .oid | .float4 | .date => some 4
  | .int8 | .float8 | .time | .timestamp | .timestamptz => some 8
  | _ => none

def decodeScalar : Scalar → Bytes → Watched Value
  | .numeric, bytes => decodeNumeric bytes
  | .timetz, bytes => decodeTimetz bytes
  | type, bytes =>
    match wordOf? type with
    | some width => take width bytes >>= fun _ => of (Postgres.decodeScalar type bytes)
    | none => of (Postgres.decodeScalar type bytes)

def readItem (decode : Bytes → Watched Value) (bytes : Bytes) : Watched (Value × Bytes) := do
  let (length, rest) ← readSigned 4 bytes
  if length < 0 then pure (.null, rest)
  else do
    let (item, rest) ← take length.toNat rest
    let v ← decode item
    pure (v, rest)

def readDimension (bytes : Bytes) : Watched (Nat × Bytes) := do
  let (length, rest) ← readSigned 4 bytes
  let (_, rest) ← readSigned 4 rest
  if length < 0 then of (.error (.malformed .negativeLength)) else pure (length.toNat, rest)

/-- Room for the lengths and for the items is asked for before any of them is read. -/
def decodeArray (decode : Bytes → Watched Value) (bytes : Bytes) : Watched Value := do
  let (dimensions, rest) ← readSigned 4 bytes
  let (_, rest) ← readSigned 4 rest
  let (_, rest) ← readWord 4 rest
  if dimensions = 0 then pure (.array [])
  else if dimensions < 0 then of (.error (.malformed .negativeDimensions))
  else do
    ask (.room dimensions.toNat 8 rest.length)
    let (lengths, rest) ← readMany readDimension dimensions.toNat rest
    ask (.product lengths)
    ask (.room (itemCount lengths) 4 rest.length)
    let (items, _) ← readMany (readItem decode) (itemCount lengths) rest
    pure (.array (nest (lengths.drop 1) items))

def decode : PgType → Bytes → Watched Value
  | .scalar s, bytes => decodeScalar s bytes
  | .arrayOf s, bytes => decodeArray (decodeScalar s) bytes
  | .enumeration _, bytes => of (decodeText bytes)
  | .composite name, _ => of (unsupported name)
  | .domain _ base, bytes => decode base bytes
  | .array _ element, bytes => decodeArray (decode element) bytes

end Watched

/-! ### What reading uses up -/

theorem take_eq_ok {n : Nat} {bytes a rest : Bytes} (h : take n bytes = .ok (a, rest)) :
    a.length = n ∧ bytes = a ++ rest := by
  rw [take] at h
  split at h
  · cases h
    exact ⟨List.length_take_of_le ‹_›, (List.take_append_drop n bytes).symm⟩
  · cases h

theorem readSigned_eq_ok {width : Nat} {bytes rest : Bytes} {i : Int} (hwidth : 0 < width)
    (h : readSigned width bytes = .ok (i, rest)) :
    i < 2 ^ (8 * width - 1) ∧ bytes.length = width + rest.length := by
  obtain ⟨⟨n, last⟩, hread, hresult⟩ := Except.map_eq_ok.mp h
  obtain ⟨⟨word, left⟩, htake, hword⟩ := Except.map_eq_ok.mp hread
  obtain ⟨hlength, hbytes⟩ := take_eq_ok htake
  cases hword
  cases hresult
  refine ⟨?_, by rw [hbytes, List.length_append, hlength]⟩
  apply Bytes.signed_lt (by omega)
  rw [Bytes.two_pow_eight_mul, ← hlength]
  exact Bytes.ofBigEndian_lt word

theorem readDimension_eq_ok {bytes rest : Bytes} {length : Nat}
    (h : readDimension bytes = .ok (length, rest)) :
    length < 2 ^ 31 ∧ 8 + rest.length ≤ bytes.length := by
  obtain ⟨⟨i, middle⟩, hlength, h⟩ := Except.bind_eq_ok.mp h
  obtain ⟨⟨lower, last⟩, hlower, h⟩ := Except.bind_eq_ok.mp h
  obtain ⟨hi, hused⟩ := readSigned_eq_ok (by decide) hlength
  obtain ⟨-, hused'⟩ := readSigned_eq_ok (by decide) hlower
  dsimp only at h
  split at h
  · cases h
  · cases h
    omega

theorem readItem_eq_ok {decode : Bytes → Except Error Value} {bytes rest : Bytes} {v : Value}
    (h : readItem decode bytes = .ok (v, rest)) : 4 + rest.length ≤ bytes.length := by
  obtain ⟨⟨length, body⟩, hlength, h⟩ := Except.bind_eq_ok.mp h
  obtain ⟨-, hused⟩ := readSigned_eq_ok (by decide) hlength
  dsimp only at h
  split at h
  · cases h
    omega
  · obtain ⟨⟨item, last⟩, htake, hitem⟩ := Except.bind_eq_ok.mp h
    obtain ⟨w, -, hpair⟩ := Except.bind_eq_ok.mp hitem
    obtain ⟨-, hbody⟩ := take_eq_ok htake
    cases hpair
    rw [hused, hbody, List.length_append]
    change 4 + last.length ≤ _
    omega

/-- As many items as were asked for, each of them off what was left by the one before. -/
theorem readMany_eq_ok {α : Type} {reader : Bytes → Except Error (α × Bytes)} {width : Nat}
    {R : α → Prop}
    (hreader : ∀ bytes a rest, reader bytes = .ok (a, rest) →
      R a ∧ width + rest.length ≤ bytes.length)
    {n : Nat} {bytes rest : Bytes} {as : List α} (h : readMany reader n bytes = .ok (as, rest)) :
    (∀ a ∈ as, R a) ∧ n * width + rest.length ≤ bytes.length := by
  induction n generalizing bytes as rest with
  | zero =>
    cases h
    exact ⟨List.forall_mem_nil R, by omega⟩
  | succ n ih =>
    obtain ⟨⟨a, middle⟩, hfirst, htail⟩ := Except.bind_eq_ok.mp h
    obtain ⟨⟨more, last⟩, hmore, hpair⟩ := Except.bind_eq_ok.mp htail
    obtain ⟨ha, hused⟩ := hreader _ _ _ hfirst
    obtain ⟨has, hrest⟩ := ih hmore
    cases hpair
    refine ⟨List.forall_mem_cons.mpr ⟨ha, has⟩, ?_⟩
    rw [Nat.succ_mul]
    omega

/-! ### The watched decoder is the decoder -/

namespace Watched

variable {α β : Type} {P Q : Demand → Prop}

/-- A computation and the same one watched. All its demands are of the first kind, and of the second
kind too once there is a value. -/
structure Watches (P Q : Demand → Prop) (x : Watched α) (plain : Except Error α) : Prop where
  answer : x.answer = plain
  always : ∀ d ∈ x.demands, P d
  settled : ∀ a, plain = .ok a → ∀ d ∈ x.demands, Q d

namespace Watches

theorem of (plain : Except Error α) : Watches P Q (Watched.of plain) plain :=
  ⟨rfl, List.forall_mem_nil P, fun _ _ => List.forall_mem_nil Q⟩

theorem widen {x : Watched α} {plain : Except Error α}
    (h : Watches Demand.Within Demand.Within x plain) :
    Watches Demand.Bounded Demand.Settled x plain :=
  ⟨h.answer, fun d hd => (h.always d hd).bounded_settled.1,
    fun _ _ d hd => (h.always d hd).bounded_settled.2⟩

theorem bind {x : Watched α} {plain : Except Error α} {f : α → Watched β}
    {g : α → Except Error β} (h : Watches P Q x plain)
    (hf : ∀ a, plain = .ok a → Watches P Q (f a) (g a)) :
    Watches P Q (x >>= f) (plain >>= g) := by
  obtain ⟨demands, answer⟩ := x
  obtain ⟨rfl, halways, hsettled⟩ := h
  cases answer with
  | error e => exact ⟨rfl, halways, fun b hb => nomatch hb⟩
  | ok a =>
    obtain ⟨hanswer, halways', hsettled'⟩ := hf a rfl
    refine ⟨hanswer, fun d hd => ?_, fun b hb d hd => ?_⟩
    · exact (List.mem_append.mp hd).elim (halways d) (halways' d)
    · exact (List.mem_append.mp hd).elim (hsettled a rfl d) (hsettled' b hb d)

theorem map {x : Watched α} {plain : Except Error α} (h : Watches P Q x plain) (f : α → β) :
    Watches P Q (x.map f) (plain.map f) := by
  refine ⟨by rw [Watched.map, h.answer], h.always, fun b hb => ?_⟩
  obtain ⟨a, ha, -⟩ := Except.map_eq_ok.mp hb
  exact h.settled a ha

/-- What is asked for beforehand is judged by what comes of it. -/
theorem ask {demand : Demand} {x : Watched α} {plain : Except Error α} (hP : P demand)
    (hQ : ∀ a, plain = .ok a → Q demand) (h : Watches P Q x plain) :
    Watches P Q (Watched.ask demand >>= fun _ => x) plain := by
  refine ⟨h.answer, ?_, fun a ha => ?_⟩
  · exact List.forall_mem_cons.mpr ⟨hP, h.always⟩
  · exact List.forall_mem_cons.mpr ⟨hQ a ha, h.settled a ha⟩

theorem readMany {reader : Bytes → Watched (α × Bytes)}
    {plain : Bytes → Except Error (α × Bytes)}
    (h : ∀ bytes, Watches P Q (reader bytes) (plain bytes)) (n : Nat) (bytes : Bytes) :
    Watches P Q (Watched.readMany reader n bytes) (Postgres.readMany plain n bytes) := by
  induction n generalizing bytes with
  | zero => exact of _
  | succ n ih =>
    apply (h bytes).bind
    rintro ⟨a, rest⟩ -
    apply (ih rest).bind
    rintro ⟨as, last⟩ -
    exact of _

theorem take (n : Nat) (bytes : Bytes) :
    Watches Demand.Within Demand.Within (Watched.take n bytes) (Postgres.take n bytes) := by
  rw [Watched.take, Postgres.take]
  split
  · exact ask ‹_› (fun _ _ => ‹_›) (of _)
  · exact of _

theorem readWord (width : Nat) (bytes : Bytes) :
    Watches Demand.Within Demand.Within (Watched.readWord width bytes)
      (Postgres.readWord width bytes) :=
  (take width bytes).map _

theorem readSigned (width : Nat) (bytes : Bytes) :
    Watches Demand.Within Demand.Within (Watched.readSigned width bytes)
      (Postgres.readSigned width bytes) :=
  (readWord width bytes).map _

theorem decodeNumeric (bytes : Bytes) :
    Watches Demand.Within Demand.Within (Watched.decodeNumeric bytes)
      (Postgres.decodeNumeric bytes) := by
  apply (readSigned 2 bytes).bind
  rintro ⟨count, rest⟩ -
  apply (readSigned 2 rest).bind
  rintro ⟨weight, rest⟩ -
  apply (readWord 2 rest).bind
  rintro ⟨sign, rest⟩ -
  apply (readWord 2 rest).bind
  rintro ⟨places, rest⟩ -
  dsimp only
  split
  · exact of _
  · split
    · exact of _
    · split
      · exact of _
      · split
        · split
          · exact of _
          · apply (readMany (readSigned 2) count.toNat rest).bind
            rintro ⟨digits, last⟩ -
            exact of _
        · exact of _

theorem decodeTimetz (bytes : Bytes) :
    Watches Demand.Within Demand.Within (Watched.decodeTimetz bytes)
      (Postgres.decodeTimetz bytes) := by
  apply (readSigned 8 bytes).bind
  rintro ⟨micros, rest⟩ -
  apply (of (timeOfMicros micros)).bind
  rintro time -
  apply (readSigned 4 rest).bind
  rintro ⟨west, last⟩ -
  exact of _

/-- A type of a fixed size is refused, in the same way, where its word is. -/
theorem take_word {type : Scalar} {width : Nat} (h : wordOf? type = some width) (bytes : Bytes) :
    (Postgres.take width bytes >>= fun _ => Postgres.decodeScalar type bytes) =
      Postgres.decodeScalar type bytes := by
  cases htake : Postgres.take width bytes with
  | ok read => rfl
  | error e =>
    cases type <;> cases h <;>
      simp only [Postgres.decodeScalar, Postgres.readSigned, Postgres.readWord, htake, Except.map,
        Except.bind, Bind.bind]

theorem decodeScalar (type : Scalar) (bytes : Bytes) :
    Watches Demand.Within Demand.Within (Watched.decodeScalar type bytes)
      (Postgres.decodeScalar type bytes) := by
  unfold Watched.decodeScalar
  split
  · exact decodeNumeric bytes
  · exact decodeTimetz bytes
  · split
    · rename_i width hword
      have h := (take width bytes).bind fun _ _ =>
        of (P := Demand.Within) (Q := Demand.Within) (Postgres.decodeScalar type bytes)
      rwa [take_word hword] at h
    · exact of _

/-- An item is settled as its bytes are, and its bytes are a piece of what is left. -/
theorem readItem {decode : Bytes → Watched Value} {plain : Bytes → Except Error Value}
    (h : ∀ bytes, Watches Demand.Bounded Demand.Settled (decode bytes) (plain bytes))
    (bytes : Bytes) :
    Watches Demand.Bounded Demand.Settled (Watched.readItem decode bytes)
      (Postgres.readItem plain bytes) := by
  apply (readSigned 4 bytes).widen.bind
  rintro ⟨length, rest⟩ -
  dsimp only
  split
  · exact of _
  · apply (take length.toNat rest).widen.bind
    rintro ⟨item, last⟩ -
    exact (h item).bind fun v _ => of _

theorem readDimension (bytes : Bytes) :
    Watches Demand.Within Demand.Within (Watched.readDimension bytes)
      (Postgres.readDimension bytes) := by
  apply (readSigned 4 bytes).bind
  rintro ⟨length, rest⟩ -
  apply (readSigned 4 rest).bind
  rintro ⟨lower, last⟩ -
  dsimp only
  split <;> exact of _

/-- Lengths and items that were read have used up the room that was asked for. -/
theorem decodeArray {decode : Bytes → Watched Value} {plain : Bytes → Except Error Value}
    (h : ∀ bytes, Watches Demand.Bounded Demand.Settled (decode bytes) (plain bytes))
    (bytes : Bytes) :
    Watches Demand.Bounded Demand.Settled (Watched.decodeArray decode bytes)
      (Postgres.decodeArray plain bytes) := by
  apply (readSigned 4 bytes).widen.bind
  rintro ⟨dimensions, rest⟩ hdimensions
  apply (readSigned 4 rest).widen.bind
  rintro ⟨flag, rest⟩ -
  apply (readWord 4 rest).widen.bind
  rintro ⟨number, rest⟩ -
  dsimp only
  split
  · exact of _
  split
  · exact of _
  have hcount : dimensions.toNat < 2 ^ 64 := by
    have hsigned := (readSigned_eq_ok (by decide) hdimensions).1
    omega
  apply ask hcount
  · intro v hv
    obtain ⟨⟨lengths, body⟩, hlengths, -⟩ := Except.bind_eq_ok.mp hv
    have hused := (readMany_eq_ok (fun _ _ _ => readDimension_eq_ok) hlengths).2
    change _ ≤ _
    omega
  apply (readMany readDimension _ rest).widen.bind
  rintro ⟨lengths, body⟩ hlengths
  apply ask (readMany_eq_ok (fun _ _ _ => readDimension_eq_ok) hlengths).1
  · exact fun _ _ => trivial
  apply ask (UInt64.toNat_lt _)
  · intro v hv
    obtain ⟨⟨items, last⟩, hitems, -⟩ := Except.bind_eq_ok.mp hv
    have hread (bytes : Bytes) (v : Value) (rest : Bytes)
        (hread : Postgres.readItem plain bytes = .ok (v, rest)) :
        True ∧ 4 + rest.length ≤ bytes.length :=
      ⟨trivial, readItem_eq_ok hread⟩
    have hused := (readMany_eq_ok hread hitems).2
    change _ ≤ _
    omega
  apply (readMany (readItem h) _ body).bind
  rintro ⟨items, last⟩ -
  exact of _

theorem decode (type : PgType) (bytes : Bytes) :
    Watches Demand.Bounded Demand.Settled (Watched.decode type bytes)
      (Postgres.decode type bytes) := by
  have hscalar (s : Scalar) (bytes : Bytes) :
      Watches Demand.Bounded Demand.Settled (Watched.decodeScalar s bytes)
        (Postgres.decodeScalar s bytes) :=
    (decodeScalar s bytes).widen
  induction type generalizing bytes with
  | scalar s => exact hscalar s bytes
  | arrayOf s => exact decodeArray (hscalar s) bytes
  | enumeration name => exact of _
  | composite name => exact of _
  | domain name base ih => exact ih bytes
  | array name element ih => exact decodeArray ih bytes

end Watches

end Watched

/-- The type that the domains around it stand for. -/
def PgType.base : PgType → PgType
  | .domain _ base => base.base
  | type => type

theorem Watched.Watches.decode_flat {type : PgType} (h : type.base.element? = none)
    (bytes : Bytes) :
    Watches Demand.Within Demand.Within (Watched.decode type bytes) (Postgres.decode type bytes) := by
  induction type with
  | scalar s => exact decodeScalar s bytes
  | arrayOf s => cases h
  | enumeration name => exact of _
  | composite name => exact of _
  | domain name base ih => exact ih h
  | array name element ih => cases h

/-- An array of integers that ends where its items should begin. -/
def bareHeader (dimensions : Int) (lengths : List Nat) : Bytes :=
  word 4 dimensions ++ word 4 0 ++ word 4 23 ++
    lengths.flatMap fun length => word 4 length ++ word 4 1

end Polystore.Postgres
