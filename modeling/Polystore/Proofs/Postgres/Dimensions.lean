import Mathlib.Tactic.Ring
import Polystore.Proofs.Postgres.Words

/-!
Arrays of several dimensions. The image of an array gives its lengths from the outermost dimension on,
and then its items in one row, the last index running fastest. Main statement: what is read are arrays
within arrays of these lengths, and the item at a row of indices is the one at their place in the row.
-/

namespace Polystore

namespace Value

/-- What stands at a row of indices, one for each array on the way. -/
def at? : List Nat → Value → Option Value
  | [], v => some v
  | i :: rest, .array items => items[i]?.bind (at? rest)
  | _ :: _, _ => none

/-- Arrays within arrays, of the given lengths from the outermost on. -/
def Shaped : List Nat → Value → Prop
  | [], _ => True
  | length :: rest, .array items => items.length = length ∧ ∀ item ∈ items, Shaped rest item
  | _ :: _, _ => False

end Value

namespace Postgres

/-! ### Images -/

def writeDimension (dimension : Nat × Int) : Bytes :=
  word 4 dimension.1 ++ word 4 dimension.2

/-- What an image begins with: the number of dimensions, a mark for nulls, the number of the items'
type, and for each dimension its length and its lower bound. -/
def writeHeader (dimensions : List (Nat × Int)) (nulls : Int) (number : Nat) : Bytes :=
  word 4 dimensions.length ++ word 4 nulls ++ Bytes.bigEndian 4 number ++
    dimensions.flatMap writeDimension

/-- An item after its length, or a null. -/
def writeCell : Option Bytes → Bytes
  | none => word 4 (-1)
  | some bytes => word 4 bytes.length ++ bytes

/-- What an item is read as. -/
def received (decode : Bytes → Except Error Value) : Option Bytes → Except Error Value
  | none => .ok .null
  | some bytes => decode bytes

theorem exists_readWord {width : Nat} {bytes : Bytes} (h : bytes.length = width) (rest : Bytes) :
    ∃ n, readWord width (bytes ++ rest) = .ok (n, rest) := by
  rw [readWord, take_append h]
  exact ⟨_, rfl⟩

theorem exists_readSigned {width : Nat} {bytes : Bytes} (h : bytes.length = width) (rest : Bytes) :
    ∃ i, readSigned width (bytes ++ rest) = .ok (i, rest) := by
  obtain ⟨n, hn⟩ := exists_readWord h rest
  rw [readSigned, hn]
  exact ⟨_, rfl⟩

theorem readSigned_length {length : Nat} (h : length < 2 ^ 31) (rest : Bytes) :
    readSigned 4 (word 4 length ++ rest) = .ok ((length : Int), rest) :=
  readSigned_word (by decide) (by omega) (by omega) rest

/-- The lower bound can be any number. -/
theorem readDimension_writeDimension {dimension : Nat × Int} (h : dimension.1 < 2 ^ 31)
    (rest : Bytes) : readDimension (writeDimension dimension ++ rest) = .ok (dimension.1, rest) := by
  obtain ⟨lower, hlower⟩ := exists_readSigned (length_word 4 dimension.2) rest
  have hnonneg : ¬ (dimension.1 : Int) < 0 := by omega
  rw [readDimension, writeDimension, List.append_assoc, readSigned_length h]
  simp only [bind, Except.bind, hlower, if_neg hnonneg, Int.toNat_natCast]
  rfl

/-- After the header there are as many items as its lengths come to. -/
theorem decodeArray_writeHeader (decode : Bytes → Except Error Value)
    {dimensions : List (Nat × Int)} (hne : dimensions ≠ []) (hcount : dimensions.length < 2 ^ 31)
    (hlengths : ∀ d ∈ dimensions, d.1 < 2 ^ 31) (nulls : Int) (number : Nat) (body : Bytes) :
    decodeArray decode (writeHeader dimensions nulls number ++ body) =
      (readMany (readItem decode) (itemCount (dimensions.map Prod.fst)) body).map fun (items, _) =>
        .array (nest ((dimensions.map Prod.fst).drop 1) items) := by
  have hdimensions : readMany readDimension dimensions.length
      (dimensions.flatMap writeDimension ++ body) = .ok (dimensions.map Prod.fst, body) := by
    apply readMany_forall₂
    rw [List.forall₂_map_right_iff, List.forall₂_same]
    exact fun d hd rest => readDimension_writeDimension (hlengths d hd) rest
  obtain ⟨flag, hflag⟩ := exists_readSigned (length_word 4 nulls)
    (Bytes.bigEndian 4 number ++ (dimensions.flatMap writeDimension ++ body))
  obtain ⟨type, htype⟩ := exists_readWord (Bytes.length_bigEndian 4 number)
    (dimensions.flatMap writeDimension ++ body)
  have hpos : 0 < dimensions.length := List.length_pos_of_ne_nil hne
  rw [decodeArray, writeHeader]
  simp only [List.append_assoc]
  rw [readSigned_length hcount]
  simp only [bind, Except.bind, hflag, htype, if_neg (by omega : ¬ (dimensions.length : Int) = 0),
    if_neg (by omega : ¬ (dimensions.length : Int) < 0), Int.toNat_natCast, hdimensions]
  rfl

theorem readItem_null (decode : Bytes → Except Error Value) (rest : Bytes) :
    readItem decode (word 4 (-1) ++ rest) = .ok (.null, rest) := by
  have hlength : readSigned 4 (word 4 (-1) ++ rest) = .ok (-1, rest) :=
    readSigned_word (by decide) (by decide) (by decide) rest
  rw [readItem, hlength]
  rfl

theorem readItem_framed (decode : Bytes → Except Error Value) {bytes : Bytes}
    (hsize : bytes.length < 2 ^ 31) (rest : Bytes) :
    readItem decode (word 4 bytes.length ++ (bytes ++ rest)) =
      (decode bytes).map fun v => (v, rest) := by
  have hbytes : take bytes.length (bytes ++ rest) = .ok (bytes, rest) := take_append rfl rest
  have hnonneg : ¬ (bytes.length : Int) < 0 := by omega
  rw [readItem, readSigned_length hsize]
  simp only [bind, Except.bind, pure, Except.pure, if_neg hnonneg, Int.toNat_natCast, hbytes]
  rfl

theorem readItem_writeCell (decode : Bytes → Except Error Value) {cell : Option Bytes}
    (hsize : ∀ bytes ∈ cell, bytes.length < 2 ^ 31) (rest : Bytes) :
    readItem decode (writeCell cell ++ rest) = (received decode cell).map fun v => (v, rest) := by
  cases cell with
  | none => exact readItem_null decode rest
  | some bytes =>
    rw [writeCell, List.append_assoc]
    exact readItem_framed decode (hsize bytes rfl) rest

theorem length_le_flatMap_writeCell (cells : List (Option Bytes)) :
    cells.length ≤ (cells.flatMap writeCell).length := by
  induction cells with
  | nil => exact Nat.le_refl 0
  | cons cell cells ih =>
    have hcell : 4 ≤ (writeCell cell).length := by
      cases cell with
      | none => rw [writeCell, length_word]
      | some bytes =>
        rw [writeCell, List.length_append, length_word]
        exact Nat.le_add_right 4 _
    rw [List.flatMap_cons, List.length_append, List.length_cons]
    omega

/-! ### Places in a row -/

/-- The place of the item at a row of indices. -/
def rowMajor (lengths indices : List Nat) : Nat :=
  (lengths.zip indices).foldl (fun place (length, index) => place * length + index) 0

theorem foldl_places {lengths indices : List Nat} (h : indices.length = lengths.length) (place : Nat) :
    (lengths.zip indices).foldl (fun place (length, index) => place * length + index) place =
      place * lengths.prod + rowMajor lengths indices := by
  induction lengths generalizing indices place with
  | nil => simp [rowMajor]
  | cons length lengths ih =>
    obtain ⟨index, indices, rfl⟩ := List.exists_cons_of_length_eq_add_one h
    have hrest : indices.length = lengths.length := Nat.succ.inj h
    rw [rowMajor, List.zip_cons_cons, List.foldl_cons, List.foldl_cons, ih hrest, ih hrest,
      List.prod_cons]
    ring

/-- The first index counts whole blocks of what is left of the dimensions. -/
theorem rowMajor_cons (length index : Nat) {lengths indices : List Nat}
    (h : indices.length = lengths.length) :
    rowMajor (length :: lengths) (index :: indices) =
      index * lengths.prod + rowMajor lengths indices := by
  rw [rowMajor, List.zip_cons_cons, List.foldl_cons, foldl_places h]
  simp only [Nat.zero_mul, Nat.zero_add]

theorem rowMajor_lt {lengths indices : List Nat} (h : List.Forall₂ (· < ·) indices lengths) :
    rowMajor lengths indices < lengths.prod := by
  induction h with
  | nil => decide
  | @cons index length indices lengths hindex hrest ih =>
    rw [rowMajor_cons _ _ hrest.length_eq, List.prod_cons]
    calc index * lengths.prod + rowMajor lengths indices
        < index * lengths.prod + lengths.prod := Nat.add_lt_add_left ih _
      _ = (index + 1) * lengths.prod := (Nat.succ_mul _ _).symm
      _ ≤ length * lengths.prod := Nat.mul_le_mul_right _ hindex

/-! ### Grouping -/

/-- A row of so many full groups is cut into just these. -/
theorem chunks_eq {length : Nat} (hlength : 0 < length) {count fuel : Nat} {items : List Value}
    (hitems : items.length = count * length) (hfuel : count ≤ fuel) :
    chunks length fuel items =
      (List.range count).map fun k => .array ((items.drop (k * length)).take length) := by
  induction count generalizing items fuel with
  | zero =>
    obtain rfl : items = [] := by simpa using hitems
    cases fuel <;> simp [chunks]
  | succ count ih =>
    obtain ⟨fuel, rfl⟩ : ∃ n, fuel = n + 1 := Nat.exists_eq_add_one.mpr (by omega)
    have hfirst : (items.take length).isEmpty = false := by
      rw [List.isEmpty_eq_false_iff, ne_eq, List.take_eq_nil_iff]
      rintro (hzero | rfl)
      · omega
      · rw [Nat.succ_mul, List.length_nil] at hitems
        omega
    have hrest : (items.drop length).length = count * length := by
      rw [List.length_drop, hitems, Nat.succ_mul, Nat.add_sub_cancel]
    rw [chunks, hfirst, ih hrest (Nat.le_of_succ_le_succ hfuel), List.range_succ_eq_map,
      List.map_cons, List.map_map]
    simp only [Bool.false_eq_true, if_false, Nat.zero_mul, List.drop_zero, List.drop_drop,
      List.cons.injEq, true_and]
    refine List.map_congr_left fun k _ => ?_
    rw [Function.comp_apply, Nat.succ_mul, Nat.add_comm]

/-- Arrays of the given lengths, filled from a row of items, from a place of it on. -/
structure Fills (lengths : List Nat) (row : List Value) (start : Nat) (v : Value) : Prop where
  shaped : v.Shaped lengths
  places : ∀ indices, List.Forall₂ (· < ·) indices lengths →
    v.at? indices = row[start + rowMajor lengths indices]?

theorem fills_item {row : List Value} {start : Nat} {v : Value} (h : row[start]? = some v) :
    Fills [] row start v where
  shaped := trivial
  places indices hindices := by
    cases hindices
    exact h.symm

/-- Values that are filled from one block after another are the items of an array that is. -/
theorem fills_array {lengths : List Nat} {row items : List Value} {start : Nat}
    (h : ∀ i v, items[i]? = some v → Fills lengths row (start + i * lengths.prod) v) :
    Fills (items.length :: lengths) row start (.array items) where
  shaped := by
    refine ⟨rfl, fun v hv => ?_⟩
    obtain ⟨i, hi⟩ := List.mem_iff_getElem?.mp hv
    exact (h i v hi).shaped
  places indices hindices := by
    cases hindices with
    | @cons index _ indices _ hindex hrest =>
      have hitem := List.getElem?_eq_getElem hindex
      rw [Value.at?, hitem, Option.bind_some, (h _ _ hitem).places indices hrest,
        rowMajor_cons _ _ hrest.length_eq, Nat.add_assoc]

/-- What the loop over the dimensions keeps, from the innermost on: the groups made so far are filled
from one block of the row after another. -/
theorem nest_fills {lengths : List Nat} (hlengths : ∀ length ∈ lengths, 0 < length) {count : Nat}
    {row : List Value} (hrow : row.length = count * lengths.prod) :
    (nest lengths row).length = count ∧
      ∀ k v, (nest lengths row)[k]? = some v → Fills lengths row (k * lengths.prod) v := by
  induction lengths generalizing count with
  | nil =>
    refine ⟨by simpa [nest] using hrow, fun k v hv => fills_item ?_⟩
    rwa [List.prod_nil, Nat.mul_one]
  | cons length lengths ih =>
    have hlength := hlengths length List.mem_cons_self
    have hblocks : row.length = count * length * lengths.prod := by
      rw [hrow, List.prod_cons, Nat.mul_assoc]
    obtain ⟨hcount, hgroups⟩ := ih (fun l hl => hlengths l (List.mem_cons_of_mem length hl)) hblocks
    have hnest : nest (length :: lengths) row =
        chunks length (nest lengths row).length (nest lengths row) := rfl
    rw [hnest, chunks_eq hlength hcount (by rw [hcount]; exact Nat.le_mul_of_pos_right _ hlength)]
    refine ⟨by simp, fun k v hv => ?_⟩
    obtain ⟨hk, rfl⟩ := List.getElem?_eq_some_iff.mp hv
    simp only [List.length_map, List.length_range] at hk
    simp only [List.getElem_map, List.getElem_range]
    have hfull : (((nest lengths row).drop (k * length)).take length).length = length := by
      have hnext : (k + 1) * length ≤ count * length := Nat.mul_le_mul_right length hk
      rw [Nat.succ_mul] at hnext
      rw [List.length_take, List.length_drop]
      omega
    nth_rewrite 1 [← hfull]
    refine fills_array fun i v hi => ?_
    obtain ⟨hlt, -⟩ := List.getElem?_eq_some_iff.mp hi
    rw [hfull] at hlt
    rw [List.getElem?_take_of_lt hlt, List.getElem?_drop] at hi
    have hplace : k * (length :: lengths).prod + i * lengths.prod = (k * length + i) * lengths.prod := by
      rw [List.prod_cons]
      ring
    rw [hplace]
    exact hgroups _ v hi

/-! ### Arrays -/

/-- An array as it can stand in bytes. -/
structure ArrayImage where
  /-- Each length with its lower bound, from the outermost dimension on. -/
  dimensions : List (Nat × Int)
  nulls : Int
  number : Nat
  /-- The bytes of the items in a row; a null has none. -/
  cells : List (Option Bytes)
  dimensions_ne_nil : dimensions ≠ []
  dimensions_lt : dimensions.length < 2 ^ 31
  lengths_fit : ∀ d ∈ dimensions, 0 < d.1 ∧ d.1 < 2 ^ 31
  length_cells : cells.length = (dimensions.map Prod.fst).prod
  cells_lt : ∀ cell ∈ cells, ∀ bytes ∈ cell, bytes.length < 2 ^ 31

namespace ArrayImage

def shape (image : ArrayImage) : List Nat :=
  image.dimensions.map Prod.fst

def bytes (image : ArrayImage) : Bytes :=
  writeHeader image.dimensions image.nulls image.number ++ image.cells.flatMap writeCell

/-- In a memory with addresses of 64 bits the items can be counted in a word. -/
theorem itemCount_shape {image : ArrayImage} (h : image.bytes.length < 2 ^ 64) :
    itemCount image.shape = image.cells.length := by
  have hcells := length_le_flatMap_writeCell image.cells
  rw [bytes, List.length_append] at h
  have hprod : image.shape.prod = image.cells.length := image.length_cells.symm
  rw [itemCount_of_lt (by omega), hprod]

/-- The image is read item by item, and what was read is grouped by all lengths but the first. -/
theorem decodeArray_bytes {image : ArrayImage} (h : image.bytes.length < 2 ^ 64)
    {decode : Bytes → Except Error Value} {items : List Value}
    (hitems : List.Forall₂ (fun cell item => received decode cell = .ok item) image.cells items) :
    decodeArray decode image.bytes = .ok (.array (nest (image.shape.drop 1) items)) := by
  have hread : readMany (readItem decode) image.cells.length
      (image.cells.flatMap writeCell ++ []) = .ok (items, []) := by
    have hboth := (List.forall₂_and_left _ _).mpr ⟨image.cells_lt, hitems⟩
    refine readMany_forall₂ (hboth.imp ?_) []
    rintro cell item ⟨hsize, hitem⟩ rest
    rw [readItem_writeCell decode hsize, hitem]
    rfl
  rw [List.append_nil] at hread
  have hcount := itemCount_shape h
  rw [shape] at hcount
  rw [bytes, decodeArray_writeHeader decode image.dimensions_ne_nil image.dimensions_lt
    (fun d hd => (image.lengths_fit d hd).2), hcount, hread]
  rfl

end ArrayImage

theorem decode_of_element? {type element : PgType} (h : type.element? = some element)
    (bytes : Bytes) : decode type bytes = decodeArray (decode element) bytes := by
  cases type with
  | arrayOf s => cases h; rfl
  | array name element => cases h; rfl
  | _ => cases h

/-- Whatever array is in an image, if each of its items is read, then it is read as arrays within
arrays, as many deep as it has dimensions and of their lengths, and what stands at a row of indices is
the item at their place in row-major order. The image is one that has an address for each byte. -/
theorem dimensions_kept (element : PgType) (image : ArrayImage) (items : List Value)
    (hitems : List.Forall₂ (fun cell item => received (decode element) cell = .ok item)
      image.cells items)
    (hmemory : image.bytes.length < 2 ^ 64) :
    ∃ v, decodeArray (decode element) image.bytes = .ok v ∧
      (∀ type : PgType, type.element? = some element → decode type image.bytes = .ok v) ∧
      v.Shaped image.shape ∧
      ∀ indices, List.Forall₂ (· < ·) indices image.shape →
        ∃ item, items[rowMajor image.shape indices]? = some item ∧ v.at? indices = some item := by
  have hread := image.decodeArray_bytes hmemory hitems
  have hlength : items.length = image.shape.prod := hitems.length_eq.symm.trans image.length_cells
  have hpos : ∀ length ∈ image.shape, 0 < length :=
    List.forall_mem_map.mpr fun d hd => (image.lengths_fit d hd).1
  obtain ⟨length, lengths, hshape⟩ := List.exists_cons_of_ne_nil
    (show image.shape ≠ [] from fun h => image.dimensions_ne_nil (List.map_eq_nil_iff.mp h))
  rw [hshape] at hread hlength hpos ⊢
  rw [List.drop_one, List.tail_cons] at hread
  obtain ⟨hcount, hgroups⟩ :=
    nest_fills (fun l hl => hpos l (List.mem_cons_of_mem length hl)) hlength
  have hfills : Fills (length :: lengths) items 0 (.array (nest lengths items)) := by
    nth_rewrite 1 [← hcount]
    refine fills_array fun i v hi => ?_
    rw [Nat.zero_add]
    exact hgroups i v hi
  refine ⟨_, hread, fun type htype => (decode_of_element? htype _).trans hread, hfills.shaped,
    fun indices hindices => ?_⟩
  have hplace : rowMajor (length :: lengths) indices < items.length := by
    rw [hlength]
    exact rowMajor_lt hindices
  have hitem := List.getElem?_eq_getElem hplace
  refine ⟨_, hitem, ?_⟩
  rw [hfills.places indices hindices, Nat.zero_add, hitem]

/-- Two by one by three integers, counted from 1, 0 and -5; the second is missing. -/
def grid : ArrayImage where
  dimensions := [(2, 1), (1, 0), (3, -5)]
  nulls := 1
  number := 23
  cells := [some (word 4 10), none, some (word 4 12), some (word 4 20), some (word 4 21),
    some (word 4 (-22))]
  dimensions_ne_nil := List.cons_ne_nil _ _
  dimensions_lt := by decide
  lengths_fit := by decide
  length_cells := by decide
  cells_lt := by decide

theorem dimensions_kept_grid : grid.bytes.length < 2 ^ 64 ∧
    ∃ v, decode (.arrayOf .int4) grid.bytes = .ok v ∧ v.Shaped [2, 1, 3] ∧
      v.at? [0, 0, 1] = some .null ∧ v.at? [1, 0, 2] = some (.int (-22)) := by
  have hmemory : grid.bytes.length < 2 ^ 64 := by decide
  have hitems : List.Forall₂ (fun cell item => received (decode (.scalar .int4)) cell = .ok item)
      grid.cells [.int 10, .null, .int 12, .int 20, .int 21, .int (-22)] := by
    exact .cons rfl (.cons rfl (.cons rfl (.cons rfl (.cons rfl (.cons rfl .nil)))))
  obtain ⟨v, -, hread, hshaped, hplaces⟩ := dimensions_kept (.scalar .int4) grid _ hitems hmemory
  obtain ⟨_, hsecond, hfirst⟩ := hplaces [0, 0, 1] (by decide)
  obtain ⟨_, hlast, hatLast⟩ := hplaces [1, 0, 2] (by decide)
  cases hsecond
  cases hlast
  exact ⟨hmemory, v, hread _ rfl, hshaped, hfirst, hatLast⟩

end Postgres

end Polystore
