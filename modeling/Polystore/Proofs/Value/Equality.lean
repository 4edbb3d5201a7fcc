import Polystore.Proofs.Number.Equality
import Polystore.Proofs.Value.Json
import Polystore.Value.Equality

/-!
When values are the same, and their hashes. Each value has a standard form, in which there is one word
for each number and each decimal is in its fewest places: values without payloads are the same exactly
if they have the same standard form, and a hash is made from that. Main statement: to be the same is
symmetric and transitive, the same values have the same hash, and a value is the same as itself exactly
if it holds no payload.
-/

namespace Polystore

open Number (Binary64 Decimal)

namespace Value

mutual

/-- The value with one word for each number, and its decimals in their fewest places. -/
def standard : Value → Value
  | .float x => .float x.canonical
  | .decimal d => .decimal d.normalize
  | .array items => .array (standardItems items)
  | .map entries => .map (standardEntries entries)
  | v => v
termination_by structural v => v

def standardItems : List Value → List Value
  | [] => []
  | v :: rest => v.standard :: standardItems rest
termination_by structural items => items

def standardEntries : List (String × Value) → List (String × Value)
  | [] => []
  | (k, v) :: rest => (k, v.standard) :: standardEntries rest
termination_by structural entries => entries

end

mutual

theorem same_iff (a b : Value) :
    a.same b = true ↔ a.holdsPayload = false ∧ a.standard = b.standard := by
  cases a with
  | float x =>
    cases b <;> simp [same, standard, holdsPayload, Binary64.sameNumber_iff_canonical_eq]
  | decimal d =>
    cases b <;>
      simp [same, standard, holdsPayload, Decimal.numEq_iff_value_eq, Decimal.normalize_eq_iff]
  | array items => cases b <;> simp [same, standard, holdsPayload, sameItems_iff items]
  | map entries => cases b <;> simp [same, standard, holdsPayload, sameEntries_iff entries]
  | _ => cases b <;> simp [same, standard, holdsPayload]
termination_by structural a

theorem sameItems_iff (as bs : List Value) :
    sameItems as bs = true ↔ itemsHoldPayload as = false ∧ standardItems as = standardItems bs := by
  cases as with
  | nil => cases bs <;> simp [sameItems, standardItems, itemsHoldPayload]
  | cons a as =>
    cases bs with
    | nil => simp [sameItems, standardItems]
    | cons b bs =>
      simp only [sameItems, standardItems, itemsHoldPayload, Bool.and_eq_true, Bool.or_eq_false_iff,
        List.cons.injEq, same_iff a, sameItems_iff as]
      exact and_and_and_comm
termination_by structural as

theorem sameEntries_iff (as bs : List (String × Value)) :
    sameEntries as bs = true ↔
      entriesHoldPayload as = false ∧ standardEntries as = standardEntries bs := by
  cases as with
  | nil => cases bs <;> simp [sameEntries, standardEntries, entriesHoldPayload]
  | cons entry as =>
    obtain ⟨k, a⟩ := entry
    cases bs with
    | nil => simp [sameEntries, standardEntries]
    | cons entry bs =>
      obtain ⟨l, b⟩ := entry
      simp only [sameEntries, standardEntries, entriesHoldPayload, Bool.and_eq_true,
        Bool.or_eq_false_iff, List.cons.injEq, Prod.mk.injEq, beq_iff_eq, same_iff a,
        sameEntries_iff as]
      tauto
termination_by structural as

end

mutual

theorem holdsPayload_standard (v : Value) : v.standard.holdsPayload = v.holdsPayload := by
  cases v with
  | array items => exact itemsHoldPayload_standardItems items
  | map entries => exact entriesHoldPayload_standardEntries entries
  | _ => rfl
termination_by structural v

theorem itemsHoldPayload_standardItems (items : List Value) :
    itemsHoldPayload (standardItems items) = itemsHoldPayload items := by
  cases items with
  | nil => rfl
  | cons v rest =>
    rw [standardItems, itemsHoldPayload, itemsHoldPayload, holdsPayload_standard v,
      itemsHoldPayload_standardItems rest]
termination_by structural items

theorem entriesHoldPayload_standardEntries (entries : List (String × Value)) :
    entriesHoldPayload (standardEntries entries) = entriesHoldPayload entries := by
  cases entries with
  | nil => rfl
  | cons entry rest =>
    obtain ⟨k, v⟩ := entry
    rw [standardEntries, entriesHoldPayload, entriesHoldPayload, holdsPayload_standard v,
      entriesHoldPayload_standardEntries rest]
termination_by structural entries

end

mutual

/-- A hash is made from the standard form alone. -/
theorem digest_standard (v : Value) : v.standard.digest = v.digest := by
  cases v with
  | float x => rw [standard, digest, digest, Binary64.canonical_canonical]
  | decimal d => rw [standard, digest, digest, Decimal.normalize_normalize]
  | array items =>
    obtain ⟨hlength, hdigest⟩ := digestItems_standardItems items
    rw [standard, digest, digest, hlength, hdigest]
  | map entries =>
    obtain ⟨hlength, hdigest⟩ := digestEntries_standardEntries entries
    rw [standard, digest, digest, hlength, hdigest]
  | _ => rfl
termination_by structural v

theorem digestItems_standardItems (items : List Value) :
    (standardItems items).length = items.length ∧
      digestItems (standardItems items) = digestItems items := by
  cases items with
  | nil => exact ⟨rfl, rfl⟩
  | cons v rest =>
    obtain ⟨hlength, hdigest⟩ := digestItems_standardItems rest
    rw [standardItems, digestItems, digestItems, digest_standard v, hdigest, List.length_cons,
      List.length_cons, hlength]
    exact ⟨rfl, rfl⟩
termination_by structural items

theorem digestEntries_standardEntries (entries : List (String × Value)) :
    (standardEntries entries).length = entries.length ∧
      digestEntries (standardEntries entries) = digestEntries entries := by
  cases entries with
  | nil => exact ⟨rfl, rfl⟩
  | cons entry rest =>
    obtain ⟨k, v⟩ := entry
    obtain ⟨hlength, hdigest⟩ := digestEntries_standardEntries rest
    rw [standardEntries, digestEntries, digestEntries, digest_standard v, hdigest, List.length_cons,
      List.length_cons, hlength]
    exact ⟨rfl, rfl⟩
termination_by structural entries

end

/-- Neither of two values that are the same holds a payload. -/
theorem holdsPayload_of_same {a b : Value} (h : a.same b = true) : b.holdsPayload = false := by
  obtain ⟨hpayload, hstandard⟩ := (same_iff a b).mp h
  rw [← holdsPayload_standard, ← hstandard, holdsPayload_standard, hpayload]

/-- To be the same is symmetric and transitive, and a value is the same as itself exactly if no payload
is within it. Values that are the same have the same hash. Words are the same if they denote the same
number or infinity, or none at all, and decimals if they denote the same number. -/
theorem same_coherent (a b c : Value) :
    (a.same b = true → b.same a = true) ∧
    (a.same b = true → b.same c = true → a.same c = true) ∧
    (a.same b = true → a.digest = b.digest) ∧
    (a.same a = true ↔ a.holdsPayload = false) ∧
    (∀ x y, same (.float x) (.float y) = true ↔ x.number? = y.number?) ∧
    ∀ d e, same (.decimal d) (.decimal e) = true ↔ d.value = e.value := by
  refine ⟨fun h => ?_, fun hab hbc => ?_, fun h => ?_, ?_, Binary64.sameNumber_iff_number?_eq,
    Decimal.numEq_iff_value_eq⟩
  · rw [same_iff]
    exact ⟨holdsPayload_of_same h, ((same_iff a b).mp h).2.symm⟩
  · rw [same_iff] at hab hbc ⊢
    exact ⟨hab.1, hab.2.trans hbc.2⟩
  · rw [← digest_standard a, ((same_iff a b).mp h).2, digest_standard]
  · rw [same_iff, and_iff_left rfl]

/-- A half in so many places, and two of the words that denote nothing or zero. -/
def rareRow (half : Decimal) (nothing zero : Binary64) : Value :=
  .array [.decimal half, .float nothing, .map [("zero", .float zero)]]

theorem same_coherent_rareRow :
    let a := rareRow ⟨false, 5, 1, by decide, by decide⟩ .nan .zero
    let b := rareRow ⟨false, 500, 3, by decide, by decide⟩ ⟨0xFFF0000000000001⟩ ⟨0x8000000000000000⟩
    let c := rareRow ⟨false, 50, 2, by decide, by decide⟩ ⟨0x7FF0000000000123⟩ .zero
    (a.same b = true ∧ b.same a = true) ∧ (b.same c = true ∧ a.same c = true) ∧
      a.digest = b.digest ∧ a.same a = true ∧
      same (.array [a, .payload ⟨.raw, []⟩]) (.array [a, .payload ⟨.raw, []⟩]) = false := by
  intro a b c
  obtain ⟨hsymm, htrans, hdigest, hself, -, -⟩ := same_coherent a b c
  obtain ⟨-, -, -, hpayload, -, -⟩ :=
    same_coherent (.array [a, .payload ⟨.raw, []⟩]) b c
  have hab : a.same b = true := by decide
  have hbc : b.same c = true := by decide
  refine ⟨⟨hab, hsymm hab⟩, ⟨hbc, htrans hab hbc⟩, hdigest hab, hself.mpr rfl, ?_⟩
  rw [← Bool.not_eq_true, hpayload]
  decide

end Value

end Polystore
