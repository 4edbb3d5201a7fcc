import Polystore.Proofs.Except
import Polystore.Proofs.Json.Reading
import Polystore.Value.Json

/-!
Values written as JSON text. Main statement: what is written of a value without payloads is read
back, unless its arrays and maps are nested too deep.
-/

namespace Polystore.Value

mutual

/-- Is the value a payload, or is there one within it? -/
def holdsPayload : Value → Bool
  | .payload _ => true
  | .array items => itemsHoldPayload items
  | .map entries => entriesHoldPayload entries
  | _ => false
termination_by structural v => v

def itemsHoldPayload : List Value → Bool
  | [] => false
  | v :: rest => v.holdsPayload || itemsHoldPayload rest
termination_by structural items => items

def entriesHoldPayload : List (String × Value) → Bool
  | [] => false
  | (_, v) :: rest => v.holdsPayload || entriesHoldPayload rest
termination_by structural entries => entries

end

mutual

/-- How many arrays and maps stand within each other. -/
def depth : Value → Nat
  | .array items => depthItems items + 1
  | .map entries => depthEntries entries + 1
  | _ => 0
termination_by structural v => v

def depthItems : List Value → Nat
  | [] => 0
  | v :: rest => max v.depth (depthItems rest)
termination_by structural items => items

def depthEntries : List (String × Value) → Nat
  | [] => 0
  | (_, v) :: rest => max v.depth (depthEntries rest)
termination_by structural entries => entries

end

mutual

/-- A value without payloads has a JSON form, nested as deep as the value. -/
theorem exists_toJson (v : Value) (h : v.holdsPayload = false) :
    ∃ json, v.toJson = .ok json ∧ json.Proper ∧ json.depth = v.depth := by
  cases v with
  | null => exact ⟨.null, rfl, .null, rfl⟩
  | bool b => exact ⟨.bool b, rfl, .bool b, rfl⟩
  | string s => exact ⟨.string s, rfl, .string s, rfl⟩
  | int n =>
    have hlow := n.le_toInt
    have hhigh := n.toInt_lt
    exact ⟨.integer n.toInt, rfl, .integer (by omega), rfl⟩
  | uint n =>
    have hlt := n.toNat_lt
    exact ⟨.integer n.toNat, rfl, .integer (by omega), rfl⟩
  | float x =>
    cases hfinite : x.isFinite with
    | true => exact ⟨.float x, by rw [toJson, hfinite]; rfl, .float hfinite, rfl⟩
    | false => exact ⟨.string x.valueText, by rw [toJson, hfinite]; rfl, .string _, rfl⟩
  | decimal d => exact ⟨_, rfl, .string _, rfl⟩
  | date s => exact ⟨_, rfl, .string _, rfl⟩
  | binary bytes => exact ⟨_, rfl, .string _, rfl⟩
  | uuid u => exact ⟨_, rfl, .string _, rfl⟩
  | array items =>
    obtain ⟨jsons, hjsons, hproper, hdepth⟩ := exists_toJsonItems items h
    refine ⟨.array jsons, by rw [toJson, hjsons]; rfl, .array hproper, ?_⟩
    rw [Json.depth, hdepth, depth]
  | map entries =>
    obtain ⟨members, hmembers, hproper, hdepth⟩ := exists_toJsonEntries entries h
    refine ⟨.object members, by rw [toJson, hmembers]; rfl, .object hproper, ?_⟩
    rw [Json.depth, hdepth, depth]
  | payload p => cases h
termination_by structural v

theorem exists_toJsonItems (items : List Value) (h : itemsHoldPayload items = false) :
    ∃ jsons, toJsonItems items = .ok jsons ∧ (∀ json ∈ jsons, json.Proper) ∧
      Json.depthItems jsons = depthItems items := by
  cases items with
  | nil => exact ⟨[], rfl, List.forall_mem_nil _, rfl⟩
  | cons v items =>
    obtain ⟨hfirst, hrest⟩ := Bool.or_eq_false_iff.mp h
    obtain ⟨json, hjson, hproper, hdepth⟩ := exists_toJson v hfirst
    obtain ⟨jsons, hjsons, hpropers, hdepths⟩ := exists_toJsonItems items hrest
    refine ⟨json :: jsons, by rw [toJsonItems, hjson, hjsons]; rfl,
      List.forall_mem_cons.mpr ⟨hproper, hpropers⟩, ?_⟩
    rw [Json.depthItems, hdepth, hdepths, depthItems]
termination_by structural items

theorem exists_toJsonEntries (entries : List (String × Value)) (h : entriesHoldPayload entries = false) :
    ∃ members, toJsonEntries entries = .ok members ∧ (∀ member ∈ members, member.2.Proper) ∧
      Json.depthMembers members = depthEntries entries := by
  cases entries with
  | nil => exact ⟨[], rfl, List.forall_mem_nil _, rfl⟩
  | cons entry entries =>
    obtain ⟨k, v⟩ := entry
    obtain ⟨hfirst, hrest⟩ := Bool.or_eq_false_iff.mp h
    obtain ⟨json, hjson, hproper, hdepth⟩ := exists_toJson v hfirst
    obtain ⟨members, hmembers, hpropers, hdepths⟩ := exists_toJsonEntries entries hrest
    refine ⟨(k, json) :: members, by rw [toJsonEntries, hjson, hmembers]; rfl,
      List.forall_mem_cons.mpr ⟨hproper, hpropers⟩, ?_⟩
    rw [Json.depthMembers, hdepth, hdepths, depthEntries]
termination_by structural entries

end

theorem toJsonBytes_eq_ok {v : Value} {bytes : Bytes} :
    v.toJsonBytes = .ok bytes ↔ ∃ json, v.toJson = .ok json ∧ Bytes.ofText json.compact = bytes :=
  Except.map_eq_ok

theorem exists_read?_compact {v : Value} {json : Json} (h : v.holdsPayload = false)
    (hjson : v.toJson = .ok json) : (∃ back, Json.read? json.compact = some back) ↔ v.depth ≤ 127 := by
  obtain ⟨json', hjson', hproper, hdepth⟩ := exists_toJson v h
  obtain rfl : json = json' := Except.ok.inj (hjson.symm.trans hjson')
  rw [← hdepth]
  exact Json.read?_compact hproper

/-- The JSON text of a value is read back, unless the value is nested too deep. -/
theorem exists_ofJsonBytes_iff {v : Value} {bytes : Bytes} (h : v.holdsPayload = false)
    (hbytes : v.toJsonBytes = .ok bytes) : (∃ w, ofJsonBytes bytes = .ok w) ↔ v.depth ≤ 127 := by
  obtain ⟨json, hjson, rfl⟩ := toJsonBytes_eq_ok.mp hbytes
  rw [← exists_read?_compact h hjson, ofJsonBytes, Json.ofBytes?, Bytes.toText?_ofText,
    Option.bind_some]
  cases Json.read? json.compact <;> simp

/-- An array comes back as an array, and a map as a map. -/
theorem kind_ofJson {v : Value} {json back : Json} (hjson : v.toJson = .ok json)
    (hback : Json.read? json.compact = some back) (hkind : v.kind = .array ∨ v.kind = .map) :
    (ofJson back).kind = v.kind := by
  cases v with
  | array items =>
    obtain ⟨jsons, -, rfl⟩ := Except.map_eq_ok.mp hjson
    obtain ⟨items', rfl⟩ := Json.read?_compact_array hback
    rfl
  | map entries =>
    obtain ⟨members, -, rfl⟩ := Except.map_eq_ok.mp hjson
    obtain ⟨members', rfl⟩ := Json.read?_compact_object hback
    rfl
  | _ => rcases hkind with h | h <;> cases h

end Polystore.Value
