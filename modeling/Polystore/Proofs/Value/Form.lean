import Polystore.Proofs.Json.Bounds
import Polystore.Proofs.Value.Entries
import Polystore.Proofs.Value.Json

/-!
What a value is after it has been through its JSON form. Main statement: a value has a JSON form unless
a payload in it is no JSON, what is read from the form is the value with the alternatives that JSON does
not have as texts, and that has a form from which the same is read again.
-/

namespace Polystore

open Number (Binary64)

/-- Is a payload the text of a JSON document? -/
def Payload.Embeds (p : Payload) : Prop :=
  p.format = .json ∧ ∃ json, Json.ofBytes? p.bytes = some json

namespace Value

mutual

/-- Are the entries of all maps in the order of their keys, with no key twice? -/
def Ordered : Value → Prop
  | .array items => OrderedItems items
  | .map entries => (entries.map Prod.fst).Pairwise (· < ·) ∧ OrderedEntries entries
  | _ => True
termination_by structural v => v

def OrderedItems : List Value → Prop
  | [] => True
  | v :: rest => v.Ordered ∧ OrderedItems rest
termination_by structural items => items

def OrderedEntries : List (String × Value) → Prop
  | [] => True
  | (_, v) :: rest => v.Ordered ∧ OrderedEntries rest
termination_by structural entries => entries

end

mutual

/-- The payloads within a value, or the value itself if it is one. -/
def payloads : Value → List Payload
  | .payload p => [p]
  | .array items => payloadsOfItems items
  | .map entries => payloadsOfEntries entries
  | _ => []
termination_by structural v => v

def payloadsOfItems : List Value → List Payload
  | [] => []
  | v :: rest => v.payloads ++ payloadsOfItems rest
termination_by structural items => items

def payloadsOfEntries : List (String × Value) → List Payload
  | [] => []
  | (_, v) :: rest => v.payloads ++ payloadsOfEntries rest
termination_by structural entries => entries

end

/-- The name of a float that is not finite. -/
def sentinel (x : Binary64) : String :=
  if x.isNaN then "NaN" else if x.isNegative then "-Infinity" else "Infinity"

mutual

/-- The value with texts for what JSON does not have, whole numbers signed where they can be, and what
is in the payloads in their places. -/
def jsonForm : Value → Value
  | .uint n => if n.toNat < 2 ^ 63 then .int (Int64.ofInt n.toNat) else .uint n
  | .float x => if x.isFinite then .float x else .string (sentinel x)
  | .decimal d => .string d.text
  | .date s => .string s.iso
  | .binary bytes => .string (String.ofList (Text.Base64.encode bytes))
  | .uuid u => .string u.text
  | .array items => .array (jsonFormOfItems items)
  | .map entries => .map (jsonFormOfEntries entries)
  | .payload p =>
    match p.format, Json.ofBytes? p.bytes with
    | .json, some json => ofJson json
    | _, _ => .payload p
  | v => v
termination_by structural v => v

def jsonFormOfItems : List Value → List Value
  | [] => []
  | v :: rest => v.jsonForm :: jsonFormOfItems rest
termination_by structural items => items

def jsonFormOfEntries : List (String × Value) → List (String × Value)
  | [] => []
  | (k, v) :: rest => (k, v.jsonForm) :: jsonFormOfEntries rest
termination_by structural entries => entries

end

theorem keys_jsonFormOfEntries (entries : List (String × Value)) :
    (jsonFormOfEntries entries).map Prod.fst = entries.map Prod.fst := by
  induction entries with
  | nil => rfl
  | cons entry rest ih => rw [jsonFormOfEntries, List.map_cons, List.map_cons, ih]

/-! ### Written and read back -/

theorem valueText_eq_sentinel {x : Binary64} (h : x.isFinite = false) : x.valueText = sentinel x := by
  rw [Binary64.valueText, Binary64.write, sentinel]
  cases hnan : x.isNaN with
  | true => rfl
  | false =>
    have hinfinite : x.isInfinite = true := by
      simp only [Binary64.isFinite, Binary64.isNaN, decide_eq_false_iff_not] at h hnan
      rw [Binary64.isInfinite, beq_iff_eq]
      omega
    rw [hinfinite]
    cases x.isNegative <;> rfl

theorem ofJson_toInt (n : Int64) : ofJson (.integer n.toInt) = .int n := by
  rw [ofJson, if_pos n.toInt_lt, Int64.ofInt_toInt]

theorem ofJson_toNat (n : UInt64) : ofJson (.integer n.toNat) = jsonForm (.uint n) := by
  rw [ofJson, jsonForm]
  by_cases h : n.toNat < 2 ^ 63
  · rw [if_pos h, if_pos (by omega)]
  · rw [if_neg h, if_neg (by omega), Int.toNat_natCast, UInt64.ofNat_toNat]

mutual

/-- A value has a JSON form from which its image is read, or there is a payload that has none. -/
theorem toJson_cases (v : Value) :
    (∃ json, v.toJson = .ok json ∧ json.Proper ∧ (v.Ordered → ofJson json = v.jsonForm) ∧
      ∀ p ∈ v.payloads, p.Embeds) ∨
    ∃ e, v.toJson = .error e ∧ ∃ p ∈ v.payloads, ¬ p.Embeds := by
  cases v with
  | null => exact .inl ⟨.null, rfl, .null, fun _ => rfl, List.forall_mem_nil _⟩
  | bool b => exact .inl ⟨.bool b, rfl, .bool b, fun _ => rfl, List.forall_mem_nil _⟩
  | string s => exact .inl ⟨.string s, rfl, .string s, fun _ => rfl, List.forall_mem_nil _⟩
  | int n =>
    have hlow := n.le_toInt
    have hhigh := n.toInt_lt
    exact .inl ⟨.integer n.toInt, rfl, .integer (by omega), fun _ => ofJson_toInt n,
      List.forall_mem_nil _⟩
  | uint n =>
    have hlt := n.toNat_lt
    exact .inl ⟨.integer n.toNat, rfl, .integer (by omega), fun _ => ofJson_toNat n,
      List.forall_mem_nil _⟩
  | float x =>
    left
    cases hfinite : x.isFinite with
    | true =>
      refine ⟨.float x, by rw [toJson, hfinite]; rfl, .float hfinite, fun _ => ?_,
        List.forall_mem_nil _⟩
      rw [jsonForm, hfinite]
      rfl
    | false =>
      refine ⟨.string x.valueText, by rw [toJson, hfinite]; rfl, .string _, fun _ => ?_,
        List.forall_mem_nil _⟩
      rw [jsonForm, hfinite, valueText_eq_sentinel hfinite]
      rfl
  | decimal d => exact .inl ⟨_, rfl, .string _, fun _ => rfl, List.forall_mem_nil _⟩
  | date s => exact .inl ⟨_, rfl, .string _, fun _ => rfl, List.forall_mem_nil _⟩
  | binary bytes => exact .inl ⟨_, rfl, .string _, fun _ => rfl, List.forall_mem_nil _⟩
  | uuid u => exact .inl ⟨_, rfl, .string _, fun _ => rfl, List.forall_mem_nil _⟩
  | array items =>
    rcases toJsonItems_cases items with ⟨jsons, hjsons, hproper, hform, hembed⟩ | ⟨e, he, hbad⟩
    · refine .inl ⟨.array jsons, by rw [toJson, hjsons]; rfl, .array hproper, fun hordered => ?_, hembed⟩
      rw [ofJson, jsonForm, hform hordered]
    · exact .inr ⟨e, by rw [toJson, he]; rfl, hbad⟩
  | map entries =>
    rcases toJsonEntries_cases entries with ⟨members, hmembers, hproper, hform, hembed⟩ | ⟨e, he, hbad⟩
    · refine .inl ⟨.object members, by rw [toJson, hmembers]; rfl, .object hproper, ?_, hembed⟩
      rintro ⟨hkeys, hordered⟩
      rw [← keys_jsonFormOfEntries] at hkeys
      rw [ofJson, jsonForm, hform hordered, mapOf, sortEntries_of_ascending hkeys]
    · exact .inr ⟨e, by rw [toJson, he]; rfl, hbad⟩
  | payload p =>
    obtain ⟨format, bytes⟩ := p
    have hforeign (format : PayloadFormat) (hformat : format ≠ .json) :
        ∃ p ∈ payloads (.payload ⟨format, bytes⟩), ¬ p.Embeds :=
      ⟨_, List.mem_singleton_self _, fun h => hformat h.1⟩
    cases format with
    | json =>
      cases hread : Json.ofBytes? bytes with
      | some json =>
        refine .inl ⟨json, by simp only [toJson, hread], Json.proper_of_ofBytes? hread, fun _ => ?_, ?_⟩
        · simp only [jsonForm, hread]
        · exact List.forall_mem_singleton.mpr ⟨rfl, json, hread⟩
      | none =>
        refine .inr ⟨.malformed (.foreign .json), by simp only [toJson, hread], _,
          List.mem_singleton_self _, ?_⟩
        rintro ⟨-, json, hjson⟩
        cases hread.symm.trans hjson
    | bson => exact .inr ⟨_, rfl, hforeign _ (by decide)⟩
    | messagePack => exact .inr ⟨_, rfl, hforeign _ (by decide)⟩
    | raw => exact .inr ⟨_, rfl, hforeign _ (by decide)⟩
termination_by structural v

theorem toJsonItems_cases (items : List Value) :
    (∃ jsons, toJsonItems items = .ok jsons ∧ (∀ json ∈ jsons, json.Proper) ∧
      (OrderedItems items → ofJsonItems jsons = jsonFormOfItems items) ∧
      ∀ p ∈ payloadsOfItems items, p.Embeds) ∨
    ∃ e, toJsonItems items = .error e ∧ ∃ p ∈ payloadsOfItems items, ¬ p.Embeds := by
  cases items with
  | nil => exact .inl ⟨[], rfl, List.forall_mem_nil _, fun _ => rfl, List.forall_mem_nil _⟩
  | cons v rest =>
    rcases toJson_cases v with ⟨json, hjson, hproper, hform, hembed⟩ | ⟨e, he, p, hp, hbad⟩
    · rcases toJsonItems_cases rest with
        ⟨jsons, hjsons, hpropers, hforms, hembeds⟩ | ⟨e, he, p, hp, hbad⟩
      · refine .inl ⟨json :: jsons, by rw [toJsonItems, hjson, hjsons]; rfl,
          List.forall_mem_cons.mpr ⟨hproper, hpropers⟩, fun hordered => ?_,
          List.forall_mem_append.mpr ⟨hembed, hembeds⟩⟩
        rw [ofJsonItems, jsonFormOfItems, hform hordered.1, hforms hordered.2]
      · exact .inr ⟨e, by rw [toJsonItems, hjson, he]; rfl, p, List.mem_append_right _ hp, hbad⟩
    · exact .inr ⟨e, by rw [toJsonItems, he]; rfl, p, List.mem_append_left _ hp, hbad⟩
termination_by structural items

theorem toJsonEntries_cases (entries : List (String × Value)) :
    (∃ members, toJsonEntries entries = .ok members ∧ (∀ member ∈ members, member.2.Proper) ∧
      (OrderedEntries entries → ofJsonMembers members = jsonFormOfEntries entries) ∧
      ∀ p ∈ payloadsOfEntries entries, p.Embeds) ∨
    ∃ e, toJsonEntries entries = .error e ∧ ∃ p ∈ payloadsOfEntries entries, ¬ p.Embeds := by
  cases entries with
  | nil => exact .inl ⟨[], rfl, List.forall_mem_nil _, fun _ => rfl, List.forall_mem_nil _⟩
  | cons entry rest =>
    obtain ⟨k, v⟩ := entry
    rcases toJson_cases v with ⟨json, hjson, hproper, hform, hembed⟩ | ⟨e, he, p, hp, hbad⟩
    · rcases toJsonEntries_cases rest with
        ⟨members, hmembers, hpropers, hforms, hembeds⟩ | ⟨e, he, p, hp, hbad⟩
      · refine .inl ⟨(k, json) :: members, by rw [toJsonEntries, hjson, hmembers]; rfl,
          List.forall_mem_cons.mpr ⟨hproper, hpropers⟩, fun hordered => ?_,
          List.forall_mem_append.mpr ⟨hembed, hembeds⟩⟩
        rw [ofJsonMembers, jsonFormOfEntries, hform hordered.1, hforms hordered.2]
      · exact .inr ⟨e, by rw [toJsonEntries, hjson, he]; rfl, p, List.mem_append_right _ hp, hbad⟩
    · exact .inr ⟨e, by rw [toJsonEntries, he]; rfl, p, List.mem_append_left _ hp, hbad⟩
termination_by structural entries

end

/-! ### Read again -/

/-- A value that its JSON form does not change. -/
structure Settled (v : Value) : Prop where
  ordered : v.Ordered
  payload : v.holdsPayload = false
  form : v.jsonForm = v

theorem Settled.reads_back {v : Value} (h : v.Settled) :
    ∃ json, v.toJson = .ok json ∧ ofJson json = v := by
  obtain ⟨json, hjson, -, -⟩ := exists_toJson v h.payload
  refine ⟨json, hjson, ?_⟩
  rcases toJson_cases v with ⟨json', hjson', -, hform, -⟩ | ⟨e, he, -⟩
  · obtain rfl : json = json' := Except.ok.inj (hjson.symm.trans hjson')
    rw [hform h.ordered, h.form]
  · cases hjson.symm.trans he

theorem settled_array {items : List Value} (h : ∀ v ∈ items, v.Settled) : Settled (.array items) := by
  have hitems : OrderedItems items ∧ itemsHoldPayload items = false ∧ jsonFormOfItems items = items := by
    induction items with
    | nil => exact ⟨trivial, rfl, rfl⟩
    | cons v rest ih =>
      obtain ⟨hv, hrest⟩ := List.forall_mem_cons.mp h
      obtain ⟨hordered, hpayload, hform⟩ := ih hrest
      refine ⟨⟨hv.ordered, hordered⟩, ?_, ?_⟩
      · rw [itemsHoldPayload, hv.payload, hpayload]
        rfl
      · rw [jsonFormOfItems, hv.form, hform]
  exact ⟨hitems.1, hitems.2.1, congrArg Value.array hitems.2.2⟩

theorem settled_map {entries : List (String × Value)} (hkeys : (entries.map Prod.fst).Pairwise (· < ·))
    (h : ∀ entry ∈ entries, entry.2.Settled) : Settled (.map entries) := by
  have hentries : OrderedEntries entries ∧ entriesHoldPayload entries = false ∧
      jsonFormOfEntries entries = entries := by
    clear hkeys
    induction entries with
    | nil => exact ⟨trivial, rfl, rfl⟩
    | cons entry rest ih =>
      obtain ⟨k, v⟩ := entry
      obtain ⟨hv, hrest⟩ := List.forall_mem_cons.mp h
      obtain ⟨hordered, hpayload, hform⟩ := ih hrest
      refine ⟨⟨hv.ordered, hordered⟩, ?_, ?_⟩
      · rw [entriesHoldPayload, hv.payload, hpayload]
        rfl
      · rw [jsonFormOfEntries, hv.form, hform]
  exact ⟨⟨hkeys, hentries.1⟩, hentries.2.1, congrArg Value.map hentries.2.2⟩

theorem ofJsonItems_eq_map (items : List Json) : ofJsonItems items = items.map ofJson := by
  induction items with
  | nil => rfl
  | cons item rest ih => rw [ofJsonItems, ih, List.map_cons]

theorem ofJsonMembers_eq_map (members : List (String × Json)) :
    ofJsonMembers members = members.map fun (name, json) => (name, ofJson json) := by
  induction members with
  | nil => rfl
  | cons member rest ih => rw [ofJsonMembers, ih, List.map_cons]

theorem settled_integer {i : Int} (h : -(2 ^ 63) ≤ i ∧ i < 2 ^ 64) : (ofJson (.integer i)).Settled := by
  rw [ofJson]
  split
  · exact ⟨trivial, rfl, rfl⟩
  · next hlarge =>
    refine ⟨trivial, rfl, ?_⟩
    rw [jsonForm, UInt64.toNat_ofNat', if_neg (by omega)]

/-- What is read from a document is not changed by another JSON form. -/
theorem settled_ofJson {json : Json} (h : json.Proper) : (ofJson json).Settled := by
  induction h with
  | null => exact ⟨trivial, rfl, rfl⟩
  | bool b => exact ⟨trivial, rfl, rfl⟩
  | integer h => exact settled_integer h
  | float h => exact ⟨trivial, rfl, by rw [ofJson, jsonForm, h]; rfl⟩
  | string s => exact ⟨trivial, rfl, rfl⟩
  | array h ih =>
    rw [ofJson, ofJsonItems_eq_map]
    exact settled_array (List.forall_mem_map.mpr ih)
  | object h ih =>
    rw [ofJson, ofJsonMembers_eq_map]
    refine settled_map (sortEntries_ascending _) fun entry hentry => ?_
    obtain ⟨member, hmember, rfl⟩ := List.mem_map.mp (mem_of_mem_sortEntries hentry)
    exact ih member hmember

/-- A value has no JSON form if a payload in it is in another format or is not a JSON document, and only
then. What is read from its form is its image, and that has a form from which it is read again. -/
theorem json_form_stable (v : Value) (hordered : v.Ordered) :
    ((∃ e, v.toJson = .error e) ↔
      ∃ p ∈ v.payloads, p.format ≠ .json ∨ Json.ofBytes? p.bytes = none) ∧
    ∀ json, v.toJson = .ok json →
      ofJson json = v.jsonForm ∧
        ∃ again, (ofJson json).toJson = .ok again ∧ ofJson again = ofJson json := by
  have hembeds (p : Payload) : ¬ p.Embeds ↔ p.format ≠ .json ∨ Json.ofBytes? p.bytes = none := by
    rw [Payload.Embeds, not_and_or, ← Option.isSome_iff_exists, Option.not_isSome_iff_eq_none]
  simp only [← hembeds]
  rcases toJson_cases v with ⟨json, hjson, hproper, hform, hembed⟩ | ⟨e, he, hbad⟩
  · refine ⟨iff_of_false ?_ ?_, fun json' hjson' => ?_⟩
    · rintro ⟨e, he⟩
      cases hjson.symm.trans he
    · rintro ⟨p, hp, hbad⟩
      exact hbad (hembed p hp)
    · obtain rfl : json = json' := Except.ok.inj (hjson.symm.trans hjson')
      exact ⟨hform hordered, (settled_ofJson hproper).reads_back⟩
  · refine ⟨iff_of_true ⟨e, he⟩ hbad, fun json hjson => ?_⟩
    cases hjson.symm.trans he

/-- An array with a one, two and a half, and an object whose member `z` is minus zero. -/
def embedded : Bytes :=
  [0x5b, 0x31, 0x2c, 0x32, 0x2e, 0x35, 0x2c, 0x7b, 0x22, 0x7a, 0x22, 0x3a, 0x2d, 0x30, 0x7d, 0x5d]

theorem ofBytes?_embedded : Json.ofBytes? embedded = some (.array
    [.integer 1, .float ⟨0x4004000000000000⟩, .object [("z", .float ⟨0x8000000000000000⟩)]]) :=
  rfl

/-- A map of numbers and bytes, and of a payload. -/
def mixed : Value :=
  .map [("a", .array [.uint 5, .uint 18446744073709551615, .float .negInfinity, .binary [0xff]]),
    ("p", .payload ⟨.json, embedded⟩)]

theorem json_form_stable_mixed :
    mixed.Ordered ∧
    (∃ json, mixed.toJson = .ok json ∧
      ofJson json = .map
        [("a", .array [.int 5, .uint 18446744073709551615, .string "-Infinity", .string "/w=="]),
        ("p", .array [.int 1, .float ⟨0x4004000000000000⟩,
          .map [("z", .float ⟨0x8000000000000000⟩)]])] ∧
      ∃ again, (ofJson json).toJson = .ok again ∧ ofJson again = ofJson json) ∧
    ∃ e, toJson (.array [mixed, .payload ⟨.json, [0x5b]⟩]) = .error e := by
  have hordered : mixed.Ordered :=
    ⟨by decide, ⟨trivial, trivial, trivial, trivial, trivial⟩, trivial, trivial⟩
  obtain ⟨hfails, hform⟩ := json_form_stable mixed hordered
  obtain ⟨hfailsToo, -⟩ :=
    json_form_stable (.array [mixed, .payload ⟨.json, [0x5b]⟩]) ⟨hordered, trivial, trivial⟩
  have himage : mixed.jsonForm = .map
      [("a", .array [.int 5, .uint 18446744073709551615, .string "-Infinity", .string "/w=="]),
      ("p", .array [.int 1, .float ⟨0x4004000000000000⟩,
        .map [("z", .float ⟨0x8000000000000000⟩)]])] := by
    simp only [mixed, jsonForm, jsonFormOfEntries, jsonFormOfItems, ofBytes?_embedded]
    rfl
  have hembeds : ∀ p ∈ mixed.payloads, ¬ (p.format ≠ .json ∨ Json.ofBytes? p.bytes = none) := by
    rw [show mixed.payloads = [⟨.json, embedded⟩] from rfl, List.forall_mem_singleton]
    simp [ofBytes?_embedded]
  refine ⟨hordered, ?_, hfailsToo.mpr ⟨⟨.json, [0x5b]⟩, ?_, .inr rfl⟩⟩
  · cases hjson : mixed.toJson with
    | error e =>
      obtain ⟨p, hp, hbad⟩ := hfails.mp ⟨e, hjson⟩
      exact absurd hbad (hembeds p hp)
    | ok json =>
      obtain ⟨himage', hagain⟩ := hform json hjson
      exact ⟨json, rfl, himage'.trans himage, hagain⟩
  · exact List.mem_cons_of_mem _ List.mem_cons_self

end Value

end Polystore
