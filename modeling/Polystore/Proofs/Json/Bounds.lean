import Polystore.Proofs.Json.Reading

/-!
What is read from a JSON text is a proper document. A float is made from a number below two to the
64th, which does not get larger by being divided, and a product that is too large is refused. Main
statement: the integers of any document that is read fit 64 bits, and its floats are finite.
-/

namespace Polystore

namespace Number.Binary64

open BinaryFormat

/-- The bits of two to the 64th. -/
def wordBits : Nat := 0x43F0000000000000

theorem roundRatio_word : double.roundRatio (2 ^ 64) 1 = wordBits := by
  decide +kernel

theorem value_wordBits : double.value wordBits = 2 ^ 64 := by
  have hunpack : double.unpack wordBits = (2 ^ 52, 12) := by decide +kernel
  rw [BinaryFormat.value, hunpack]
  norm_num

theorem roundRatio_le_wordBits {num den : Nat} (hden : 0 < den) (h : (num : ℚ) / den ≤ 2 ^ 64) :
    double.roundRatio num den ≤ wordBits := by
  rw [← roundRatio_word]
  refine double.roundRatio_mono hden one_pos ?_
  rw [Nat.cast_one, div_one]
  exact_mod_cast h

theorem magnitude_ofRatio_le {n : Nat} (h : n < 2 ^ 64) (negative : Bool) :
    (ofRatio negative n 1).magnitude ≤ wordBits := by
  rw [magnitude_ofRatio]
  refine roundRatio_le_wordBits one_pos ?_
  rw [Nat.cast_one, div_one]
  exact_mod_cast h.le

theorem magnitude_div_le {x y : Binary64} (hx : x.magnitude ≤ wordBits)
    (hy : 1 ≤ double.value y.magnitude) : (x.div y).magnitude ≤ wordBits := by
  obtain ⟨num, den, hden, hvalue, hdiv⟩ := div_eq x (lt_of_lt_of_le one_pos hy)
  have hbound : double.value x.magnitude ≤ 2 ^ 64 := by
    rw [← value_wordBits]
    exact double.value_mono hx
  rw [hdiv]
  refine roundRatio_le_wordBits hden ?_
  rw [hvalue]
  exact (div_le_self (double.value_nonneg _) hy).trans hbound

theorem one_le_power (k : Nat) : 1 ≤ double.value (ofRatio false (10 ^ k) 1).magnitude := by
  have hbits : double.roundRatio 1 1 = 0x3FF0000000000000 := by decide +kernel
  have hunpack : double.unpack 0x3FF0000000000000 = (2 ^ 52, -52) := by decide +kernel
  have hone : double.value (double.roundRatio 1 1) = 1 := by
    rw [hbits, BinaryFormat.value, hunpack]
    norm_num
  rw [magnitude_ofRatio, ← hone]
  refine double.value_mono (double.roundRatio_mono one_pos one_pos ?_)
  rw [Nat.cast_one, div_one, div_one]
  exact_mod_cast Nat.one_le_pow _ _ (by decide)

theorem isFinite_of_le {x : Binary64} (h : x.magnitude ≤ wordBits) : x.isFinite = true :=
  decide_eq_true (Nat.lt_of_le_of_lt h (by decide))

/-- A product that is not infinite is finite. -/
theorem isFinite_mul {x y : Binary64} (h : (x.mul y).isInfinite ≠ true) :
    (x.mul y).isFinite = true := by
  obtain ⟨num, den, -, -, hmul⟩ := mul_eq x y
  have hne : double.roundRatio num den ≠ double.infinity :=
    fun heq => h (beq_iff_eq.mpr (hmul.trans heq))
  rw [isFinite, decide_eq_true_eq, hmul]
  exact Nat.lt_of_le_of_ne (roundRatio_le_infinity num den) hne

theorem isFinite_neg {x : Binary64} (h : x.isFinite = true) : x.neg.isFinite = true := by
  have hlt : x.magnitude < 2 ^ 63 := Nat.mod_lt _ (by decide)
  rwa [isFinite, neg, magnitude_ofMagnitude _ hlt]

end Number.Binary64

namespace Json

open Number (Binary64)
open Number.Binary64 (wordBits magnitude_ofRatio_le magnitude_div_le one_le_power isFinite_of_le)
open Text

/-! ### Numbers -/

/-- Nothing is scaled up to an infinity. -/
theorem isFinite_scale {fuel : Nat} {x y : Binary64} {exponent : Int} (hx : x.magnitude ≤ wordBits)
    (h : scale fuel x exponent = some y) : y.isFinite = true := by
  induction fuel generalizing x exponent with
  | zero =>
    cases h
    exact isFinite_of_le hx
  | succ fuel ih =>
    simp only [scale] at h
    split at h
    · -- the power of ten is a float, and one product or one quotient is made with it
      split at h
      · split at h
        · cases h
        · next hfinite =>
          cases h
          exact Binary64.isFinite_mul hfinite
      · cases h
        exact isFinite_of_le (magnitude_div_le hx (one_le_power _))
    · split at h
      · cases h
        exact isFinite_of_le hx
      · split at h
        · cases h
        · exact ih (magnitude_div_le hx (one_le_power _)) h

theorem proper_floatOf {negative : Bool} {significand : Nat} {exponent : Int} {json : Json}
    (hsignificand : significand < 2 ^ 64) (h : floatOf negative significand exponent = some json) :
    json.Proper := by
  rw [floatOf, Option.map_eq_some_iff] at h
  obtain ⟨x, hx, rfl⟩ := h
  have hfinite := isFinite_scale (magnitude_ofRatio_le hsignificand false) hx
  cases negative with
  | true => exact .float (Binary64.isFinite_neg hfinite)
  | false => exact .float hfinite

theorem proper_wholeNumber (negative : Bool) {n : Nat} (h : n < 2 ^ 64) :
    (wholeNumber negative n).Proper := by
  rw [wholeNumber]
  split
  · exact .integer (by omega)
  · split
    · exact .integer (by omega)
    · exact .float (isFinite_of_le (magnitude_ofRatio_le h true))

/-- What a reader gives has a property, if it gives anything. -/
def Gives {A : Type} (P : A → Prop) (made : Option (A × List Char)) : Prop :=
  ∀ a rest, made = some (a, rest) → P a

section

variable {A B : Type} {P : A → Prop} {Q : B → Prop}

theorem gives_none : Gives P none :=
  fun _ _ h => nomatch h

theorem gives_some {a : A} (h : P a) (rest : List Char) : Gives P (some (a, rest)) := by
  rintro _ _ ⟨⟩
  exact h

theorem Gives.bind {made : Option (A × List Char)} (h : Gives P made)
    {next : A × List Char → Option (B × List Char)} (hnext : ∀ a rest, P a → Gives Q (next (a, rest))) :
    Gives Q (made.bind next) := by
  cases made with
  | none => exact gives_none
  | some pair => exact hnext _ _ (h _ _ rfl)

end

theorem gives_floatOf {negative : Bool} {significand : Nat} (h : significand < 2 ^ 64)
    (exponent : Int) (rest : List Char) : Gives Proper
      ((floatOf negative significand exponent).map fun json => (json, rest)) := by
  intro json rest' hread
  obtain ⟨json', hjson, hpair⟩ := Option.map_eq_some_iff.mp hread
  cases hpair
  exact proper_floatOf h hjson

theorem gives_readExponent {negative : Bool} {significand : Nat} (h : significand < 2 ^ 64)
    (start : Int) (text : List Char) :
    Gives Proper (readExponent negative significand start text) := by
  have hzero : (Binary64.ofMagnitude negative 0).isFinite = true := by
    cases negative <;> decide
  simp only [readExponent]
  -- a plus, a minus, or no sign
  split
  all_goals
    split
    · exact gives_none
    · split
      · split
        · exact gives_none
        · exact gives_some (.float hzero) _
      · rw [bind_pure_comp, Option.map_eq_map]
        exact gives_floatOf h _ _

theorem gives_readTail {negative : Bool} {significand : Nat} (h : significand < 2 ^ 64)
    (exponent : Int) (text : List Char) :
    Gives Proper (readTail negative significand exponent text) := by
  unfold readTail
  split
  · exact gives_readExponent h _ _
  · exact gives_readExponent h _ _
  · exact gives_floatOf h _ _

theorem isRow_spanDigits (text : List Char) : IsRow (spanDigits text).1 := by
  rw [spanDigits, List.span_eq_takeWhile_dropWhile]
  exact fun c hc => List.mem_takeWhile_imp hc

theorem accumulate_lt {n : Nat} (h : n < 2 ^ 64) (text : List Char) :
    (accumulate n (spanDigits text).1).1 < 2 ^ 64 :=
  (accumulate_spec (isRow_spanDigits text) h).1

theorem gives_readFraction {negative : Bool} {significand : Nat} (h : significand < 2 ^ 64)
    (exponent : Int) (text : List Char) :
    Gives Proper (readFraction negative significand exponent text) := by
  simp only [readFraction]
  split
  · exact gives_none
  · exact gives_readTail (accumulate_lt h text) _ _

theorem gives_readNumber (negative : Bool) (text : List Char) :
    Gives Proper (readNumber negative text) := by
  have hlt := accumulate_lt (n := 0) (by decide) text
  simp only [readNumber]
  split
  · exact gives_none
  · split
    · exact gives_readFraction hlt _ _
    · split
      · exact gives_some (proper_wholeNumber negative hlt) _
      · exact gives_readTail hlt _ _

/-! ### Documents -/

theorem gives_readWord (word : String) {json : Json} (h : json.Proper) (text : List Char) :
    Gives Proper (readWord word json text) := by
  rw [readWord]
  split
  · exact gives_some h _
  · exact gives_none

theorem gives_readScalar (text : List Char) : Gives Proper (readScalar text) := by
  cases text with
  | nil => exact gives_none
  | cons c rest =>
    simp only [readScalar]
    split_ifs
    · exact gives_readWord _ .null _
    · exact gives_readWord _ (.bool true) _
    · exact gives_readWord _ (.bool false) _
    · intro json rest' hread
      obtain ⟨made, -, hpair⟩ := Option.map_eq_some_iff.mp hread
      cases hpair
      exact .string _
    · exact gives_readNumber true _
    · exact gives_readNumber false _
    · exact gives_none

section

variable {A : Type} {P : A → Prop} {reader : List Char → Option (A × List Char)}
  (h : ∀ text, Gives P (reader text))

include h

theorem gives_readItems (close : Char) (fuel : Nat) (text : List Char) :
    Gives (fun items => ∀ item ∈ items, P item) (readItems reader close fuel text) := by
  induction fuel generalizing text with
  | zero => exact gives_none
  | succ fuel ih =>
    refine (h text).bind fun item rest hitem => ?_
    dsimp only
    split
    · split_ifs
      · exact gives_some (List.forall_mem_singleton.mpr hitem) _
      · exact (ih _).bind fun items last hitems =>
          gives_some (List.forall_mem_cons.mpr ⟨hitem, hitems⟩) last
      · exact gives_none
    · exact gives_none

theorem gives_readList (close : Char) (text : List Char) :
    Gives (fun items => ∀ item ∈ items, P item) (readList reader close text) := by
  simp only [readList]
  split
  · exact gives_some (List.forall_mem_nil _) _
  · exact gives_readItems h close _ _

end

theorem gives_readMember {reader : List Char → Option (Json × List Char)}
    (h : ∀ text, Gives Proper (reader text)) (text : List Char) :
    Gives (fun member => member.2.Proper) (readMember reader text) := by
  rw [readMember]
  cases readText (skipBlanks text) with
  | none => exact gives_none
  | some named =>
    simp only [Option.bind_eq_bind, Option.bind_some]
    split
    · exact (h _).bind fun value rest hvalue =>
        gives_some (P := fun member : String × Json => member.2.Proper) hvalue rest
    · exact gives_none

theorem mem_insertMember {name : String} {value : Json} {member : String × Json}
    {members : List (String × Json)} (h : member ∈ insertMember name value members) :
    member.2 = value ∨ member ∈ members := by
  induction members with
  | nil =>
    rw [insertMember, List.mem_singleton] at h
    exact .inl (h ▸ rfl)
  | cons first members ih =>
    rw [insertMember] at h
    split at h
    · rcases List.mem_cons.mp h with rfl | hmem
      · exact .inl rfl
      · exact .inr (List.mem_cons_of_mem _ hmem)
    · rcases List.mem_cons.mp h with rfl | hmem
      · exact .inr List.mem_cons_self
      · exact (ih hmem).imp_right (List.mem_cons_of_mem _)

theorem proper_objectOf {members : List (String × Json)} (h : ∀ member ∈ members, member.2.Proper) :
    (objectOf members).Proper := by
  refine .object (members.foldlRecOn _
    (motive := fun made : List (String × Json) => ∀ member ∈ made, member.2.Proper)
    (List.forall_mem_nil _) fun made hmade next hnext member hmember => ?_)
  rcases mem_insertMember hmember with hvalue | hmem
  · exact hvalue ▸ h next hnext
  · exact hmade member hmem

theorem gives_readNested (depth : Nat) (text : List Char) : Gives Proper (readNested depth text) := by
  induction depth generalizing text with
  | zero =>
    simp only [readNested]
    split
    · exact gives_none
    · exact gives_readScalar _
  | succ depth ih =>
    unfold readNested
    split
    · exact (gives_readList ih _ _).bind fun items rest hitems => gives_some (.array hitems) rest
    · exact (gives_readList (gives_readMember ih) _ _).bind fun members rest hmembers =>
        gives_some (proper_objectOf hmembers) rest
    · exact gives_readScalar _

theorem proper_of_read? {text : String} {json : Json} (h : read? text = some json) : json.Proper := by
  obtain ⟨rest, hread⟩ := exists_of_read? h
  exact gives_readNested _ _ json rest hread

/-- Whatever document is read from bytes, its integers fit 64 bits and its floats are finite. -/
theorem proper_of_ofBytes? {bytes : Bytes} {json : Json} (h : ofBytes? bytes = some json) :
    json.Proper := by
  obtain ⟨text, -, hread⟩ := Option.bind_eq_some_iff.mp h
  exact proper_of_read? hread

end Json

end Polystore
