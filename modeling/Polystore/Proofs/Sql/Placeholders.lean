import Mathlib.Data.List.Induction
import Polystore.Proofs.Except
import Polystore.Sql.Fragment

/-!
Placeholders and the values that are sent. Every place of a value in a fragment stands for one of the
binds of the fragment: a bind for itself, a reuse for the one that it names. Main statement: whatever
the dialect, the value that the server puts in a place is the value of that bind.
-/

namespace Polystore.Sql

theorem Placeholder.mark_single {p : Placeholder} (h : p.isReusable = false) (m n : Nat) :
    p.mark m = p.mark n := by
  cases p with
  | dollar => cases h
  | numbered => cases h
  | single => rfl

def Piece.bound? : Piece → Option Value
  | .bind v => some v
  | _ => none

/-- A reuse with so many more binds before it. -/
def Piece.moved (count : Nat) : Piece → Piece
  | .reuse index => .reuse (index + count)
  | piece => piece

namespace Fragment

/-- The values of the binds among some pieces, from left to right. -/
def boundValues (pieces : List Piece) : List Value :=
  pieces.filterMap Piece.bound?

/-- The bind that each place of a value stands for, when so many binds come before the pieces. -/
def targets : Nat → List Piece → List Nat
  | _, [] => []
  | met, piece :: rest =>
    match piece with
    | .bind _ => met :: targets (met + 1) rest
    | .reuse index => index :: targets met rest
    | _ => targets met rest

/-- Nothing is missing, and reuses name binds that come before them. -/
def Complete (pieces : List Piece) : Prop :=
  ∀ before piece after, pieces = before ++ piece :: after →
    match piece with
    | .reuse index => index < (boundValues before).length
    | .missing _ => False
    | _ => True

/-- What is written if the places of values are filled with these texts, one after the other. -/
def filled (d : Dialect) : List (List Char) → List Piece → List Token
  | _, [] => []
  | fillings, piece :: rest =>
    match piece with
    | .text t => ⟨false, t.toList⟩ :: filled d fillings rest
    | .glue t => ⟨true, t.toList⟩ :: filled d fillings rest
    | .name n => ⟨false, d.quoteName n.toList⟩ :: filled d fillings rest
    | .bind _ | .reuse _ => ⟨false, fillings.headD []⟩ :: filled d fillings.tail rest
    | .missing _ => filled d fillings rest

/-- How places are filled that stand for these binds. -/
def marks (d : Dialect) (targets : List Nat) : List (List Char) :=
  targets.map fun target => d.placeholder.mark (target + 1)

/-- How places are filled for people to read. -/
def literalTexts (d : Dialect) (values : List Value) : List (List Char) :=
  values.map fun v => (literal d v).toList

/-- Pieces that are complete after so many binds. -/
def CompleteAfter : Nat → List Piece → Prop
  | _, [] => True
  | met, piece :: rest =>
    match piece with
    | .bind _ => CompleteAfter (met + 1) rest
    | .reuse index => index < met ∧ CompleteAfter met rest
    | .missing _ => False
    | _ => CompleteAfter met rest

theorem boundValues_append (a b : List Piece) :
    boundValues (a ++ b) = boundValues a ++ boundValues b :=
  List.filterMap_append

theorem targets_append (met : Nat) (a b : List Piece) :
    targets met (a ++ b) = targets met a ++ targets (met + (boundValues a).length) b := by
  induction a generalizing met with
  | nil => rfl
  | cons piece rest ih =>
    cases piece with
    | bind v =>
      have hcount : met + (boundValues (.bind v :: rest)).length =
          met + 1 + (boundValues rest).length := by
        rw [Nat.add_right_comm]
        rfl
      rw [hcount]
      exact congrArg (met :: ·) (ih (met + 1))
    | reuse index => exact congrArg (index :: ·) (ih met)
    | _ => exact ih met

theorem length_boundValues (f : Fragment) : (boundValues f.pieces).length = f.bindCount := by
  obtain ⟨pieces⟩ := f
  induction pieces with
  | nil => rfl
  | cons piece rest ih =>
    rw [bindCount] at ih ⊢
    rw [List.countP_cons, ← ih]
    cases piece <;> rfl

theorem pieces_append (a b : Fragment) :
    (a ++ b).pieces = a.pieces ++ b.pieces.map (Piece.moved a.bindCount) :=
  rfl

theorem boundValues_moved (count : Nat) (pieces : List Piece) :
    boundValues (pieces.map (Piece.moved count)) = boundValues pieces := by
  induction pieces with
  | nil => rfl
  | cons piece rest ih =>
    cases piece with
    | bind v => exact congrArg (v :: ·) ih
    | _ => exact ih

theorem targets_moved (count met : Nat) (pieces : List Piece) :
    targets (met + count) (pieces.map (Piece.moved count)) =
      (targets met pieces).map (· + count) := by
  induction pieces generalizing met with
  | nil => rfl
  | cons piece rest ih =>
    cases piece with
    | bind v =>
      have hlater := ih (met + 1)
      rw [Nat.add_right_comm] at hlater
      exact congrArg ((met + count) :: ·) hlater
    | reuse index => exact congrArg ((index + count) :: ·) (ih met)
    | _ => exact ih met

/-- A fragment put after another one keeps its binds: its places stand for them, wherever they come
in the whole. -/
theorem targets_appended (a b : Fragment) :
    boundValues (a ++ b).pieces = boundValues a.pieces ++ boundValues b.pieces ∧
      targets 0 (a ++ b).pieces =
        targets 0 a.pieces ++ (targets 0 b.pieces).map (· + (boundValues a.pieces).length) := by
  rw [pieces_append, boundValues_append, boundValues_moved, targets_append, length_boundValues,
    targets_moved]
  exact ⟨rfl, rfl⟩

theorem completeAfter_append {met : Nat} {a b : List Piece} :
    CompleteAfter met (a ++ b) ↔
      CompleteAfter met a ∧ CompleteAfter (met + (boundValues a).length) b := by
  induction a generalizing met with
  | nil => simp [CompleteAfter, boundValues]
  | cons piece rest ih =>
    cases piece with
    | bind v =>
      have hcount : met + (boundValues (.bind v :: rest)).length =
          met + 1 + (boundValues rest).length := by
        rw [Nat.add_right_comm]
        rfl
      rw [hcount]
      exact ih
    | reuse index => exact (and_congr_right fun _ => ih).trans and_assoc.symm
    | missing operation => exact (iff_of_eq (false_and _)).symm
    | text t => exact ih
    | glue t => exact ih
    | name n => exact ih

theorem complete_iff (pieces : List Piece) : Complete pieces ↔ CompleteAfter 0 pieces := by
  constructor
  · intro h
    -- By the pieces so far: each of them meets its own condition.
    suffices hall : ∀ before after, pieces = before ++ after → CompleteAfter 0 before from
      hall pieces [] (List.append_nil _).symm
    intro before
    induction before using List.reverseRecOn with
    | nil => exact fun _ _ => trivial
    | append_singleton before piece ih =>
      intro after hsplit
      rw [List.append_assoc] at hsplit
      refine completeAfter_append.mpr ⟨ih _ hsplit, ?_⟩
      have hpiece := h before piece after hsplit
      cases piece with
      | reuse index => exact ⟨by simpa using hpiece, trivial⟩
      | missing operation => exact hpiece
      | _ => trivial
  · rintro h before piece after rfl
    have hpiece := (completeAfter_append.mp h).2
    cases piece with
    | reuse index => simpa using hpiece.1
    | missing operation => exact hpiece
    | _ => trivial

end Fragment

/-- The values of the binds so far can be found again, whatever has been sent for them. -/
structure Slots.Tracks (d : Dialect) (met : List Value) (s : Slots) : Prop where
  length : s.numbers.length = met.length
  found : ∀ i number : Nat, s.numbers[i]? = some number → s.values[number - 1]? = met[i]?
  numbered : d.placeholder.isReusable = true →
    s.values = met ∧ ∀ i number : Nat, s.numbers[i]? = some number → number = i + 1

namespace Slots.Tracks

variable {d : Dialect} {met : List Value} {s : Slots}

theorem start (d : Dialect) : Slots.Tracks d [] {} where
  length := rfl
  found _ _ h := nomatch h
  numbered _ := ⟨rfl, fun _ _ h => nomatch h⟩

/-- What is sent after them does not change the values of the binds so far. -/
theorem found_append (h : s.Tracks d met) (v : Value) {i number : Nat}
    (hnumber : s.numbers[i]? = some number) :
    (s.values ++ [v])[number - 1]? = met[i]? := by
  obtain ⟨hi, -⟩ := List.getElem?_eq_some_iff.mp hnumber
  have hvalue := (h.found i number hnumber).trans (List.getElem?_eq_getElem (h.length ▸ hi))
  obtain ⟨hlt, -⟩ := List.getElem?_eq_some_iff.mp hvalue
  rw [List.getElem?_append_left hlt, h.found i number hnumber]

theorem bind (h : s.Tracks d met) (v : Value) : (s.bind v).Tracks d (met ++ [v]) where
  length := by simp [Slots.bind, h.length]
  found i number hnumber := by
    change (s.numbers ++ [s.values.length + 1])[i]? = some number at hnumber
    change (s.values ++ [v])[number - 1]? = (met ++ [v])[i]?
    rcases Nat.lt_or_ge i s.numbers.length with hi | hi
    · rw [List.getElem?_append_left hi] at hnumber
      rw [h.found_append v hnumber, List.getElem?_append_left (h.length ▸ hi)]
    · rw [List.getElem?_append_right hi, List.getElem?_singleton] at hnumber
      split at hnumber
      · next hlast =>
        obtain rfl := Option.some.inj hnumber
        have hi' : i = met.length := by rw [← h.length]; omega
        simp [hi']
      · cases hnumber
  numbered hreusable := by
    obtain ⟨hvalues, hnumbers⟩ := h.numbered hreusable
    refine ⟨by rw [Slots.bind, hvalues], fun i number hnumber => ?_⟩
    change (s.numbers ++ [s.values.length + 1])[i]? = some number at hnumber
    rcases Nat.lt_or_ge i s.numbers.length with hi | hi
    · rw [List.getElem?_append_left hi] at hnumber
      exact hnumbers i number hnumber
    · rw [List.getElem?_append_right hi, List.getElem?_singleton] at hnumber
      split at hnumber
      · next hlast =>
        obtain rfl := Option.some.inj hnumber
        rw [hvalues, ← h.length]
        omega
      · cases hnumber

/-- A reuse sends a value again if it has no number. -/
theorem reuse (h : s.Tracks d met) (v : Value) :
    (if d.placeholder.isReusable then s else s.send v).Tracks d met := by
  split
  · exact h
  · next hsingle =>
    exact ⟨h.length, fun _ _ hnumber => h.found_append v hnumber,
      fun hreusable => absurd hreusable hsingle⟩

end Slots.Tracks

namespace Fragment

variable {d : Dialect} {met : List Value} {s s' s'' : Slots} {piece : Piece} {rest : List Piece}
  {token : Token} {tokens : List Token}

theorem run_cons (hstep : step d s piece = .ok (token, s')) (hrun : run d s' rest = .ok (tokens, s'')) :
    run d s (piece :: rest) = .ok (token :: tokens, s'') := by
  rw [run, hstep]
  change (run d s' rest >>= _) = _
  rw [hrun]
  rfl

theorem step_bind (hs : s.Tracks d met) (v : Value) :
    step d s (.bind v) = .ok (⟨false, d.placeholder.mark (met.length + 1)⟩, s.bind v) := by
  have hmark : d.placeholder.mark (s.values.length + 1) = d.placeholder.mark (met.length + 1) := by
    cases hreusable : d.placeholder.isReusable with
    | true => rw [(hs.numbered hreusable).1]
    | false => exact Placeholder.mark_single hreusable _ _
  rw [step, hmark]

theorem step_reuse (hs : s.Tracks d met) {index : Nat} (hindex : index < met.length) :
    step d s (.reuse index) = .ok (⟨false, d.placeholder.mark (index + 1)⟩,
      if d.placeholder.isReusable then s else s.send met[index]) := by
  obtain ⟨number, hnumber⟩ : ∃ number, s.numbers[index]? = some number :=
    ⟨_, List.getElem?_eq_getElem (hs.length ▸ hindex)⟩
  rw [step, hnumber]
  dsimp only
  split
  · next hreusable => rw [(hs.numbered hreusable).2 index number hnumber]
  · next hsingle =>
    have hfound : s.values.getD (number - 1) .null = met[index] := by
      rw [List.getD_eq_getElem?_getD, hs.found index number hnumber, List.getElem?_eq_getElem hindex]
      rfl
    rw [hfound, Placeholder.mark_single (Bool.eq_false_iff.mpr hsingle) _ (index + 1)]

/-- Complete pieces are rendered. The values that their places stand for are found among all binds,
and are sent in that order if every place takes a value of its own. -/
theorem run_complete (pieces : List Piece) {met : List Value} {s : Slots} (hs : s.Tracks d met)
    (h : CompleteAfter met.length pieces) :
    ∃ resolved s', run d s pieces =
        .ok (filled d (marks d (targets met.length pieces)) pieces, s') ∧
      (targets met.length pieces).map (fun target => (met ++ boundValues pieces)[target]?) =
        resolved.map some ∧
      s'.values = s.values ++ (if d.placeholder.isReusable then boundValues pieces else resolved) ∧
      inlineTokens d met pieces = filled d (literalTexts d resolved) pieces := by
  induction pieces generalizing met s with
  | nil => exact ⟨[], s, rfl, rfl, by simp [boundValues], rfl⟩
  | cons piece rest ih =>
    cases piece with
    | text _ | glue _ | name _ =>
      obtain ⟨resolved, s', hrun, htargets, hvalues, hinline⟩ := ih hs h
      exact ⟨resolved, s', run_cons rfl hrun, htargets, hvalues, congrArg (_ :: ·) hinline⟩
    | missing operation => exact h.elim
    | bind v =>
      have hlength : (met ++ [v]).length = met.length + 1 := by simp
      have hall : met ++ [v] ++ boundValues rest = met ++ boundValues (.bind v :: rest) :=
        List.append_assoc _ _ _
      have hself : (met ++ boundValues (.bind v :: rest))[met.length]? = some v := by
        rw [← hall]
        simp
      obtain ⟨resolved, s', hrun, htargets, hvalues, hinline⟩ := ih (hs.bind v) (hlength ▸ h)
      rw [hlength] at hrun htargets
      rw [hall] at htargets
      refine ⟨v :: resolved, s', run_cons (step_bind hs v) hrun, ?_, ?_, congrArg (_ :: ·) hinline⟩
      · rw [targets, List.map_cons, hself, htargets]
        rfl
      · rw [hvalues, Slots.bind, List.append_assoc]
        split <;> rfl
    | reuse index =>
      obtain ⟨hindex, hrest⟩ := h
      have hvalue : met[index]? = some met[index] := List.getElem?_eq_getElem hindex
      have hself : (met ++ boundValues (.reuse index :: rest))[index]? = some met[index] := by
        rw [List.getElem?_append_left hindex, hvalue]
      obtain ⟨resolved, s', hrun, htargets, hvalues, hinline⟩ := ih (hs.reuse met[index]) hrest
      refine ⟨met[index] :: resolved, s', run_cons (step_reuse hs hindex) hrun, ?_, ?_, ?_⟩
      · rw [targets, List.map_cons, hself]
        exact congrArg (_ :: ·) htargets
      · rw [hvalues]
        split
        · rfl
        · exact List.append_assoc _ _ _
      · change inlineToken d met (.reuse index) :: inlineTokens d met rest = _
        rw [inlineToken, hvalue, hinline]
        rfl

/-- Only complete pieces are rendered. -/
theorem completeAfter_of_run (pieces : List Piece) {s s' : Slots} {tokens : List Token}
    (h : run d s pieces = .ok (tokens, s')) : CompleteAfter s.numbers.length pieces := by
  induction pieces generalizing s s' tokens with
  | nil => trivial
  | cons piece rest ih =>
    obtain ⟨⟨token, t⟩, hstep, hrest⟩ := Except.bind_eq_ok.mp h
    obtain ⟨⟨later, u⟩, hrun, -⟩ := Except.bind_eq_ok.mp hrest
    cases piece with
    | text _ | glue _ | name _ =>
      cases hstep
      exact ih hrun
    | missing operation => cases hstep
    | bind v =>
      cases hstep
      have hlater := ih hrun
      rw [Slots.bind, List.length_append] at hlater
      exact hlater
    | reuse index =>
      rw [step] at hstep
      split at hstep
      · cases hstep
      · next number hnumber =>
        obtain ⟨hindex, -⟩ := List.getElem?_eq_some_iff.mp hnumber
        refine ⟨hindex, ?_⟩
        -- What is sent again has no number of its own.
        split at hstep
        · cases hstep
          exact ih hrun
        · cases hstep
          have hlater := ih hrun
          exact hlater

theorem render_eq_ok {f : Fragment} {r : Rendered} :
    f.render d = .ok r ↔ ∃ tokens slots, run d {} f.pieces = .ok (tokens, slots) ∧
      r = ⟨String.ofList (layout tokens), slots.values, d, f⟩ := by
  rw [render, Except.bind_eq_ok]
  constructor
  · rintro ⟨⟨tokens, slots⟩, hrun, hr⟩
    cases hr
    exact ⟨tokens, slots, hrun, rfl⟩
  · rintro ⟨tokens, slots, hrun, rfl⟩
    exact ⟨(tokens, slots), hrun, rfl⟩

end Fragment

/-- **Placeholders denote binds.** A fragment is rendered if and only if nothing is missing and every
reuse names a bind before it. Then each place of a value has the value of the bind that it stands for:
where placeholders have numbers, the binds are sent once each and the number is that of the bind; where
they have none, one value is sent for each place, in order. For people to read, the literals of the
same values are in the same places. -/
theorem placeholders_denote_binds (d : Dialect) (f : Fragment) :
    ((∃ r, f.render d = .ok r) ↔ Fragment.Complete f.pieces) ∧
      ∀ r, f.render d = .ok r → ∃ resolved : List Value,
        (Fragment.targets 0 f.pieces).map (fun target => (Fragment.boundValues f.pieces)[target]?) =
          resolved.map some ∧
        r.sql = String.ofList
          (layout (Fragment.filled d (Fragment.marks d (Fragment.targets 0 f.pieces)) f.pieces)) ∧
        r.binds =
          (if d.placeholder.isReusable then Fragment.boundValues f.pieces else resolved) ∧
        f.inline d = String.ofList
          (layout (Fragment.filled d (Fragment.literalTexts d resolved) f.pieces)) := by
  rw [Fragment.complete_iff]
  have hcomplete (r : Rendered) (hr : f.render d = .ok r) : Fragment.CompleteAfter 0 f.pieces := by
    obtain ⟨tokens, slots, hrun, -⟩ := Fragment.render_eq_ok.mp hr
    exact Fragment.completeAfter_of_run f.pieces hrun
  refine ⟨⟨fun ⟨r, hr⟩ => hcomplete r hr, fun h => ?_⟩, fun r hr => ?_⟩
  · obtain ⟨resolved, slots, hrun, -⟩ := Fragment.run_complete f.pieces (Slots.Tracks.start d) h
    exact ⟨_, Fragment.render_eq_ok.mpr ⟨_, slots, hrun, rfl⟩⟩
  · obtain ⟨resolved, slots, hrun, htargets, hvalues, hinline⟩ :=
      Fragment.run_complete f.pieces (Slots.Tracks.start d) (hcomplete r hr)
    obtain ⟨tokens, slots', hrun', rfl⟩ := Fragment.render_eq_ok.mp hr
    cases hrun.symm.trans hrun'
    refine ⟨resolved, htargets, rfl, hvalues, ?_⟩
    rw [Fragment.inline, hinline]

/-- A statement whose second part writes its bind twice. -/
def doubled : Fragment :=
  (⟨[.text "SELECT", .bind (.int 1), .glue ","]⟩ : Fragment) ++
    ⟨[.bind (.string "b"), .text "||", .reuse 0]⟩

theorem placeholders_denote_binds_doubled :
    ∃ r, doubled.render .mysql = .ok r ∧ r.sql = "SELECT ?, ? || ?" ∧
      r.binds = [.int 1, .string "b", .string "b"] ∧
      doubled.inline .mysql = "SELECT 1, 'b' || 'b'" := by
  obtain ⟨hrendered, hplaces⟩ := placeholders_denote_binds .mysql doubled
  have hcomplete : Fragment.Complete doubled.pieces := by
    rw [Fragment.complete_iff]
    exact ⟨by decide, trivial⟩
  obtain ⟨r, hr⟩ := hrendered.mpr hcomplete
  obtain ⟨resolved, htargets, hsql, hbinds, hinline⟩ := hplaces r hr
  have hresolved : resolved = [.int 1, .string "b", .string "b"] :=
    (List.map_inj_right fun _ _ => Option.some.inj).mp htargets.symm
  rw [hresolved] at hbinds hinline
  exact ⟨r, hr, hsql, hbinds, hinline⟩

end Polystore.Sql
