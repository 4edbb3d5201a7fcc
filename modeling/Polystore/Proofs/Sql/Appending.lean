import Polystore.Proofs.Sql.Rendering
import Polystore.Sql.Draft

/-!
Fragments put behind each other. Main statement: appending is associative, keeps what every reuse
stands for, and the whole is written as the one text and then the other, with the placeholders of the
other numbered on.
-/

namespace Polystore.Sql

open Fragment

namespace Piece

theorem moved_zero (piece : Piece) : piece.moved 0 = piece := by
  cases piece <;> rfl

theorem moved_moved (m n : Nat) (piece : Piece) : (piece.moved n).moved m = piece.moved (m + n) := by
  cases piece with
  | reuse index => exact congrArg Piece.reuse (by omega)
  | _ => rfl

end Piece

namespace Fragment

/-- What the reuses among some pieces stand for, from left to right, if these values are bound before
them. A reuse of no earlier bind stands for nothing. -/
def resolutions : List Value → List Piece → List (Option Value)
  | _, [] => []
  | met, piece :: rest =>
    match piece with
    | .bind v => resolutions (met ++ [v]) rest
    | .reuse index => met[index]? :: resolutions met rest
    | _ => resolutions met rest

theorem resolutions_append (met : List Value) (a b : List Piece) :
    resolutions met (a ++ b) = resolutions met a ++ resolutions (met ++ boundValues a) b := by
  induction a generalizing met with
  | nil => simp [resolutions, boundValues]
  | cons piece rest ih =>
    cases piece with
    | bind v =>
      have hbound : met ++ boundValues (.bind v :: rest) = met ++ [v] ++ boundValues rest :=
        (List.append_assoc met [v] (boundValues rest)).symm
      rw [hbound]
      exact ih (met ++ [v])
    | reuse index => exact congrArg (met[index]? :: ·) (ih met)
    | _ => exact ih met

/-- A reuse that is moved by as many binds as come before stands for the same. -/
theorem resolutions_moved (before met : List Value) (pieces : List Piece) :
    resolutions (before ++ met) (pieces.map (Piece.moved before.length)) =
      resolutions met pieces := by
  induction pieces generalizing met with
  | nil => rfl
  | cons piece rest ih =>
    cases piece with
    | bind v =>
      have hlater := ih (met ++ [v])
      rw [← List.append_assoc] at hlater
      exact hlater
    | reuse index =>
      have hvalue : (before ++ met)[index + before.length]? = met[index]? := by
        rw [List.getElem?_append_right (Nat.le_add_left _ _), Nat.add_sub_cancel]
      exact congrArg₂ List.cons hvalue (ih met)
    | _ => exact ih met

end Fragment

namespace Draft

/-- What comes about by the operations on drafts. -/
inductive Built : Draft → Prop
  | empty : Built {}
  | push {f : Draft} (piece : Piece) : Built f → Built (f.push piece)
  | append {f other : Draft} : Built f → Built other → Built (f.append other)

theorem Built.appendGrouped {f other : Draft} (hf : Built f) (hother : Built other) :
    Built (f.appendGrouped other) :=
  ((hf.push _).append hother).push _

theorem Built.ofFragment (f : Fragment) : Built (ofFragment f) := by
  suffices h : ∀ pieces : List Piece, ∀ g, Built g → Built (pieces.foldl Draft.push g) from
    h f.pieces {} .empty
  intro pieces
  induction pieces with
  | nil => exact fun _ hg => hg
  | cons piece rest ih => exact fun g hg => ih (g.push piece) (hg.push piece)

theorem pieces_push (f : Draft) (piece : Piece) : (f.push piece).pieces = f.pieces ++ [piece] :=
  rfl

theorem pieces_append (f other : Draft) :
    (f.append other).pieces = f.pieces ++ other.pieces.map (Piece.moved f.bindCount) :=
  rfl

/-- The count that is kept is the number of binds. -/
theorem Built.bindCount_eq {f : Draft} (h : Built f) :
    f.bindCount = (boundValues f.pieces).length := by
  induction h with
  | empty => rfl
  | push piece _ ih =>
    rw [pieces_push, boundValues_append, List.length_append, ← ih]
    cases piece <;> rfl
  | append _ _ ih ih' =>
    rw [pieces_append, boundValues_append, boundValues_moved, List.length_append, ← ih, ← ih']
    rfl

theorem append_assoc (a b c : Draft) : (a.append b).append c = a.append (b.append c) := by
  have hpieces : ((a.append b).append c).pieces = (a.append (b.append c)).pieces := by
    simp only [pieces_append, List.map_append, List.map_map, List.append_assoc]
    refine congrArg (fun later => a.pieces ++ (_ ++ later)) (List.map_congr_left fun piece _ => ?_)
    exact (piece.moved_moved _ _).symm
  exact congrArg₂ Draft.mk hpieces (Nat.add_assoc ..)

theorem empty_append (a : Draft) : ({} : Draft).append a = a := by
  have hpieces : (({} : Draft).append a).pieces = a.pieces :=
    (List.map_congr_left fun piece _ => piece.moved_zero).trans (List.map_id _)
  exact congrArg₂ Draft.mk hpieces (Nat.zero_add _)

theorem append_empty (a : Draft) : a.append {} = a :=
  congrArg₂ Draft.mk (List.append_nil _) rfl

variable {a b : Draft}

theorem resolutions_appended (ha : Built a) (b : Draft) :
    resolutions [] (a.append b).pieces = resolutions [] a.pieces ++ resolutions [] b.pieces := by
  have hmoved := resolutions_moved (boundValues a.pieces) [] b.pieces
  rw [List.append_nil] at hmoved
  rw [pieces_append, resolutions_append, List.nil_append, ha.bindCount_eq, hmoved]

variable {d : Dialect} {r t : Rendered}

theorem render_append (ha : Built a) (hr : a.render d = .ok r) (ht : b.render d = .ok t) :
    ∃ u, (a.append b).render d = .ok u ∧ u.sql = textAfter d 0 (a.append b).pieces ∧
      u.binds = r.binds ++ t.binds := by
  obtain ⟨u, hu, hbinds⟩ := Fragment.render_append hr ht
  rw [← ha.bindCount_eq] at hu
  exact ⟨u, hu, (eq_of_render hu).1, hbinds⟩

theorem text_append (ha : Built a) (hr : a.render d = .ok r) (hb : Complete b.pieces)
    (hne : b.pieces ≠ []) (htexts : ∀ text, .text text ∈ b.pieces ∨ .glue text ∈ b.pieces → text ≠ "") :
    ∃ blank, (blank = " " ∧ BlankDue r.sql b.pieces ∨ blank = "" ∧ ¬BlankDue r.sql b.pieces) ∧
      textAfter d 0 (a.append b).pieces = r.sql ++ blank ++ textAfter d a.bindCount b.pieces := by
  rw [(eq_of_render hr).1, pieces_append, ha.bindCount_eq]
  exact textAfter_append d a.pieces hb hne htexts

end Draft

/-- **Appending is compositional.** It is associative, and the empty draft is neutral. The count that
is kept is the number of binds. Every reuse stands for the same value as before, or for none as before.
If both parts are rendered, so is the whole: it sends the values of the one and then those of the
other, and its text is that of the one, a blank where one is due, and that of the other with its
placeholders numbered after the binds of the one, which is no change where they have no numbers. -/
theorem append_compositional {a : Draft} (ha : a.Built) (b c : Draft) :
    (a.append b).append c = a.append (b.append c) ∧
      ({} : Draft).append a = a ∧ a.append {} = a ∧
      a.bindCount = (boundValues a.pieces).length ∧
      resolutions [] (a.append b).pieces = resolutions [] a.pieces ++ resolutions [] b.pieces ∧
      ∀ d r t, a.render d = .ok r → b.render d = .ok t → b.pieces ≠ [] →
        (∀ text, .text text ∈ b.pieces ∨ .glue text ∈ b.pieces → text ≠ "") →
        ∃ u blank, (a.append b).render d = .ok u ∧
          (blank = " " ∧ BlankDue r.sql b.pieces ∨
            blank = "" ∧ ¬BlankDue r.sql b.pieces) ∧
          u.sql = r.sql ++ blank ++ textAfter d a.bindCount b.pieces ∧
          t.sql = textAfter d 0 b.pieces ∧
          (d.placeholder.isReusable = false → textAfter d a.bindCount b.pieces = t.sql) ∧
          u.binds = r.binds ++ t.binds := by
  refine ⟨Draft.append_assoc a b c, Draft.empty_append a, Draft.append_empty a, ha.bindCount_eq,
    Draft.resolutions_appended ha b, ?_⟩
  intro d r t hr ht hne htexts
  obtain ⟨u, hu, hsql, hbinds⟩ := Draft.render_append ha hr ht
  obtain ⟨blank, hblank, htext⟩ :=
    Draft.text_append ha hr (exists_render_iff.mp ⟨t, ht⟩) hne htexts
  obtain ⟨htsql, -⟩ := eq_of_render ht
  refine ⟨u, blank, hu, hblank, hsql.trans htext, htsql, fun hsingle => ?_, hbinds⟩
  rw [htsql]
  exact textAfter_eq_of_single hsingle _ _

/-- A bind that is written twice, to be put behind other binds. -/
def repeated : Draft :=
  ((({} : Draft).push (.bind (.string "b"))).push (.text "||")).push (.reuse 0)

theorem append_compositional_repeated :
    ∃ r, (((({} : Draft).push (.text "SELECT")).push (.bind (.int 1))).append repeated).render
        .postgres = .ok r ∧ r.sql = "SELECT $1 $2 || $2" ∧ r.binds = [.int 1, .string "b"] := by
  have ha : ((({} : Draft).push (.text "SELECT")).push (.bind (.int 1))).Built :=
    (Draft.Built.empty.push _).push _
  obtain ⟨-, -, -, -, -, hrender⟩ := append_compositional ha repeated {}
  have htexts (text : String) (h : .text text ∈ repeated.pieces ∨ .glue text ∈ repeated.pieces) :
      text ≠ "" := by
    rintro rfl
    simp [repeated, Draft.push] at h
  obtain ⟨u, blank, hu, hblank, hsql, -, -, hbinds⟩ :=
    hrender .postgres _ _ rfl rfl (List.cons_ne_nil _ _) htexts
  obtain ⟨rfl, -⟩ | ⟨-, hnot⟩ := hblank
  · exact ⟨u, hu, hsql, hbinds⟩
  · exact absurd ⟨rfl, '1', rfl, by decide, by decide⟩ hnot

end Polystore.Sql
