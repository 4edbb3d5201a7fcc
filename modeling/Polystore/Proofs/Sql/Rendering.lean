import Polystore.Proofs.Sql.Placeholders

/-!
The text of a fragment as a layout of its tokens. Main statements: a layout goes on as if it began
anew, after a blank where one is due; a fragment is rendered exactly if it is complete, as the layout
of its pieces with the marks of the binds in their places; and pieces put behind others send what they
send alone, after what the others send.
-/

namespace Polystore.Sql

/-- What is written between a text and the next token. -/
def gap (written : List Char) (t : Token) : List Char :=
  if t.glued || endsOpen written then [] else [' ']

theorem addToken_eq (written : List Char) (t : Token) :
    addToken written t = written ++ gap written t ++ t.text := by
  unfold addToken gap
  split <;> simp

theorem endsOpen_append (before : List Char) {written : List Char} (h : written ≠ []) :
    endsOpen (before ++ written) = endsOpen written := by
  obtain ⟨init, c, rfl⟩ := List.eq_nil_or_concat written |>.resolve_left h
  rw [endsOpen, endsOpen, List.concat_eq_append, ← List.append_assoc]
  simp only [List.getLast?_concat]

theorem foldl_addToken_append (before : List Char) {written : List Char} (h : written ≠ [])
    (tokens : List Token) :
    tokens.foldl addToken (before ++ written) = before ++ tokens.foldl addToken written := by
  induction tokens generalizing written with
  | nil => rfl
  | cons t rest ih =>
    have hgap : gap (before ++ written) t = gap written t := by
      rw [gap, gap, endsOpen_append before h]
    have hstep : addToken (before ++ written) t = before ++ addToken written t := by
      rw [addToken_eq, addToken_eq, hgap]
      simp only [List.append_assoc]
    have hne : addToken written t ≠ [] := by
      rw [addToken_eq]
      simp [h]
    rw [List.foldl_cons, List.foldl_cons, hstep, ih hne]

/-- A layout goes on as if it began anew, since all that counts of a text is how it ends. -/
theorem layout_append (before : List Token) {t : Token} (h : t.text ≠ []) (after : List Token) :
    layout (before ++ t :: after) = layout before ++ gap (layout before) t ++ layout (t :: after) := by
  have hfirst : layout (t :: after) = after.foldl addToken t.text := by
    rw [layout, List.foldl_cons]
    congr 1
    rw [addToken_eq, gap, show endsOpen [] = true from rfl, Bool.or_true]
    rfl
  rw [layout, List.foldl_append, List.foldl_cons, addToken_eq, foldl_addToken_append _ h, hfirst]
  rfl

theorem layout_prefix (before after : List Token) : layout before <+: layout (before ++ after) := by
  rw [layout, layout, List.foldl_append]
  generalize before.foldl addToken [] = written
  induction after generalizing written with
  | nil => exact List.prefix_rfl
  | cons t rest ih =>
    refine List.IsPrefix.trans ?_ (ih (addToken written t))
    rw [addToken_eq, List.append_assoc]
    exact List.prefix_append _ _

namespace Fragment

variable {d : Dialect} {f : Fragment} {r : Rendered}

/-- The text of pieces whose binds are numbered after so many others. -/
def textAfter (d : Dialect) (count : Nat) (pieces : List Piece) : String :=
  String.ofList (layout (filled d (marks d ((targets 0 pieces).map (· + count))) pieces))

/-- Where no placeholder has a number, all of them are alike. -/
theorem textAfter_eq_of_single {d : Dialect} (h : d.placeholder.isReusable = false) (count : Nat)
    (pieces : List Piece) : textAfter d count pieces = textAfter d 0 pieces := by
  have hmarks : marks d ((targets 0 pieces).map (· + count)) =
      marks d ((targets 0 pieces).map (· + 0)) := by
    simp only [marks, List.map_map]
    exact List.map_congr_left fun _ _ => Placeholder.mark_single h _ _
  rw [textAfter, textAfter, hmarks]

theorem exists_render_iff : (∃ r, f.render d = .ok r) ↔ Complete f.pieces := by
  rw [complete_iff]
  constructor
  · rintro ⟨r, hr⟩
    obtain ⟨tokens, slots, hrun, -⟩ := render_eq_ok.mp hr
    exact completeAfter_of_run f.pieces hrun
  · intro h
    obtain ⟨resolved, slots, hrun, -⟩ := run_complete f.pieces (Slots.Tracks.start d) h
    exact ⟨_, render_eq_ok.mpr ⟨_, slots, hrun, rfl⟩⟩

/-- The values that are sent: those of all binds, or those of all places. -/
def sent (d : Dialect) (pieces : List Piece) (resolved : List Value) : List Value :=
  if d.placeholder.isReusable then boundValues pieces else resolved

theorem eq_of_render (h : f.render d = .ok r) : r.sql = textAfter d 0 f.pieces ∧
    ∃ resolved, (targets 0 f.pieces).map (fun target => (boundValues f.pieces)[target]?) =
      resolved.map some ∧ r.binds = sent d f.pieces resolved := by
  have hcomplete := (complete_iff f.pieces).mp (exists_render_iff.mp ⟨r, h⟩)
  obtain ⟨tokens, slots, hrun, rfl⟩ := render_eq_ok.mp h
  obtain ⟨resolved, slots', hrun', htargets, hvalues, -⟩ :=
    run_complete f.pieces (Slots.Tracks.start d) hcomplete
  cases hrun.symm.trans hrun'
  refine ⟨?_, resolved, htargets, hvalues⟩
  simp only [textAfter, Nat.add_zero, List.map_id']
  rfl

theorem completeAfter_moved (count met : Nat) (pieces : List Piece) :
    CompleteAfter (met + count) (pieces.map (Piece.moved count)) ↔ CompleteAfter met pieces := by
  induction pieces generalizing met with
  | nil => exact Iff.rfl
  | cons piece rest ih =>
    cases piece with
    | bind v =>
      have hlater := ih (met + 1)
      rw [Nat.add_right_comm] at hlater
      exact hlater
    | reuse index => exact and_congr Nat.add_lt_add_iff_right (ih met)
    | missing operation => exact Iff.rfl
    | text t => exact ih met
    | glue t => exact ih met
    | name n => exact ih met

theorem filled_moved (d : Dialect) (fillings : List (List Char)) (count : Nat)
    (pieces : List Piece) :
    filled d fillings (pieces.map (Piece.moved count)) = filled d fillings pieces := by
  induction pieces generalizing fillings with
  | nil => rfl
  | cons piece rest ih =>
    cases piece with
    | bind v => exact congrArg (_ :: ·) (ih fillings.tail)
    | reuse index => exact congrArg (_ :: ·) (ih fillings.tail)
    | missing operation => exact ih fillings
    | _ => exact congrArg (_ :: ·) (ih fillings)

/-- The first fillings go to the first pieces if these have just as many places. -/
theorem filled_append (d : Dialect) (met : Nat) (a b : List Piece) (fillings : List (List Char)) :
    filled d (marks d (targets met a) ++ fillings) (a ++ b) =
      filled d (marks d (targets met a)) a ++ filled d fillings b := by
  induction a generalizing met with
  | nil => rfl
  | cons piece rest ih =>
    cases piece with
    | bind v => exact congrArg (_ :: ·) (ih (met + 1))
    | reuse index => exact congrArg (_ :: ·) (ih met)
    | missing operation => exact ih met
    | _ => exact congrArg (_ :: ·) (ih met)

/-- The tokens of the whole are those of the parts, with the placeholders numbered on. -/
theorem filled_appended (d : Dialect) (a b : List Piece) :
    filled d (marks d (targets 0 (a ++ b.map (Piece.moved (boundValues a).length))))
        (a ++ b.map (Piece.moved (boundValues a).length)) =
      filled d (marks d (targets 0 a)) a ++
        filled d (marks d ((targets 0 b).map (· + (boundValues a).length))) b := by
  rw [targets_append, targets_moved, marks, List.map_append]
  exact (filled_append d 0 a _ _).trans (congrArg (_ ++ ·) (filled_moved d _ _ _))

/-- Does a fragment begin with punctuation that is written right after what comes before? -/
def beginsGlued : List Piece → Bool
  | .glue _ :: _ => true
  | _ => false

theorem beginsGlued_append {a : List Piece} (h : a ≠ []) (b : List Piece) :
    beginsGlued (a ++ b) = beginsGlued a := by
  obtain ⟨piece, rest, rfl⟩ := List.exists_cons_of_ne_nil h
  cases piece <;> rfl

theorem quoteName_ne_nil (d : Dialect) (name : List Char) : d.quoteName name ≠ [] :=
  List.cons_ne_nil _ _

theorem mark_ne_nil (p : Placeholder) (number : Nat) : p.mark number ≠ [] := by
  cases p <;> exact List.cons_ne_nil _ _

/-- The tokens of complete pieces begin with a text, unless a text among the pieces is empty. -/
theorem exists_filled_cons {d : Dialect} {met count : Nat} {pieces : List Piece}
    (hne : pieces ≠ []) (hcomplete : CompleteAfter met pieces)
    (htexts : ∀ t, .text t ∈ pieces ∨ .glue t ∈ pieces → t ≠ "") :
    ∃ t rest, filled d (marks d ((targets met pieces).map (· + count))) pieces = t :: rest ∧
      t.text ≠ [] ∧ t.glued = beginsGlued pieces := by
  obtain ⟨piece, rest, rfl⟩ := List.exists_cons_of_ne_nil hne
  cases piece with
  | text t =>
    exact ⟨_, _, rfl, fun h => htexts t (.inl List.mem_cons_self) (String.toList_eq_nil_iff.mp h), rfl⟩
  | glue t =>
    exact ⟨_, _, rfl, fun h => htexts t (.inr List.mem_cons_self) (String.toList_eq_nil_iff.mp h), rfl⟩
  | name n => exact ⟨_, _, rfl, quoteName_ne_nil d n.toList, rfl⟩
  | bind v => exact ⟨_, _, rfl, mark_ne_nil d.placeholder _, rfl⟩
  | reuse index => exact ⟨_, _, rfl, mark_ne_nil d.placeholder _, rfl⟩
  | missing operation => exact hcomplete.elim

/-- A blank is due after a text that does not end in an opening parenthesis or white space, unless
the next piece is punctuation. -/
def BlankDue (text : String) (next : List Piece) : Prop :=
  beginsGlued next = false ∧
    ∃ c, text.toList.getLast? = some c ∧ c ≠ '(' ∧ Text.isBlank c = false

theorem endsOpen_eq_false_iff (written : List Char) : endsOpen written = false ↔
    ∃ c, written.getLast? = some c ∧ c ≠ '(' ∧ Text.isBlank c = false := by
  unfold endsOpen
  split
  · next h => simp [h]
  · next c h => simp [h]

theorem textAfter_append (d : Dialect) (a : List Piece) {b : List Piece} (hb : Complete b)
    (hne : b ≠ []) (htexts : ∀ text, .text text ∈ b ∨ .glue text ∈ b → text ≠ "") :
    ∃ blank, (blank = " " ∧ BlankDue (textAfter d 0 a) b ∨ blank = "" ∧ ¬BlankDue (textAfter d 0 a) b) ∧
      textAfter d 0 (a ++ b.map (Piece.moved (boundValues a).length)) =
        textAfter d 0 a ++ blank ++ textAfter d (boundValues a).length b := by
  obtain ⟨first, rest, hfilled, hfirst, hglued⟩ :=
    @exists_filled_cons d 0 (boundValues a).length b hne ((complete_iff b).mp hb) htexts
  have hlayout := layout_append (filled d (marks d (targets 0 a)) a) hfirst rest
  have hwhole : textAfter d 0 (a ++ b.map (Piece.moved (boundValues a).length)) =
      textAfter d 0 a ++ String.ofList (gap (textAfter d 0 a).toList first) ++
        textAfter d (boundValues a).length b := by
    simp only [textAfter, Nat.add_zero, List.map_id', filled_appended, hfilled, hlayout,
      String.ofList_append, String.toList_ofList]
  refine ⟨_, ?_, hwhole⟩
  rw [gap, hglued]
  by_cases hdue : BlankDue (textAfter d 0 a) b
  · refine .inl ⟨?_, hdue⟩
    rw [hdue.1, (endsOpen_eq_false_iff _).mpr hdue.2]
    rfl
  · refine .inr ⟨?_, hdue⟩
    have hclosed : (beginsGlued b || endsOpen (textAfter d 0 a).toList) = true := by
      by_contra h
      rw [Bool.not_eq_true, Bool.or_eq_false_iff] at h
      exact hdue ⟨h.1, (endsOpen_eq_false_iff _).mp h.2⟩
    rw [hclosed]
    rfl

/-- Binds that come later do not change what places stand for. -/
theorem resolved_before (a : List Piece) (later : List Value) {values : List Value}
    (hvalues : (targets 0 a).map (fun target => (boundValues a)[target]?) = values.map some) :
    (targets 0 a).map (fun target => (boundValues a ++ later)[target]?) = values.map some := by
  rw [← hvalues]
  refine List.map_congr_left fun target htarget => ?_
  have hfound : (boundValues a)[target]? ∈ values.map some := hvalues ▸ List.mem_map_of_mem htarget
  obtain ⟨v, -, hv⟩ := List.mem_map.mp hfound
  exact List.getElem?_append_left (List.getElem?_eq_some_iff.mp hv.symm).1

/-- What is sent with the whole is what is sent with the parts, one after the other. -/
theorem render_append {a b : List Piece} {t : Rendered} (hr : (⟨a⟩ : Fragment).render d = .ok r)
    (ht : (⟨b⟩ : Fragment).render d = .ok t) :
    ∃ u, (⟨a ++ b.map (Piece.moved (boundValues a).length)⟩ : Fragment).render d = .ok u ∧
      u.binds = r.binds ++ t.binds := by
  have hcomplete : Complete (a ++ b.map (Piece.moved (boundValues a).length)) := by
    have ha := (complete_iff a).mp (exists_render_iff.mp ⟨r, hr⟩)
    have hb := (complete_iff b).mp (exists_render_iff.mp ⟨t, ht⟩)
    rw [complete_iff, completeAfter_append, completeAfter_moved]
    exact ⟨ha, hb⟩
  obtain ⟨u, hu⟩ := exists_render_iff (d := d) (f := ⟨_⟩).mpr hcomplete
  obtain ⟨-, values, hvalues, hrbinds⟩ := eq_of_render hr
  obtain ⟨-, more, hmore, htbinds⟩ := eq_of_render ht
  obtain ⟨-, all, hall, hubinds⟩ := eq_of_render hu
  have hbound : boundValues (a ++ b.map (Piece.moved (boundValues a).length)) =
      boundValues a ++ boundValues b := by
    rw [boundValues_append, boundValues_moved]
  have hlater : ((targets 0 b).map (· + (boundValues a).length)).map
      (fun target => (boundValues a ++ boundValues b)[target]?) = more.map some := by
    rw [← hmore, List.map_map]
    refine List.map_congr_left fun target _ => ?_
    rw [Function.comp_apply, List.getElem?_append_right (Nat.le_add_left _ _), Nat.add_sub_cancel]
  obtain rfl : all = values ++ more := by
    rw [hbound, targets_append, targets_moved, List.map_append, resolved_before a _ hvalues, hlater,
      ← List.map_append] at hall
    exact (List.map_inj_right fun _ _ => Option.some.inj).mp hall.symm
  refine ⟨u, hu, ?_⟩
  rw [hubinds, hrbinds, htbinds, sent, sent, sent]
  split
  · exact hbound
  · rfl

/-- Pieces that are rendered have rendered pieces at their beginning. -/
theorem exists_render_append {a b : List Piece} (h : (⟨a ++ b⟩ : Fragment).render d = .ok r) :
    ∃ r₀, (⟨a⟩ : Fragment).render d = .ok r₀ ∧ r₀.sql.toList <+: r.sql.toList ∧
      r₀.binds <+: r.binds := by
  have hcomplete := exists_render_iff.mp ⟨r, h⟩
  rw [complete_iff, completeAfter_append] at hcomplete
  obtain ⟨r₀, hr₀⟩ := exists_render_iff (d := d) (f := ⟨a⟩).mpr ((complete_iff _).mpr hcomplete.1)
  obtain ⟨hsql, all, hall, hbinds⟩ := eq_of_render h
  obtain ⟨hsql₀, values, hvalues, hbinds₀⟩ := eq_of_render hr₀
  refine ⟨r₀, hr₀, ?_, ?_⟩
  · rw [hsql, hsql₀]
    simp only [textAfter, Nat.add_zero, List.map_id', String.toList_ofList, targets_append, marks,
      List.map_append]
    rw [← marks, filled_append]
    exact layout_prefix _ _
  · rw [hbinds, hbinds₀, sent, sent]
    split
    · exact ⟨boundValues b, (boundValues_append a b).symm⟩
    · rw [targets_append, boundValues_append, List.map_append, resolved_before a _ hvalues] at hall
      obtain ⟨first, rest, rfl, hfirst, -⟩ := List.map_eq_append_iff.mp hall.symm
      obtain rfl := (List.map_inj_right fun _ _ => Option.some.inj).mp hfirst
      exact List.prefix_append _ _

end Fragment

end Polystore.Sql
