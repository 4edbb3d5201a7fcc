import Polystore.Text.Split

/-!
Texts put together with marks, and cut at them again. Main statements: what stands before the first
mark or behind the last one is the part without the mark, and parts without the mark come back if they
are put together with marks between them.
-/

namespace Polystore.Text

variable {mark : Char} {before after text : List Char}

theorem cut_eq_some_iff : cut mark text = some (before, after) ↔
    text = before ++ mark :: after ∧ mark ∉ before := by
  induction text generalizing before with
  | nil => simp [cut]
  | cons c text ih =>
    rw [cut]
    constructor
    · intro h
      by_cases hc : c = mark
      · rw [if_pos hc] at h
        cases h
        exact ⟨congrArg (· :: _) hc, List.not_mem_nil⟩
      · rw [if_neg hc, Option.map_eq_some_iff] at h
        obtain ⟨⟨first, rest⟩, hcut, hpair⟩ := h
        cases hpair
        obtain ⟨rfl, hnot⟩ := ih.mp hcut
        exact ⟨rfl, List.not_mem_cons_of_ne_of_not_mem (Ne.symm hc) hnot⟩
    · rintro ⟨htext, hnot⟩
      cases before with
      | nil =>
        obtain ⟨rfl, rfl⟩ := List.cons.inj htext
        exact if_pos rfl
      | cons d before =>
        obtain ⟨rfl, hrest⟩ := List.cons.inj htext
        rw [List.mem_cons, not_or] at hnot
        rw [if_neg (Ne.symm hnot.1), ih.mpr ⟨hrest, hnot.2⟩]
        rfl

theorem cut_eq_none_iff : cut mark text = none ↔ mark ∉ text := by
  induction text with
  | nil => simp [cut]
  | cons c text ih =>
    rw [cut, List.mem_cons, not_or, ← ih]
    by_cases hc : c = mark
    · simp [hc]
    · simp [hc, Ne.symm hc]

theorem cutLast_eq_some_iff : cutLast mark text = some (before, after) ↔
    text = before ++ mark :: after ∧ mark ∉ after := by
  rw [cutLast, Option.map_eq_some_iff]
  constructor
  · rintro ⟨⟨first, rest⟩, hcut, hpair⟩
    cases hpair
    obtain ⟨htext, hnot⟩ := cut_eq_some_iff.mp hcut
    rw [List.reverse_eq_iff] at htext
    exact ⟨by simpa using htext, by rwa [List.mem_reverse]⟩
  · rintro ⟨rfl, hnot⟩
    refine ⟨(after.reverse, before.reverse), cut_eq_some_iff.mpr ⟨by simp, ?_⟩, by simp⟩
    rwa [List.mem_reverse]

theorem cutLast_eq_none_iff : cutLast mark text = none ↔ mark ∉ text := by
  rw [cutLast, Option.map_eq_none_iff, cut_eq_none_iff, List.mem_reverse]

section Marks

variable {mark more : List Char} {c : Char}

theorem cutAt_here (h : mark <+: c :: text) :
    cutAt mark (c :: text) = some ([], (c :: text).drop mark.length) := by
  rw [cutAt, if_pos (List.isPrefixOf_iff_prefix.mpr h)]

theorem cutAt_later (h : ¬mark <+: c :: text) : cutAt mark (c :: text) =
    (cutAt mark text).map fun (before, after) => (c :: before, after) := by
  rw [cutAt, if_neg fun hmark => h (List.isPrefixOf_iff_prefix.mp hmark)]

theorem cutAt_append {first : Char} (h : first ∉ before) :
    cutAt (first :: mark) (before ++ first :: (mark ++ after)) = some (before, after) := by
  induction before with
  | nil =>
    rw [List.nil_append, cutAt_here ⟨after, rfl⟩, List.length_cons, List.drop_succ_cons,
      List.drop_left]
  | cons c before ih =>
    rw [List.mem_cons, not_or] at h
    rw [List.cons_append, cutAt_later fun hmark => h.1 (List.cons_prefix_cons.mp hmark).1,
      ih h.2]
    rfl

theorem cutAt_eq_append (h : cutAt mark text = some (before, after)) :
    text = before ++ (mark ++ after) := by
  induction text generalizing before with
  | nil =>
    rw [cutAt] at h
    split at h
    · next hmark =>
      cases h
      rw [List.isEmpty_iff.mp hmark]
      rfl
    · cases h
  | cons c text ih =>
    by_cases hmark : mark <+: c :: text
    · rw [cutAt_here hmark] at h
      cases h
      exact (List.prefix_iff_eq_append.mp hmark).symm
    · rw [cutAt_later hmark, Option.map_eq_some_iff] at h
      obtain ⟨⟨first, rest⟩, hcut, hpair⟩ := h
      cases hpair
      rw [ih hcut]
      rfl

/-- A text that is cut is cut at the same place if it goes on. -/
theorem cutAt_append_right (hne : mark ≠ []) (h : cutAt mark text = some (before, after)) :
    cutAt mark (text ++ more) = some (before, after ++ more) := by
  induction text generalizing before with
  | nil =>
    rw [cutAt, if_neg fun hmark => hne (List.isEmpty_iff.mp hmark)] at h
    cases h
  | cons c text ih =>
    have hlength : mark.length ≤ (c :: text).length := by
      rw [cutAt_eq_append h, List.length_append, List.length_append]
      omega
    by_cases hmark : mark <+: c :: text
    · have hmore : mark <+: c :: (text ++ more) := hmark.trans (List.prefix_append (c :: text) more)
      rw [cutAt_here hmark] at h
      cases h
      rw [List.cons_append, cutAt_here hmore, ← List.cons_append,
        List.drop_append_of_le_length hlength]
    · have hnot : ¬mark <+: c :: (text ++ more) := fun hmore =>
        hmark (List.prefix_of_prefix_length_le hmore (List.prefix_append (c :: text) more) hlength)
      rw [cutAt_later hmark, Option.map_eq_some_iff] at h
      obtain ⟨⟨first, rest⟩, hcut, hpair⟩ := h
      cases hpair
      rw [List.cons_append, cutAt_later hnot, ih hcut]
      rfl

theorem cutAt_ne_none (hne : mark ≠ []) : cutAt mark (before ++ (mark ++ after)) ≠ none := by
  induction before with
  | nil =>
    obtain ⟨c, rest, rfl⟩ := List.exists_cons_of_ne_nil hne
    rw [List.nil_append, List.cons_append, cutAt_here ⟨after, rfl⟩]
    exact Option.some_ne_none _
  | cons c before ih =>
    by_cases hmark : mark <+: c :: (before ++ (mark ++ after))
    · rw [List.cons_append, cutAt_here hmark]
      exact Option.some_ne_none _
    · rw [List.cons_append, cutAt_later hmark]
      exact fun hnone => ih (Option.map_eq_none_iff.mp hnone)

theorem prefix_of_not_mem (hc : c ∉ mark) (h : mark <+: before ++ c :: after) : mark <+: before := by
  induction before generalizing mark with
  | nil =>
    cases mark with
    | nil => exact List.nil_prefix
    | cons first mark =>
      obtain ⟨rfl, -⟩ := List.cons_prefix_cons.mp h
      exact absurd List.mem_cons_self hc
  | cons d before ih =>
    cases mark with
    | nil => exact List.nil_prefix
    | cons first mark =>
      obtain ⟨hfirst, hmark⟩ := List.cons_prefix_cons.mp h
      exact List.cons_prefix_cons.mpr ⟨hfirst, ih (fun hmem => hc (List.mem_cons_of_mem _ hmem)) hmark⟩

/-- No mark begins before a character that can only be its first. -/
theorem cutAt_past (hc : c ∉ mark.tail) (h : cutAt mark (before ++ [c]) = none) :
    cutAt mark (before ++ c :: after) =
      (cutAt mark (c :: after)).map (Prod.map (before ++ ·) id) := by
  induction before with
  | nil =>
    rw [List.nil_append]
    exact Option.map_id'.symm
  | cons d before ih =>
    have hhere : ¬mark <+: d :: (before ++ [c]) := fun hmark => by
      rw [List.cons_append, cutAt_here hmark] at h
      cases h
    have hnot : ¬mark <+: d :: (before ++ c :: after) := fun hmark => hhere <| by
      cases mark with
      | nil => exact List.nil_prefix
      | cons first mark =>
        obtain ⟨hfirst, hrest⟩ := List.cons_prefix_cons.mp hmark
        exact List.cons_prefix_cons.mpr
          ⟨hfirst, (prefix_of_not_mem hc hrest).trans (List.prefix_append before [c])⟩
    rw [List.cons_append, cutAt_later hhere, Option.map_eq_none_iff] at h
    rw [List.cons_append, cutAt_later hnot, ih h, Option.map_map]
    rfl

end Marks

theorem dropWhile_of_not_mem (h : mark ∉ text) : text.dropWhile (· == mark) = text := by
  cases text with
  | nil => rfl
  | cons c text =>
    exact List.dropWhile_cons_of_neg fun hc => h (beq_iff_eq.mp hc ▸ List.mem_cons_self)

theorem split_eq_splitOn (mark : Char) (text : List Char) : split mark text = text.splitOn mark := by
  induction text with
  | nil => rfl
  | cons c text ih =>
    rw [split, ih, List.splitOn, List.splitOn, List.splitOnP_cons_eq_if_modifyHead]
    by_cases hc : c = mark
    · simp [hc]
    · rw [if_neg hc, if_neg (by simpa using hc)]
      cases hparts : List.splitOnP (fun d => d == mark) text with
      | nil => exact absurd hparts (List.splitOnP_ne_nil _ _)
      | cons first more => rfl

/-- Every part but the first comes behind a separator. -/
theorem intercalate_cons_eq {α : Type} (separator : α) (first : List α) (rest : List (List α)) :
    [separator].intercalate (first :: rest) = first ++ rest.flatMap (separator :: ·) := by
  induction rest generalizing first with
  | nil => simp [List.intercalate]
  | cons next rest ih =>
    rw [List.intercalate_cons_cons, ih, List.flatMap_cons, List.append_assoc]
    rfl

theorem split_intercalate {parts : List (List Char)} (h : ∀ part ∈ parts, mark ∉ part)
    (hne : parts ≠ []) : split mark ([mark].intercalate parts) = parts := by
  rw [split_eq_splitOn, List.splitOn_intercalate mark h hne]

theorem not_mem_intercalate {c : Char} (hc : c ≠ mark) {parts : List (List Char)}
    (h : ∀ part ∈ parts, c ∉ part) : c ∉ [mark].intercalate parts := by
  induction parts with
  | nil => exact List.not_mem_nil
  | cons part parts ih =>
    obtain ⟨hpart, hparts⟩ := List.forall_mem_cons.mp h
    cases parts with
    | nil => rwa [List.intercalate_singleton]
    | cons next parts =>
      rw [List.intercalate_cons_cons, List.mem_append, List.mem_append, List.mem_singleton, not_or,
        not_or]
      exact ⟨⟨hpart, hc⟩, ih hparts⟩

theorem split_of_not_mem (h : mark ∉ text) : split mark text = [text] := by
  have hone : split mark ([mark].intercalate [text]) = [text] :=
    split_intercalate (List.forall_mem_singleton.mpr h) (List.cons_ne_nil _ _)
  rwa [List.intercalate_singleton] at hone

end Polystore.Text
