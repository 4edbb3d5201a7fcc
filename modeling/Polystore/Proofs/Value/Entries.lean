import Polystore.Value.Basic

/-!
Entries in the order of their keys. Main statements: sorted entries are in order, and entries that are
in order stay as they are.
-/

namespace Polystore.Value

variable {α : Type}

theorem insertEntry_of_greatest {key : String} {value : α} {entries : List (String × α)}
    (h : ∀ entry ∈ entries, entry.1 < key) :
    insertEntry key value entries = entries ++ [(key, value)] := by
  induction entries with
  | nil => rfl
  | cons entry rest ih =>
    have hless := h entry (List.mem_cons_self ..)
    have hne : key ≠ entry.1 := by
      rintro rfl
      exact String.lt_irrefl _ hless
    rw [insertEntry, if_neg (String.lt_asymm hless), if_neg hne,
      ih fun later hlater => h later (List.mem_cons_of_mem _ hlater), List.cons_append]

theorem sortEntries_of_ascending {entries : List (String × α)}
    (h : (entries.map Prod.fst).Pairwise (· < ·)) : sortEntries entries = entries := by
  suffices hfold : ∀ sorted : List (String × α),
      ((sorted ++ entries).map Prod.fst).Pairwise (· < ·) →
      entries.foldl (fun sorted entry => insertEntry entry.1 entry.2 sorted) sorted =
        sorted ++ entries from hfold [] h
  clear h
  induction entries with
  | nil => simp
  | cons entry rest ih =>
    obtain ⟨key, value⟩ := entry
    intro sorted hsorted
    have hgreatest : ∀ earlier ∈ sorted, earlier.1 < key := by
      intro earlier hearlier
      rw [List.map_append, List.pairwise_append] at hsorted
      exact hsorted.2.2 _ (List.mem_map_of_mem hearlier) _ (by simp)
    rw [List.foldl_cons]
    simp only [insertEntry_of_greatest hgreatest]
    rw [ih]
    · simp
    · simpa using hsorted

theorem mem_insertEntry {key : String} {value : α} {entries : List (String × α)}
    {entry : String × α} (h : entry ∈ insertEntry key value entries) :
    entry = (key, value) ∨ entry ∈ entries := by
  induction entries with
  | nil => exact .inl (List.mem_singleton.mp h)
  | cons first rest ih =>
    rw [insertEntry] at h
    split at h
    · exact List.mem_cons.mp h
    · split at h
      · exact (List.mem_cons.mp h).imp_right (List.mem_cons_of_mem _)
      · rcases List.mem_cons.mp h with rfl | hmem
        · exact .inr List.mem_cons_self
        · exact (ih hmem).imp_right (List.mem_cons_of_mem _)

theorem insertEntry_ascending {key : String} {value : α} {entries : List (String × α)}
    (h : (entries.map Prod.fst).Pairwise (· < ·)) :
    ((insertEntry key value entries).map Prod.fst).Pairwise (· < ·) := by
  rw [List.pairwise_map] at h ⊢
  induction entries with
  | nil => exact List.pairwise_singleton _ _
  | cons first rest ih =>
    obtain ⟨hfirst, hrest⟩ := List.pairwise_cons.mp h
    rw [insertEntry]
    split
    · next hless =>
      refine List.pairwise_cons.mpr ⟨List.forall_mem_cons.mpr ⟨hless, fun entry hentry => ?_⟩, h⟩
      exact String.lt_trans hless (hfirst entry hentry)
    · next hnotLess =>
      split
      · next heq =>
        subst heq
        exact List.pairwise_cons.mpr ⟨hfirst, hrest⟩
      · next hne =>
        refine List.pairwise_cons.mpr ⟨fun entry hentry => ?_, ih hrest⟩
        rcases mem_insertEntry hentry with rfl | hmem
        · refine Decidable.byContradiction fun hnotGreater => hne ?_
          exact String.le_antisymm (String.not_lt.mp hnotGreater) (String.not_lt.mp hnotLess)
        · exact hfirst entry hmem

theorem sortEntries_ascending (entries : List (String × α)) :
    ((sortEntries entries).map Prod.fst).Pairwise (· < ·) :=
  entries.foldlRecOn _
    (motive := fun sorted : List (String × α) => (sorted.map Prod.fst).Pairwise (· < ·)) .nil
    fun _ hsorted _ _ => insertEntry_ascending hsorted

theorem mem_of_mem_sortEntries {entries : List (String × α)} {entry : String × α}
    (h : entry ∈ sortEntries entries) : entry ∈ entries := by
  refine entries.foldlRecOn _ (motive := fun sorted : List (String × α) => ∀ e ∈ sorted, e ∈ entries)
    (List.forall_mem_nil _) (fun sorted hsorted first hfirst e he => ?_) entry h
  rcases mem_insertEntry he with rfl | hmem
  · exact hfirst
  · exact hsorted e hmem

end Polystore.Value
