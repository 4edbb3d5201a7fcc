import Polystore.Transaction.Executor
import Polystore.Transaction.Memory

/-!
What commands do to a connection in memory. Frames that have failed leave their savepoints behind, and
frames of one depth have savepoints of one name. Inside a frame only savepoints of deeper frames are
left behind, so that its own is found again.
-/

namespace Polystore.Transaction

theorem Frame.savepoint_injective {i j : Nat} (h : savepoint i = savepoint j) : i = j := by
  have hrepr : Nat.repr i = Nat.repr j := (String.append_right_inj "dbkit_sp_").mp h
  have hdigits := congrArg (fun text => Nat.ofDigitChars 10 text.toList 0) hrepr
  simpa using hdigits

namespace Memory

/-- No transaction is open. -/
def Idle (m : Memory) : Prop :=
  m.snapshot = none ∧ m.savepoints = []

/-- No commit and no rollback is going to fail. -/
structure Reliable (m : Memory) : Prop where
  commits : ∀ count e, m.failingCommits ≠ some (count + 1, e)
  rollbacks : m.failingRollbacks = false

theorem perform_failingRollbacks (m : Memory) (command : Command) :
    (Endpoint.perform command m).2.failingRollbacks = m.failingRollbacks := by
  cases command <;> simp only [Endpoint.perform, apply] <;> (try split) <;> rfl

theorem perform_begin (m : Memory) (isolation : Isolation) :
    (Endpoint.perform (.begin isolation) m).1.outcome.isOk = true ∧
      (Endpoint.perform (.begin isolation) m).2.snapshot = some m.data :=
  ⟨rfl, rfl⟩

/-- A commit that succeeds ends the transaction and keeps the data; one that fails changes nothing. -/
theorem perform_commit (m : Memory) :
    (Endpoint.perform .commit m).2.data = m.data ∧
      if (Endpoint.perform .commit m).1.outcome.isOk then (Endpoint.perform .commit m).2.Idle
      else (Endpoint.perform .commit m).2.snapshot = m.snapshot := by
  obtain ⟨data, snapshot, savepoints, log, failing, failingRollbacks⟩ := m
  rcases failing with _ | ⟨_ | count, e⟩
  · exact ⟨rfl, rfl, rfl⟩
  · exact ⟨rfl, rfl, rfl⟩
  · exact ⟨rfl, rfl⟩

theorem perform_rollback (m : Memory) (h : m.failingRollbacks = false) :
    (Endpoint.perform .rollback m).2.data = m.snapshot.getD m.data ∧
      (Endpoint.perform .rollback m).2.Idle := by
  simp only [Endpoint.perform, apply, h]
  exact ⟨rfl, rfl, rfl⟩

theorem Reliable.perform_commit {m : Memory} (h : m.Reliable) :
    (Endpoint.perform .commit m).1.outcome = .ok none := by
  obtain ⟨data, snapshot, savepoints, log, failing, failingRollbacks⟩ := m
  rcases failing with _ | ⟨_ | count, e⟩
  · rfl
  · rfl
  · exact absurd rfl (h.commits count e)

theorem Reliable.perform_rollback {m : Memory} (h : m.Reliable) :
    (Endpoint.perform .rollback m).1.outcome = .ok none := by
  simp only [Endpoint.perform, apply, h.rollbacks]
  rfl

/-- What the commands in a frame of some depth make of a connection. Only savepoints of deeper frames
are left behind. -/
structure Inside (depth : Nat) (m m' : Memory) : Prop where
  snapshot : m'.snapshot = m.snapshot
  failingCommits : m'.failingCommits = m.failingCommits
  failingRollbacks : m'.failingRollbacks = m.failingRollbacks
  savepoints : ∃ stale, m'.savepoints = stale ++ m.savepoints ∧
    ∀ s ∈ stale, ∃ d, depth < d ∧ s.1 = Frame.savepoint d

namespace Inside

variable {depth : Nat} {m m' m'' : Memory}

theorem refl (depth : Nat) (m : Memory) : Inside depth m m where
  snapshot := rfl
  failingCommits := rfl
  failingRollbacks := rfl
  savepoints := ⟨[], rfl, List.forall_mem_nil _⟩

theorem trans (h : Inside depth m m') (h' : Inside depth m' m'') : Inside depth m m'' := by
  obtain ⟨stale, hstale, hdeep⟩ := h.savepoints
  obtain ⟨stale', hstale', hdeep'⟩ := h'.savepoints
  refine ⟨h'.snapshot.trans h.snapshot, h'.failingCommits.trans h.failingCommits,
    h'.failingRollbacks.trans h.failingRollbacks, stale' ++ stale, ?_, ?_⟩
  · rw [hstale', hstale, List.append_assoc]
  · intro s hs
    rcases List.mem_append.mp hs with hs | hs
    · exact hdeep' s hs
    · exact hdeep s hs

theorem reliable (h : Inside depth m m') (hm : m.Reliable) : m'.Reliable where
  commits := h.failingCommits ▸ hm.commits
  rollbacks := h.failingRollbacks ▸ hm.rollbacks

theorem execute (depth : Nat) (m : Memory) (sql : String) (params : List Value) :
    Inside depth m (Endpoint.perform (.execute sql params) m).2 :=
  { refl depth m with }

/-- What has been left behind is passed over, and the savepoint of the frame is found. -/
theorem fromSavepoint (h : Inside depth m m') {copy : Data} {earlier : List (String × Data)}
    (hm : m.savepoints = (Frame.savepoint depth, copy) :: earlier) :
    m'.fromSavepoint (Frame.savepoint depth) = some ((Frame.savepoint depth, copy), earlier) := by
  obtain ⟨stale, hstale, hdeep⟩ := h.savepoints
  have hpassed : ∀ s ∈ stale, (s.1 != Frame.savepoint depth) = true := by
    intro s hs
    obtain ⟨d, hd, hname⟩ := hdeep s hs
    rw [bne_iff_ne, hname]
    intro heq
    exact Nat.ne_of_gt hd (Frame.savepoint_injective heq)
  rw [Memory.fromSavepoint, hstale, hm, List.dropWhile_append_of_pos hpassed]
  simp

/-- A frame that is released keeps the data and takes what has been left behind with it. -/
theorem release
    (h : Inside (depth + 1)
      (Endpoint.perform (.savepoint (Frame.savepoint (depth + 1))) m).2 m') :
    (Endpoint.perform (.release (Frame.savepoint (depth + 1))) m').1.outcome = .ok none ∧
      (Endpoint.perform (.release (Frame.savepoint (depth + 1))) m').2.data = m'.data ∧
      Inside depth m (Endpoint.perform (.release (Frame.savepoint (depth + 1))) m').2 := by
  have hfound : ({ m' with log := .release (Frame.savepoint (depth + 1)) :: m'.log } :
      Memory).fromSavepoint (Frame.savepoint (depth + 1)) =
        some ((Frame.savepoint (depth + 1), m.data), m.savepoints) := h.fromSavepoint rfl
  simp only [Endpoint.perform, apply, hfound, true_and]
  refine ⟨h.snapshot, h.failingCommits, h.failingRollbacks, [], rfl,
    List.forall_mem_nil _⟩

/-- A frame that is rolled back puts its copy of the data back and leaves its savepoint behind. -/
theorem rollbackTo
    (h : Inside (depth + 1)
      (Endpoint.perform (.savepoint (Frame.savepoint (depth + 1))) m).2 m') :
    (Endpoint.perform (.rollbackTo (Frame.savepoint (depth + 1))) m').1.outcome = .ok none ∧
      (Endpoint.perform (.rollbackTo (Frame.savepoint (depth + 1))) m').2.data = m.data ∧
      Inside depth m (Endpoint.perform (.rollbackTo (Frame.savepoint (depth + 1))) m').2 := by
  have hfound : ({ m' with log := .rollbackTo (Frame.savepoint (depth + 1)) :: m'.log } :
      Memory).fromSavepoint (Frame.savepoint (depth + 1)) =
        some ((Frame.savepoint (depth + 1), m.data), m.savepoints) := h.fromSavepoint rfl
  simp only [Endpoint.perform, apply, hfound, true_and]
  refine ⟨h.snapshot, h.failingCommits, h.failingRollbacks,
    [(Frame.savepoint (depth + 1), m.data)], rfl, ?_⟩
  intro s hs
  rw [List.mem_singleton.mp hs]
  exact ⟨depth + 1, Nat.lt_succ_self depth, rfl⟩

end Inside

end Memory

end Polystore.Transaction
