import Polystore.Proofs.Connection.Saved

/-!
Settings that are edited, saved and loaded again. Saving takes every address and loading takes none
but good ones. Main statement: what is saved is loaded as it was, without the password fields, if
all addresses in it are good, which no edit with a good address changes; otherwise the first bad
one is named.
-/

namespace Polystore.Connection

open Polystore.Transaction (Isolation)

/-- A field of a configuration and what it is set to. -/
inductive Field where
  | name (s : String)
  | url (s : String)
  | password (s : String)
  | isolation (level : Isolation)
  | retryOnConflict (b : Bool)
  | maxAttempts (limit : Option UInt32)
  | connectTimeout (seconds : UInt64)
  | acceptInvalidCertificates (b : Bool)
  | certificatePath (path : Option String)

def Config.assign (c : Config) : Field → Config
  | .name s => { c with name := s }
  | .url s => { c with url := s }
  | .password s => { c with password := s }
  | .isolation level => { c with isolation := level }
  | .retryOnConflict b => { c with retryOnConflict := b }
  | .maxAttempts limit => { c with maxAttempts := limit }
  | .connectTimeout seconds => { c with connectTimeout := seconds }
  | .acceptInvalidCertificates b => { c with acceptInvalidCertificates := b }
  | .certificatePath path => { c with certificatePath := path }

/-- A change of the settings. -/
inductive Edit where
  | upsert (c : Config)
  /-- Sets a field of the connection in a place, if there is one. -/
  | assign (place : Nat) (field : Field)
  | remember (name : Option String)

/-- The address of a connection is a good one. -/
def Config.Readable (c : Config) : Prop :=
  ∃ u, c.parsedUrl = .ok u

/-- The edit puts no bad address in. -/
def Edit.Sound : Edit → Prop
  | .upsert c => c.Readable
  | .assign _ (.url s) => ∃ u, Url.ofText s = .ok u
  | _ => True

namespace Settings

def edit (s : Settings) : Edit → Settings
  | .upsert c => s.upsert c
  | .assign place field => { s with connections := s.connections.modify place (·.assign field) }
  | .remember name => { s with lastConnection := name }

def run (s : Settings) (edits : List Edit) : Settings :=
  edits.foldl edit s

def Readable (s : Settings) : Prop :=
  ∀ c ∈ s.connections, c.Readable

/-! ### Edits -/

theorem mem_replaceFirst {c d : Config} {connections : List Config}
    (h : d ∈ replaceFirst c connections) : d = c ∨ d ∈ connections := by
  induction connections with
  | nil => exact .inl (List.mem_singleton.mp h)
  | cons first connections ih =>
    rw [replaceFirst] at h
    split at h
    · rcases List.mem_cons.mp h with rfl | hrest
      · exact .inl rfl
      · exact .inr (List.mem_cons_of_mem first hrest)
    · rcases List.mem_cons.mp h with rfl | hrest
      · exact .inr List.mem_cons_self
      · exact (ih hrest).imp id (List.mem_cons_of_mem first)

theorem readable_assign {c : Config} (hc : c.Readable) {place : Nat} {field : Field}
    (h : (Edit.assign place field).Sound) : (c.assign field).Readable := by
  cases field with
  | url s => exact h
  | _ => exact hc

theorem readable_edit {s : Settings} (hs : s.Readable) {e : Edit} (he : e.Sound) :
    (s.edit e).Readable := by
  cases e with
  | upsert c =>
    intro d hd
    rcases mem_replaceFirst hd with rfl | hmem
    · exact he
    · exact hs d hmem
  | assign place field =>
    intro d hd
    obtain ⟨i, hi, rfl⟩ := List.getElem_of_mem hd
    have hlength : i < s.connections.length := by simpa [edit] using hi
    have hold := hs _ (List.getElem_mem hlength)
    simp only [edit, List.getElem_modify]
    split
    · exact readable_assign hold he
    · exact hold
  | remember name => exact hs

theorem readable_run {s : Settings} (hs : s.Readable) {edits : List Edit}
    (h : ∀ e ∈ edits, e.Sound) : (s.run edits).Readable := by
  induction edits generalizing s with
  | nil => exact hs
  | cons e edits ih =>
    obtain ⟨he, hedits⟩ := List.forall_mem_cons.mp h
    exact ih (readable_edit hs he) hedits

/-! ### Loading -/

/-- What loading asks of a connection. -/
def check (c : Config) : Except SettingsError Unit :=
  match c.parsedUrl with
  | .ok _ => pure ()
  | .error cause => .error (.badUrl c.name cause)

theorem check_eq_ok_iff {c : Config} : check c = .ok () ↔ c.Readable := by
  rw [check, Config.Readable]
  cases c.parsedUrl with
  | ok u => exact ⟨fun _ => ⟨u, rfl⟩, fun _ => rfl⟩
  | error cause =>
    constructor
    · intro h
      cases h
    · rintro ⟨u, hu⟩
      cases hu

theorem check_eq_error {c : Config} {e : SettingsError} (h : check c = .error e) :
    ∃ cause, c.parsedUrl = .error cause ∧ e = .badUrl c.name cause := by
  rw [check] at h
  cases hurl : c.parsedUrl with
  | ok u =>
    rw [hurl] at h
    cases h
  | error cause =>
    rw [hurl] at h
    exact ⟨cause, rfl, (Except.error.inj h).symm⟩

theorem load_saved {s : Settings} {text : String} (h : s.save = .ok text) :
    load (some text) = (s.connections.forM check).map fun _ => s.withoutPasswords := by
  have hchecks : s.withoutPasswords.connections.forM check = s.connections.forM check := by
    rw [withoutPasswords]
    generalize s.connections = connections
    induction connections with
    | nil => rfl
    | cons c connections ih => exact congrArg (fun rest => check c >>= fun _ => rest) ih
  rw [load, ofDocument_saved h, ← hchecks]
  rfl

/-- Whatever was edited, the file is loaded as the settings without the password fields if all
addresses are good; otherwise loading fails and names the first connection with a bad one. Edits
that put no bad address in leave all addresses good. -/
theorem saved_and_loaded (s : Settings) (edits : List Edit) {text : String}
    (h : (s.run edits).save = .ok text) :
    ((s.run edits).Readable → load (some text) = .ok (s.run edits).withoutPasswords) ∧
      (¬(s.run edits).Readable → ∃ before c after cause,
        (s.run edits).connections = before ++ c :: after ∧ (∀ d ∈ before, d.Readable) ∧
          c.parsedUrl = .error cause ∧ load (some text) = .error (.badUrl c.name cause)) ∧
      (s.Readable → (∀ e ∈ edits, e.Sound) → (s.run edits).Readable) := by
  refine ⟨fun hreadable => ?_, fun hbad => ?_, fun hs hedits => readable_run hs hedits⟩
  · rw [load_saved h]
    rcases Except.forM_cases check (s.run edits).connections with
      ⟨hall, -⟩ | ⟨before, c, after, e, hsplit, -, hc, -⟩
    · rw [hall]
      rfl
    · have hmem : c ∈ (s.run edits).connections := by
        rw [hsplit]
        exact List.mem_append_right _ List.mem_cons_self
      rw [check_eq_ok_iff.mpr (hreadable c hmem)] at hc
      cases hc
  · rw [load_saved h]
    rcases Except.forM_cases check (s.run edits).connections with
      ⟨-, hall⟩ | ⟨before, c, after, e, hsplit, hbefore, hc, hfails⟩
    · exact absurd (fun c hc => check_eq_ok_iff.mp (hall c hc)) hbad
    · obtain ⟨cause, hcause, rfl⟩ := check_eq_error hc
      refine ⟨before, c, after, cause, hsplit, fun d hd => check_eq_ok_iff.mp (hbefore d hd), hcause, ?_⟩
      rw [hfails]
      rfl

/-- A connection that is put in, renamed, given another address and a password, beside one that takes
over its name. -/
def history : List Edit :=
  [.upsert { name := "main", url := "postgres://h/db" }, .upsert { name := "cache", url := "redis://h" },
    .assign 1 (.name "main"), .assign 0 (.url "mysql://h:1/db"), .assign 0 (.password "x"),
    .upsert { name := "main", url := "redis://[::1]", maxAttempts := some 3 }, .remember (some "main")]

theorem saved_and_loaded_history :
    ∃ text, (run {} history).save = .ok text ∧ (run {} history).Readable ∧
      load (some text) = .ok (run {} history).withoutPasswords := by
  have hgood : ∀ e ∈ history, e.Sound := by
    simp only [history, List.forall_mem_cons, Edit.Sound, Config.Readable]
    exact ⟨⟨_, rfl⟩, ⟨_, rfl⟩, trivial, ⟨_, rfl⟩, trivial, ⟨_, rfl⟩, trivial, List.forall_mem_nil _⟩
  obtain ⟨text, hsaved⟩ : ∃ text, (run {} history).save = .ok text := ⟨_, rfl⟩
  obtain ⟨hloaded, -, hkept⟩ := saved_and_loaded {} history hsaved
  have hreadable := hkept (List.forall_mem_nil _) hgood
  exact ⟨text, hsaved, hreadable, hloaded hreadable⟩

/-- An address that is no address is saved, and the file is not loaded. -/
theorem bad_address_saved :
    ∃ text,
      (run {} [.upsert { name := "main", url := "postgres://h/db" },
        .assign 0 (.url "nope")]).save = .ok text ∧
      load (some text) = .error (.badUrl "main" (.invalidUrl (.missingScheme "nope"))) := by
  obtain ⟨text, hsaved⟩ : ∃ text,
    (run {} [.upsert { name := "main", url := "postgres://h/db" },
      .assign 0 (.url "nope")]).save = .ok text := ⟨_, rfl⟩
  refine ⟨text, hsaved, ?_⟩
  rw [load_saved hsaved]
  rfl

end Settings

end Polystore.Connection
