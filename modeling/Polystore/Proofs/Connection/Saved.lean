import Polystore.Connection.Settings
import Polystore.Proofs.Connection.Disclosure
import Polystore.Proofs.Toml.Lines

/-!
What the file of the settings tells. Main statement: the file does not depend on the password
fields, and everything else in the settings can be read from it, the passwords in the addresses
included.
-/

namespace Polystore.Connection

open Polystore.Toml (Assignment IsBareKey Reads tableText tablesEntry)
open Polystore.Transaction (Isolation)

def Config.withoutPassword (c : Config) : Config :=
  { c with password := "" }

namespace Settings

def withoutPasswords (s : Settings) : Settings :=
  { s with connections := s.connections.map Config.withoutPassword }

/-- Settings whose time limits are numbers of the format. -/
def Savable (s : Settings) : Prop :=
  ∀ c ∈ s.connections, c.connectTimeout.toNat < 2 ^ 63

theorem save_withoutPasswords (s : Settings) : s.withoutPasswords.save = s.save := by
  have hlimits : (s.connections.map Config.withoutPassword).any
      (fun c => 2 ^ 63 ≤ c.connectTimeout.toNat) =
        s.connections.any fun c => 2 ^ 63 ≤ c.connectTimeout.toNat := by
    rw [List.any_map]
    exact congrArg s.connections.any (funext fun _ => rfl)
  have htexts : (s.connections.map Config.withoutPassword).map configText =
      s.connections.map configText := by
    rw [List.map_map]
    exact List.map_congr_left fun _ _ => rfl
  rw [save, withoutPasswords, hlimits, htexts, List.isEmpty_map]
  rfl

/-! ### One connection -/

/-- The lines under the header of a connection. -/
def assignments (c : Config) (h : c.connectTimeout.toNat < 2 ^ 63) : List Assignment :=
  [.ofText "name" c.name (by decide), .ofText "url" c.url (by decide),
      .ofText "isolation" c.isolation.name (by decide),
      .ofFlag "retry_on_conflict" c.retryOnConflict (by decide)] ++
    (c.maxAttempts.map fun n => Assignment.ofNumber "max_attempts" n.toNat (by decide)
      (Nat.lt_trans n.toNat_lt (by decide))).toList ++
    [.ofNumber "connect_timeout_secs" c.connectTimeout.toNat (by decide) h,
      .ofFlag "accept_invalid_certs" c.acceptInvalidCertificates (by decide)] ++
    (c.certificatePath.map fun path => Assignment.ofText "ca_cert_path" path (by decide)).toList

theorem flatMap_line_toList {α : Type} (o : Option α) (f : α → Assignment) :
    (o.map f).toList.flatMap Assignment.line = (o.map fun a => (f a).line).getD [] := by
  cases o with
  | none => rfl
  | some a => exact List.append_nil _

theorem configText_eq_tableText (c : Config) (h : c.connectTimeout.toNat < 2 ^ 63) :
    configText c = tableText "connections" (assignments c h) := by
  have hheader : "[[connections]]\n".toList =
      "[[".toList ++ "connections".toList ++ "]]\n".toList := rfl
  have htext (key value : String) (bare : IsBareKey key.toList) :
      textLine key value = (Assignment.ofText key value bare).line := rfl
  have hflag (key : String) (b : Bool) (bare : IsBareKey key.toList) :
      flagLine key b = (Assignment.ofFlag key b bare).line := rfl
  have hnumber (key : String) (n : Nat) (bare : IsBareKey key.toList) (hn : n < 2 ^ 63) :
      numberLine key n = (Assignment.ofNumber key n bare hn).line := rfl
  unfold configText tableText assignments
  rw [hheader]
  simp only [List.flatMap_append, List.flatMap_cons, List.flatMap_nil, flatMap_line_toList,
    List.append_nil, List.append_assoc, ← htext, ← hflag, ← hnumber]

/-- The keys of a connection, some of which are there for some connections only. -/
theorem keys_assignments (c : Config) (h : c.connectTimeout.toNat < 2 ^ 63) :
    (assignments c h).map Assignment.key =
      ["name", "url", "isolation", "retry_on_conflict"] ++
        (if c.maxAttempts.isSome then ["max_attempts"] else []) ++
        ["connect_timeout_secs", "accept_invalid_certs"] ++
        (if c.certificatePath.isSome then ["ca_cert_path"] else []) := by
  rw [assignments]
  cases c.maxAttempts with
  | none =>
    cases c.certificatePath with
    | none => rfl
    | some path => rfl
  | some n =>
    cases c.certificatePath with
    | none => rfl
    | some path => rfl

theorem nodup_keys (c : Config) (h : c.connectTimeout.toNat < 2 ^ 63) :
    ((assignments c h).map Assignment.key).Nodup := by
  rw [keys_assignments]
  generalize c.maxAttempts.isSome = a
  generalize c.certificatePath.isSome = b
  revert a b
  decide

theorem ofName?_name (level : Isolation) : Isolation.ofName? level.name = some level := by
  cases level with
  | default => rfl
  | readCommitted => rfl
  | repeatableRead => rfl
  | serializable => rfl

theorem asNat_natCast {n bound : Nat} (h : n < bound) : asNat bound (.integer n) = some n :=
  if_pos ⟨Int.natCast_nonneg n, Int.ofNat_lt.mpr h⟩

/-- The entries of a connection are read as that connection, with an empty password. -/
theorem configOf_assignments (c : Config) (h : c.connectTimeout.toNat < 2 ^ 63) :
    configOf (.table .header ((assignments c h).map Assignment.entry)) =
      some c.withoutPassword := by
  obtain ⟨name, url, password, isolation, retry, attempts, timeout, certificates, path⟩ := c
  generalize hfields : (assignments _ h).map Assignment.entry = fields
  have hname : required fields "name" asText = some name := by rw [← hfields]; rfl
  have hurl : required fields "url" asText = some url := by rw [← hfields]; rfl
  have hlevel : optional fields "isolation" (fun v => (asText v).bind Isolation.ofName?) =
      some (some isolation) := by
    rw [← hfields]
    exact congrArg (Option.map some) (ofName?_name isolation)
  have hretry : optional fields "retry_on_conflict" asFlag = some (some retry) := by
    rw [← hfields]
    rfl
  -- which lines come before the other entries differs from one connection to the next
  have hpassword : optional fields "password" asText = some none := by
    rw [← hfields]
    cases attempts <;> cases path <;> rfl
  have hattempts : optional fields "max_attempts" (asNat (2 ^ 32)) =
      some (attempts.map UInt32.toNat) := by
    have hlookup : fields.lookup "max_attempts" = attempts.map fun n => .integer n.toNat := by
      rw [← hfields]
      cases attempts <;> cases path <;> rfl
    rw [optional, hlookup]
    cases attempts with
    | none => rfl
    | some n => exact congrArg (Option.map some) (asNat_natCast n.toNat_lt)
  have htimeout : optional fields "connect_timeout_secs" (asNat (2 ^ 63)) =
      some (some timeout.toNat) := by
    have hlookup : fields.lookup "connect_timeout_secs" = some (.integer timeout.toNat) := by
      rw [← hfields]
      cases attempts <;> cases path <;> rfl
    rw [optional, hlookup]
    exact congrArg (Option.map some) (asNat_natCast h)
  have haccept : optional fields "accept_invalid_certs" asFlag = some (some certificates) := by
    rw [← hfields]
    cases attempts <;> cases path <;> rfl
  have hpath : optional fields "ca_cert_path" asText = some path := by
    rw [← hfields]
    cases attempts <;> cases path <;> rfl
  have hback : (attempts.map UInt32.toNat).map UInt32.ofNat = attempts := by
    rw [Option.map_map]
    cases attempts with
    | none => rfl
    | some n => exact congrArg some (UInt32.ofNat_toNat)
  simp only [configOf, fieldsOf, hname, hurl, hpassword, hlevel, hretry, hattempts, htimeout,
    haccept, hpath, Option.bind_eq_bind, Option.bind_some, Option.pure_def, Option.getD_some,
    Option.getD_none, hback, UInt64.ofNat_toNat, Config.withoutPassword]

/-! ### The whole file -/

theorem save_eq_ok {s : Settings} {text : String} (h : s.save = .ok text) :
    s.Savable ∧ text = String.ofList (['\n'].intercalate
      (if s.connections.isEmpty then
        ["connections = []\n".toList ++
          (s.lastConnection.map (textLine "last_connection")).toList.flatten]
      else (s.lastConnection.map (textLine "last_connection")).toList ++
        s.connections.map configText)) := by
  unfold save at h
  split at h
  · cases h
  · next hlimits =>
    refine ⟨fun c hc => ?_, (Except.ok.inj h).symm⟩
    by_contra hbig
    exact hlimits (List.any_eq_true.mpr ⟨c, hc, decide_eq_true (Nat.not_lt.mp hbig)⟩)

/-- The line before all tables, if there is one. -/
def opening (s : Settings) : List Assignment :=
  (s.lastConnection.map fun name => Assignment.ofText "last_connection" name (by decide)).toList

variable {connections : List Config}

def tables (connections : List Config)
    (h : ∀ c ∈ connections, c.connectTimeout.toNat < 2 ^ 63) : List (List Assignment) :=
  connections.pmap assignments h

theorem flatMap_opening (s : Settings) : s.opening.flatMap Assignment.line =
    (s.lastConnection.map (textLine "last_connection")).toList.flatten := by
  rw [opening]
  cases s.lastConnection with
  | none => rfl
  | some name => rfl

theorem map_tables {β : Type} (h : ∀ c ∈ connections, c.connectTimeout.toNat < 2 ^ 63)
    {f : List Assignment → β} {g : Config → β} (hfg : ∀ c h, f (assignments c h) = g c) :
    (tables connections h).map f = connections.map g :=
  calc (connections.pmap assignments h).map f
    _ = connections.pmap (fun c hc => f (assignments c hc)) h := List.map_pmap ..
    _ = connections.pmap (fun c _ => g c) h := List.pmap_congr_left _ fun c _ hc _ => hfg c hc
    _ = connections.map g := List.pmap_eq_map h

theorem flatMap_tables (h : ∀ c ∈ connections, c.connectTimeout.toNat < 2 ^ 63) :
    ((tables connections h).flatMap fun fields => '\n' :: tableText "connections" fields) =
      connections.flatMap fun c => '\n' :: configText c := by
  rw [List.flatMap_def, List.flatMap_def]
  exact congrArg List.flatten (map_tables h fun c hc => by rw [configText_eq_tableText c hc])

theorem nodup_tables (h : ∀ c ∈ connections, c.connectTimeout.toNat < 2 ^ 63) :
    ∀ fields ∈ tables connections h, (fields.map Assignment.key).Nodup := by
  intro fields hfields
  obtain ⟨c, hc, rfl⟩ := List.mem_pmap.mp hfields
  exact nodup_keys c (h c hc)

theorem reads_empty (s : Settings) :
    Reads {} ("connections = []\n".toList ++
        (s.lastConnection.map (textLine "last_connection")).toList.flatten)
      ⟨("connections", .array []) :: s.opening.map Assignment.entry, []⟩ := by
  have hline : "connections = []\n".toList =
    (Assignment.noItems "connections" (by decide)).line := rfl
  have hnodup : (("connections" :: s.opening.map Assignment.key)).Nodup := by
    rw [opening]
    cases s.lastConnection with
    | none => decide
    | some name =>
      show ["connections", "last_connection"].Nodup
      decide
  rw [← flatMap_opening, hline, ← List.flatMap_cons, ← List.append_nil (List.flatMap _ _)]
  exact Reads.assignments Toml.opens_top _ hnodup (Toml.reads_nil _)

theorem ofDocument_empty {s : Settings} (hempty : s.connections = []) :
    ofDocument (("connections", .array []) :: s.opening.map Assignment.entry) =
      some s.withoutPasswords := by
  obtain ⟨connections, last⟩ := s
  subst hempty
  cases last with
  | none => rfl
  | some name => rfl

theorem configsOf_tables (h : ∀ c ∈ connections, c.connectTimeout.toNat < 2 ^ 63) :
    configsOf (.tables ((tables connections h).map (List.map Assignment.entry))) =
      some (connections.map Config.withoutPassword) := by
  show List.mapM (fun entries => configOf (.table .header entries)) _ = _
  induction connections with
  | nil => rfl
  | cons c connections ih =>
    rw [tables, List.pmap, List.map_cons, List.mapM_cons, configOf_assignments, ← tables, ih]
    rfl

theorem ofDocument_tables {s : Settings} (h : s.Savable) (hnonempty : s.connections ≠ []) :
    ofDocument (s.opening.map Assignment.entry ++
        tablesEntry "connections" ((tables s.connections h).map (List.map Assignment.entry))) =
      some s.withoutPasswords := by
  have hconfigs := configsOf_tables h
  have htables : tables s.connections h ≠ [] :=
    fun hnil => hnonempty (List.pmap_eq_nil_iff.mp hnil)
  rw [tablesEntry, if_neg (by simpa using htables)]
  generalize Toml.tables _ = tables at hconfigs
  rw [opening, withoutPasswords]
  cases s.lastConnection with
  | none =>
    show (Option.bind ((configsOf tables).map some) _) = _
    rw [hconfigs]
    rfl
  | some name =>
    show (Option.bind ((configsOf tables).map some) _) = _
    rw [hconfigs]
    rfl

theorem isBareKey_connections : IsBareKey "connections".toList := by
  decide

/-- Without a line before it, the first table stands at the start. -/
theorem reads_tables (c : Config) (h : ∀ d ∈ c :: connections, d.connectTimeout.toNat < 2 ^ 63) :
    ∃ last, Reads {} (configText c ++ connections.flatMap fun d => '\n' :: configText d)
      ⟨tablesEntry "connections" ((tables (c :: connections) h).map (List.map Assignment.entry)),
        last⟩ := by
  obtain ⟨hc, hrest⟩ := List.forall_mem_cons.mp h
  obtain ⟨last, hreads⟩ := Reads.tables (tables connections hrest) isBareKey_connections
    (nodup_tables hrest) [] rfl [(assignments c hc).map Assignment.entry] ["connections"]
  rw [flatMap_tables] at hreads
  rw [configText_eq_tableText c hc]
  exact ⟨last, Reads.table _ isBareKey_connections (nodup_keys c hc) [] rfl [] hreads⟩

theorem reads_opening (name : String)
    (h : ∀ c ∈ connections, c.connectTimeout.toNat < 2 ^ 63) :
    ∃ last, Reads {} (textLine "last_connection" name ++
        connections.flatMap fun c => '\n' :: configText c)
      ⟨("last_connection", .string name) ::
        tablesEntry "connections" ((tables connections h).map (List.map Assignment.entry)),
        last⟩ := by
  obtain ⟨last, hreads⟩ := Reads.tables (tables connections h) isBareKey_connections
    (nodup_tables h) [("last_connection", .string name)] rfl [] []
  rw [flatMap_tables] at hreads
  refine ⟨last, Reads.assignment (Assignment.ofText "last_connection" name (by decide)) ?_ hreads⟩
  rfl

/-- What is saved can be read, and gives the settings without the password fields. -/
theorem ofDocument_saved {s : Settings} {text : String} (h : s.save = .ok text) :
    (Toml.read? text).bind ofDocument = some s.withoutPasswords := by
  obtain ⟨hsavable, rfl⟩ := save_eq_ok h
  obtain ⟨connections, lastConnection⟩ := s
  cases connections with
  | nil =>
    rw [List.isEmpty_nil, if_pos rfl, List.intercalate_singleton, (reads_empty _).read? rfl]
    exact ofDocument_empty rfl
  | cons c connections =>
    have hdocument := ofDocument_tables hsavable (List.cons_ne_nil c connections)
    rw [List.isEmpty_cons, if_neg Bool.false_ne_true]
    cases lastConnection with
    | none =>
      obtain ⟨last, hreads⟩ := reads_tables c hsavable
      rw [Option.map_none, Option.toList_none, List.nil_append, List.map_cons,
        Text.intercalate_cons_eq, List.flatMap_map, hreads.read? rfl]
      exact hdocument
    | some name =>
      obtain ⟨last, hreads⟩ := reads_opening name hsavable
      rw [Option.map_some, Option.toList_some, List.singleton_append, Text.intercalate_cons_eq,
        List.flatMap_map, hreads.read? rfl]
      exact hdocument

/-- Settings with a connection whose address has a password in it. -/
def withAddress (s : Settings) (c : Config) (after : List Config)
    (opening rest password : List Char) : Settings :=
  { s with connections :=
      s.connections ++ { c with url := Url.withPassword opening password rest } :: after }

theorem eq_of_withAddress {s : Settings} {c : Config} {after : List Config}
    {opening rest p q : List Char}
    (h : (s.withAddress c after opening rest p).withoutPasswords =
      (s.withAddress c after opening rest q).withoutPasswords) : p = q := by
  have hconnections := congrArg Settings.connections h
  simp only [withAddress, withoutPasswords, List.map_append, List.map_cons] at hconnections
  have hurl := congrArg Config.url (List.cons.inj (List.append_cancel_left hconnections)).1
  have htext := String.ofList_inj.mp hurl
  exact List.append_cancel_left (List.append_cancel_right htext)

/-- The file is the same whatever the password fields are. All the rest can be told from it, so it
shows every password in an address. -/
theorem saved_alike (s t : Settings) :
    (s.withoutPasswords = t.withoutPasswords → s.save = t.save) ∧
      (∀ text, s.save = .ok text →
        (t.save = .ok text ↔ s.withoutPasswords = t.withoutPasswords)) ∧
      ∀ (c : Config) (after : List Config) (opening rest p q : List Char) (text : String),
        (s.withAddress c after opening rest p).save = .ok text →
          (s.withAddress c after opening rest q).save = .ok text → p = q := by
  have hsame (h : s.withoutPasswords = t.withoutPasswords) : s.save = t.save := by
    rw [← save_withoutPasswords s, h, save_withoutPasswords]
  refine ⟨hsame, fun text hs => ⟨fun ht => ?_, fun h => (hsame h).symm.trans hs⟩, ?_⟩
  · exact Option.some.inj ((ofDocument_saved hs).symm.trans (ofDocument_saved ht))
  · intro c after opening rest p q text hp hq
    exact eq_of_withAddress (Option.some.inj ((ofDocument_saved hp).symm.trans (ofDocument_saved hq)))

/-- Two passwords that are set beside one address. -/
theorem saved_alike_fields :
    (Settings.mk [{ password := "x" }] none).withoutPasswords =
        (Settings.mk [{ password := "y" }] none).withoutPasswords ∧
      (Settings.mk [{ password := "x" }] none).save =
        (Settings.mk [{ password := "y" }] none).save ∧
      ∃ text, (Settings.mk [{ password := "x" }] none).save = .ok text ∧
        (Settings.mk [{ password := "y" }] none).save = .ok text := by
  have hread : (Settings.mk [{ password := "x" }] none).withoutPasswords =
      (Settings.mk [{ password := "y" }] none).withoutPasswords :=
    ((saved_alike _ _).2.1 _ rfl).mp rfl
  exact ⟨hread, (saved_alike _ _).1 hread, _, rfl, rfl⟩

/-- Two addresses that are read alike but for their passwords do not give the same file. -/
theorem address_password_saved :
    (Url.ofText "postgres://u:p1@h/db").map Url.withoutPassword =
        (Url.ofText "postgres://u:p2@h/db").map Url.withoutPassword ∧
      (Settings.mk [{ url := "postgres://u:p1@h/db" }] none).save ≠
        (Settings.mk [{ url := "postgres://u:p2@h/db" }] none).save := by
  refine ⟨rfl, fun h => ?_⟩
  obtain ⟨text, hsaved⟩ : ∃ text,
      (Settings.mk [{ url := "postgres://u:p1@h/db" }] none).save = .ok text := ⟨_, rfl⟩
  have hread := (ofDocument_saved hsaved).symm.trans (ofDocument_saved (h.symm.trans hsaved))
  exact absurd (Option.some.inj hread) (by decide)

end Settings

end Polystore.Connection
