import Polystore.Proofs.Connection.Layout
import Polystore.Proofs.Except
import Polystore.Proofs.Number.Written
import Polystore.Proofs.Text.Percent
import Polystore.Proofs.Value.Entries

/-!
Addresses that are written out with escapes, and read. Main statement: the address that is read is the
one that was written.
-/

namespace Polystore.Connection

open Polystore.Text (cut cutAt cutLast)
open Polystore.Text.Percent (Spells isWritten)

def SslMode.name : SslMode → String
  | .disable => "disable"
  | .prefer => "prefer"
  | .require => "require"
  | .verifyCa => "verify-ca"
  | .verifyFull => "verify-full"

namespace Url

/-- An address that can be written: what is given has a name, only one kind of store has several
hosts, and the options are in order and stand for nothing else. -/
structure Proper (u : Url) : Prop where
  hosts : ∀ h ∈ u.hosts, h.name ≠ ""
  single : u.backend ≠ .mongoDb → u.others = []
  username : u.username ≠ some ""
  database : u.database ≠ some ""
  ascending : (u.options.map Prod.fst).Pairwise (· < ·)
  keys : ∀ option ∈ u.options, option.1 ∉ ["ssl", "tls", "sslmode"]

def writeMode (mode : SslMode) : List Char :=
  ("sslmode=" ++ mode.name).toList

section Written

variable (spell : String → List Char)

def writeHost (h : Host) : List Char :=
  spell h.name ++ ':' :: Text.digits h.port.toNat

/-- A user name, and a password after a colon, where one of them is given. -/
def writeCredentials : Option String → Option String → Option (List Char)
  | none, none => none
  | some user, none => some (spell user)
  | none, some password => some (':' :: spell password)
  | some user, some password => some (spell user ++ ':' :: spell password)

def writeDatabase (database : Option String) : List Char :=
  database.elim [] fun d => '/' :: spell d

def writeOption (option : String × String) : List Char :=
  spell option.1 ++ '=' :: spell option.2

def writeQuery (mode : SslMode) (options : List (String × String)) : List Char :=
  ['&'].intercalate (writeMode mode :: options.map (writeOption spell))

def layout (u : Url) : Layout where
  credentials := writeCredentials spell u.username u.password
  hosts := [','].intercalate (u.hosts.map (writeHost spell))
  path := writeDatabase spell u.database
  query := writeQuery spell u.sslMode u.options

def write (scheme : List Char) (u : Url) : String :=
  String.ofList (scheme ++ ':' :: '/' :: '/' :: (u.layout spell).text)

end Written

theorem splitHost_colon {name port : List Char} (hopen : '[' ∉ name) (hport : ':' ∉ port) :
    splitHost (name ++ ':' :: port) = .ok (name, some port) := by
  have hcut : cutLast ':' (name ++ ':' :: port) = some (name, port) :=
    Text.cutLast_eq_some_iff.mpr ⟨rfl, hport⟩
  rw [splitHost.eq_2, hcut]
  intro rest hrest
  cases name with
  | nil => cases (List.cons.inj hrest).1
  | cons c name => exact hopen ((List.cons.inj hrest).1 ▸ List.mem_cons_self)

theorem readPort_digits (port : UInt16) : readPort (Text.digits port.toNat) = .ok port := by
  have hplus (rest : List Char) : Text.digits port.toNat ≠ '+' :: rest := fun hrest =>
    Bool.false_ne_true (Text.isRow_digits port.toNat '+' (hrest ▸ List.mem_cons_self))
  have hread := Text.readNat?_digits port.toNat
  generalize Text.digits port.toNat = digits at hplus hread
  rw [readPort]
  · simp only [hread, if_pos port.toNat_lt, UInt16.ofNat_toNat]
  · exact hplus

theorem trimSlashes_cons {text : List Char} (h : '/' ∉ text) : trimSlashes ('/' :: text) = text := by
  have hfirst : ('/' :: text).dropWhile (· == '/') = text := Text.dropWhile_of_not_mem h
  have hlast : text.reverse.dropWhile (· == '/') = text.reverse :=
    Text.dropWhile_of_not_mem (List.mem_reverse.not.mpr h)
  rw [trimSlashes, hfirst, hlast, List.reverse_reverse]

theorem isPart_writeMode (mode : SslMode) : '&' ∉ writeMode mode ∧ writeMode mode ≠ [] := by
  cases mode <;> exact ⟨by decide, by decide⟩

theorem add_writeMode (mode : SslMode) :
    Query.add {} (writeMode mode) = .ok { mode := some mode } := by
  cases mode <;> rfl

section Reading

variable {spell : String → List Char} (hspell : ∀ s, Spells (Bytes.ofText s) (spell s))

include hspell

theorem unescape_spelled (s : String) : unescape (spell s) = .ok s := by
  rw [unescape, (hspell s).bytes?]
  simp only [Bytes.toText?_ofText]

theorem not_mem_spelled {c : Char} (hc : isWritten c = false) (s : String) : c ∉ spell s :=
  (hspell s).not_mem hc

theorem isInner_spelled (s : String) : Layout.IsInner (spell s) :=
  ⟨not_mem_spelled hspell (by decide) s, not_mem_spelled hspell (by decide) s⟩

theorem spelled_ne_nil {s : String} (h : s ≠ "") : spell s ≠ [] := by
  refine (hspell s).ne_nil fun hbytes => h ?_
  have hback := Bytes.toText?_ofText s
  rw [hbytes] at hback
  exact (Option.some.inj hback).symm

theorem readCredentials_written {username password : Option String} (h : username ≠ some "") :
    readCredentials (writeCredentials spell username password) = .ok (username, password) := by
  have hcolon (s : String) : ':' ∉ spell s := not_mem_spelled hspell (by decide) s
  have hname {user : String} (huser : username = some user) : nonEmpty user = some user := by
    refine if_neg fun hempty => h ?_
    rw [huser, String.isEmpty_iff.mp hempty]
  match username, password with
  | none, none => rfl
  | some user, none =>
    rw [writeCredentials, readCredentials, Text.cut_eq_none_iff.mpr (hcolon user)]
    simp only [unescape_spelled hspell]
    exact congrArg (fun name => Except.ok (name, none)) (hname rfl)
  | none, some password =>
    have hcut : cut ':' (':' :: spell password) = some ([], spell password) := rfl
    rw [writeCredentials, readCredentials, hcut]
    simp only [unescape_spelled hspell]
    rfl
  | some user, some password =>
    have hcut : cut ':' (spell user ++ ':' :: spell password) = some (spell user, spell password) :=
      Text.cut_eq_some_iff.mpr ⟨rfl, hcolon user⟩
    rw [writeCredentials, readCredentials, hcut]
    simp only [unescape_spelled hspell]
    exact congrArg (fun name => Except.ok (name, some password)) (hname rfl)

theorem isInner_writeCredentials (username password : Option String) :
    ∀ credentials ∈ writeCredentials spell username password, Layout.IsInner credentials := by
  have hpassword (password : String) : Layout.IsInner (':' :: spell password) :=
    Layout.IsInner.append (a := [':']) ⟨by decide, by decide⟩ (isInner_spelled hspell password)
  intro credentials hcredentials
  match username, password with
  | none, none => cases hcredentials
  | some user, none =>
    cases hcredentials
    exact isInner_spelled hspell user
  | none, some password =>
    cases hcredentials
    exact hpassword password
  | some user, some password =>
    cases hcredentials
    exact (isInner_spelled hspell user).append (hpassword password)

theorem readHost_written {h : Host} (hname : h.name ≠ "") (defaultPort : UInt16) :
    readHost defaultPort (writeHost spell h) = .ok h := by
  have hport : ':' ∉ Text.digits h.port.toNat := fun hmem =>
    Bool.false_ne_true (Text.isRow_digits h.port.toNat ':' hmem)
  have hne : (spell h.name).isEmpty = false :=
    List.isEmpty_eq_false_iff.mpr (spelled_ne_nil hspell hname)
  rw [readHost, writeHost, splitHost_colon (not_mem_spelled hspell (by decide) h.name) hport]
  show (if (spell h.name).isEmpty then _ else _ : Except Error Host) = .ok h
  rw [hne, readPort_digits, unescape_spelled hspell]
  rfl

theorem not_mem_writeHost {c : Char} (hc : isWritten c = false) (hcolon : c ≠ ':') (h : Host) :
    c ∉ writeHost spell h := by
  rw [writeHost, List.mem_append, List.mem_cons, not_or, not_or]
  refine ⟨not_mem_spelled hspell hc h.name, hcolon, fun hmem => ?_⟩
  have hwritten := Text.Percent.isWritten_of_isDigit (Text.isRow_digits h.port.toNat c hmem)
  exact Bool.false_ne_true (hc.symm.trans hwritten)

theorem not_mem_writeHosts {c : Char} (hc : isWritten c = false) (hcolon : c ≠ ':') (hcomma : c ≠ ',')
    (hosts : List Host) : c ∉ [','].intercalate (hosts.map (writeHost spell)) :=
  Text.not_mem_intercalate hcomma
    (List.forall_mem_map.mpr fun host _ => not_mem_writeHost hspell hc hcolon host)

theorem readHosts_written {u : Url} (h : u.Proper) :
    Layout.readHosts u.backend ([','].intercalate (u.hosts.map (writeHost spell))) =
      .ok (u.primary, u.others) := by
  have hparts : ∀ part ∈ u.hosts.map (writeHost spell), ',' ∉ part :=
    List.forall_mem_map.mpr fun host _ => not_mem_writeHost hspell (by decide) (by decide) host
  have hread : (u.hosts.map (writeHost spell)).mapM (readHost u.backend.defaultPort) = .ok u.hosts :=
    Except.mapM_map_self fun host hhost => readHost_written hspell (h.hosts host hhost) _
  have hcount : (!u.others.isEmpty && u.backend != .mongoDb) = false := by
    by_cases hbackend : u.backend = .mongoDb
    · rw [hbackend, bne_self_eq_false, Bool.and_false]
    · rw [h.single hbackend]
      rfl
  rw [Layout.readHosts, Text.split_intercalate hparts (List.cons_ne_nil _ _), hread]
  show (if !u.others.isEmpty && u.backend != .mongoDb then _ else _ : Except Error _) = _
  rw [hcount]
  rfl

theorem readDatabase_written {database : Option String} (h : database ≠ some "") :
    readDatabase (writeDatabase spell database) = .ok database := by
  cases database with
  | none => rfl
  | some d =>
    have hslash : '/' ∉ spell d := not_mem_spelled hspell (by decide) d
    obtain ⟨c, rest, hcons⟩ := List.exists_cons_of_ne_nil
      (spelled_ne_nil hspell fun hempty => h (congrArg some hempty))
    rw [writeDatabase, Option.elim_some, readDatabase, trimSlashes_cons hslash,
      Text.split_of_not_mem hslash, List.getLast?_singleton, hcons]
    simp only
    rw [← hcons, unescape_spelled hspell]
    rfl

theorem add_written {option : String × String} (h : option.1 ∉ ["ssl", "tls", "sslmode"])
    (q : Query) : q.add (writeOption spell option) =
      .ok { q with options := Value.insertEntry option.1 option.2 q.options } := by
  have hcut : cut '=' (writeOption spell option) = some (spell option.1, spell option.2) :=
    Text.cut_eq_some_iff.mpr ⟨rfl, not_mem_spelled hspell (by decide) option.1⟩
  simp only [List.mem_cons, List.not_mem_nil, or_false, not_or, ← beq_eq_false_iff_ne] at h
  obtain ⟨hssl, htls, hmode⟩ := h
  rw [Query.add, hcut, Option.getD_some]
  simp only [unescape_spelled hspell]
  show (if _ then _ else if _ then _ else _ : Except Error Query) = _
  rw [hssl, htls, hmode]
  rfl

theorem foldlM_add_written {options : List (String × String)}
    (h : ∀ option ∈ options, option.1 ∉ ["ssl", "tls", "sslmode"]) (q : Query) :
    (options.map (writeOption spell)).foldlM Query.add q =
      .ok { q with options := options.foldl (fun sorted option =>
        Value.insertEntry option.1 option.2 sorted) q.options } := by
  induction options generalizing q with
  | nil => rfl
  | cons option options ih =>
    obtain ⟨hoption, hoptions⟩ := List.forall_mem_cons.mp h
    rw [List.map_cons, List.foldlM_cons, add_written hspell hoption]
    exact ih hoptions _

theorem isPart_writeOption (option : String × String) :
    '&' ∉ writeOption spell option ∧ writeOption spell option ≠ [] := by
  rw [writeOption, List.mem_append, List.mem_cons, not_or, not_or]
  exact ⟨⟨not_mem_spelled hspell (by decide) option.1, by decide,
    not_mem_spelled hspell (by decide) option.2⟩,
    fun h => List.cons_ne_nil _ _ (List.append_eq_nil_iff.mp h).2⟩

theorem readQuery_written {options : List (String × String)}
    (hascending : (options.map Prod.fst).Pairwise (· < ·))
    (hkeys : ∀ option ∈ options, option.1 ∉ ["ssl", "tls", "sslmode"]) (mode : SslMode) :
    readQuery (writeQuery spell mode options) = .ok { mode := some mode, options } := by
  have hparts : ∀ part ∈ writeMode mode :: options.map (writeOption spell), '&' ∉ part ∧ part ≠ [] :=
    List.forall_mem_cons.mpr ⟨isPart_writeMode mode,
      List.forall_mem_map.mpr fun option _ => isPart_writeOption hspell option⟩
  have hkept : (writeMode mode :: options.map (writeOption spell)).filter (fun part => !part.isEmpty) =
      writeMode mode :: options.map (writeOption spell) :=
    List.filter_eq_self.mpr fun part hpart => by
      rw [List.isEmpty_eq_false_iff.mpr (hparts part hpart).2, Bool.not_false]
  have hsorted : options.foldl (fun sorted option =>
      Value.insertEntry option.1 option.2 sorted) [] = options :=
    Value.sortEntries_of_ascending hascending
  rw [readQuery, writeQuery, Text.split_intercalate (fun part hpart => (hparts part hpart).1)
    (List.cons_ne_nil _ _), hkept, List.foldlM_cons, add_writeMode]
  show (options.map (writeOption spell)).foldlM Query.add { mode := some mode } = _
  rw [foldlM_add_written hspell hkeys, hsorted]

theorem clean_layout (u : Url) : (u.layout spell).Clean where
  credentials := isInner_writeCredentials hspell u.username u.password
  hosts := ⟨not_mem_writeHosts hspell (by decide) (by decide) (by decide) u.hosts,
    not_mem_writeHosts hspell (by decide) (by decide) (by decide) u.hosts⟩
  at_hosts := not_mem_writeHosts hspell (by decide) (by decide) (by decide) u.hosts
  path := by
    intro c hc
    rw [layout, writeDatabase] at hc
    cases hdatabase : u.database with
    | none => simp [hdatabase] at hc
    | some d => simpa [hdatabase, eq_comm] using hc
  query_path := by
    rw [layout, writeDatabase]
    cases u.database with
    | none => exact List.not_mem_nil
    | some d => exact List.not_mem_cons_of_ne_of_not_mem (by decide) (isInner_spelled hspell d).2

end Reading

/-- Whatever its parts hold, an address that is written with escapes is read as what it was. -/
theorem ofText_write {spell : String → List Char} (hspell : ∀ s, Spells (Bytes.ofText s) (spell s))
    {scheme : List Char} {u : Url} (hscheme : Backend.ofScheme? scheme = some u.backend)
    (h : u.Proper) : ofText (u.write spell scheme) = .ok u := by
  have hcolon : ':' ∉ scheme := fun hmem => by
    rw [Backend.ofScheme?_of_mem hmem] at hscheme
    cases hscheme
  have hcut : cutAt [':', '/', '/'] (u.write spell scheme).toList =
      some (scheme, (u.layout spell).text) := by
    rw [write, String.toList_ofList]
    exact Text.cutAt_append hcolon
  rw [ofText_eq_read hcut hscheme, Layout.ofText_text (clean_layout hspell u), Layout.read, layout]
  simp only [readCredentials_written hspell h.username, readHosts_written hspell h,
    readDatabase_written hspell h.database, readQuery_written hspell h.ascending h.keys]
  rfl

/-- Two hosts, an empty password without a user, and marks and other letters in every part. -/
def tangled : Url where
  backend := .mongoDb
  primary := ⟨"[a:b]", 1⟩
  others := [⟨"ü@c,d", 65535⟩]
  password := some ""
  database := some "x/y?z"
  sslMode := .verifyCa
  options := [("", "="), ("a&b", ""), ("é", "%2F#")]

theorem ofText_write_tangled :
    tangled.write (fun s => Text.Percent.encode (Bytes.ofText s)) "MongoDB".toList =
      "MongoDB://:@%5ba%3ab%5d:1,%c3%bc%40c%2cd:65535/x%2fy%3fz" ++
        "?sslmode=verify-ca&=%3d&a%26b=&%c3%a9=%252F%23" ∧
    ofText (tangled.write (fun s => Text.Percent.encode (Bytes.ofText s)) "MongoDB".toList) =
      .ok tangled :=
  ⟨by decide +kernel, ofText_write (fun s => Text.Percent.spells_encode (Bytes.ofText s)) rfl
    { hosts := by decide
      single := fun h => absurd rfl h
      username := by decide
      database := by decide
      ascending := by decide
      keys := by decide }⟩

end Url

end Polystore.Connection
