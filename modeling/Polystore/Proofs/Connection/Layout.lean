import Mathlib.Data.List.TakeDrop
import Polystore.Connection.Url
import Polystore.Proofs.Text.Split

/-!
Addresses by their parts. Main statements: an address is read by cutting it into parts, each of which
is read by itself, and the parts of a text that is put together are those it was put together from.
-/

namespace Polystore.Connection

open Polystore.Text (cut cutAt cutLast split)

theorem Backend.ofScheme?_of_mem {scheme : List Char} (h : ':' ∈ scheme) : ofScheme? scheme = none := by
  have hlower : ':' ∈ (String.ofList (scheme.map Char.toLower)).toList := by
    rw [String.toList_ofList]
    exact List.mem_map.mpr ⟨':', h, by decide⟩
  rw [ofScheme?]
  generalize String.ofList (scheme.map Char.toLower) = name at hlower
  split <;> first | rfl | exact absurd hlower (by decide)

/-- What follows the scheme of an address, in parts that are not read yet. -/
structure Layout where
  credentials : Option (List Char)
  hosts : List Char
  path : List Char
  query : List Char
deriving DecidableEq

namespace Layout

open Url (cutBefore readCredentials readHost readDatabase readQuery invalid)

/-- The query follows the first question mark. -/
def queryOf (rest : List Char) : List Char :=
  ((cut '?' rest).getD (rest, [])).2

/-- The path begins at the first slash before the query. -/
def pathOf (rest : List Char) : List Char :=
  (cutBefore '/' ((cut '?' rest).getD (rest, [])).1).2

def authorityOf (rest : List Char) : List Char :=
  (cutBefore '/' ((cut '?' rest).getD (rest, [])).1).1

/-- The credentials end at the last at sign. -/
def ofAuthority (authority path query : List Char) : Layout :=
  match cutLast '@' authority with
  | some (credentials, hosts) => ⟨some credentials, hosts, path, query⟩
  | none => ⟨none, authority, path, query⟩

def ofText (rest : List Char) : Layout :=
  ofAuthority (authorityOf rest) (pathOf rest) (queryOf rest)

def readHosts (backend : Backend) (hosts : List Char) : Except Error (Host × List Host) := do
  match ← (split ',' hosts).mapM (readHost backend.defaultPort) with
  | [] => invalid .missingHost
  | primary :: others =>
    if !others.isEmpty && backend != .mongoDb then invalid (.singleHostOnly backend.name)
    else pure (primary, others)

def read (backend : Backend) (l : Layout) : Except Error Url := do
  let (username, password) ← readCredentials l.credentials
  let (primary, others) ← readHosts backend l.hosts
  let database ← readDatabase l.path
  let query ← readQuery l.query
  pure { backend, primary, others, username, password, database,
         sslMode := query.sslMode, options := query.options }

/-- The hosts are read one by one and then counted. -/
theorem read_eq (backend : Backend) (l : Layout) : l.read backend = (do
    let login ← readCredentials l.credentials
    match ← (split ',' l.hosts).mapM (readHost backend.defaultPort) with
    | [] => invalid .missingHost
    | primary :: others =>
      if !others.isEmpty && backend != .mongoDb then invalid (.singleHostOnly backend.name)
      else
        let database ← readDatabase l.path
        let query ← readQuery l.query
        pure { backend, primary, others, username := login.1, password := login.2, database,
               sslMode := query.sslMode, options := query.options }) := by
  rw [read, readHosts]
  cases readCredentials l.credentials with
  | error e => rfl
  | ok login =>
    cases (split ',' l.hosts).mapM (readHost backend.defaultPort) with
    | error e => rfl
    | ok hosts =>
      cases hosts with
      | nil => rfl
      | cons primary others =>
        show (if _ then _ else _ : Except Error (Host × List Host)) >>= _ = ite _ _ _
        cases !others.isEmpty && backend != .mongoDb <;> rfl

end Layout

theorem Url.ofText_eq_read {s : String} {scheme rest : List Char} {backend : Backend}
    (hscheme : cutAt [':', '/', '/'] s.toList = some (scheme, rest))
    (hbackend : Backend.ofScheme? scheme = some backend) :
    ofText s = (Layout.ofText rest).read backend := by
  simp only [ofText, hscheme, hbackend, Layout.ofText, Layout.ofAuthority, Layout.authorityOf]
  cases cutLast '@' (cutBefore '/' ((cut '?' rest).getD (rest, [])).1).1 with
  | none =>
    rw [Layout.read_eq]
    rfl
  | some pair =>
    rw [Layout.read_eq]
    rfl

theorem Url.ofText_unknown {s : String} {scheme rest : List Char}
    (hscheme : cutAt [':', '/', '/'] s.toList = some (scheme, rest))
    (hbackend : Backend.ofScheme? scheme = none) :
    ofText s = invalid (.unknownScheme (String.ofList scheme)) := by
  simp only [ofText, hscheme, hbackend]

/-- Nothing is struck out of a text that is shown because it has no scheme. -/
theorem Url.ofText_without_scheme {s : String} (hscheme : cutAt [':', '/', '/'] s.toList = none) :
    ofText s = invalid (.missingScheme s) := by
  simp only [ofText, hscheme, redact, String.ofList_toList]

namespace Layout

open Url (cutBefore readCredentials readDatabase readQuery)

/-! ### Texts that are put together -/

theorem cutBefore_append {mark : Char} {front : List Char} (h : mark ∉ front) (text : List Char) :
    cutBefore mark (front ++ text) = (front ++ (cutBefore mark text).1, (cutBefore mark text).2) := by
  have hfront : ∀ c ∈ front, (c != mark) = true := fun c hc =>
    bne_iff_ne.mpr fun hmark => h (hmark ▸ hc)
  rw [cutBefore, cutBefore, List.span_eq_takeWhile_dropWhile, List.span_eq_takeWhile_dropWhile,
    List.takeWhile_append_of_pos hfront, List.dropWhile_append_of_pos hfront]

theorem head_append {front : List Char} (h : '?' ∉ front) (rest : List Char) :
    (cut '?' (front ++ rest)).getD (front ++ rest, []) =
      (front ++ ((cut '?' rest).getD (rest, [])).1, ((cut '?' rest).getD (rest, [])).2) := by
  cases hcut : cut '?' rest with
  | none =>
    have hnot : '?' ∉ front ++ rest := by
      rw [List.mem_append, not_or]
      exact ⟨h, Text.cut_eq_none_iff.mp hcut⟩
    rw [Text.cut_eq_none_iff.mpr hnot]
    rfl
  | some pair =>
    obtain ⟨before, after⟩ := pair
    obtain ⟨rfl, hnot⟩ := Text.cut_eq_some_iff.mp hcut
    have hbefore : '?' ∉ front ++ before := by
      rw [List.mem_append, not_or]
      exact ⟨h, hnot⟩
    have hwhole : cut '?' (front ++ (before ++ '?' :: after)) = some (front ++ before, after) :=
      Text.cut_eq_some_iff.mpr ⟨(List.append_assoc _ _ _).symm, hbefore⟩
    rw [hwhole]
    rfl

/-- A text in which no path and no query begins. -/
def IsInner (text : List Char) : Prop :=
  '/' ∉ text ∧ '?' ∉ text

theorem IsInner.append {a b : List Char} (ha : IsInner a) (hb : IsInner b) : IsInner (a ++ b) := by
  simp only [IsInner, List.mem_append, not_or]
  exact ⟨⟨ha.1, hb.1⟩, ha.2, hb.2⟩

theorem parts_append {front : List Char} (h : IsInner front) (rest : List Char) :
    authorityOf (front ++ rest) = front ++ authorityOf rest ∧ pathOf (front ++ rest) = pathOf rest ∧
      queryOf (front ++ rest) = queryOf rest := by
  simp only [authorityOf, pathOf, queryOf, head_append h.2, cutBefore_append h.1, and_self]

theorem ofText_inner {text : List Char} (h : IsInner text) : ofText text = ofAuthority text [] [] := by
  obtain ⟨hauthority, hpath, hquery⟩ := parts_append h []
  rw [List.append_nil] at hauthority hpath hquery
  rw [ofText, hauthority, hpath, hquery]
  exact congrArg (ofAuthority · [] []) (List.append_nil text)

theorem exists_mark {text : List Char} (h : ¬IsInner text) : ∃ before mark after,
    text = before ++ mark :: after ∧ IsInner before ∧ (mark = '/' ∨ mark = '?') := by
  induction text with
  | nil => exact absurd ⟨List.not_mem_nil, List.not_mem_nil⟩ h
  | cons c text ih =>
    by_cases hc : c = '/' ∨ c = '?'
    · exact ⟨[], c, text, rfl, ⟨List.not_mem_nil, List.not_mem_nil⟩, hc⟩
    · rw [not_or] at hc
      have hone : IsInner [c] := by
        rw [IsInner, List.mem_singleton, List.mem_singleton]
        exact ⟨Ne.symm hc.1, Ne.symm hc.2⟩
      obtain ⟨before, mark, after, rfl, hbefore, hmark⟩ := ih fun htext => h (hone.append htext)
      exact ⟨c :: before, mark, after, rfl, hone.append hbefore, hmark⟩

/-- The parts as one text. -/
def text (l : Layout) : List Char :=
  l.credentials.elim [] (· ++ ['@']) ++ l.hosts ++ (l.path ++ '?' :: l.query)

/-- Parts with no mark in them but at their start. -/
structure Clean (l : Layout) : Prop where
  credentials : ∀ credentials ∈ l.credentials, IsInner credentials
  hosts : IsInner l.hosts
  at_hosts : '@' ∉ l.hosts
  path : ∀ c ∈ l.path.head?, c = '/'
  query_path : '?' ∉ l.path

theorem Clean.authority {l : Layout} (h : l.Clean) :
    IsInner (l.credentials.elim [] (· ++ ['@']) ++ l.hosts) := by
  refine IsInner.append ?_ h.hosts
  cases hcredentials : l.credentials with
  | none => exact ⟨List.not_mem_nil, List.not_mem_nil⟩
  | some credentials => exact (h.credentials credentials hcredentials).append ⟨by decide, by decide⟩

theorem ofText_text {l : Layout} (h : l.Clean) : ofText l.text = l := by
  obtain ⟨hauthority, hpath, hquery⟩ := parts_append h.authority (l.path ++ '?' :: l.query)
  have hcut : cut '?' (l.path ++ '?' :: l.query) = some (l.path, l.query) :=
    Text.cut_eq_some_iff.mpr ⟨rfl, h.query_path⟩
  have hbefore : cutBefore '/' l.path = ([], l.path) := by
    cases hrest : l.path with
    | nil => rfl
    | cons c rest =>
      obtain rfl : c = '/' := h.path c (by rw [hrest]; rfl)
      rfl
  rw [ofText, text, hauthority, hpath, hquery, authorityOf, pathOf, queryOf, hcut, Option.getD_some,
    hbefore, List.append_nil, ofAuthority]
  have hhosts := h.at_hosts
  obtain ⟨credentials, hosts, path, query⟩ := l
  cases credentials with
  | none => rw [Option.elim_none, List.nil_append, Text.cutLast_eq_none_iff.mpr hhosts]
  | some credentials =>
    have hlast : cutLast '@' (credentials ++ ['@'] ++ hosts) = some (credentials, hosts) :=
      Text.cutLast_eq_some_iff.mpr ⟨List.append_assoc _ _ _, hhosts⟩
    rw [Option.elim_some, hlast]

/-- A slash or a question mark ends the authority. -/
theorem authorityOf_mark {mark : Char} (h : mark = '/' ∨ mark = '?') (rest : List Char) :
    authorityOf (mark :: rest) = [] := by
  rcases h with rfl | rfl
  · have hhead : ((cut '?' ('/' :: rest)).getD ('/' :: rest, [])).1 =
        '/' :: ((cut '?' rest).getD (rest, [])).1 :=
      congrArg Prod.fst (head_append (by decide : '?' ∉ ['/']) rest)
    rw [authorityOf, hhead]
    rfl
  · rfl

theorem ofText_mark {front : List Char} (h : IsInner front) {mark : Char}
    (hmark : mark = '/' ∨ mark = '?') (rest : List Char) :
    ofText (front ++ mark :: rest) =
      { ofText front with path := pathOf (mark :: rest), query := queryOf (mark :: rest) } := by
  obtain ⟨hauthority, hpath, hquery⟩ := parts_append h (mark :: rest)
  rw [ofText, hauthority, hpath, hquery, authorityOf_mark hmark, List.append_nil, ofText_inner h,
    ofAuthority, ofAuthority]
  cases cutLast '@' front with
  | none => rfl
  | some pair => rfl

/-- What belongs to the credentials in front of a text: everything up to its last at sign. -/
def spill (rest : List Char) : List Char :=
  match (ofText rest).credentials with
  | some credentials => '@' :: credentials
  | none => []

theorem ofText_at {front : List Char} (h : IsInner front) (rest : List Char) :
    ofText (front ++ '@' :: rest) = { ofText rest with credentials := some (front ++ spill rest) } := by
  have hat : IsInner (front ++ ['@']) := h.append ⟨by decide, by decide⟩
  obtain ⟨hauthority, hpath, hquery⟩ := parts_append hat rest
  rw [List.append_assoc, List.singleton_append] at hauthority hpath hquery
  rw [ofText, hauthority, hpath, hquery, spill, ofText, ofAuthority, ofAuthority, List.append_assoc,
    List.singleton_append]
  cases hcut : cutLast '@' (authorityOf rest) with
  | none =>
    have hwhole : cutLast '@' (front ++ '@' :: authorityOf rest) = some (front, authorityOf rest) :=
      Text.cutLast_eq_some_iff.mpr ⟨rfl, Text.cutLast_eq_none_iff.mp hcut⟩
    simp only [hwhole, List.append_nil]
  | some pair =>
    obtain ⟨credentials, hosts⟩ := pair
    obtain ⟨hparts, hnot⟩ := Text.cutLast_eq_some_iff.mp hcut
    have hwhole : cutLast '@' (front ++ '@' :: authorityOf rest) =
        some (front ++ '@' :: credentials, hosts) := by
      refine Text.cutLast_eq_some_iff.mpr ⟨?_, hnot⟩
      rw [hparts, List.append_assoc, List.cons_append]
    simp only [hwhole]

/-! ### Parts that are read -/

/-- The credentials are read first, and nothing else depends on them. -/
theorem read_login (backend : Backend) (l : Layout) : l.read backend = (do
    let login ← readCredentials l.credentials
    let u ← ({ l with credentials := none } : Layout).read backend
    pure { u with username := login.1, password := login.2 }) := by
  rw [read, read]
  cases readCredentials l.credentials with
  | error e => rfl
  | ok login =>
    cases readHosts backend l.hosts with
    | error e => rfl
    | ok hosts =>
      cases readDatabase l.path with
      | error e => rfl
      | ok database =>
        cases readQuery l.query with
        | error e => rfl
        | ok query => rfl

/-- The path and the query are read last. -/
theorem read_tail (backend : Backend) (l : Layout) : l.read backend = (do
    let u ← ({ l with path := [], query := [] } : Layout).read backend
    let database ← readDatabase l.path
    let query ← readQuery l.query
    pure { u with database, sslMode := query.sslMode, options := query.options }) := by
  rw [read, read]
  cases readCredentials l.credentials with
  | error e => rfl
  | ok login =>
    cases readHosts backend l.hosts with
    | error e => rfl
    | ok hosts => rfl

/-- What comes before a slash or a question mark is read by itself. -/
theorem read_mark (backend : Backend) {front : List Char} (h : IsInner front) {mark : Char}
    (hmark : mark = '/' ∨ mark = '?') (rest : List Char) :
    (ofText (front ++ mark :: rest)).read backend = (do
      let u ← (ofText front).read backend
      let database ← readDatabase (pathOf (mark :: rest))
      let query ← readQuery (queryOf (mark :: rest))
      pure { u with database, sslMode := query.sslMode, options := query.options }) := by
  have hfront : ({ ofText front with path := [], query := [] } : Layout) = ofText front := by
    rw [ofText_inner h, ofAuthority]
    cases cutLast '@' front with
    | none => rfl
    | some pair => rfl
  rw [ofText_mark h hmark, read_tail, hfront]

end Layout

end Polystore.Connection
