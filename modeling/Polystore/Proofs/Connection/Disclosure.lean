import Polystore.Proofs.Connection.Layout
import Polystore.Proofs.Except

/-!
What a failure to read an address tells of the password in it. Main statement: passwords that can be
read and end no part of an address fail alike; of every other one it is told what becomes of it.
-/

namespace Polystore.Connection.Url

open Polystore.Text (cut cutAt)
open Layout (IsInner spill pathOf queryOf)

/-- An address with a password, which an at sign ends. -/
def withPassword (opening password rest : List Char) : String :=
  String.ofList (opening ++ password ++ '@' :: rest)

/-- Passwords that no failure tells apart. -/
inductive Hidden (opening rest password : List Char) : Prop where
  /-- The scheme is refused, and nothing after it is looked at. -/
  | unknown {name front : List Char} :
    cutAt [':', '/', '/'] opening = some (name, front) → Backend.ofScheme? name = none →
    Hidden opening rest password
  /-- The password stays within the credentials, and can be read if the user name can. -/
  | inner {name front user start : List Char} :
    cutAt [':', '/', '/'] opening = some (name, front) → cut ':' front = some (user, start) →
    IsInner (front ++ password) →
    (∀ u, unescape user = .ok u → ∃ s, unescape (start ++ password ++ spill rest) = .ok s) →
    Hidden opening rest password

/-- Passwords that are shown, and the outcomes that show them. -/
inductive Exposed (opening rest password : List Char) : Except Error Url → Prop where
  /-- No scheme is found, and the whole address is shown. -/
  | whole : cutAt [':', '/', '/'] opening = none →
    cutAt [':', '/', '/'] (':' :: (password ++ '@' :: rest)) = none →
    Exposed opening rest password (invalid (.missingScheme (withPassword opening password rest)))
  /-- A later mark is taken for that of the scheme, and everything before it is shown. -/
  | before {first after : List Char} : cutAt [':', '/', '/'] opening = none →
    cutAt [':', '/', '/'] (':' :: (password ++ '@' :: rest)) = some (first, after) →
    Exposed opening rest password
      (invalid (.unknownScheme (String.ofList (opening.dropLast ++ first))))
  /-- An escape is bad, and what is read as the password is shown. -/
  | badEscape {name front user start : List Char} :
    cutAt [':', '/', '/'] opening = some (name, front) → cut ':' front = some (user, start) →
    IsInner (front ++ password) →
    Exposed opening rest password
      (invalid (.badEscape (String.ofList (start ++ password ++ spill rest))))
  /-- The escapes spell no text, and what is read as the password is shown. -/
  | notText {name front user start : List Char} :
    cutAt [':', '/', '/'] opening = some (name, front) → cut ':' front = some (user, start) →
    IsInner (front ++ password) →
    Exposed opening rest password
      (invalid (.escapesNotText (String.ofList (start ++ password ++ spill rest))))
  /-- What comes before a slash or a question mark is read as the hosts, and the rest as path and
  query. -/
  | torn {name front before after : List Char} {backend : Backend} {mark : Char} :
    cutAt [':', '/', '/'] opening = some (name, front) → Backend.ofScheme? name = some backend →
    front ++ password = before ++ mark :: after → IsInner before → mark = '/' ∨ mark = '?' →
    Exposed opening rest password (do
      let u ← (Layout.ofText before).read backend
      let database ← readDatabase (pathOf (mark :: (after ++ '@' :: rest)))
      let query ← readQuery (queryOf (mark :: (after ++ '@' :: rest)))
      pure { u with database, sslMode := query.sslMode, options := query.options })

variable {opening name front user start password rest : List Char} {backend : Backend}

theorem cutAt_withPassword (h : cutAt [':', '/', '/'] opening = some (name, front)) :
    cutAt [':', '/', '/'] (withPassword opening password rest).toList =
      some (name, front ++ password ++ '@' :: rest) := by
  rw [withPassword, String.toList_ofList, List.append_assoc,
    Text.cutAt_append_right (List.cons_ne_nil _ _) h, List.append_assoc]

theorem ofText_withPassword (hcut : cutAt [':', '/', '/'] opening = some (name, front))
    (hbackend : Backend.ofScheme? name = some backend) (hcolon : cut ':' front = some (user, start))
    (hinner : IsInner (front ++ password)) : ofText (withPassword opening password rest) = (do
      let username ← unescape user
      let s ← unescape (start ++ password ++ spill rest)
      let u ← ({ Layout.ofText rest with credentials := none } : Layout).read backend
      pure { u with username := nonEmpty username, password := some s }) := by
  obtain ⟨rfl, huser⟩ := Text.cut_eq_some_iff.mp hcolon
  have hcredentials : cut ':' (user ++ ':' :: start ++ password ++ spill rest) =
      some (user, start ++ password ++ spill rest) :=
    Text.cut_eq_some_iff.mpr ⟨by simp only [List.append_assoc, List.cons_append], huser⟩
  rw [ofText_eq_read (cutAt_withPassword hcut) hbackend, Layout.ofText_at hinner, Layout.read_login,
    readCredentials, hcredentials]
  simp only
  cases unescape user with
  | error e => rfl
  | ok username =>
    cases unescape (start ++ password ++ spill rest) with
    | error e => rfl
    | ok s => rfl

theorem unescape_cases (text : List Char) : (∃ s, unescape text = .ok s) ∨
    unescape text = invalid (.badEscape (String.ofList text)) ∨
    unescape text = invalid (.escapesNotText (String.ofList text)) := by
  unfold unescape
  split
  · exact .inr (.inl rfl)
  · split
    · exact .inr (.inr rfl)
    · next s _ => exact .inl ⟨s, rfl⟩

/-! ### Passwords that no failure shows -/

def withoutPassword (u : Url) : Url :=
  { u with password := none }

theorem ofText_unknown_password (hcut : cutAt [':', '/', '/'] opening = some (name, front))
    (hunknown : Backend.ofScheme? name = none) (p q : List Char) :
    ofText (withPassword opening p rest) = ofText (withPassword opening q rest) := by
  rw [ofText_unknown (cutAt_withPassword hcut) hunknown,
    ofText_unknown (cutAt_withPassword hcut) hunknown]

/-- The user name and the rest decide what is read, but for the password. -/
theorem Hidden.alike {p q : List Char} (hp : Hidden opening rest p) (hq : Hidden opening rest q) :
    (ofText (withPassword opening p rest)).map withoutPassword =
      (ofText (withPassword opening q rest)).map withoutPassword := by
  cases hp with
  | unknown hcut hunknown => rw [ofText_unknown_password hcut hunknown p q]
  | inner hcut hcolon hp hreadp =>
    cases hq with
    | unknown hcut hunknown => rw [ofText_unknown_password hcut hunknown p q]
    | inner hcut' hcolon' hq hreadq =>
      cases hcut.symm.trans hcut'
      cases hcolon.symm.trans hcolon'
      cases hbackend : Backend.ofScheme? _ with
      | none => rw [ofText_unknown_password hcut hbackend p q]
      | some backend =>
        rw [ofText_withPassword hcut hbackend hcolon hp, ofText_withPassword hcut hbackend hcolon hq]
        cases huser : unescape _ with
        | error e => rfl
        | ok username =>
          obtain ⟨s, hs⟩ := hreadp username huser
          obtain ⟨t, ht⟩ := hreadq username huser
          rw [hs, ht]
          cases ({ Layout.ofText rest with credentials := none } : Layout).read backend with
          | error e => rfl
          | ok u => rfl

/-! ### Passwords that are shown -/

theorem exists_cut_front {body : List Char}
    (h : cutAt [':', '/', '/'] (body ++ [':']) = some (name, front)) :
    ∃ parts, cut ':' front = some parts := by
  have hlast := congrArg List.getLast? (Text.cutAt_eq_append h)
  rw [List.getLast?_concat, List.getLast?_append, List.getLast?_append] at hlast
  cases hcut : cut ':' front with
  | some parts => exact ⟨parts, rfl⟩
  | none =>
    have hnot := Text.cut_eq_none_iff.mp hcut
    cases hfront : front.getLast? with
    | none =>
      rw [hfront] at hlast
      cases hlast
    | some c =>
      rw [hfront] at hlast
      cases hlast
      exact absurd (List.mem_of_getLast? hfront) hnot

theorem exposed_of_not_inner (hcut : cutAt [':', '/', '/'] opening = some (name, front))
    (hbackend : Backend.ofScheme? name = some backend) (h : ¬IsInner (front ++ password)) :
    Exposed opening rest password (ofText (withPassword opening password rest)) := by
  obtain ⟨before, mark, after, hparts, hbefore, hmark⟩ := Layout.exists_mark h
  have hwhole : cutAt [':', '/', '/'] (withPassword opening password rest).toList =
      some (name, before ++ mark :: (after ++ '@' :: rest)) := by
    rw [cutAt_withPassword hcut, hparts, List.append_assoc, List.cons_append]
  rw [ofText_eq_read hwhole hbackend, Layout.read_mark backend hbefore hmark]
  exact .torn hcut hbackend hparts hbefore hmark

theorem exposed_without_scheme {body : List Char} (hcolon : ':' ∈ body)
    (h : cutAt [':', '/', '/'] (body ++ [':']) = none) :
    Exposed (body ++ [':']) rest password (ofText (withPassword (body ++ [':']) password rest)) := by
  have hpast : cutAt [':', '/', '/'] (withPassword (body ++ [':']) password rest).toList =
      (cutAt [':', '/', '/'] (':' :: (password ++ '@' :: rest))).map (Prod.map (body ++ ·) id) := by
    rw [withPassword, String.toList_ofList, List.append_assoc, List.append_assoc]
    exact Text.cutAt_past (by decide) h
  cases hcut : cutAt [':', '/', '/'] (':' :: (password ++ '@' :: rest)) with
  | none =>
    rw [hcut] at hpast
    rw [ofText_without_scheme hpast]
    exact .whole h hcut
  | some pair =>
    obtain ⟨first, after⟩ := pair
    rw [hcut] at hpast
    rw [ofText_unknown hpast (Backend.ofScheme?_of_mem (List.mem_append_left first hcolon))]
    have hshown : Exposed (body ++ [':']) rest password
      (invalid (.unknownScheme (String.ofList ((body ++ [':']).dropLast ++ first)))) := .before h hcut
    rwa [List.dropLast_concat] at hshown

theorem exposed_of_unreadable (hcut : cutAt [':', '/', '/'] opening = some (name, front))
    (hbackend : Backend.ofScheme? name = some backend) (hcolon : cut ':' front = some (user, start))
    (hinner : IsInner (front ++ password)) {username : String} (huser : unescape user = .ok username)
    (h : ∀ s, unescape (start ++ password ++ spill rest) ≠ .ok s) :
    Exposed opening rest password (ofText (withPassword opening password rest)) := by
  rw [ofText_withPassword hcut hbackend hcolon hinner, huser]
  obtain ⟨s, hs⟩ | hbad | hbad := unescape_cases (start ++ password ++ spill rest)
  · exact absurd hs (h s)
  · rw [hbad]
    exact .badEscape hcut hcolon hinner
  · rw [hbad]
    exact .notText hcut hcolon hinner

theorem hidden_or_exposed {body : List Char}
    (hbody : cutAt [':', '/', '/'] (body ++ [':']) = none → ':' ∈ body) (rest password : List Char) :
    Hidden (body ++ [':']) rest password ∨
      Exposed (body ++ [':']) rest password (ofText (withPassword (body ++ [':']) password rest)) := by
  cases hcut : cutAt [':', '/', '/'] (body ++ [':']) with
  | none => exact .inr (exposed_without_scheme (hbody hcut) hcut)
  | some pair =>
    obtain ⟨name, front⟩ := pair
    cases hbackend : Backend.ofScheme? name with
    | none => exact .inl (.unknown hcut hbackend)
    | some backend =>
      by_cases hinner : IsInner (front ++ password)
      · obtain ⟨⟨user, start⟩, hcolon⟩ := exists_cut_front hcut
        by_cases hreadable : ∀ u, unescape user = .ok u →
            ∃ s, unescape (start ++ password ++ spill rest) = .ok s
        · exact .inl (.inner hcut hcolon hinner hreadable)
        · simp only [not_forall, not_exists] at hreadable
          obtain ⟨username, huser, hs⟩ := hreadable
          exact .inr (exposed_of_unreadable hcut hbackend hcolon hinner huser hs)
      · exact .inr (exposed_of_not_inner hcut hbackend hinner)

/-- Where a password is hidden, the failures of two addresses that differ in it are one; where it is
not, the outcome is told. -/
theorem failures_and_passwords (scheme user : List Char) {mark : List Char}
    (hmark : mark = [':'] ∨ mark = [':', '/', '/'])
    (hopening : opening = scheme ++ mark ++ user ++ [':']) (rest : List Char) :
    (∀ p q, Hidden opening rest p → Hidden opening rest q → ∀ e f,
      ofText (withPassword opening p rest) = .error e →
      ofText (withPassword opening q rest) = .error f → e = f) ∧
    ∀ p, Hidden opening rest p ∨ Exposed opening rest p (ofText (withPassword opening p rest)) := by
  constructor
  · intro p q hp hq e f he hf
    have halike := hp.alike hq
    rw [he, hf] at halike
    exact Except.error.inj halike
  · subst hopening
    refine hidden_or_exposed (fun hnone => ?_) rest
    rcases hmark with rfl | rfl
    · exact List.mem_append_left _ (List.mem_append_right _ List.mem_cons_self)
    · rw [List.append_assoc, List.append_assoc] at hnone
      exact absurd hnone (Text.cutAt_ne_none (List.cons_ne_nil _ _))

theorem failures_and_passwords_port :
    Hidden "postgres://u:".toList "h:port".toList "x".toList ∧
    Hidden "postgres://u:".toList "h:port".toList "y%40".toList ∧
    ∀ e f, ofText "postgres://u:x@h:port" = .error e → ofText "postgres://u:y%40@h:port" = .error f →
      e = f :=
  have hx : Hidden "postgres://u:".toList "h:port".toList "x".toList :=
    .inner rfl rfl ⟨by decide, by decide⟩ fun _ _ => ⟨"x", rfl⟩
  have hy : Hidden "postgres://u:".toList "h:port".toList "y%40".toList :=
    .inner rfl rfl ⟨by decide, by decide⟩ fun _ _ => ⟨"y@", rfl⟩
  ⟨hx, hy, (failures_and_passwords "postgres".toList ['u'] (.inr rfl) rfl _).1 _ _ hx hy⟩

/-- A bad escape, an address without the slashes after its scheme, and a slash that ends the hosts: in
each case two passwords that two messages tell apart. -/
theorem password_shown :
    (∃ e f, ofText "postgres://u:%zz@h:port" = .error e ∧ ofText "postgres://u:x@h:port" = .error f ∧
      e.message? ≠ f.message?) ∧
    (∃ e f, ofText "postgres:u:x@h" = .error e ∧ ofText "postgres:u:y@h" = .error f ∧
      e.message? ≠ f.message?) ∧
    ∃ e f, ofText "postgres://u:x/z@h" = .error e ∧ ofText "postgres://u:y/z@h" = .error f ∧
      e.message? ≠ f.message? :=
  ⟨⟨_, _, rfl, rfl, by decide⟩, ⟨_, _, rfl, rfl, by decide⟩, _, _, rfl, rfl, by decide⟩

end Polystore.Connection.Url
