import Polystore.Document.Filter
import Polystore.Proofs.Document.Regex

/-!
Pattern tests for a text at the start, at the end or anywhere. Main statement: what is emitted for
them finds the text where it is asked for, but for what an extended expression passes over, and an
end may stand before a line feed.
-/

namespace Polystore.Document

open Regex (Alike isLayout kept commentAfter)

/-- The expression that two fields spell; the one with the options may be missing. -/
def Regex.ofFields? (source options : String) (fields : List (String × Bson)) : Option Regex :=
  match fields.lookup source, fields.lookup options with
  | some (.string s), none => read? s.toList []
  | some (.string s), some (.string o) => read? s.toList o.toList
  | _, _ => none

/-- Is a text where a test of some kind looks for it, but for case? -/
def Located (fold : Char → Char → Bool) (caseless : Bool) (kind : PatternKind)
    (text subject : List Char) : Prop :=
  match kind with
  | .startsWith => ∃ found after, subject = found ++ after ∧ Alike fold caseless text found
  | .endsWith => ∃ before found, subject = before ++ found ∧ Alike fold caseless text found
  | .contains | .matching =>
    ∃ before found after, subject = before ++ found ++ after ∧ Alike fold caseless text found

namespace Pattern

/-- Nothing in the text is passed over. -/
def Clear (p : Pattern) : Prop :=
  p.options.extended = true → ∀ c ∈ p.text.toList, isLayout c = false ∧ c ≠ '#'

/-- The characters of the text that are looked for. -/
def wording (p : Pattern) : List Char :=
  kept p.options.extended false p.text.toList

/-- The place where they are looked for. An open comment swallows the end mark. -/
def place (p : Pattern) : PatternKind :=
  if p.kind = .endsWith ∧ commentAfter p.options.extended false p.text.toList = true then .contains
  else p.kind

/-- What a pattern test for a text accepts. The end of a subject is before a last line feed too. -/
def Accepts (fold : Char → Char → Bool) (p : Pattern) (subject : List Char) : Prop :=
  Located fold p.options.caseInsensitive p.place p.wording subject ∨
    p.place = .endsWith ∧ ∃ line, subject = line ++ ['\n'] ∧
      Located fold p.options.caseInsensitive .endsWith p.wording line

theorem Clear.wording {p : Pattern} (h : p.Clear) : p.wording = p.text.toList ∧ p.place = p.kind := by
  have hkept : kept p.options.extended false p.text.toList = p.text.toList ∧
      commentAfter p.options.extended false p.text.toList = false := by
    cases hextended : p.options.extended with
    | false => exact ⟨Regex.kept_plain _, Regex.commentAfter_plain _⟩
    | true => exact Regex.kept_of_clear (h hextended)
  refine ⟨hkept.1, if_neg ?_⟩
  rw [hkept.2]
  exact fun hopen => nomatch hopen.2

end Pattern

theorem PatternOptions.contains_letters (o : PatternOptions) :
    o.letters.contains 'i' = o.caseInsensitive ∧ o.letters.contains 'm' = o.multiline ∧
      o.letters.contains 'x' = o.extended := by
  obtain ⟨i, m, s, u, x⟩ := o
  cases i <;> cases m <;> cases s <;> cases u <;> cases x <;> exact ⟨rfl, rfl, rfl⟩

namespace Pattern

/-- The expression that a test for a text is emitted as. -/
def regex (p : Pattern) : Regex :=
  let chars := p.wording.map Regex.Atom.char
  let atoms := match p.place with
    | .startsWith => .start :: chars
    | .endsWith => chars ++ [.stop]
    | .contains | .matching => chars
  ⟨atoms, p.options.caseInsensitive⟩

theorem scan_source {p : Pattern} (hkind : p.kind ≠ .matching) :
    Regex.scan p.options.extended false p.source.toList = some p.regex.atoms := by
  have hread (rest : List Char) : Regex.scan p.options.extended false (escape p.text.toList ++ rest) =
      (Regex.scan p.options.extended (commentAfter p.options.extended false p.text.toList) rest).map
        (p.wording.map .char ++ ·) := Regex.scan_escape _ _ _ _
  have hwhole : Regex.scan p.options.extended false (escape p.text.toList) =
      some (p.wording.map .char) := by
    have hnil := hread []
    rwa [List.append_nil, Regex.scan_nil, Option.map_some, List.append_nil] at hnil
  unfold source regex place
  cases hp : p.kind with
  | matching => exact absurd hp hkind
  | startsWith =>
    rw [String.toList_ofList, Regex.scan_start, hwhole]
    rfl
  | endsWith =>
    rw [String.toList_ofList, hread, Regex.scan_stop, Option.map_some]
    cases commentAfter p.options.extended false p.text.toList with
    | false => rfl
    | true => exact congrArg some (List.append_nil _)
  | contains =>
    rw [String.toList_ofList, hwhole]
    rfl

theorem read?_source {p : Pattern} (hkind : p.kind ≠ .matching)
    (hlines : p.options.multiline = false) :
    Regex.read? p.source.toList p.options.letters = some p.regex := by
  obtain ⟨hcase, hmultiline, hextended⟩ := p.options.contains_letters
  rw [Regex.read?, hmultiline, hlines, hextended, hcase, scan_source hkind]
  rfl

/-- The options that are emitted are none or those of the pattern. -/
theorem ofFields?_emitted {p : Pattern} (hkind : p.kind ≠ .matching)
    (hlines : p.options.multiline = false) {source options : String} (hnames : options ≠ source) :
    Regex.ofFields? source options ((source, .string p.source) ::
      (p.optionField options).map fun (name, text) => (name, .string text)) = some p.regex := by
  have hread := read?_source hkind hlines
  rw [Regex.ofFields?, List.lookup_cons_self, List.lookup_cons, beq_eq_false_iff_ne.mpr hnames]
  rw [optionField]
  by_cases hempty : p.options.letters.isEmpty = true
  · rw [List.isEmpty_iff.mp hempty] at hread
    rw [if_pos hempty]
    exact hread
  · rw [if_neg hempty, List.map_singleton, List.lookup_cons_self]
    simpa using hread

theorem finds_regex (p : Pattern) (fold : Char → Char → Bool) (subject : List Char) :
    p.regex.finds fold subject = true ↔ p.Accepts fold subject := by
  unfold regex Accepts
  cases p.place with
  | startsWith =>
    rw [Regex.finds_leading]
    simp [Located]
  | endsWith =>
    rw [Regex.finds_trailing]
    constructor
    · rintro ⟨before, found, rfl | rfl, halike⟩
      · exact .inl ⟨before, found, rfl, halike⟩
      · exact .inr ⟨rfl, before ++ found, rfl, before, found, rfl, halike⟩
    · rintro (⟨before, found, rfl, halike⟩ | ⟨-, _, rfl, before, found, rfl, halike⟩)
      · exact ⟨before, found, .inl rfl, halike⟩
      · exact ⟨before, found, .inr rfl, halike⟩
  | contains =>
    rw [Regex.finds_contained]
    simp [Located]
  | matching =>
    rw [Regex.finds_contained]
    simp [Located]

end Pattern

/-- A test for a text is emitted, in a filter and in an expression, as a pattern and options that
spell one regular expression. It is found exactly where the characters that are kept of the text are
at the place asked for; these are all of it unless the options are extended and the text has white
space or a number sign, and a test for the end takes the end of the last line for one. -/
theorem wording_found {p : Pattern} (hkind : p.kind ≠ .matching)
    (hlines : p.options.multiline = false) (k : Key) (negated : Bool) :
    ∃ r tests fields,
      filter (.pattern (.key k) p negated) =
        .ok [(fieldName k, if negated then single "$not" (.document tests) else .document tests)] ∧
      expression (.pattern (.key k) p negated) =
        .ok (negatedIf negated (single "$regexMatch" (.document (("input", path k) :: fields)))) ∧
      Regex.ofFields? "$regex" "$options" tests = some r ∧
      Regex.ofFields? "regex" "options" fields = some r ∧
      (∀ fold subject, r.finds fold subject = true ↔ p.Accepts fold subject) ∧
      (p.Clear → ∀ fold subject, p.Accepts fold subject ↔
        Located fold p.options.caseInsensitive p.kind p.text.toList subject ∨
          p.kind = .endsWith ∧ ∃ line, subject = line ++ ['\n'] ∧
            Located fold p.options.caseInsensitive .endsWith p.text.toList line) := by
  refine ⟨p.regex, _, _, rfl, rfl, ?_, ?_, p.finds_regex, ?_⟩
  · exact Pattern.ofFields?_emitted hkind hlines (by decide)
  · exact Pattern.ofFields?_emitted hkind hlines (by decide)
  · intro hclear fold subject
    obtain ⟨hwording, hplace⟩ := hclear.wording
    rw [Pattern.Accepts, hwording, hplace]

/-- The case of the letters from a to z. -/
def letterCase (c d : Char) : Bool :=
  c.toLower == d.toLower

def netPrice : Pattern :=
  ⟨.endsWith, "$5 (net)", { caseInsensitive := true }⟩

/-- Signs that are escaped, other letters and a line feed at the end. -/
theorem wording_found_price : ∃ r tests,
    filter (.pattern (.key (.named "price")) netPrice false) = .ok [("price", .document tests)] ∧
      Regex.ofFields? "$regex" "$options" tests = some r ∧
      r.finds letterCase "only $5 (NET)\n".toList = true := by
  obtain ⟨r, tests, -, hfilter, -, hread, -, hfound, hclear⟩ :=
    wording_found (p := netPrice) (by decide) rfl (.named "price") false
  refine ⟨r, tests, hfilter, hread, (hfound _ _).mpr ((hclear (fun h => nomatch h) _ _).mpr ?_)⟩
  refine .inr ⟨rfl, "only $5 (NET)".toList, rfl, "only ".toList, "$5 (NET)".toList, rfl, ?_⟩
  repeat constructor

/-- An extended expression passes over the space of a text, and so does not find it; and the end of a
subject is found before its last line feed. -/
theorem texts_found_otherwise :
    (∃ r, filter (.pattern (.key (.named "a")) ⟨.contains, "a b", { extended := true }⟩ false) =
        .ok [("a", .document [("$regex", .string "a b"), ("$options", .string "x")])] ∧
      Regex.read? ['a', ' ', 'b'] ['x'] = some r ∧
      r.finds letterCase "a b".toList = false ∧
      Located letterCase false .contains "a b".toList "a b".toList) ∧
    (∃ r, filter (.pattern (.key (.named "a")) ⟨.endsWith, "a", {}⟩ false) =
        .ok [("a", .document [("$regex", .string "a$")])] ∧
      Regex.read? ['a', '$'] [] = some r ∧
      r.finds letterCase "a\n".toList = true ∧
      ¬ Located letterCase false .endsWith "a".toList "a\n".toList) := by
  refine ⟨⟨_, rfl, rfl, rfl, [], "a b".toList, [], rfl, ?_⟩, _, rfl, rfl, rfl, ?_⟩
  · repeat constructor
  · rintro ⟨before, found, hsubject, halike⟩
    obtain ⟨d, rfl⟩ : ∃ d, found = [d] := List.length_eq_one_iff.mp halike.length_eq.symm
    have hlast : d = '\n' := by
      have hlasts := congrArg List.getLast? hsubject
      rw [List.getLast?_concat] at hlasts
      exact (Option.some.inj hlasts).symm
    subst hlast
    cases halike with
    | cons hchar _ => cases hchar

end Polystore.Document
