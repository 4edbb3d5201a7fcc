import Polystore.Predicate.Basic

/-!
Pattern tests of document stores: a regular expression, or a text to be found at the start, at the
end or anywhere, which is written with its special characters escaped.
-/

namespace Polystore.Document

inductive PatternKind where
  /-- A regular expression as it is. -/
  | matching
  | startsWith
  | endsWith
  | contains
deriving DecidableEq, Repr

structure PatternOptions where
  caseInsensitive : Bool := false
  multiline : Bool := false
  dotMatchesNewline : Bool := false
  unicode : Bool := false
  extended : Bool := false
deriving DecidableEq, Repr

namespace PatternOptions

/-- One letter for each option that is set, in alphabetical order. -/
def letters (o : PatternOptions) : List Char :=
  (if o.caseInsensitive then ['i'] else []) ++ (if o.multiline then ['m'] else []) ++
    (if o.dotMatchesNewline then ['s'] else []) ++ (if o.unicode then ['u'] else []) ++
    (if o.extended then ['x'] else [])

def set (o : PatternOptions) (letter : Char) : Except Error PatternOptions :=
  match letter with
  | 'i' => .ok { o with caseInsensitive := true }
  | 'm' => .ok { o with multiline := true }
  | 's' => .ok { o with dotMatchesNewline := true }
  | 'u' => .ok { o with unicode := true }
  | 'x' => .ok { o with extended := true }
  | letter => .error (.invalidExpression (.unknownRegexOption letter))

def read (letters : List Char) : Except Error PatternOptions :=
  letters.foldlM set {}

end PatternOptions

structure Pattern where
  kind : PatternKind
  text : String
  options : PatternOptions
deriving DecidableEq, Repr

/-- A condition on documents. -/
abbrev Condition := Predicate Pattern

/-- Characters that mean something else than themselves in a regular expression. -/
def isSpecial (c : Char) : Bool :=
  ['\\', '^', '$', '.', '|', '?', '*', '+', '(', ')', '[', ']', '\x7b', '\x7d'].contains c

def escape (text : List Char) : List Char :=
  text.flatMap fun c => if isSpecial c then ['\\', c] else [c]

def Pattern.source (p : Pattern) : String :=
  match p.kind with
  | .matching => p.text
  | .startsWith => String.ofList ('^' :: escape p.text.toList)
  | .endsWith => String.ofList (escape p.text.toList ++ ['$'])
  | .contains => String.ofList (escape p.text.toList)

/-- The options as a field of the given name, if any is set. -/
def Pattern.optionField (p : Pattern) (name : String) : List (String × String) :=
  if p.options.letters.isEmpty then [] else [(name, String.ofList p.options.letters)]

end Polystore.Document
