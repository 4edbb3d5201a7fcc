import Polystore.Predicate.Basic

/-!
Conditions that differ in what is in their literals only: a null is no other literal, and lists of
values are equally long. Merging nested joins keeps them so.
-/

namespace Polystore

inductive Operand.Alike : Operand → Operand → Prop
  | key (k : Key) : Alike (.key k) (.key k)
  | literal {v w : Value} (hnull : v.isNull = w.isNull) : Alike (.literal v) (.literal w)

/-- What memberships are tested in. -/
inductive Operand.AlikeListed : Operand → Operand → Prop
  | key (k : Key) : AlikeListed (.key k) (.key k)
  | list {values others : List Value} (hlength : values.length = others.length) :
    AlikeListed (.literal (.array values)) (.literal (.array others))
  | other {v w : Value} (hv : v.asArray? = none) (hw : w.asArray? = none)
    (hnull : v.isNull = w.isNull) : AlikeListed (.literal v) (.literal w)

namespace Predicate

variable {Test : Type}

mutual

inductive Alike : Predicate Test → Predicate Test → Prop
  | compare {left left' right right' : Operand} (hleft : left.Alike left') (op : Comparison)
    (hright : right.Alike right') : Alike (.compare left op right) (.compare left' op right')
  | member {left left' right right' : Operand} (hleft : left.Alike left')
    (hright : right.AlikeListed right') (negated : Bool) :
    Alike (.member left right negated) (.member left' right' negated)
  | between {subject subject' low low' high high' : Operand} (hsubject : subject.Alike subject')
    (hlow : low.Alike low') (hhigh : high.Alike high') (exclusive negated : Bool) :
    Alike (.between subject low high exclusive negated)
      (.between subject' low' high' exclusive negated)
  | pattern {subject subject' : Operand} (hsubject : subject.Alike subject') (test : Test)
    (negated : Bool) : Alike (.pattern subject test negated) (.pattern subject' test negated)
  | not {p q : Predicate Test} (h : Alike p q) : Alike (.not p) (.not q)
  | join (c : Connective) {items others : List (Predicate Test)} (h : AllAlike items others) :
    Alike (.join c items) (.join c others)

inductive AllAlike : List (Predicate Test) → List (Predicate Test) → Prop
  | nil : AllAlike [] []
  | cons {p q : Predicate Test} {rest others : List (Predicate Test)} (hp : Alike p q)
    (hrest : AllAlike rest others) : AllAlike (p :: rest) (q :: others)

end

theorem AllAlike.append {a b a' b' : List (Predicate Test)} (ha : AllAlike a a')
    (hb : AllAlike b b') : AllAlike (a ++ b) (a' ++ b') := by
  induction a generalizing a' with
  | nil =>
    cases ha
    exact hb
  | cons p rest ih =>
    cases ha with
    | cons hp hrest => exact .cons hp (ih hrest)

theorem AllAlike.singleton {p q : Predicate Test} (h : p.Alike q) : AllAlike [p] [q] :=
  .cons h .nil

mutual

theorem Alike.flat : ∀ {p q : Predicate Test}, p.Alike q → p.flat.Alike q.flat
  | .compare _ _ _, _, .compare hleft op hright => .compare hleft op hright
  | .member _ _ _, _, .member hleft hright negated => .member hleft hright negated
  | .between _ _ _ _ _, _, .between hsubject hlow hhigh exclusive negated =>
    .between hsubject hlow hhigh exclusive negated
  | .pattern _ _ _, _, .pattern hsubject test negated => .pattern hsubject test negated
  | .not _, _, .not h => .not h.flat
  | .join _ _, _, .join c h => .join c (h.terms c)

theorem Alike.term (c : Connective) :
    ∀ {p q : Predicate Test}, p.Alike q → AllAlike (p.term c) (q.term c)
  | .compare _ _ _, _, .compare hleft op hright => .singleton (.compare hleft op hright)
  | .member _ _ _, _, .member hleft hright negated => .singleton (.member hleft hright negated)
  | .between _ _ _ _ _, _, .between hsubject hlow hhigh exclusive negated =>
    .singleton (.between hsubject hlow hhigh exclusive negated)
  | .pattern _ _ _, _, .pattern hsubject test negated => .singleton (.pattern hsubject test negated)
  | .not _, _, .not h => .singleton (.not h.flat)
  | .join d _, _, .join _ h => by
    rw [Predicate.term, Predicate.term]
    split
    · exact h.terms c
    · exact .singleton (.join d (h.terms d))

theorem AllAlike.terms (c : Connective) : ∀ {items others : List (Predicate Test)},
    AllAlike items others → AllAlike (Predicate.terms c items) (Predicate.terms c others)
  | [], _, .nil => .nil
  | _ :: _, _, .cons hp hrest => (hp.term c).append (hrest.terms c)

end

end Predicate

end Polystore
