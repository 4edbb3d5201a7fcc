import Polystore.Proofs.Transaction.Plan

/-!
Frames that take turns: nothing is sent from within a frame while another one, or what is around it, is
at work. Main statement: a body that opens frames in one place at a time sends in turn, in whichever
order its commands go out.
-/

namespace Polystore.Transaction

variable {σ α β : Type}

def Command.isStatement : Command → Bool
  | .execute _ _ => true
  | _ => false

theorem Command.execute_of_isStatement {command : Command} (h : command.isStatement = true) :
    ∃ sql params, command = .execute sql params := by
  cases command with
  | execute sql params => exact ⟨sql, params, rfl⟩
  | _ => cases h

/-- A command that a body inside these frames sends. -/
inductive Sent.Formed (around : List Nat) : Sent → Prop where
  | statement {entry : Entry} {frames : List Nat} {sql : String} {params : List Value}
      (hcommand : entry.command = .execute sql params) (haround : around <:+ frames) :
      Formed around ⟨frames, entry⟩
  | opening {entry : Entry} {outer : List Nat}
      (hcommand : entry.command = .savepoint (Frame.savepoint (outer.length + 1)))
      (haround : around <:+ outer) : Formed around ⟨entry.seat.number :: outer, entry⟩
  | release {entry : Entry} {id : Nat} {outer : List Nat}
      (hcommand : entry.command = .release (Frame.savepoint (outer.length + 1)))
      (haround : around <:+ outer) : Formed around ⟨id :: outer, entry⟩
  | rollback {entry : Entry} {id : Nat} {outer : List Nat}
      (hcommand : entry.command = .rollbackTo (Frame.savepoint (outer.length + 1)))
      (haround : around <:+ outer) : Formed around ⟨id :: outer, entry⟩

theorem Sent.Formed.of_suffix {around outer : List Nat} {s : Sent} (h : s.Formed around)
    (houter : outer <:+ around) : s.Formed outer := by
  cases h with
  | statement hcommand haround => exact .statement hcommand (houter.trans haround)
  | opening hcommand haround => exact .opening hcommand (houter.trans haround)
  | release hcommand haround => exact .release hcommand (houter.trans haround)
  | rollback hcommand haround => exact .rollback hcommand (houter.trans haround)

theorem Sent.Formed.isInner {around : List Nat} {s : Sent} (h : s.Formed around) :
    s.entry.command.isInner = true := by
  cases h with
  | statement hcommand => rw [hcommand, Command.isInner]
  | opening hcommand => rw [hcommand, Command.isInner]
  | release hcommand => rw [hcommand, Command.isInner]
  | rollback hcommand => rw [hcommand, Command.isInner]

theorem Plan.Issues.formed {p : Plan σ α} {around : List Nat} {log : List Sent}
    {result : Option (Except Error α)} (h : p.Issues around log result) :
    ∀ s ∈ log, s.Formed around := by
  have hopening {opening : Entry} {around : List Nat}
      (hcommand : opening.command = .savepoint (Frame.savepoint (around.length + 1))) :
      Sent.Formed around ⟨opening.seat.number :: around, opening⟩ :=
    .opening hcommand (List.suffix_refl around)
  have hinside {id : Nat} {around : List Nat} {log : List Sent}
      (hlog : ∀ s ∈ log, s.Formed (id :: around)) : ∀ s ∈ log, s.Formed around := by
    intro s hs
    exact (hlog s hs).of_suffix (List.suffix_cons id around)
  induction h with
  | stop => exact List.forall_mem_nil _
  | done => exact List.forall_mem_nil _
  | note _ _ ih => exact ih
  | @execute _ _ _ _ around _ _ _ hcommand _ ih =>
    exact List.forall_mem_cons.mpr ⟨.statement hcommand (List.suffix_refl around), ih⟩
  | @stream _ _ _ _ _ _ _ around _ _ _ hcommand _ ih =>
    exact List.forall_mem_cons.mpr ⟨.statement hcommand (List.suffix_refl around), ih⟩
  | refused hcommand _ _ ih => exact List.forall_mem_cons.mpr ⟨hopening hcommand, ih⟩
  | unfinished hcommand _ ih =>
    exact List.forall_mem_cons.mpr ⟨hopening hcommand, hinside ih⟩
  | @frame _ _ _ _ around _ _ ended _ opening closing _ hcommand _ _ hclosing _ ihbody ihnext =>
    have hend : Sent.Formed around ⟨opening.seat.number :: around, closing⟩ := by
      cases ended with
      | ok value => exact .release hclosing (List.suffix_refl around)
      | error failure => exact .rollback hclosing (List.suffix_refl around)
    refine List.forall_mem_cons.mpr ⟨hopening hcommand, ?_⟩
    exact List.forall_mem_append.mpr ⟨hinside ihbody, List.forall_mem_cons.mpr ⟨hend, ihnext⟩⟩
  | both _ _ hlog _ ihleft ihright ihnext =>
    exact List.forall_mem_append.mpr ⟨hlog.forall_mem ihleft ihright, ihnext⟩
  | beside _ _ hlog ihleft ihright => exact hlog.forall_mem ihleft ihright
  | limit _ _ ihwork ihnext => exact List.forall_mem_append.mpr ⟨ihwork, ihnext⟩

namespace Sent

/-- The frames that a command is sent from. A frame is opened from the one around it. -/
def needs (s : Sent) : List Nat :=
  match s.entry.command with
  | .savepoint _ => s.frames.tail
  | _ => s.frames

/-- The frames that are under way after a command. -/
def leaves (s : Sent) : List Nat :=
  match s.entry.command with
  | .release _ | .rollbackTo _ => s.frames.tail
  | _ => s.frames

theorem leaves_suffix (s : Sent) : s.leaves <:+ s.frames := by
  rw [leaves]
  split
  · exact List.tail_suffix _
  · exact List.tail_suffix _
  · exact List.suffix_refl _

theorem of_statement {s : Sent} (h : s.entry.command.isStatement = true) :
    s.needs = s.frames ∧ s.leaves = s.frames := by
  obtain ⟨sql, params, hcommand⟩ := Command.execute_of_isStatement h
  rw [needs, leaves, hcommand]
  exact ⟨rfl, rfl⟩

/-- Only an opening command is sent from somewhere else than from within its frame. -/
theorem Formed.needs_eq {around : List Nat} {s : Sent} (h : s.Formed around) :
    s.needs = s.frames ∨
      s.frames = s.entry.seat.number :: s.needs ∧ ∃ name, s.entry.command = .savepoint name := by
  cases h with
  | statement hcommand => simp [needs, hcommand]
  | opening hcommand => simp [needs, hcommand]
  | release hcommand => simp [needs, hcommand]
  | rollback hcommand => simp [needs, hcommand]

theorem Formed.suffix_leaves {around : List Nat} {s : Sent} (h : s.Formed around) :
    around <:+ s.leaves := by
  cases h with
  | statement hcommand haround =>
    rw [leaves, hcommand]
    exact haround
  | @opening entry outer hcommand haround =>
    rw [leaves, hcommand]
    exact haround.trans (List.suffix_cons _ outer)
  | release hcommand haround =>
    rw [leaves, hcommand]
    exact haround
  | rollback hcommand haround =>
    rw [leaves, hcommand]
    exact haround

end Sent

/-- Each command is sent from frames under way, when `after` tells which are under way after it. -/
def Fits (after : List Nat → Sent → List Nat) : (underway : List Nat) → List Sent → Prop
  | _, [] => True
  | underway, s :: rest => s.needs <:+ underway ∧ Fits after (after underway s) rest

/-- A command from outside of a frame is the end of that frame: nothing is sent any more from within
it. -/
def InTurn : (underway : List Nat) → List Sent → Prop :=
  Fits fun _ s => s.leaves

section

variable {underway : List Nat} {log : List Sent}

theorem InTurn.opened (h : InTurn underway log) (hformed : ∀ s ∈ log, s.Formed []) {s : Sent}
    (hs : s ∈ log) {id : Nat} {outer : List Nat} (hid : id :: outer <:+ s.frames) :
    id :: outer <:+ underway ∨ ∃ o ∈ log, o.entry.seat.number = id ∧ o.frames = id :: outer ∧
      ∃ name, o.entry.command = .savepoint name := by
  induction log generalizing underway s with
  | nil => cases hs
  | cons first rest ih =>
    obtain ⟨hneeds, hrest⟩ := h
    have hfirst : id :: outer <:+ first.frames → id :: outer <:+ underway ∨
        ∃ o ∈ first :: rest, o.entry.seat.number = id ∧ o.frames = id :: outer ∧
          ∃ name, o.entry.command = .savepoint name := by
      intro hid
      rcases (hformed first List.mem_cons_self).needs_eq with hsame | ⟨hframes, hopens⟩
      · exact .inl (hid.trans (hsame ▸ hneeds))
      · rw [hframes] at hid
        rcases List.suffix_cons_iff.mp hid with heq | hinside
        · obtain ⟨rfl, rfl⟩ := List.cons.inj heq
          exact .inr ⟨first, List.mem_cons_self, rfl, hframes, hopens⟩
        · exact .inl (hinside.trans hneeds)
    rcases List.mem_cons.mp hs with rfl | hs
    · exact hfirst hid
    · rcases ih hrest (fun other hother => hformed other (List.mem_cons_of_mem first hother)) hs hid
        with hleaves | ⟨o, ho, hopens⟩
      · exact hfirst (hleaves.trans first.leaves_suffix)
      · exact .inr ⟨o, List.mem_cons_of_mem first ho, hopens⟩

/-- A frame that something is sent from was under way at the start, or has been opened since, from
within the same frames. -/
theorem InTurn.opened_of_mem (h : InTurn underway log) (hformed : ∀ s ∈ log, s.Formed []) {s : Sent}
    (hs : s ∈ log) {id : Nat} (hid : id ∈ s.frames) :
    id ∈ underway ∨ ∃ o ∈ log, o.entry.seat.number = id ∧ o.frames ⊆ s.frames ∧
      ∃ name, o.entry.command = .savepoint name := by
  obtain ⟨inner, outer, hframes⟩ := List.append_of_mem hid
  have hsuffix : id :: outer <:+ s.frames := ⟨inner, hframes.symm⟩
  rcases h.opened hformed hs hsuffix with hunderway | ⟨o, ho, hnumber, hopened, hcommand⟩
  · exact .inl (hunderway.subset List.mem_cons_self)
  · exact .inr ⟨o, ho, hnumber, hopened ▸ hsuffix.subset, hcommand⟩

end

namespace Plan

/-- A body that does not open a frame. -/
def Frameless : {α : Type} → Plan σ α → Prop
  | _, .done _ => True
  | _, .noting _ next => ∀ notes, (next notes).Frameless
  | _, .execute _ _ next => ∀ rows, (next rows).Frameless
  | _, .stream _ _ _ _ next => ∀ delivered, (next delivered).Frameless
  | _, .frame _ _ => False
  | _, .both left right next => left.Frameless ∧ right.Frameless ∧ ∀ b c, (next b c).Frameless
  | _, .limited work next => work.Frameless ∧ ∀ b, (next b).Frameless

/-- A body in which no two frames are under way side by side: of two things that are done at once at
most one opens frames. If not `atOnce`, nothing is done at once. -/
def TakesTurns (atOnce : Bool) : {α : Type} → Plan σ α → Prop
  | _, .done _ => True
  | _, .noting _ next => ∀ notes, (next notes).TakesTurns atOnce
  | _, .execute _ _ next => ∀ rows, (next rows).TakesTurns atOnce
  | _, .stream _ _ _ _ next => ∀ delivered, (next delivered).TakesTurns atOnce
  | _, .frame body next => body.TakesTurns atOnce ∧ ∀ result, (next result).TakesTurns atOnce
  | _, .both left right next => atOnce = true ∧ (left.Frameless ∨ right.Frameless) ∧
      left.TakesTurns atOnce ∧ right.TakesTurns atOnce ∧ ∀ b c, (next b c).TakesTurns atOnce
  | _, .limited work next => work.TakesTurns atOnce ∧ ∀ b, (next b).TakesTurns atOnce

end Plan

theorem Plan.Issues.statements_only {p : Plan σ α} {around : List Nat} {log : List Sent}
    {result : Option (Except Error α)} (h : p.Issues around log result) (hp : p.Frameless) :
    ∀ s ∈ log, s.frames = around ∧ s.entry.command.isStatement = true := by
  induction h with
  | stop => exact List.forall_mem_nil _
  | done => exact List.forall_mem_nil _
  | note notes _ ih => exact ih (hp notes)
  | execute hcommand _ ih =>
    refine List.forall_mem_cons.mpr ⟨⟨rfl, ?_⟩, ih (hp _)⟩
    rw [hcommand, Command.isStatement]
  | stream hcommand _ ih =>
    refine List.forall_mem_cons.mpr ⟨⟨rfl, ?_⟩, ih (hp _)⟩
    rw [hcommand, Command.isStatement]
  | refused => exact hp.elim
  | unfinished => exact hp.elim
  | frame => exact hp.elim
  | both _ _ hlog _ ihleft ihright ihnext =>
    obtain ⟨hleft, hright, hnext⟩ := hp
    have hfirst := hlog.forall_mem (ihleft hleft) (ihright hright)
    exact List.forall_mem_append.mpr ⟨hfirst, ihnext (hnext _ _)⟩
  | beside _ _ hlog ihleft ihright =>
    obtain ⟨hleft, hright, -⟩ := hp
    exact hlog.forall_mem (ihleft hleft) (ihright hright)
  | limit _ _ ihwork ihnext =>
    obtain ⟨hwork, hnext⟩ := hp
    exact List.forall_mem_append.mpr ⟨ihwork hwork, ihnext (hnext _)⟩

section

variable {after : List Nat → Sent → List Nat} {around underway : List Nat} {first log rest : List Sent}
  {atOnce : Bool}
  (hafter : ∀ underway s, s.needs <:+ underway → s.leaves <:+ after underway s)
  (hatOnce : atOnce = true → ∀ underway s, s.entry.command.isStatement = true →
    after underway s = underway)

include hafter

theorem Fits.cons {s : Sent} (hneeds : s.needs <:+ underway)
    (hrest : ∀ later, s.leaves <:+ later → Fits after later rest) : Fits after underway (s :: rest) :=
  ⟨hneeds, hrest _ (hafter underway s hneeds)⟩

theorem Fits.append (h : Fits after underway first) (haround : around <:+ underway)
    (hformed : ∀ s ∈ first, s.Formed around)
    (hrest : ∀ later, around <:+ later → Fits after later rest) :
    Fits after underway (first ++ rest) := by
  induction first generalizing underway with
  | nil => exact hrest underway haround
  | cons s first ih =>
    obtain ⟨hneeds, hfirst⟩ := h
    obtain ⟨hs, hformed⟩ := List.forall_mem_cons.mp hformed
    exact ⟨hneeds, ih hfirst (hs.suffix_leaves.trans (hafter underway s hneeds)) hformed⟩

include hatOnce

/-- Statements find their place among the commands of one frame. -/
theorem Fits.interleaves {statements : List Sent} (hlog : Interleaves statements rest log)
    (hstatements : ∀ s ∈ statements, s.frames = around ∧ s.entry.command.isStatement = true)
    (h : Fits after underway rest) (hformed : ∀ s ∈ rest, s.Formed around)
    (haround : around <:+ underway) (hboth : atOnce = true) : Fits after underway log := by
  induction hlog generalizing underway with
  | nil => trivial
  | @left a b c s _ ih =>
    obtain ⟨⟨hframes, hs⟩, hothers⟩ := List.forall_mem_cons.mp hstatements
    constructor
    · rw [(Sent.of_statement hs).1, hframes]
      exact haround
    · rw [hatOnce hboth underway s hs]
      exact ih hothers h hformed haround
  | @right a b c s _ ih =>
    obtain ⟨hneeds, hrest⟩ := h
    obtain ⟨hs, hformed⟩ := List.forall_mem_cons.mp hformed
    have hlater := hs.suffix_leaves.trans (hafter underway s hneeds)
    exact ⟨hneeds, ih hstatements hrest hformed hlater⟩

theorem Fits.beside {left : Plan σ α} {right : Plan σ β} {second : List Sent}
    {a : Option (Except Error α)} {b : Option (Except Error β)} (hleft : left.Issues around first a)
    (hright : right.Issues around second b) (hlog : Interleaves first second log)
    (hfirst : Fits after underway first) (hsecond : Fits after underway second)
    (hframeless : left.Frameless ∨ right.Frameless) (haround : around <:+ underway)
    (hboth : atOnce = true) : Fits after underway log := by
  rcases hframeless with hleft' | hright'
  · exact hsecond.interleaves hafter hatOnce hlog (hleft.statements_only hleft') hright.formed haround
      hboth
  · exact hfirst.interleaves hafter hatOnce hlog.symm (hright.statements_only hright') hleft.formed
      haround hboth

/-- What a body sends in turn, with frames under way inside those around it. -/
theorem Plan.Issues.fits {p : Plan σ α} {result : Option (Except Error α)}
    (h : p.Issues around log result) (hp : p.TakesTurns atOnce) (haround : around <:+ underway) :
    Fits after underway log := by
  induction h generalizing underway with
  | stop => trivial
  | done => trivial
  | note notes _ ih => exact ih (hp notes) haround
  | @execute _ _ _ _ around _ _ entry hcommand _ ih =>
    apply Fits.cons hafter
    · rwa [Sent.needs, hcommand]
    · intro later hlater
      rw [Sent.leaves, hcommand] at hlater
      exact ih (hp _) hlater
  | @stream _ _ _ _ _ _ _ around _ _ entry hcommand _ ih =>
    apply Fits.cons hafter
    · rwa [Sent.needs, hcommand]
    · intro later hlater
      rw [Sent.leaves, hcommand] at hlater
      exact ih (hp _) hlater
  | refused hcommand _ _ ih =>
    apply Fits.cons hafter
    · rwa [Sent.needs, hcommand]
    · intro later hlater
      rw [Sent.leaves, hcommand] at hlater
      exact ih (hp.2 _) ((List.suffix_cons _ _).trans hlater)
  | unfinished hcommand _ ih =>
    apply Fits.cons hafter
    · rwa [Sent.needs, hcommand]
    · intro later hlater
      rw [Sent.leaves, hcommand] at hlater
      exact ih hp.1 hlater
  | @frame _ _ _ _ around _ _ ended _ opening closing _ hcommand _ hbody hclosing _ ihbody ihnext =>
    apply Fits.cons hafter
    · rwa [Sent.needs, hcommand]
    · intro later hlater
      rw [Sent.leaves, hcommand] at hlater
      apply (ihbody hp.1 hlater).append hafter hlater hbody.formed
      intro last hlast
      have hneeds : Sent.needs ⟨opening.seat.number :: around, closing⟩ =
          opening.seat.number :: around := by
        rw [Sent.needs, hclosing]
        cases ended <;> rfl
      have hleaves : Sent.leaves ⟨opening.seat.number :: around, closing⟩ = around := by
        rw [Sent.leaves, hclosing]
        cases ended <;> rfl
      apply Fits.cons hafter
      · rwa [hneeds]
      · intro left hleft
        rw [hleaves] at hleft
        exact ihnext (hp.2 _) hleft
  | both hleft hright hlog _ ihleft ihright ihnext =>
    obtain ⟨hboth, hframeless, hleft', hright', hnext⟩ := hp
    have hfirst := Fits.beside hafter hatOnce hleft hright hlog (ihleft hleft' haround)
      (ihright hright' haround) hframeless haround hboth
    apply hfirst.append hafter haround (hlog.forall_mem hleft.formed hright.formed)
    intro later hlater
    exact ihnext (hnext _ _) hlater
  | beside hleft hright hlog ihleft ihright =>
    obtain ⟨hboth, hframeless, hleft', hright', -⟩ := hp
    exact Fits.beside hafter hatOnce hleft hright hlog (ihleft hleft' haround)
      (ihright hright' haround) hframeless haround hboth
  | limit hwork _ ihwork ihnext =>
    obtain ⟨hwork', hnext⟩ := hp
    apply (ihwork hwork' haround).append hafter haround hwork.formed
    intro later hlater
    exact ihnext (hnext _) hlater

end

end Polystore.Transaction
