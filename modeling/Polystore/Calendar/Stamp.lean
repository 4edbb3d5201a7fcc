import Polystore.Calendar.Time

/-!
Stamps: a date, a time of day, or both, with an optional offset and an optional calendar mark. A
part that is missing is never made up.
-/

namespace Polystore.Calendar

/-- Which calendar a stamp is marked with. -/
inductive System where
  | gregorian
  | iso8601
deriving DecidableEq, Repr

/-- A date, a time of day, or both. -/
inductive Parts where
  | date (date : Date)
  | time (time : Time)
  | both (date : Date) (time : Time)
deriving DecidableEq

structure Stamp where
  parts : Parts
  offset : Option Offset
  calendar : Option System
deriving DecidableEq

namespace Stamp

/-- A stamp of the given parts; there has to be at least one. -/
def ofParts? : Option Date → Option Time → Option Parts
  | none, none => none
  | some d, none => some (.date d)
  | none, some t => some (.time t)
  | some d, some t => some (.both d t)

def ofDate (d : Date) : Stamp := ⟨.date d, none, none⟩

def ofTime (t : Time) : Stamp := ⟨.time t, none, none⟩

def ofDateTime (t : DateTime) : Stamp := ⟨.both t.date t.time, none, none⟩

def zoned (t : DateTime) (offset : Offset) : Stamp := ⟨.both t.date t.time, some offset, none⟩

def date? (s : Stamp) : Option Date :=
  match s.parts with
  | .date d => some d
  | .time _ => none
  | .both d _ => some d

def time? (s : Stamp) : Option Time :=
  match s.parts with
  | .date _ => none
  | .time t => some t
  | .both _ t => some t

def isDateOnly (s : Stamp) : Bool :=
  s.date?.isSome && s.time?.isNone

def isTimeOnly (s : Stamp) : Bool :=
  s.date?.isNone && s.time?.isSome

/-- Local date and time, when both are present. -/
def local? (s : Stamp) : Option DateTime :=
  match s.parts with
  | .both d t => some ⟨d, t⟩
  | _ => none

/-- The instant as universal time, when date, time and offset are present and it is within the
calendar. -/
def instant? (s : Stamp) : Option DateTime :=
  match s.offset, s.local? with
  | some offset, some t => t.shift? (-offset.seconds)
  | _, _ => none

/-- The same instant at offset zero. A stamp without an instant stays as it is. -/
def toUtc (s : Stamp) : Stamp :=
  match s.instant? with
  | some t => { zoned t .utc with calendar := s.calendar }
  | none => s

end Stamp

end Polystore.Calendar
