import LazyGraph.Config.Document.Text

/-!
Dates and times in documents.
-/

namespace LazyGraph.Document

open Digit (numeral)

structure Date where
  year : Nat
  month : Nat
  day : Nat

/-- `fraction` holds the digits of the fraction of a second. -/
structure Time where
  hour : Nat
  minute : Nat
  second : Nat
  fraction : List Char

inductive Moment
  | date (d : Date)
  | time (t : Time)
  | both (d : Date) (t : Time) (offset : Option Int)

def daysIn (year month : Nat) : Nat :=
  let leap := year % 4 == 0 && (year % 100 != 0 || year % 400 == 0)
  if month = 2 then (if leap then 29 else 28)
  else if month ∈ [4, 6, 9, 11] then 30
  else 31

def field? (count low high : Nat) (cs : List Char) : Option (Nat × List Char) :=
  let ds := cs.take count
  let n := numeral 10 ds
  if ds.length = count && ds.all Char.isDigit && low ≤ n && n ≤ high then some (n, cs.drop count)
  else none

def after? (ok : Char → Bool) : List Char → Option (List Char)
  | c :: rest => if ok c then some rest else none
  | [] => none

def date? (cs : List Char) : Option (Date × List Char) := do
  let (year, cs) ← field? 4 0 9999 cs
  let (month, cs) ← field? 2 1 12 (← after? (· == '-') cs)
  let (day, cs) ← field? 2 1 (daysIn year month) (← after? (· == '-') cs)
  return (⟨year, month, day⟩, cs)

/-- A minute may have a leap second. -/
def time? (cs : List Char) : Option (Time × List Char) := do
  let (hour, cs) ← field? 2 0 23 cs
  let (minute, cs) ← field? 2 0 59 (← after? (· == ':') cs)
  let (second, cs) ← field? 2 0 60 (← after? (· == ':') cs)
  match cs with
  | '.' :: c :: rest =>
    if c.isDigit then
      let fraction := (c :: rest).takeWhile Char.isDigit
      return (⟨hour, minute, second, fraction⟩, (c :: rest).dropWhile Char.isDigit)
    else return (⟨hour, minute, second, []⟩, cs)
  | _ => return (⟨hour, minute, second, []⟩, cs)

def offset? (cs : List Char) : Option (Int × List Char) :=
  let read (sign : Int) (cs : List Char) : Option (Int × List Char) := do
    let (hour, cs) ← field? 2 0 23 cs
    let (minute, cs) ← field? 2 0 59 (← after? (· == ':') cs)
    return (sign * (60 * hour + minute : Nat), cs)
  match cs with
  | 'Z' :: rest | 'z' :: rest => some (0, rest)
  | '+' :: rest => read 1 rest
  | '-' :: rest => read (-1) rest
  | _ => none

def isDelimiter (c : Char) : Bool :=
  c == 'T' || c == 't' || c == ' '

def moment? (cs : List Char) : Option (Moment × List Char) :=
  match date? cs with
  | some (d, cs) =>
    match (after? isDelimiter cs).bind time? with
    | some (t, cs) =>
      match offset? cs with
      | some (minutes, cs) => some (.both d t (some minutes), cs)
      | none => some (.both d t none, cs)
    | none => some (.date d, cs)
  | none => (time? cs).map fun (t, cs) => (.time t, cs)

end LazyGraph.Document
