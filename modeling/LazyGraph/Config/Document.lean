import LazyGraph.Config.Document.Moment
import LazyGraph.Config.Document.Number

/-!
Reader for the TOML documents in which configurations are written.

Read are tables, dotted keys, inline tables, arrays, strings of all four kinds, numbers, dates and
booleans. Arrays of tables are refused, since no setting has such a value.
-/

namespace LazyGraph.Document

/-- How a table came about, which decides whether it may be opened or extended later. -/
inductive Origin
  | inline
  | header
  | implied
  | dotted
  deriving DecidableEq

inductive Item
  | string (s : String)
  | number (n : Number)
  | moment (m : Moment)
  | boolean (b : Bool)
  | array (items : List Item)
  | table (origin : Origin) (entries : List (String × Item))

abbrev Entries := List (String × Item)

def depthLimit : Nat := 80

/-! ## Keys and tables -/

def part? (cs : List Char) : Option (String × List Char) :=
  match cs.takeWhile isBare with
  | [] => string? cs
  | bare => some (String.ofList bare, cs.dropWhile isBare)

def parts? : Nat → List Char → Option (List String × List Char)
  | 0, _ => none
  | fuel + 1, cs =>
    match part? (skipBlanks cs) with
    | none => none
    | some (p, rest) =>
      match skipBlanks rest with
      | '.' :: rest =>
        match parts? fuel rest with
        | some (ps, rest) => some (p :: ps, rest)
        | none => none
      | rest => some ([p], rest)

def key? (fuel : Nat) (cs : List Char) : Option (List String × List Char) :=
  match parts? fuel cs with
  | some (ps, rest) => if ps.length < depthLimit then some (ps, rest) else none
  | none => none

def put (t : Entries) (k : String) (item : Item) : Entries :=
  t.map fun entry => if entry.1 = k then (k, item) else entry

def add? (item : Item) : List String → Entries → Option Entries
  | [], _ => none
  | [k], t => if (t.lookup k).isSome then none else some (t ++ [(k, item)])
  | k :: ks, t =>
    match t.lookup k with
    | none => (add? item ks []).map fun inner => t ++ [(k, .table .dotted inner)]
    | some (.table origin inner) =>
      if origin = .dotted || origin = .implied then
        (add? item ks inner).map fun inner => put t k (.table origin inner)
      else none
    | some _ => none

def openTable? : List String → Entries → Option Entries
  | [], _ => none
  | [k], t =>
    match t.lookup k with
    | none => some (t ++ [(k, .table .header [])])
    | some (.table .implied inner) => some (put t k (.table .header inner))
    | some _ => none
  | k :: ks, t =>
    match t.lookup k with
    | none => (openTable? ks []).map fun inner => t ++ [(k, .table .implied inner)]
    | some (.table origin inner) =>
      if origin = .inline then none
      else (openTable? ks inner).map fun inner => put t k (.table origin inner)
    | some _ => none

def addUnder? (item : Item) (key : List String) : List String → Entries → Option Entries
  | [], t => add? item key t
  | k :: ks, t =>
    match t.lookup k with
    | some (.table origin inner) =>
      (addUnder? item key ks inner).map fun inner => put t k (.table origin inner)
    | _ => none

/-! ## Values -/

mutual

/-- A value inside of which arrays and inline tables may be nested `depth` deep. -/
def value? : Nat → Nat → List Char → Option (Item × List Char)
  | 0, _, _ => none
  | fuel + 1, depth, cs =>
    match cs with
    | '[' :: rest =>
      if depth = 0 then none
      else (items? fuel (depth - 1) (skipLines fuel rest)).map fun (l, rest) => (.array l, rest)
    | '\x7b' :: rest =>
      if depth = 0 then none
      else
        match skipBlanks rest with
        | '\x7d' :: rest => some (.table .inline [], rest)
        | rest =>
          (pairs? fuel (depth - 1) [] rest).map fun (t, rest) => (.table .inline t, rest)
    | 't' :: 'r' :: 'u' :: 'e' :: rest => some (.boolean true, rest)
    | 'f' :: 'a' :: 'l' :: 's' :: 'e' :: rest => some (.boolean false, rest)
    | cs =>
      match text? cs, moment? cs with
      | some (s, rest), _ => some (.string s, rest)
      | none, some (m, rest) => some (.moment m, rest)
      | none, none => (number? cs).map fun (n, rest) => (.number n, rest)

def items? : Nat → Nat → List Char → Option (List Item × List Char)
  | 0, _, _ => none
  | fuel + 1, depth, cs =>
    match cs with
    | ']' :: rest => some ([], rest)
    | cs =>
      match value? fuel depth cs with
      | none => none
      | some (item, rest) =>
        match skipLines fuel rest with
        | ',' :: rest =>
          (items? fuel depth (skipLines fuel rest)).map fun (items, rest) => (item :: items, rest)
        | ']' :: rest => some ([item], rest)
        | _ => none

def pairs? : Nat → Nat → Entries → List Char → Option (Entries × List Char)
  | 0, _, _, _ => none
  | fuel + 1, depth, t, cs =>
    match pair? fuel depth cs with
    | none => none
    | some (key, item, rest) =>
      match add? item key t, skipBlanks rest with
      | some t, ',' :: rest => pairs? fuel depth t rest
      | some t, '\x7d' :: rest => some (t, rest)
      | _, _ => none

def pair? : Nat → Nat → List Char → Option (List String × Item × List Char)
  | 0, _, _ => none
  | fuel + 1, depth, cs =>
    match key? fuel cs with
    | some (key, '=' :: rest) =>
      (value? fuel depth (skipBlanks rest)).map fun (item, rest) => (key, item, rest)
    | _ => none

end

def endLine? (cs : List Char) : Option (List Char) :=
  match skipComment cs with
  | [] => some []
  | rest => lineBreak? rest

def expressions? : Nat → List String → Entries → List Char → Option Entries
  | 0, _, _, _ => none
  | fuel + 1, path, t, cs =>
    match skipBlanks (skipLines fuel cs) with
    | [] => some t
    | '[' :: rest =>
      match key? fuel rest with
      | some (header, ']' :: rest) =>
        match openTable? header t, endLine? rest with
        | some t, some rest => expressions? fuel header t rest
        | _, _ => none
      | _ => none
    | rest =>
      match pair? fuel (depthLimit - 1) rest with
      | some (key, item, rest) =>
        match addUnder? item key path t, endLine? rest with
        | some t, some rest => expressions? fuel path t rest
        | _, _ => none
      | none => none

def read? (text : String) : Option Entries :=
  let cs := match text.toList with
    | '\ufeff' :: cs => cs
    | cs => cs
  expressions? (cs.length + 2) [] [] cs

end LazyGraph.Document
