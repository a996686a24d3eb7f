import LazyGraph.Digit

/-!
Characters, blanks, comments and strings of documents. A reader returns what it read with the rest
of the text.
-/

namespace LazyGraph.Document

open Digit (isHex numeral)

/-! ## Characters -/

def isBlank (c : Char) : Bool :=
  c == ' ' || c == '\t'

def isBare (c : Char) : Bool :=
  c.isAlphanum || c == '_' || c == '-'

def isPlain (c : Char) : Bool :=
  c == '\t' || (0x20 ≤ c.toNat && c.toNat != 0x7f)

def skipBlanks (cs : List Char) : List Char :=
  cs.dropWhile isBlank

def lineBreak? : List Char → Option (List Char)
  | '\n' :: rest => some rest
  | '\r' :: '\n' :: rest => some rest
  | _ => none

def skipComment (cs : List Char) : List Char :=
  match skipBlanks cs with
  | '#' :: rest => rest.dropWhile isPlain
  | rest => rest

def skipLines : Nat → List Char → List Char
  | 0, cs => cs
  | fuel + 1, cs =>
    let rest := skipComment cs
    match lineBreak? rest with
    | some rest => skipLines fuel rest
    | none => rest

/-! ## Strings -/

def unicode? (digits : List Char) : Option Char :=
  let code := numeral 16 digits
  if digits.all isHex && code.isValidChar then some (Char.ofNat code) else none

def escape? : Char → Option Char
  | 'b' => some '\x08'
  | 't' => some '\t'
  | 'n' => some '\n'
  | 'f' => some '\x0c'
  | 'r' => some '\r'
  | '"' => some '"'
  | '\\' => some '\\'
  | _ => none

def cons? (c : Option Char) (rest : Option (List Char × List Char)) :
    Option (List Char × List Char) :=
  match c, rest with
  | some c, some (cs, rest) => some (c :: cs, rest)
  | _, _ => none

def basic : List Char → Option (List Char × List Char)
  | [] => none
  | '"' :: rest => some ([], rest)
  | '\\' :: 'u' :: a :: b :: c :: d :: rest => cons? (unicode? [a, b, c, d]) (basic rest)
  | '\\' :: 'U' :: a :: b :: c :: d :: e :: f :: g :: h :: rest =>
    cons? (unicode? [a, b, c, d, e, f, g, h]) (basic rest)
  | '\\' :: c :: rest => cons? (escape? c) (basic rest)
  | c :: rest => if isPlain c then cons? (some c) (basic rest) else none

def literal : List Char → Option (List Char × List Char)
  | [] => none
  | '\'' :: rest => some ([], rest)
  | c :: rest => if isPlain c then cons? (some c) (literal rest) else none

def endsLine (cs : List Char) : Bool :=
  (lineBreak? (skipBlanks cs)).isSome

/-- The rest of a string in three double quotes. Up to two quotes may stand before the last three.
A backslash at the end of a line skips all blanks and line breaks that follow; `skipping` is set
while this goes on. -/
def basicLines (skipping : Bool) : List Char → Option (List Char × List Char)
  | [] => none
  | '"' :: '"' :: '"' :: '"' :: '"' :: rest => some (['"', '"'], rest)
  | '"' :: '"' :: '"' :: '"' :: rest => some (['"'], rest)
  | '"' :: '"' :: '"' :: rest => some ([], rest)
  | '\r' :: '\n' :: rest =>
    if skipping then basicLines true rest else cons? (some '\n') (basicLines false rest)
  | '\n' :: rest =>
    if skipping then basicLines true rest else cons? (some '\n') (basicLines false rest)
  | '\\' :: 'u' :: a :: b :: c :: d :: rest =>
    cons? (unicode? [a, b, c, d]) (basicLines false rest)
  | '\\' :: 'U' :: a :: b :: c :: d :: e :: f :: g :: h :: rest =>
    cons? (unicode? [a, b, c, d, e, f, g, h]) (basicLines false rest)
  | '\\' :: c :: rest =>
    if endsLine (c :: rest) then basicLines true rest
    else cons? (escape? c) (basicLines false rest)
  | c :: rest =>
    if skipping && isBlank c then basicLines true rest
    else if isPlain c then cons? (some c) (basicLines false rest)
    else none

def literalLines : List Char → Option (List Char × List Char)
  | [] => none
  | '\'' :: '\'' :: '\'' :: '\'' :: '\'' :: rest => some (['\'', '\''], rest)
  | '\'' :: '\'' :: '\'' :: '\'' :: rest => some (['\''], rest)
  | '\'' :: '\'' :: '\'' :: rest => some ([], rest)
  | '\r' :: '\n' :: rest => cons? (some '\n') (literalLines rest)
  | '\n' :: rest => cons? (some '\n') (literalLines rest)
  | c :: rest => if isPlain c then cons? (some c) (literalLines rest) else none

/-- A line break right after the opening quotes does not belong to the string. -/
def dropFirstBreak (cs : List Char) : List Char :=
  (lineBreak? cs).getD cs

def ofChars (read : Option (List Char × List Char)) : Option (String × List Char) :=
  read.map fun (cs, rest) => (String.ofList cs, rest)

def string? : List Char → Option (String × List Char)
  | '"' :: rest => ofChars (basic rest)
  | '\'' :: rest => ofChars (literal rest)
  | _ => none

def text? : List Char → Option (String × List Char)
  | '"' :: '"' :: '"' :: rest => ofChars (basicLines false (dropFirstBreak rest))
  | '\'' :: '\'' :: '\'' :: rest => ofChars (literalLines (dropFirstBreak rest))
  | cs => string? cs

end LazyGraph.Document
