import Mathlib.Data.Nat.Notation

/-! # Regular expressions as syntax

The fragment of the usual pattern language with character classes, greedy and lazy repetition,
word boundaries and case folding. Matching is left to the engine that runs the pattern.
-/

/-- A bracketed class: ranges and possibly white space, possibly negated. -/
structure CharClass where
  ranges : List (Char × Char)
  space : Bool
  negated : Bool
deriving DecidableEq, Repr, Inhabited

inductive Regex where
  | empty
  | char (c : Char)
  | cls (members : CharClass)
  | seq (first second : Regex)
  | alt (first second : Regex)
  | rep (least : ℕ) (most : Option ℕ) (greedy : Bool) (body : Regex)
  | wordBoundary
  | caseInsensitive (body : Regex)
deriving Repr, Inhabited

namespace Regex

/-- The characters of a word, one after the other. -/
def literal (word : String) : Regex := word.toList.foldr (fun c rest => seq (char c) rest) empty

/-- `[...]` -/
def oneOf (ranges : List (Char × Char)) : Regex := cls ⟨ranges, false, false⟩

/-- `\s` -/
def space : Regex := cls ⟨[], true, false⟩

/-- `[\s\S]` -/
def anyChar : Regex := cls ⟨[], false, true⟩

/-- `r+` -/
def plus (body : Regex) : Regex := rep 1 none true body

/-- `r*` -/
def star (body : Regex) : Regex := rep 0 none true body

/-- `r{n,}` -/
def atLeast (n : ℕ) (body : Regex) : Regex := rep n none true body

/-- `r{n}` -/
def exactly (n : ℕ) (body : Regex) : Regex := rep n (some n) true body

/-- `r+?` -/
def lazyPlus (body : Regex) : Regex := rep 1 none false body

/-- A sequence of several parts. -/
def all (parts : List Regex) : Regex := parts.foldr seq empty

end Regex
