import Mathlib.Data.List.Basic

/-!
# Fenced code blocks, as CommonMark delimits them

A fence is three or more backticks or tildes, indented by at most three columns; a tab goes to the next column that is
a multiple of four. One that opens a block may have an info string, without backticks where it is of them. One that
closes it is of the same character, at least as long, and followed by spaces and tabs only.

Which lines belong to another block, where no fence opens one of the document itself (a list item, a quote, a block of
HTML), is a parameter: it is read off the lines up to there.
-/

namespace CommonMark

abbrev Text := List UInt16

def isBlank (u : UInt16) : Bool := u = 0x20 || u = 0x09

/-- The column of the first unit that is not blank, from a column on. -/
def indentation (column : Nat) : Text → Nat
  | [] => column
  | u :: rest =>
    if u = 0x20 then indentation (column + 1) rest
    else if u = 0x09 then indentation (4 * (column / 4 + 1)) rest
    else column

structure Fence where
  char : UInt16
  length : Nat
  deriving DecidableEq

def fence (line : Text) : Option (Fence × Text) :=
  match line.dropWhile isBlank with
  | [] => none
  | char :: rest =>
    let length := (rest.takeWhile (· = char)).length + 1
    if indentation 0 line ≤ 3 && (char = 0x60 || char = 0x7E) && 3 ≤ length then
      some (⟨char, length⟩, rest.drop (length - 1))
    else none

def opens (line : Text) : Option Fence :=
  match fence line with
  | some (f, info) => if f.char = 0x60 && info.contains 0x60 then none else some f
  | none => none

def closes (opening : Fence) (line : Text) : Bool :=
  match fence line with
  | some (f, rest) => f.char = opening.char && opening.length ≤ f.length && rest.all isBlank
  | none => false

structure Document where
  lines : List Text
  fence : Option Fence

def Document.empty : Document := ⟨[], none⟩

/-- Whether a line belongs to another block, after the lines before it. -/
abbrev OtherBlock := List Text → Text → Bool

def Document.read (other : OtherBlock) (d : Document) (line : Text) : Document where
  lines := d.lines ++ [line]
  fence :=
    match d.fence with
    | some opening => if closes opening line then none else some opening
    | none => if other d.lines line then none else opens line

/-- The lines of what a line feed ends: a carriage return ends one too, and with the line feed after it ends one. -/
def linesOf (s : Text) : List Text :=
  let lines := s.splitOn 0x0D
  if 1 < lines.length && lines.getLast? = some [] then lines.dropLast else lines

def Document.readAll (other : OtherBlock) (d : Document) (s : Text) : Document := (linesOf s).foldl (Document.read other) d

end CommonMark
