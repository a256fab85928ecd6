/-!
# Blanks, lines and letter case

The characters with the Unicode property `White_Space`, removal of them at both ends of a text, the
lines of a text, and lower case for the letters `A` to `Z`.
-/

namespace RegisterMachine.Text

/-- The Unicode property `White_Space`. -/
def isBlank (c : Char) : Bool :=
  let n := c.toNat
  (9 ≤ n && n ≤ 13) || n == 0x20 || n == 0x85 || n == 0xa0 || n == 0x1680 ||
    (0x2000 ≤ n && n ≤ 0x200a) || n == 0x2028 || n == 0x2029 || n == 0x202f || n == 0x205f ||
    n == 0x3000

/-- The characters of a text without the blanks at its end. -/
def dropBlanksRight (cs : List Char) : List Char :=
  (cs.reverse.dropWhile isBlank).reverse

def trim (s : String) : String :=
  String.ofList (dropBlanksRight (s.toList.dropWhile isBlank))

/-- `A` to `Z` become `a` to `z`; every other character stays. -/
def asciiLower (s : String) : String :=
  String.ofList (s.toList.map fun c =>
    if 'A' ≤ c && c ≤ 'Z' then Char.ofNat (c.toNat + 32) else c)

/-- A line that a line feed ended, given last character first: a carriage return right before the
line feed belongs to the line's end. -/
def endedLine : List Char → List Char
  | '\r' :: line => line.reverse
  | line => line.reverse

/-- Continues a split into lines: `done` are the lines before, last one first, and `line` is what
was read of the present one, last character first. -/
def linesFrom (done : List (List Char)) (line : List Char) : List Char → List (List Char)
  | [] => (if line.isEmpty then done else line.reverse :: done).reverse
  | '\n' :: rest => linesFrom (endedLine line :: done) [] rest
  | c :: rest => linesFrom done (c :: line) rest

/-- The lines of a text: what stands before each line feed, without a carriage return right before
it, and what stands after the last line feed unless that is empty. -/
def lines (s : String) : List (List Char) :=
  linesFrom [] [] s.toList

end RegisterMachine.Text
