import DartData.Text.Basic

/-!
# Paths

Operations on the text of a path, with no look at the files: joining, normalizing, and taking the
directory, the name and the stem.  Slashes divide the parts of a path.
-/

namespace DartData.Path

/-- Whether a path begins at the root. -/
def isAbsolute (p : Text) : Bool := p.startsWith "/"

/-- A path as seen from a directory. -/
def join (directory p : Text) : Text :=
  if isAbsolute p || directory.isEmpty then p
  else if directory.endsWith "/" then directory ++ p
  else Text.of [directory, "/", p]

/-- Everything up to the last slash, that one included. -/
def uptoSlash (p : Text) : Text := (p.reverse.dropWhile (· ≠ '/')).reverse

/-- The last part of a path. -/
def name (p : Text) : Text := (p.reverse.takeWhile (· ≠ '/')).reverse

/-- The directory of a path: what stands before its last part, without slashes at the end unless
    there is nothing else. -/
def parent (p : Text) : Text :=
  let head := uptoSlash p
  if head.all (· == '/') then head else (head.reverse.dropWhile (· == '/')).reverse

/-- The last part of a path without its extension.  Dots at the start of a name begin no
    extension. -/
def stem (p : Text) : Text :=
  let n := name p
  let body := (n.reverse.dropWhile (· ≠ '.')).reverse.dropLast
  if body.all (· == '.') then n else body

/-- Adds a part to a normalized path, given backwards: empty parts and single dots change nothing,
    and two dots take a part away. -/
def push (absolute : Bool) (parts : List Text) (part : Text) : List Text :=
  if part.isEmpty || part == ['.'] then parts
  else if part == ['.', '.'] then
    match parts with
    | [] => if absolute then [] else [part]
    | last :: rest => if last == ['.', '.'] then part :: parts else rest
  else part :: parts

/-- A path without empty parts, dots and detours.  Two slashes at the start are kept. -/
def normalize (p : Text) : Text :=
  let root : Text :=
    if p.startsWith "//" && !p.startsWith "///" then "//" else if isAbsolute p then "/" else []
  let parts := ((p.split '/').foldl (push (isAbsolute p)) []).reverse
  let q := root ++ Text.join "/" parts
  if q.isEmpty then "." else q

/-- The normalized path as seen from the root, `current` being the current directory. -/
def absolute (current p : Text) : Text := normalize (join current p)

/-- The path with each directory above it, the nearest first.  The first argument bounds their
    number. -/
def upwards : Nat → Text → List Text
  | 0, p => [p]
  | n + 1, p => if parent p == p then [p] else p :: upwards n (parent p)

/-- The path and all directories above it. -/
def ancestors (p : Text) : List Text := upwards p.length p

end DartData.Path
