import DartData.Brackets
import DartData.Member

/-!
# Finding a member in a class

A member is known by the head of its first line, blanks and type arguments apart.  It reaches from
that line to the one that brings the depth back to the body of the class, or, if it is an arrow
member, to the first line that ends with a semicolon.
-/

namespace DartData

/-- A signature without blanks and type arguments: `Map<String, dynamic> toMap()` gives
    `MaptoMap()`.  `depth` counts the open `<`, and `last` is the character before. -/
def bareSignature (line : Text) : Text := go 0 none line
where
  go (depth : Nat) (last : Option Char) : Text → Text
    | [] => []
    | c :: r =>
      let depth := if c = '<' then depth + 1 else depth
      let after := if c = '>' && last != some '=' then depth - 1 else depth
      if c ≠ ' ' && depth == 0 then c :: go after (some c) r else go after (some c) r

/-- Whether a line ends with a semicolon, blanks apart. -/
def endsStatement (line : Text) : Bool := line.trimEnd.endsWith ";"

namespace SourceClass

/-- Reads on in a member that began on an earlier line: its last line and the text from the next
    line on. -/
def memberRest (arrow : Bool) (number : Int) (b : Brackets) :
    List Text → Option (Int × List Text)
  | [] => none
  | line :: rest =>
    let b := b.feed line
    if (if arrow then endsStatement line else b.curly == 1) then some (number, [line])
    else (memberRest arrow (number + 1) b rest).map fun (last, ls) => (last, line :: ls)

/-- Whether a line begins the member with the signature `wanted`: it starts directly in the body,
    and opens a block or has an arrow. -/
def beginsMember (wanted : Text) (depthBefore depthAfter : Int) (line : Text) : Bool :=
  depthBefore == 1 && (bareSignature line.trim).startsWith wanted
    && (depthAfter == 2 || line.has "=>")

/-- Looks for a member in the lines from `number` on, all of them after the first of the class. -/
def memberIn (name wanted : Text) (number : Int) (b : Brackets) :
    List Text → Option ExistingMember
  | [] => none
  | line :: rest =>
    let next := b.feed line
    if beginsMember wanted b.curly next.curly line then
      let arrow := next.curly == 1
      let found : Option (Int × List Text) :=
        if arrow && endsStatement line then some (number, [])
        else memberRest arrow (number + 1) next rest
      found.map fun (last, ls) =>
        { name, first := some number, last := some last,
          current := some (Text.unlines (line :: ls)) }
    else memberIn name wanted (number + 1) next rest

/-- The member of the class whose first line begins with `finder`. -/
def findMember (c : SourceClass) (name finder : Text) : Except Fault (Option ExistingMember) :=
  match c.first with
  | none => .error (.noStartLine c.shownName)
  | some first => .ok <| match c.content.lines with
    | [] => none
    | line :: rest => memberIn name (bareSignature finder) (first + 1) (Brackets.feed {} line) rest

end SourceClass

end DartData
