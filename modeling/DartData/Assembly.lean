import DartData.SourceClass

/-!
# Assembling a class

The text of a class with its edits worked in, line by line from the closing brace upwards: the
declaration becomes one line, a new constructor follows the last field, new members stand before
the closing brace, and the lines of the old constructor and of replaced members give way to the
new text, which is written once.
-/

namespace DartData.SourceClass

/-- How far the declaration reaches, in lines after its first. -/
def headOffset (c : SourceClass) (first : Int) : Int :=
  let headLast := c.headLast.getD 0
  (if headLast == 0 then first else headLast) - first

/-- Whether the line `number` belongs to an old constructor that is written anew. -/
def inOldConstructor (c : SourceClass) (number : Int) : Bool :=
  match c.constructorFirst, c.constructorLast with
  | some a, some b => c.hasConstructor && c.constructorChanged && a ≤ number && number ≤ b
  | _, _ => false

/-- Puts what stands for one line in front of the text `after` it.  `lines` are the lines of the
    class, and `offset` says which of them is meant. -/
def assembleLine (c : SourceClass) (lines : List Text) (first last : Int) (offset : Nat)
    (after : Text) : Except Fault Text :=
  match lines[offset]? with
  | none => .error .lineOutOfRange
  | some line =>
    let number := first + offset
    if offset ≤ c.headOffset first then
      if offset = 0 then
        match lines[(c.headOffset first).toNat]? with
        | none => .error .lineOutOfRange
        | some headLine =>
          let brace : Text := if headLine.has "\x7b" then " \x7b" else []
          .ok (Text.of [c.declarationLine, brace, "\n", after])
      else .ok after
    else if number == c.fieldsLast && c.constructorText.isSome && !c.hasConstructor then
      .ok (Text.of [line, "\n\n", c.constructorText.getD [], after])
    else if number == last && c.isValid then .ok (Text.of [c.insertion, line, "\n", after])
    else if c.inOldConstructor number then
      if c.constructorFirst == some number then
        .ok (Text.of [(c.constructorText.getD []).removeEnd "\n", "\n", after])
      else .ok after
    else match c.replacementAt number with
      | none => .ok (Text.of [line, "\n", after])
      | some t => .ok (if after.has t then after else Text.of [t, "\n", after])

/-- Assembles the first `count` lines of the class in front of the text `after` them. -/
def assembleLines (c : SourceClass) (lines : List Text) (first last : Int) :
    (count : Nat) → (after : Text) → Except Fault Text
  | 0, after => .ok after
  | k + 1, after => do
    let t ← c.assembleLine lines first last k after
    c.assembleLines lines first last k t

/-- The text of the class with its edits. -/
def assemble (c : SourceClass) : Except Fault Text :=
  match c.first, c.last with
  | some first, some last => do
    let t ← c.assembleLines c.content.lines first last (last - first + 1).toNat []
    return t.removeEnd "\n"
  | _, _ => .error (.noLineSpan c.shownName)

end DartData.SourceClass
