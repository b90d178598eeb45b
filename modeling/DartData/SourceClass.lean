import DartData.Declaration
import DartData.Field

/-!
# Classes of a source file

A class as the scanner finds it, with the edits that the generator collects for it.  Line numbers
are those of the file and count from one.
-/

namespace DartData

/-- A member that a class already has, and the text that is to stand in its place. -/
structure ExistingMember where
  name : Text
  /-- The first and the last line, both included. -/
  first : Option Int := none
  last : Option Int := none
  /-- The text that stands there now. -/
  current : Option Text := none
  replacement : Option Text := none
  deriving DecidableEq, Repr

namespace ExistingMember

/-- Whether a line belongs to the member. -/
def covers (m : ExistingMember) (line : Int) : Bool :=
  match m.first, m.last with
  | some a, some b => a ≤ line && line ≤ b
  | _, _ => false

end ExistingMember

/-- A class of a source file. -/
structure SourceClass where
  head : Declaration := {}
  fields : List Field := []
  /-- The lines of the class, from its declaration to its closing brace. -/
  content : Text := []
  /-- The line of the declaration. -/
  first : Option Int := none
  /-- The line of the closing brace. -/
  last : Option Int := none
  /-- The line of the opening brace. -/
  headLast : Option Int := none
  /-- The text of the unnamed constructor, as found or as it is to be. -/
  constructorText : Option Text := none
  /-- The lines of the constructor that was found. -/
  constructorFirst : Option Int := none
  constructorLast : Option Int := none
  /-- Whether the constructor is to be written anew. -/
  constructorChanged : Bool := false
  /-- Whether a superclass or mixin was added. -/
  headChanged : Bool := false
  /-- The members to be added before the closing brace. -/
  insertion : Text := []
  /-- The members to be replaced. -/
  replaced : List ExistingMember := []
  deriving DecidableEq, Repr

namespace SourceClass

/-! ## §1. What was found. -/

/-- The name as it is written into texts. -/
def shownName (c : SourceClass) : Text := c.head.shownName

/-- The class as a type. -/
def type (c : SourceClass) : Text := c.head.type

/-- The line of the last field, and `-1` if there is none. -/
def fieldsLast (c : SourceClass) : Int := (c.fields.getLast?.map Field.line).getD (-1)

/-- Whether the constructor was found in full. -/
def hasConstructor (c : SourceClass) : Bool :=
  c.constructorFirst.isSome && c.constructorLast.isSome && c.constructorText.isSome

/-- Whether the constructor takes named parameters; a constructor yet to be written does. -/
def hasNamedConstructor (c : SourceClass) : Bool :=
  match c.constructorText with
  | some t => (Text.trimStart (t.eraseFirst "const")).startsWith (c.shownName ++ ['(', '{'])
  | none => true

/-- Whether the class is short enough for members on one line. -/
def hasFewFields (c : SourceClass) : Bool := c.fields.length ≤ 3

/-- Whether no two fields have the same name. -/
def hasDistinctNames (c : SourceClass) : Bool := (c.fields.map Field.name).Nodup

/-- Whether members can be generated for the class: it has a name, both its ends, and fields with
    distinct names. -/
def isValid (c : SourceClass) : Bool :=
  c.first.isSome && c.head.name.isSome && c.last.isSome && !c.fields.isEmpty && c.hasDistinctNames

/-- Whether the class is declared abstract. -/
def isAbstract (c : SourceClass) : Bool := c.content.trimStart.startsWith "abstract class"

/-- The declaration line, from what is now known of the class. -/
def declarationLine (c : SourceClass) : Text := c.head.print c.isAbstract

/-- Why no members were generated, in one sentence. -/
def issue (c : SourceClass) : Text :=
  let start := c.shownName ++ " couldn't be converted to a data class"
  if c.fields.isEmpty then start ++ ": Class must have at least one property!"
  else if c.last.isNone then start ++ ": Class has no ending!"
  else if !c.hasDistinctNames then start ++ ": Class doesn't have unique property names!"
  else start ++ "."

/-! ## §2. Edits. -/

/-- Whether any edit was collected. -/
def isChanged (c : SourceClass) : Bool :=
  !c.insertion.isEmpty || !c.replaced.isEmpty || c.constructorChanged || c.headChanged

/-- The text that stands for a line, if the line belongs to a member to be replaced; the first
    such member counts. -/
def replacementAt (c : SourceClass) (line : Int) : Option Text :=
  (c.replaced.find? (·.covers line)).bind ExistingMember.replacement

end SourceClass

end DartData
