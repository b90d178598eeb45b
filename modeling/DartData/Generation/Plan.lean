import DartData.Member.CopyWith
import DartData.Member.Equality
import DartData.Member.Serialization
import DartData.Options

/-!
# Plans

What is to be done with a class: the members to be written and the order of the work, as far as
the request, the supertypes of the class and its being abstract decide it.  A plan does not change
while it is carried out, since only its last steps touch what it was made from.
-/

namespace DartData

/-! ## §1. Members. -/

/-- The members that can be written. -/
inductive MemberKind where
  | copyWith
  | toMap
  | fromMap
  | toJson
  | fromJson
  | toString
  | stringify
  | equality
  | hashCode
  | props
  deriving DecidableEq, Repr

/-- The member of a kind for a class. -/
def MemberKind.build (k : MemberKind) (r : Request) (c : SourceClass) : Member :=
  match k with
  | .copyWith => .copyWith c
  | .toMap => .toMap c
  | .fromMap => .fromMap c ⟨r.options .fromMapDefaults, r.coerceNumbers⟩
  | .toJson => .toJson
  | .fromJson => .fromJson c
  | .toString => .toString c
  | .stringify => .stringify
  | .equality => .equality c r.flutter
  | .hashCode => .hashCode c (r.options .jenkinsHash)
  | .props => .props c

/-! ## §2. Tasks. -/

/-- A step in the work on a class. -/
inductive Task where
  /-- Write the constructor anew. -/
  | rebuildConstructor
  /-- Insert or replace a member. -/
  | install (k : MemberKind)
  /-- Have the class extend `Equatable` or mix it in. -/
  | adoptEquatable
  deriving DecidableEq, Repr

/-- The task if the condition holds. -/
def Task.when (t : Task) (b : Bool) : List Task := if b then [t] else []

/-- Whether the class is compared through `equatable`, now or from now on. -/
def Request.comparesByEquatable (r : Request) (c : SourceClass) : Bool :=
  c.head.usesEquatable || r.options .useEquatable

/-- The tasks for a class.  Widgets get a constructor only, and abstract classes nothing that would
    have to construct them. -/
def Request.plan (r : Request) (c : SourceClass) : List Task :=
  let on (s : MemberSection) : Bool := r.options (.enabled s)
  let equatable := r.comparesByEquatable c
  let construct := Task.rebuildConstructor.when (on .constructor && r.selects .constructor)
  let copyAndMap :=
    (Task.install .copyWith).when (on .copyWith && r.selects .copyWith)
      ++ (Task.install .toMap).when (r.selects .serialization && on .toMap)
      ++ (Task.install .fromMap).when (r.selects .serialization && on .fromMap)
      ++ (Task.install .toJson).when (r.selects .serialization && on .toJson)
      ++ (Task.install .fromJson).when (r.selects .serialization && on .fromJson)
  let describe :=
    (Task.install (if equatable then .stringify else .toString)).when
      (on .toString && r.selects .toString)
  let compare :=
    if equatable then
      Task.adoptEquatable.when (r.selects .useEquatable)
        ++ (Task.install .props).when (r.selects .useEquatable)
    else
      (Task.install .equality).when (r.selects .equality && on .equality)
        ++ (Task.install .hashCode).when (r.selects .equality && on .hashCode)
  if c.head.isWidget then construct
  else construct ++ (if c.isAbstract then [] else copyAndMap) ++ describe ++ compare

end DartData
