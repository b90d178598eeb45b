import DartData.Proofs.Scan.Body

/-!
# Searching a class that is put together from items

A search for a member goes through the items of the body one after another.  It finds nothing if
all of them begin otherwise, and else the first one that has the signature.
-/

namespace DartData

open List Text

namespace ClassParts

variable {p : ClassParts}

theorem lines_ne_nil (p : ClassParts) : p.lines ≠ [] := cons_ne_nil _ _

/-- No line of the class has a line feed in it. -/
def IsLined (p : ClassParts) : Prop := ∀ l ∈ p.lines, '\n' ∉ l

theorem IsLined.lines_content (h : p.IsLined) : (unlines p.lines).lines = p.lines :=
  lines_unlines p.lines_ne_nil h

theorem sits_fields {i : Item} (hi : i ∈ p.fields.map fun f => { first := f.line })
    (wanted : Text) :
    i.Sits ∧ i.Avoids wanted := by
  obtain ⟨f, -, rfl⟩ := mem_map.mp hi
  refine ⟨.inl ⟨rfl, f.tame_line.adds⟩, .inr ⟨rfl, ?_⟩⟩
  exact has_eq_false_of_not_mem (c := '=') (by decide) (f.not_mem_line (by decide) (by decide))

end ClassParts

namespace SourceClass

variable {c : SourceClass} {p : ClassParts} {n : Int}

theorem findMember_eq (hfirst : c.first = some n) (hcontent : c.content = unlines p.lines)
    (hp : p.IsLined) (name finder : Text) :
    c.findMember name finder = .ok (memberIn name (bareSignature finder) (n + 1)
      (Brackets.feed {} p.header) (itemLines p.body ++ [['}']])) := by
  rw [findMember, hfirst, hcontent, hp.lines_content]
  rfl

/-- The closing brace of the class begins no member. -/
theorem memberIn_brace (name wanted : Text) (n : Int) {b : Brackets} (hb : b.InBody) :
    memberIn name wanted n b [['}']] = none := by
  have hadd : Adds '{' '}' ['}'] (-1) := adds_code (by decide) '{' '}'
  have hcurly : (b.feed ['}']).curly = 0 := by
    rw [Brackets.feed_curly hb.lexer_eq hadd, hb.curly_eq]
    rfl
  have harrow : has ['}'] ['=', '>'] = false := rfl
  refine memberIn_of_not_begins ?_ name n []
  simp [beginsMember, hcurly, harrow]

section

variable (hfirst : c.first = some n) (hcontent : c.content = unlines p.lines) (hp : p.IsLined)
  (hh : IsHeader p.header p.head) (name : Text) {finder : Text}
include hfirst hcontent hp hh

/-- Nothing is found if no item begins with the signature. -/
theorem findMember_none (hbody : ∀ i ∈ p.body, i.Sits ∧ i.Avoids (bareSignature finder)) :
    c.findMember name finder = .ok none := by
  obtain ⟨b, hb, heq⟩ := memberIn_items name (bareSignature finder) p.body (n + 1)
    (Brackets.feed {} p.header) [['}']] hh.inBody hbody
  rw [findMember_eq hfirst hcontent hp, heq, memberIn_brace _ _ _ hb]

/-- The first item that has the signature is found. -/
theorem findMember_some {before after : List Item} {i : Item}
    (hsplit : p.body = before ++ i :: after)
    (hbefore : ∀ j ∈ before, j.Sits ∧ j.Avoids (bareSignature finder)) (hi : i.IsMember)
    (hw : (bareSignature i.first.trim).startsWith (bareSignature finder)) :
    ∃ found, c.findMember name finder = .ok (some found)
      ∧ found.current = some (unlines i.lines) := by
  obtain ⟨b, hb, heq⟩ := memberIn_items name (bareSignature finder) before (n + 1)
    (Brackets.feed {} p.header) (i.lines ++ (itemLines after ++ [['}']])) hh.inBody hbefore
  have hlines : itemLines p.body ++ [['}']]
      = itemLines before ++ (i.lines ++ (itemLines after ++ [['}']])) := by
    rw [hsplit, itemLines_append, itemLines_cons, append_assoc, append_assoc]
  rw [findMember_eq hfirst hcontent hp, hlines, heq, memberIn_found hi hw _ _ hb]
  exact ⟨_, rfl, rfl⟩

end

end SourceClass

end DartData
