import DartData.Proofs.Edit.Splice
import DartData.Proofs.Plain.Draft

/-!
# Assembling a plain class

Assembled, a plain class on which the plan has been carried out is the one that
`PlainClass.settled` describes: the new class line, the fields, the constructor, the members and the
closing brace.
-/

namespace DartData

open List Text

/-! ## §1. Lines and fields. -/

namespace SourceClass

/-- Lines that stand as they are. -/
theorem assembleLines_kept {c : SourceClass} {line : Text} {body : List Text} {first last : Int}
    (k : Nat) (hk : k ≤ body.length)
    (h : ∀ i l, i < k → body[i]? = some l → ∀ after,
      c.assembleLine (line :: body) first last (i + 1) after = .ok (l ++ '\n' :: after)) :
    ∀ after, c.assembleLines (line :: body) first last (k + 1) after
      = c.assembleLine (line :: body) first last 0 (endLines (body.take k) ++ after) := by
  induction k with
  | zero =>
    intro after
    rw [take_zero, endLines_nil, nil_append]
    show (do let t ← c.assembleLine (line :: body) first last 0 after; Except.ok t) = _
    cases c.assembleLine (line :: body) first last 0 after <;> rfl
  | succ k ih =>
    intro after
    obtain ⟨l, hl⟩ : ∃ l, body[k]? = some l := ⟨_, getElem?_eq_getElem (by omega)⟩
    show (do let t ← c.assembleLine (line :: body) first last (k + 1) after
             c.assembleLines (line :: body) first last (k + 1) t) = _
    rw [h k l (by omega) hl]
    show c.assembleLines (line :: body) first last (k + 1) (l ++ '\n' :: after) = _
    rw [ih (by omega) fun i l' hi => h i l' (by omega)]
    congr 1
    rw [take_add_one, hl]
    simp

/-- The class line is written anew. -/
theorem assembleLine_header {c : SourceClass} {n : Int} (hoffset : c.headOffset n = 0)
    (habstract : c.isAbstract = false) {header : Text} (hbrace : '{' ∈ header) (body : List Text)
    (last : Int) (after : Text) :
    c.assembleLine (header :: body) n last 0 after = .ok (headLine c.head ++ '\n' :: after) := by
  have hhead : ((0 : Nat) : Int) ≤ c.headOffset n := by omega
  have hhas : has header "\x7b" := has_singleton_iff.mpr hbrace
  have hline : c.declarationLine = c.head.print false := by
    rw [declarationLine, habstract]
  rw [assembleLine]
  dsimp only [getElem?_cons_zero]
  rw [if_pos hhead, if_pos rfl, hoffset]
  show (let brace : Text := if has header "\x7b" then " \x7b" else []
    Except.ok (of [c.declarationLine, brace, "\n", after])) = _
  rw [hhas, hline]
  show Except.ok (of [_, " \x7b", "\n", after]) = Except.ok (headLine _ ++ '\n' :: after)
  simp only [of, flatten_cons, flatten_nil, append_nil, headLine,
    append_assoc]
  rfl

end SourceClass

theorem mem_headLine (head : Declaration) : '{' ∈ headLine head :=
  mem_append_right _ (by decide)

/-- The edit turns the class `p`, which begins on the line `n`, into `q`.  Without an edit they are
    the same. -/
def ClassParts.TurnsInto (p q : ClassParts) (n : Int) : Option ClassEdit → Prop
  | none => q.lines = p.lines
  | some e => e.placed = { first := n, last := n + p.lines.length - 1, lines := q.lines }

theorem ClassParts.turnsInto_edit {p q : ClassParts} {n : Int} {c : SourceClass}
    (hfirst : c.first = some n) (hlast : c.last = some (n + p.lines.length - 1)) (hq : q.IsLined) :
    p.TurnsInto q n (some (c.edit (unlines q.lines))) := by
  show ClassEdit.placed _ = _
  simp only [SourceClass.edit, ClassEdit.placed, hfirst, hlast, Option.getD_some, hq.lines_content]

theorem getLast?_fieldsFrom (fs : List PlainField) (f : PlainField) (n : Int) :
    (fieldsFrom n (fs ++ [f])).getLast? = some (f.field (n + fs.length)) := by
  induction fs generalizing n with
  | nil => simp [fieldsFrom]
  | cons g fs ih =>
    have hne : fieldsFrom (n + 1) (fs ++ [f]) ≠ [] := by
      intro h
      have := ih (n + 1)
      simp [h] at this
    rw [cons_append, fieldsFrom, getLast?_cons_of_ne_nil hne, ih, length_cons]
    congr 2
    omega

theorem map_name_fieldsFrom (fs : List PlainField) (n : Int) :
    (fieldsFrom n fs).map Field.name = fs.map PlainField.name := by
  induction fs generalizing n with
  | nil => rfl
  | cons f fs ih =>
    rw [fieldsFrom, map_cons, map_cons, ih, f.name_field]

namespace PlainClass

variable {c : PlainClass} {r : Request} {item : MemberKind → Item} {n : Int}

/-! ## §2. One line. -/

/-- The class after the plan has been carried out. -/
def finished (c : PlainClass) (r : Request) (item : MemberKind → Item) (n : Int) : SourceClass :=
  c.drafted r n r.adopts (c.settled r item).items

theorem exists_last (c : PlainClass) : ∃ fs f, c.fields = fs ++ [f] :=
  ⟨_, _, (dropLast_concat_getLast c.fields_ne).symm⟩

theorem isValid_of {d : SourceClass} (h : d.IsPlain c.name c.fields) (hf : d.first.isSome)
    (hl : d.last.isSome) : d.isValid := by
  obtain ⟨a, ha⟩ := h.fields_eq
  have hempty : d.fields.isEmpty = false := by
    rw [isEmpty_eq_false_iff]
    exact h.fields_ne_nil
  have hdistinct : d.hasDistinctNames := by
    rw [SourceClass.hasDistinctNames, ha, map_name_fieldsFrom, decide_eq_true_eq]
    exact c.distinct
  rw [SourceClass.isValid, hf, hl, h.name_eq, hempty, hdistinct]
  rfl

section

variable (c r item n)

theorem last_finished : (c.finished r item n).last = some (n + c.lines.length - 1) := by
  rw [← c.lines_parts]
  show (c.rebuilt r n).last = _
  rw [rebuilt]
  split <;> rfl

theorem isPlain_finished : (c.finished r item n).IsPlain c.name c.fields :=
  c.isPlain_of (name_plainHead _ _ _) (generics_plainHead _ _ _) (c.isPlain_rebuilt r n).fields_eq

theorem isValid_finished : (c.finished r item n).isValid := by
  refine isValid_of (c.isPlain_finished r item n) ?_ ?_
  · show (c.rebuilt r n).first.isSome
    rw [first_rebuilt]
    rfl
  · rw [last_finished]
    rfl

theorem headOffset_finished : (c.finished r item n).headOffset n = 0 := by
  have hlast : (c.finished r item n).headLast = some n := by
    show (c.rebuilt r n).headLast = _
    rw [rebuilt]
    split <;> rfl
  simp only [SourceClass.headOffset, hlast, Option.getD_some]
  split <;> omega

theorem fieldsLast_finished : (c.finished r item n).fieldsLast = n + c.fields.length := by
  obtain ⟨fs, f, hfs⟩ := c.exists_last
  have hfields : (c.finished r item n).fields = fieldsFrom (n + 1) (fs ++ [f]) := by
    rw [← hfs]
    show (c.rebuilt r n).fields = _
    rw [rebuilt]
    split <;> rfl
  rw [SourceClass.fieldsLast, hfields, getLast?_fieldsFrom, hfs, length_append,
    length_singleton]
  show n + 1 + (fs.length : Int) = n + (fs.length + 1 : Nat)
  omega

theorem constructorFirst_finished : (c.finished r item n).constructorFirst = none := by
  show (c.rebuilt r n).constructorFirst = none
  rw [rebuilt]
  split <;> rfl

theorem replaced_finished : (c.finished r item n).replaced = [] := by
  show (c.rebuilt r n).replaced = []
  rw [rebuilt]
  split <;> rfl

theorem text_finished : (c.finished r item n).constructorText
    = if r.rebuilds then some (endLines (c.constructor r).lines) else none := c.text_rebuilt r n

/-- The constructor with the empty line above it, as text. -/
theorem endLines_constructorItems : endLines (itemLines (c.settled r item).constructorItems)
    = if r.rebuilds then '\n' :: endLines (c.constructor r).lines else [] := by
  rw [constructorItems_settled]
  split
  · simp [Item.blank, Item.lines]
  · rfl

end

variable {ls : List Text} {l : Text} {i : Nat} {last : Int}

/-- A line below the class line, by its number. -/
theorem assembleLine_below (hl : ls[i + 1]? = some l) (after : Text) :
    (c.finished r item n).assembleLine ls n last (i + 1) after
      = if i + 1 = c.fields.length && r.rebuilds then
          .ok (of [l, "\n\n", endLines (c.constructor r).lines, after])
        else if n + (i + 1 : Nat) = last then
          .ok (of [endLines (itemLines (c.settled r item).items), l, "\n", after])
        else .ok (of [l, "\n", after]) := by
  have hhead : ¬ ((i + 1 : Nat) : Int) ≤ (c.finished r item n).headOffset n := by
    rw [headOffset_finished]
    omega
  have hhas : (c.finished r item n).hasConstructor = false := by
    rw [SourceClass.hasConstructor, constructorFirst_finished]
    rfl
  have hold : ∀ m, (c.finished r item n).inOldConstructor m = false := by
    intro m
    rw [SourceClass.inOldConstructor, constructorFirst_finished]
  have hreplaced : ∀ m, (c.finished r item n).replacementAt m = none := by
    intro m
    rw [SourceClass.replacementAt, replaced_finished]
    rfl
  have hfields : (n + ((i + 1 : Nat) : Int) == n + (c.fields.length : Int))
      = decide (i + 1 = c.fields.length) := by
    rw [Bool.eq_iff_iff, beq_iff_eq, decide_eq_true_eq]
    omega
  have htext : (c.finished r item n).constructorText.isSome = r.rebuilds := by
    rw [text_finished]
    split <;> simp_all
  -- the line is not of the head, of an old constructor or of a member: two tests are left
  rw [SourceClass.assembleLine, hl]
  dsimp only
  rw [if_neg hhead, fieldsLast_finished, hfields, htext, hhas, isValid_finished, hold, hreplaced]
  simp only [Bool.not_false, Bool.and_true, beq_iff_eq, Bool.false_eq_true, if_false]
  split
  · next hc =>
    rw [Bool.and_eq_true] at hc
    rw [text_finished, if_pos hc.2]
    rfl
  · rfl

/-- The class line is written anew. -/
theorem assembleLine_first {body : List Text} (after : Text) :
    (c.finished r item n).assembleLine (c.parts.header :: body) n last 0 after
      = .ok ((c.settled r item).header ++ '\n' :: after) := by
  have hheader : c.parts.header = headLine (plainHead c.name false false) := rfl
  have habstract : (c.finished r item n).isAbstract = false := by
    rw [← isAbstract_scanned hheader n, SourceClass.isAbstract, SourceClass.isAbstract]
    exact congrArg (fun t => startsWith (trimStart t) "abstract class") (c.content_rebuilt r n)
  exact SourceClass.assembleLine_header (c.headOffset_finished r item n) habstract
    (mem_headLine (plainHead c.name false false)) body last after

/-! ## §3. The class. -/

/-- The last field line, with the constructor below it. -/
theorem assembleLine_last_field (hl : ls[i + 1]? = some l) (hi : i + 1 = c.fields.length)
    (hlast : n + (i + 1 : Nat) ≠ last) (after : Text) :
    (c.finished r item n).assembleLine ls n last (i + 1) after
      = .ok (l ++ '\n' :: (endLines (itemLines (c.settled r item).constructorItems) ++ after)) := by
  rw [assembleLine_below hl, endLines_constructorItems, hi]
  cases r.rebuilds with
  | true =>
    simp only [decide_true, Bool.and_self, if_true, of, flatten_cons, flatten_nil,
      append_nil, cons_append]
    rfl
  | false =>
    rw [← hi, if_neg (by simp), if_neg hlast]
    simp only [of, flatten_cons, flatten_nil, append_nil, Bool.false_eq_true,
      if_false, nil_append]
    rfl

/-- **The finished class is assembled to the lines of the settled one.** -/
theorem assemble_finished (c : PlainClass) (r : Request) (item : MemberKind → Item) (n : Int) :
    (c.finished r item n).assemble = .ok (unlines (c.settled r item).lines) := by
  obtain ⟨fs, f, hfs⟩ := c.exists_last
  let body : List Text := fs.map PlainField.line ++ [f.line, ['}']]
  have hlen : c.fields.length = fs.length + 1 := by simp [hfs]
  have hlines : c.parts.lines = c.parts.header :: body := by
    rw [ClassParts.lines_eq, show c.parts.fields = c.fields from rfl, hfs, map_append,
      append_assoc]
    rfl
  have hcount : c.lines.length = fs.length + 3 := by
    rw [← c.lines_parts, hlines]
    simp [body]
  have hcontent : (c.finished r item n).content.lines = c.parts.header :: body := by
    show (c.rebuilt r n).content.lines = _
    rw [content_rebuilt, c.isLined_parts.lines_content, hlines]
  have hlast : (n + c.lines.length - 1 - n + 1).toNat = fs.length + 3 := by omega
  -- from the closing brace upwards
  have hbrace : ∀ after, (c.finished r item n).assembleLine (c.parts.header :: body) n
      (n + c.lines.length - 1) (fs.length + 2) after
      = .ok (endLines (itemLines (c.settled r item).items) ++ ('}' :: '\n' :: after)) := by
    intro after
    have hl : (c.parts.header :: body)[fs.length + 1 + 1]? = some ['}'] := by simp [body]
    rw [assembleLine_below hl, if_neg (by simp [hlen]), if_pos (by omega)]
    simp [of]
  have hfield : ∀ after, (c.finished r item n).assembleLine (c.parts.header :: body) n
      (n + c.lines.length - 1) (fs.length + 1) after = .ok (f.line ++ '\n' ::
        (endLines (itemLines (c.settled r item).constructorItems) ++ after)) := by
    intro after
    exact assembleLine_last_field (by simp [body]) hlen.symm (by omega) after
  have hkept : ∀ after, (c.finished r item n).assembleLines (c.parts.header :: body) n
      (n + c.lines.length - 1) (fs.length + 1) after
      = (c.finished r item n).assembleLine (c.parts.header :: body) n (n + c.lines.length - 1) 0
        (endLines (body.take fs.length) ++ after) := by
    refine SourceClass.assembleLines_kept fs.length (by simp [body]) fun i l hi hl after => ?_
    rw [assembleLine_below (by simpa using hl), if_neg (by simp; omega), if_neg (by omega)]
    simp [of]
  have hassembled : (c.finished r item n).assembleLines (c.parts.header :: body) n
      (n + c.lines.length - 1) (fs.length + 3) [] = .ok (endLines (c.settled r item).lines) := by
    rw [SourceClass.assembleLines, hbrace]
    show SourceClass.assembleLines _ _ _ _ (fs.length + 2) _ = _
    rw [SourceClass.assembleLines, hfield]
    show SourceClass.assembleLines _ _ _ _ (fs.length + 1) _ = _
    rw [hkept, assembleLine_first]
    have hsettled : (c.settled r item).lines = (c.settled r item).header
        :: (fs.map PlainField.line ++ f.line :: (itemLines (c.settled r item).constructorItems
          ++ (itemLines (c.settled r item).items ++ [['}']]))) := by
      rw [ClassParts.lines_eq, show (c.settled r item).fields = c.fields from rfl, hfs,
        map_append, append_assoc]
      rfl
    rw [hsettled]
    simp [body]
  have hfirst : (c.finished r item n).first = some n := c.first_rebuilt r n
  rw [SourceClass.assemble, hfirst, last_finished]
  dsimp only
  rw [hcontent, hlast, hassembled]
  show Except.ok ((endLines (c.settled r item).lines).removeEnd ['\n']) = _
  rw [removeEnd_endLines (ClassParts.lines_ne_nil _)]

/-- Without an edit the class is settled already. -/
theorem lines_settled_of_unchanged (h : (c.finished r item n).isChanged = false) :
    (c.settled r item).lines = c.lines := by
  rw [SourceClass.isChanged, Bool.or_eq_false_iff, Bool.or_eq_false_iff, Bool.or_eq_false_iff] at h
  obtain ⟨⟨⟨hins, -⟩, hcon⟩, hhead⟩ := h
  have hitems : itemLines (c.settled r item).items = [] := by
    have hins : endLines (itemLines (c.settled r item).items) = [] := by
      simpa [finished, drafted] using hins
    cases hls : itemLines (c.settled r item).items with
    | nil => rfl
    | cons l ls => simp [hls] at hins
  have hrebuilds : r.rebuilds = false := by
    cases hr : r.rebuilds with
    | false => rfl
    | true => simp [finished, drafted, rebuilt, hr] at hcon
  have hadopts : r.adopts = false := hhead
  have hcons : (c.settled r item).constructorItems = [] := by
    rw [constructorItems_settled, hrebuilds]
    rfl
  have hheader : (c.settled r item).header = c.parts.header := by
    show headLine (plainHead c.name r.adopts _) = _
    rw [hadopts]
    rfl
  rw [← c.lines_parts, ClassParts.lines_eq, ClassParts.lines_eq, hitems, hcons, hheader]
  rfl

/-- **Work on a plain class** settles it. -/
theorem run_revise_parts (h : c.Writes r item) (n : Int) (d : Directives) :
    ∃ edit c', (Work.revise r).run ⟨c.parts.scanned n, d⟩
      = .ok edit ⟨c', d.requireAll (c.imports r)⟩
      ∧ c.parts.TurnsInto (c.settled r item) n edit := by
  refine ⟨_, _, Work.run_revise (run_performAll h n d) (c.assemble_finished r item n), ?_⟩
  split
  · refine ClassParts.turnsInto_edit (c.first_rebuilt r n) ?_ (isLined_settled h)
    rw [c.lines_parts]
    exact c.last_finished r item n
  · next hsame =>
    show (c.settled r item).lines = c.parts.lines
    rw [lines_settled_of_unchanged (Bool.eq_false_iff.mpr hsame), c.lines_parts]

end PlainClass

end DartData
