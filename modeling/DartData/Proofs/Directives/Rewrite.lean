import DartData.Proofs.Directives.Requested

/-!
# What becomes of the directives that are written over

The block of directives gives way to one in the order of the groups.  The lines above and below it
stay as they are.  Of the block itself its directives stay, line by line and without the blanks
around them; what else stands in it are blank lines and names of the library, and these are lost.  A
directive that goes on below its line is torn apart, unless its line comes last again.

Main statement: **`generate_rewrites_directives`**.
-/

namespace DartData

open List Text

/-! ## §1. The lines of a block. -/

namespace Text

/-- Lines that are put together come apart again, each into its lines. -/
theorem lines_unlines_flatMap {ls : List Text} (hne : ls ≠ []) :
    (unlines ls).lines = ls.flatMap lines := by
  induction ls with
  | nil => exact absurd rfl hne
  | cons l ls ih =>
    by_cases hls : ls = []
    · simp [hls, unlines]
    · have happ : unlines (l :: ls) = l ++ '\n' :: unlines ls := by
        rw [unlines, join_cons hls]
        simp [unlines]
      rw [happ, lines, split_append_sep, flatMap_cons, ← ih hls]
      rfl

theorem flatMap_lines_eq_self {ls : List Text} (h : ∀ l ∈ ls, '\n' ∉ l) :
    ls.flatMap lines = ls := by
  have hsingle : ls.flatMap lines = ls.flatMap ([·]) :=
    flatMap_congr fun l hl => lines_of_not_mem (h l hl)
  rw [hsingle, flatMap_singleton']

end Text

/-- Whether a line is not blank. -/
def isFilled (l : Text) : Bool := !l.allBlank

theorem isFilled_of_isDirective {l : Text} (h : isDirective l.trim) : isFilled l := by
  rw [isFilled, Directives.not_allBlank_of_isDirective h]
  rfl

/-- Of the lines between groups nothing is filled. -/
theorem filter_flatMap_blockLines (gs : List (List Text)) :
    ((blockLines gs).flatMap lines).filter isFilled
      = (gs.flatten.flatMap lines).filter isFilled := by
  induction gs with
  | nil => rfl
  | cons g gs ih =>
    cases gs with
    | nil => simp [blockLines]
    | cons h gs =>
      have hblank : (lines []).filter isFilled = [] := rfl
      rw [blockLines, flatMap_append, flatMap_cons, filter_append,
        filter_append, hblank, nil_append, ih]
      simp [flatMap_append]

namespace Directives

variable {package : Option Text}

theorem blockLines_ne_nil {vs : List Text} (h : vs ≠ []) :
    blockLines (sortedGroups package vs) ≠ [] := by
  obtain ⟨l, ls, hl, -⟩ := block_cons package h
  rw [hl]
  exact cons_ne_nil l ls

/-- The filled lines that are written are those of the directives, in another order. -/
theorem perm_lines_format {d : Directives} (h : d.values ≠ []) :
    ((d.format package).lines.filter isFilled).Perm ((d.values.flatMap lines).filter isFilled) := by
  rw [format_eq_blockLines, lines_unlines_flatMap (blockLines_ne_nil h), filter_flatMap_blockLines]
  exact ((perm_flatten_sortedGroups package d.values).flatMap_right lines).filter _

/-! ## §2. The place of the edit. -/

/-- The directives of a text stand in its lines `block` between `above` and `below`, and an edit
    puts the lines `new` in their place.  Where there are none, it puts them at the top. -/
structure Splices (text : Text) (d : Directives) (package : Option Text) (e : DirectiveEdit)
    (above block below new : List Text) : Prop where
  lines_eq : text.lines = above ++ (block ++ below)
  edit_eq : e.toEdit
    = { first := above.length + 1, last := above.length + block.length, lines := new }
  values_eq : (read text).values = blockDirectives block
  no_directive : ∀ l ∈ above, isDirective l.trim = false
  headward : ∀ l ∈ above ++ block, isHeadward l = true
  passed : ∀ l ∈ block, isDirective l.trim = true ∨ standsAtHead true l = true
  nothing_below : block ≠ [] → headDirectives true below = []
  new_eq : (block ≠ [] ∧ new = (d.format package).lines)
    ∨ (above = [] ∧ block = [] ∧ new = (d.format package).lines ++ [[]])

/-- An edit of directives is one splice. -/
theorem edit?_splices {text : Text} {d : Directives} {e : DirectiveEdit} (hk : d.Keeps (read text))
    (h : d.edit? package = some e) :
    ∃ above block below new, Splices text d package e above block below new := by
  have htext : e.text = d.format package := by
    unfold edit? at h
    split at h
    · rw [← Option.some.inj h]
    · simp at h
  rcases edit?_place hk h with ⟨hf, hl⟩ | ⟨a, b, ha, hb, hstands⟩
  · have hfirst : (read text).first = none := by
      rcases read_standsIn text with ⟨hnone, -⟩ | ⟨a, b, hst⟩
      · exact hnone
      · -- with a place, the edit would have it too
        have h₁ : d.first = some a := hk.1.trans hst.first_eq
        have h₂ : d.last = some b := hk.2.trans hst.last_eq
        unfold edit? at h
        split at h
        · rw [← Option.some.inj h] at hf
          simp [hasPlace, h₁, h₂] at hf
        · simp at h
    refine ⟨[], [], text.lines, (d.format package).lines ++ [[]], rfl, ?_, ?_, by simp, by simp,
      by simp, by simp, .inr ⟨rfl, rfl, rfl⟩⟩
    · simp [DirectiveEdit.toEdit, hf, hl, htext]
    · exact read_values_of_first hfirst
  · obtain ⟨above, block, below, hlines, hblock, rfl, rfl⟩ := hstands.cut
    obtain ⟨l, mid, hbegin, -⟩ := hblock.begins
    refine ⟨above, block, below, (d.format package).lines, hlines, ?_, ?_, hblock.no_directive,
      hblock.headward, hblock.passed, fun _ => hblock.nothing_below,
      .inl ⟨by rw [hbegin]; exact cons_ne_nil l mid, rfl⟩⟩
    · simp [DirectiveEdit.toEdit, ha, hb, htext]
    · rw [(read_eq text).2.1, hlines, hblock.headDirectives_eq]

namespace Splices

variable {text : Text} {d : Directives} {e : DirectiveEdit} {above block below new : List Text}

section

variable (h : Splices text d package e above block below new)
include h

theorem not_mem_new : ∀ l ∈ new, '\n' ∉ l := by
  intro l hl
  rcases h.new_eq with ⟨-, rfl⟩ | ⟨-, -, rfl⟩
  · exact not_mem_of_mem_lines hl
  · rcases mem_append.mp hl with hl | hl
    · exact not_mem_of_mem_lines hl
    · rw [mem_singleton.mp hl]
      exact not_mem_nil

theorem new_ne_nil : new ≠ [] := by
  rcases h.new_eq with ⟨-, rfl⟩ | ⟨-, -, rfl⟩
  · exact lines_ne_nil _
  · simp

theorem replaceFrom_eq (es : List Edit) : Edit.replaceFrom 0 text.lines (e.toEdit :: es)
      = above ++ new ++ Edit.replaceFrom (above.length + block.length) below es := by
  have htake : (((above.length : Int) + 1 - 1).toNat - 0) = above.length := by omega
  have hlast : ((above.length : Int) + block.length).toNat = above.length + block.length := by omega
  rw [Edit.replaceFrom, h.edit_eq, h.lines_eq]
  dsimp only
  rw [htake, hlast, Nat.sub_zero, take_left, ← append_assoc above block,
    ← length_append, drop_left]

/-- Worked in by itself, the edit leaves the lines above and below the block. -/
theorem apply_eq : ∃ out, Edits.apply { directives := some e } text = .ok out
      ∧ out.lines = above ++ (new ++ below) := by
  have hdisjoint : Edits.Disjoint { directives := some e } text.lines.length := by
    refine ⟨by simp, fun f hf => ?_, pairwise_singleton _ _⟩
    obtain rfl : f = e.toEdit := by simpa [Edits.topDown] using hf
    rw [h.edit_eq, h.lines_eq, Edit.Inside]
    simp only [length_append]
    omega
  refine ⟨_, Edits.apply_eq hdisjoint, ?_⟩
  have hreplace := h.replaceFrom_eq []
  rw [Edit.replaceFrom, append_assoc] at hreplace
  rw [show Edits.topDown { directives := some e } = [e.toEdit] from rfl, hreplace]
  refine lines_unlines (by simp [h.new_ne_nil]) fun l hl => ?_
  have hline : ∀ l, l ∈ above ∨ l ∈ below → '\n' ∉ l := fun l hl =>
    not_mem_of_mem_lines (t := text) (by rw [h.lines_eq]; grind)
  rcases mem_append.mp hl with hl | hl
  · exact hline l (.inl hl)
  · rcases mem_append.mp hl with hl | hl
    · exact h.not_mem_new l hl
    · exact hline l (.inr hl)

/-- The directives of the block are lines by themselves. -/
theorem flatMap_lines :
    ((blockDirectives block).flatMap lines).filter isFilled = blockDirectives block := by
  have hlines : ∀ v ∈ blockDirectives block, '\n' ∉ v ∧ isFilled v := by
    intro v hv
    obtain ⟨l, hl, rfl⟩ := mem_map.mp hv
    obtain ⟨hl, hd⟩ := mem_filter.mp hl
    have hmem : l ∈ text.lines := by
      rw [h.lines_eq]
      exact mem_append_right _ (mem_append_left _ hl)
    refine ⟨fun hn => not_mem_of_mem_lines hmem (l.trim_sublist.subset hn), ?_⟩
    exact isFilled_of_isDirective (by rwa [trim_trim])
  rw [flatMap_lines_eq_self fun v hv => (hlines v hv).1, filter_eq_self]
  exact fun v hv => (hlines v hv).2

end

end Splices

theorem found_requireAll (text : Text) (is : List RequiredImport) :
    ((read text).requireAll is).found = endLines (read text).values := by
  rw [requireAll_eq]
  show (read text).found = _
  rw [(read_eq text).2.2, ← (read_eq text).2.1]

variable {text : Text} {is : List RequiredImport} {e : DirectiveEdit}

/-- A block without directives is not changed. -/
theorem values_ne_nil (h : ((read text).requireAll is).edit? package = some e) :
    ((read text).requireAll is).values ≠ [] := by
  intro hnil
  have hread : (read text).values = [] := by
    have happ := ((read text).adds is).values_eq
    rw [hnil] at happ
    exact (append_eq_nil_iff.mp happ.symm).1
  unfold edit? at h
  split at h
  · next hchanged =>
    rw [isChanged, found_requireAll, hread, format_eq_blockLines, hnil] at hchanged
    have hgroups : sortedGroups package [] = [] := rfl
    rw [hgroups] at hchanged
    exact absurd hchanged (by decide)
  · simp at h

/-- **The filled lines that are written are the directives of the block and what is added.** -/
theorem Splices.perm_new {above block below new : List Text}
    (h : Splices text ((read text).requireAll is) package e above block below new)
    (hne : ((read text).requireAll is).values ≠ []) :
    (new.filter isFilled).Perm
      (blockDirectives block ++ (((read text).added is).flatMap lines).filter isFilled) := by
  have hformat : new.filter isFilled
      = (((read text).requireAll is).format package).lines.filter isFilled := by
    rcases h.new_eq with ⟨-, rfl⟩ | ⟨-, -, rfl⟩
    · rfl
    · rw [filter_append]
      exact append_nil _
  have hvalues : (((read text).requireAll is).values.flatMap lines).filter isFilled
      = blockDirectives block ++ (((read text).added is).flatMap lines).filter isFilled := by
    rw [((read text).adds is).values_eq, h.values_eq, flatMap_append, filter_append,
      h.flatMap_lines]
  rw [hformat, ← hvalues]
  exact perm_lines_format hne

end Directives

/-! ## §3. Statements. -/

/-- The lines of a statement that begins with a directive.  It ends on the first line with a
    semicolon. -/
structure IsStatement (st : List Text) : Prop where
  begins : ∃ l rest, st = l :: rest ∧ isDirective l.trim = true
  ends : ∃ front l, st = front ++ [l] ∧ ';' ∈ l ∧ ∀ x ∈ front, ';' ∉ x

/-- The directives of a block end on their lines.  The last line of the block is free to go on below
    if it comes last again. -/
structure Unbroken (block new : List Text) : Prop where
  inner : ∀ l ∈ block.dropLast, isDirective l.trim = true → ';' ∈ l
  last : ∀ l ∈ block.getLast?, isDirective l.trim = true → ';' ∈ l ∨ new.getLast? = some l.trim

variable {l text : Text} {r : Request}

theorem IsStatement.eq_singleton {rest : List Text} (h : IsStatement (l :: rest)) (hl : ';' ∈ l) :
    rest = [] := by
  obtain ⟨front, m, heq, -, hfront⟩ := h.ends
  cases front with
  | nil => exact (cons_eq_cons.mp heq).2
  | cons x front =>
    obtain ⟨rfl, -⟩ := cons_eq_cons.mp heq
    exact absurd hl (hfront l mem_cons_self)

/-- A line of two lists together stands in the one or in the other. -/
theorem cut_at_line {a b front back : List Text} (h : front ++ l :: back = a ++ b) :
    (∃ a', a = front ++ l :: a' ∧ back = a' ++ b) ∨ ∃ b', b = b' ++ l :: back := by
  rcases append_eq_append_iff.mp h with ⟨a', ha, hl⟩ | ⟨b', -, hb⟩
  · cases a' with
    | nil => exact .inr ⟨[], hl.symm⟩
    | cons x a' =>
      obtain ⟨rfl, rfl⟩ := cons_eq_cons.mp hl
      exact .inl ⟨a', ha, rfl⟩
  · exact .inr ⟨b', hb⟩

/-- **Statements stay whole** where the directives of the block end on their lines. -/
theorem statement_stays {above block below new : List Text}
    (habove : ∀ l ∈ above, isDirective l.trim = false)
    (hnew : ∀ l ∈ block, isDirective l.trim → l.trim ∈ new) (hbroken : Unbroken block new)
    {st : List Text} (hst : IsStatement st) (hin : st <:+: above ++ (block ++ below)) :
    st.map trim <:+: (above ++ (new ++ below)).map trim := by
  obtain ⟨l, rest, rfl, hl⟩ := hst.begins
  obtain ⟨front, back, hcut⟩ := hin
  -- a line of the block that ends its statement is the whole of it
  have hline : l ∈ block → ';' ∈ l →
      (l :: rest).map trim <:+: (above ++ (new ++ below)).map trim := by
    intro hmem hsemi
    obtain ⟨new₁, new₂, rfl⟩ := append_of_mem (hnew l hmem hl)
    refine ⟨(above ++ new₁).map trim, (new₂ ++ below).map trim, ?_⟩
    simp [hst.eq_singleton hsemi, trim_trim]
  rw [append_assoc, cons_append] at hcut
  rcases cut_at_line hcut with ⟨a, rfl, -⟩ | ⟨b', hrest⟩
  · exact absurd (habove l (by simp)) (by simp [hl])
  rcases cut_at_line hrest.symm with ⟨b₂, hblock, hrest⟩ | ⟨c, hbelow⟩
  · have hmem : l ∈ block := by simp [hblock]
    by_cases hlast : b₂ = []
    · rcases hbroken.last l (by simp [hblock, hlast]) hl with hsemi | hagain
      · exact hline hmem hsemi
      · obtain ⟨new', rfl⟩ := getLast?_eq_some_iff.mp hagain
        refine ⟨(above ++ new').map trim, back.map trim, ?_⟩
        have hbelow : below = rest ++ back := by rw [hrest, hlast, nil_append]
        simp [hbelow, trim_trim]
    · refine hline hmem (hbroken.inner l ?_ hl)
      rw [hblock, dropLast_append_of_ne_nil (cons_ne_nil l b₂),
        dropLast_cons_of_ne_nil hlast]
      simp
  · have hstays : l :: rest <:+: above ++ (new ++ below) :=
      ⟨above ++ (new ++ c), back, by rw [hbelow]; simp⟩
    exact hstays.map trim

/-! ## §4. The edit of a result. -/

/-- What the edit of the directives does, worked in by itself.  The block gives way to lines that
    hold its directives and the added ones and otherwise blanks.  Only names of the library are
    lost, and statements stay whole unless a directive of the block is broken. -/
structure DirectiveEdit.Rewrites (e : DirectiveEdit) (text : Text) (r : Request)
    (above block below new : List Text) (out : Text) : Prop where
  lines_eq : text.lines = above ++ (block ++ below)
  edit_eq : e.toEdit
    = { first := above.length + 1, last := above.length + block.length, lines := new }
  apply_eq : Edits.apply { directives := some e } text = .ok out
  out_eq : out.lines = above ++ (new ++ below)
  written : (new.filter isFilled).Perm (Directives.blockDirectives block
    ++ (((Directives.read text).added (r.needsIn text)).flatMap lines).filter isFilled)
  added_wanted : ∀ v ∈ (Directives.read text).added (r.needsIn text),
    ∃ i ∈ r.needsIn text, v = Directives.wanted i
  only_directives : r.HasLineName →
    ∀ l ∈ new, isFilled l = true → isDirective l.trim = true
  lost : ∀ l ∈ block, isFilled l = true → isDirective l.trim = false →
    l.trim.startsWith "library" = true
  statements : Unbroken block new →
    ∀ st, IsStatement st → st <:+: text.lines → st.map trim <:+: out.lines.map trim

theorem isDirective_added {v : Text} (h : v ∈ (Directives.read text).added (r.needsIn text)) :
    isDirective v.trim := by
  obtain ⟨i, hi, rfl⟩ := ((Directives.read text).adds _).are_wanted v h
  obtain ⟨c, hc⟩ := Request.needs_of_mem_needsIn hi
  rw [trim_wanted hc]
  exact isDirective_wanted i

/-- What is added are lines, if the name of the file is one. -/
theorem lines_added (hname : r.HasLineName) (text : Text) :
    ((Directives.read text).added (r.needsIn text)).flatMap lines
      = (Directives.read text).added (r.needsIn text) := by
  refine flatMap_lines_eq_self fun v hv => ?_
  obtain ⟨i, hi, rfl⟩ := ((Directives.read text).adds _).are_wanted v hv
  obtain ⟨c, hc⟩ := Request.needs_of_mem_needsIn hi
  exact not_mem_wanted hc hname

/-- Where nothing is written, nothing is added. -/
theorem added_eq_nil {package : Option Text}
    (h : ((Directives.read text).requireAll (r.needsIn text)).edit? package = none) :
    (Directives.read text).added (r.needsIn text) = [] := by
  have hadds := (Directives.read text).adds (r.needsIn text)
  cases hadded : (Directives.read text).added (r.needsIn text) with
  | nil => rfl
  | cons v vs =>
    have hv : v ∈ (Directives.read text).added (r.needsIn text) := by simp [hadded]
    have hfilled : v.squeeze ≠ [] := by
      intro hnil
      have hblank : v.allBlank :=
        all_eq_true.mpr fun x hx => by simpa using filter_eq_nil_iff.mp hnil x hx
      rw [Directives.not_allBlank_of_isDirective (isDirective_added hv)] at hblank
      exact Bool.false_ne_true hblank
    have hchanged : ((Directives.read text).requireAll (r.needsIn text)).isChanged package :=
      Directives.isChanged_of_append (Directives.found_requireAll text _) hadds.values_eq
        ⟨_, hv, hfilled⟩
    simp [Directives.edit?, hchanged] at h

namespace Directives.Splices

variable {text : Text} {r : Request} {package : Option Text} {e : DirectiveEdit}
  {above block below new : List Text}

section

variable
  (h : Splices text ((read text).requireAll (r.needsIn text)) package e above block below new)
  (hne : ((read text).requireAll (r.needsIn text)).values ≠ []) (hname : r.HasLineName)
include h hne hname

/-- The filled lines that are written are directives then, too. -/
theorem isDirective_new {l : Text} (hl : l ∈ new) (hfilled : isFilled l) : isDirective l.trim := by
  have hmem := (h.perm_new hne).subset (mem_filter.mpr ⟨hl, hfilled⟩)
  rcases mem_append.mp hmem with hmem | hmem
  · obtain ⟨k, hk, rfl⟩ := mem_map.mp hmem
    rw [trim_trim]
    exact (mem_filter.mp hk).2
  · rw [lines_added hname] at hmem
    exact isDirective_added (mem_filter.mp hmem).1

/-- What is written at the head of a file belongs there. -/
theorem headward_new : ∀ l ∈ above ++ new, isHeadward l := by
  intro l hl
  rcases mem_append.mp hl with hl | hl
  · exact h.headward l (mem_append_left _ hl)
  · cases hfilled : isFilled l with
    | true => rw [isHeadward, h.isDirective_new hne hname hl hfilled, Bool.true_or]
    | false =>
      have hblank : l.allBlank := by simpa [isFilled] using hfilled
      exact isHeadward_of_stands (standsAtHead_of_blank hblank false)

end

end Directives.Splices

/-- **What becomes of the directives that are written over.** -/
theorem generate_rewrites_directives {text : Text} {r : Request} {g : Generation}
    {e : DirectiveEdit} (h : generate text r = .ok g) (he : g.edits.directives = some e) :
    ∃ above block below new out, e.Rewrites text r above block below new out := by
  rw [generate_directives h] at he
  obtain ⟨above, block, below, new, hs⟩ :=
    Directives.edit?_splices (Directives.keeps_requireAll _ _) he
  obtain ⟨out, happly, hout⟩ := hs.apply_eq
  have hne := Directives.values_ne_nil he
  have hwritten := hs.perm_new hne
  refine ⟨above, block, below, new, out, hs.lines_eq, hs.edit_eq, happly, hout, hwritten,
    ((Directives.read text).adds _).are_wanted, fun hname l => hs.isDirective_new hne hname,
    fun l hl hfilled hno => ?_, fun hbroken st hst hin => ?_⟩
  · have hblank : l.trim.allBlank = false := by
      rw [allBlank_trim]
      simpa [isFilled] using hfilled
    simpa [hno, standsAtHead, hblank] using hs.passed l hl
  · rw [hs.lines_eq] at hin
    rw [hout]
    refine statement_stays hs.no_directive (fun l hl hd => ?_) hbroken hst hin
    have hmem : l.trim ∈ Directives.blockDirectives block :=
      mem_map_of_mem (mem_filter.mpr ⟨hl, hd⟩)
    exact (mem_filter.mp (hwritten.symm.subset (mem_append_left _ hmem))).1

/-- An import that goes on below its line comes last again and stays whole. -/
theorem generate_rewrites_wrapped_import :
    ∃ (text : Text) (r : Request) (g : Generation) (e : DirectiveEdit) (out : Text),
      generate text r = .ok g ∧ g.edits.directives = some e
      ∧ Edits.apply { directives := some e } text = .ok out
      ∧ ["import 'z.dart'".toList, "    show Z;".toList] <:+: text.lines
      ∧ ["import 'z.dart'".toList, "    show Z;".toList].map Text.trim
        <:+: out.lines.map Text.trim := by
  let text : Text := "import 'z.dart'\n    show Z;\nclass A \x7b\n  int x;\n\x7d"
  let r : Request := { category := some .serialization }
  let e : DirectiveEdit :=
    { first := some 1, last := some 1, text := "import 'dart:convert';\n\nimport 'z.dart'" }
  obtain ⟨h, hin, hagain⟩ : (generate text r).toOption.map (·.edits.directives) = some (some e)
      ∧ ["import 'z.dart'".toList, "    show Z;".toList] <:+: text.lines
      ∧ e.toEdit.lines.getLast? = some (trim "import 'z.dart'") := by decide +kernel
  have hst : IsStatement ["import 'z.dart'", "    show Z;"] :=
    ⟨⟨_, _, rfl, by decide⟩, ⟨[_], _, rfl, by decide, by decide⟩⟩
  simp only [Option.map_eq_some_iff, toOption_eq_some] at h
  obtain ⟨g, hg, he⟩ := h
  obtain ⟨above, block, below, new, out, hrw⟩ := generate_rewrites_directives hg he
  -- the edit tells where the block stands
  have hfirst : (1 : Int) = above.length + 1 := congrArg Edit.first hrw.edit_eq
  have hlast : (1 : Int) = above.length + block.length := congrArg Edit.last hrw.edit_eq
  have hnew : e.toEdit.lines = new := congrArg Edit.lines hrw.edit_eq
  have habove : above = [] := length_eq_zero_iff.mp (by omega)
  have hone : block.length = 1 := by omega
  obtain ⟨l, rfl⟩ := length_eq_one_iff.mp hone
  have hl : l = "import 'z.dart'" := by
    have hhead := congrArg head? hrw.lines_eq
    rw [habove] at hhead
    exact (Option.some.inj hhead).symm
  refine ⟨text, r, g, e, out, hg, he, hrw.apply_eq, hin, hrw.statements ⟨by simp, ?_⟩ _ hst hin⟩
  intro x hx _
  obtain rfl : l = x := by simpa using hx
  right
  rw [← hnew, hl, hagain]

/-- An import that goes on below its line and comes first by the order of the directives loses the
    line below it, and the name of the library is lost from the block. -/
theorem generate_tears_and_drops_lines :
    ∃ (text : Text) (r : Request) (g : Generation) (e : DirectiveEdit) (out : Text)
      (st : List Text) (l : Text), generate text r = .ok g ∧ g.edits.directives = some e
      ∧ Edits.apply { directives := some e } text = .ok out
      ∧ (IsStatement st ∧ st <:+: text.lines ∧ ¬ st.map Text.trim <:+: out.lines.map Text.trim)
      ∧ l ∈ text.lines ∧ isFilled l = true ∧ isDirective l.trim = false
      ∧ l.trim ∉ out.lines.map Text.trim := by
  let text : Text := "import 'b.dart';\nlibrary x;\nimport 'a.dart'\n    show A;\n"
  let e : DirectiveEdit :=
    { first := some 1, last := some 3, text := "import 'a.dart'\nimport 'b.dart';" }
  let out : Text := "import 'a.dart'\nimport 'b.dart';\n    show A;\n"
  let st : List Text := ["import 'a.dart'", "    show A;"]
  let l : Text := "library x;"
  have hst : IsStatement st := ⟨⟨_, _, rfl, by decide⟩, ⟨[_], _, rfl, by decide, by decide⟩⟩
  obtain ⟨h, hout, htorn, hdropped⟩ :
      (generate text {}).toOption.map (·.edits.directives) = some (some e)
      ∧ Edits.apply { directives := some e } text = .ok out
      ∧ (st <:+: text.lines ∧ ¬ st.map trim <:+: out.lines.map trim)
      ∧ l ∈ text.lines ∧ isFilled l = true ∧ isDirective l.trim = false
      ∧ l.trim ∉ out.lines.map trim := by decide +kernel
  simp only [Option.map_eq_some_iff, toOption_eq_some] at h
  obtain ⟨g, hg, he⟩ := h
  exact ⟨text, {}, g, e, out, st, l, hg, he, hout, ⟨hst, htorn⟩, hdropped⟩

end DartData
