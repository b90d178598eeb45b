import DartData.Proofs.Member.Placed
import DartData.Proofs.Scan.Depth

/-!
# Finding written members again

A member that was written into the body of a class is found there again: it begins with its
signature, and the depth of curly brackets leaves the body with its first line and comes back with
its last one.  This holds for every regular class, whatever its fields are (`findable_iff`).  Round
brackets come back to where they were too, with one exception: with default values, `fromMap` reads
an element that is itself a collection of plain values as in

    xs: List<List<int>>.from((map['xs'] as List<dynamic>).map<List<int>>((x) => x ?? const []),),),

where the default closes a bracket that was not opened.
-/

namespace DartData

open List Text

/-! ## §1. Brackets along the lines. -/

namespace Brackets

/-- How the depth goes from the body of a class through the lines of a member: an arrow and a
    semicolon on one line, or a block that the last line closes and no line before it. -/
def Spans (b : Brackets) (ls : List Text) : Prop :=
  (∃ l, ls = [l] ∧ l.has "=>" = true ∧ l.endsWith ";" = true ∧ (b.feed l).curly = 1)
    ∨ ((b.feedAll (ls.take 1)).curly = 2
      ∧ (∀ n, 0 < n → n < ls.length → 2 ≤ (b.feedAll (ls.take n)).curly)
      ∧ (b.feedAll ls).curly = 1)

/-- The depths inside of a block. -/
theorem curly_of_closes {ls : List Text} : ∀ {b : Brackets}, b.lexer = {} → Closes b.curly ls →
    (∀ n, 0 < n → n < ls.length → 2 ≤ (b.feedAll (ls.take n)).curly)
      ∧ (b.feedAll ls).curly = 1 := by
  induction ls with
  | nil => exact fun _ h => absurd h (by simp [Closes])
  | cons l ls ih =>
    rintro b hb ⟨d, hd, hrest⟩
    have hcurly := feed_curly hb hd
    rcases hrest with ⟨rfl, h1⟩ | ⟨h2, hcl⟩
    · exact ⟨fun n h0 hn => absurd hn (by simp; omega), hcurly.trans h1⟩
    · obtain ⟨hinner, hend⟩ := ih (feed_lexer hb hd) (hcurly ▸ hcl)
      refine ⟨fun n h0 hn => ?_, hend⟩
      obtain ⟨n, rfl⟩ := Nat.exists_eq_succ_of_ne_zero (Nat.ne_of_gt h0)
      cases n with
      | zero => exact hcurly ▸ h2
      | succ n => exact hinner (n + 1) (Nat.succ_pos n) (Nat.lt_of_succ_lt_succ hn)

/-- A member spans its lines. -/
theorem spans_item {i : Item} (hi : i.IsMember) (hend : i.rest = [] → i.first.endsWith ";")
    {b : Brackets} (hb : b.lexer = {}) (h1 : b.curly = 1) : b.Spans i.lines := by
  obtain ⟨first, rest⟩ := i
  rcases hi.1 with ⟨hr, hadd⟩ | ⟨hadd, hcl⟩
  · have hr : rest = [] := hr
    subst hr
    exact .inl ⟨first, rfl, (hi.2 rfl).1, hend rfl, by rw [feed_curly hb hadd, h1]; rfl⟩
  · have hcurly : (b.feed first).curly = 2 := by
      rw [feed_curly hb hadd, h1]
      rfl
    have hlines : Closes b.curly (first :: rest) := by
      rw [h1]
      exact ⟨1, hadd, .inr ⟨by decide, hcl⟩⟩
    exact .inr ⟨hcurly, curly_of_closes hb hlines⟩

theorem paren_feedAll {ls : List Text} {s : Int} (h : Lays (fun l j => Adds '(' ')' l j) ls s) :
    ∀ {b : Brackets}, b.lexer = {} →
      (b.feedAll ls).lexer = {} ∧ (b.feedAll ls).paren = b.paren + s := by
  induction h with
  | nil => exact fun hb => ⟨hb, (Int.add_zero _).symm⟩
  | cons hl _ ih =>
    intro b hb
    obtain ⟨hlexer, hparen⟩ := ih (feed_lexer hb hl)
    exact ⟨hlexer, by rw [← Int.add_assoc, ← feed_paren hb hl]; exact hparen⟩

end Brackets

/-! ## §2. Members. -/

/-- The member begins with its signature, and as it stands in the body of a class it is left with
    all brackets closed that it opened. -/
def Member.Findable (m : Member) : Prop :=
  (∃ first, (m.text.eraseAll "@override\n").lines.head? = some first
    ∧ (bareSignature first).startsWith (bareSignature m.finder) = true)
  ∧ ∀ b : Brackets, b.lexer = {} → b.curly = 1 → b.paren = 0 →
    b.Spans m.replacement.lines ∧ (b.feedAll m.replacement.lines).paren = 0

namespace MemberKind

variable {c : SourceClass}

section

variable (h : c.Regular) (r : Request) (k : MemberKind)
include h

theorem exists_tame : ∀ l ∈ (k.item r c).lines, ∃ d, Tame l d := by
  intro l hl
  obtain ⟨j, d, hd⟩ := ((h.memberLines r).lines k).exists_of_mem l hl
  exact ⟨d, hd.toTame⟩

theorem replacement_eq : (k.build r c).replacement = unlines (k.item r c).indented.lines :=
  Member.replacement_of_tame (k.text_eq h.fields_ne r) (exists_tame h r k)

theorem lines_replacement : (k.build r c).replacement.lines = (k.item r c).indented.lines := by
  rw [replacement_eq h, lines_unlines (Item.lines_ne_nil _)]
  rw [Item.lines_indented]
  exact forall_mem_map.mpr fun l hl =>
    not_mem_indentLine ((exists_tame h r k l hl).elim fun _ hd => hd.no_feed) (by decide)

theorem head?_lines :
    ((k.build r c).text.eraseAll "@override\n").lines.head? = some (k.item r c).first := by
  rw [Member.eraseAll_of_tame (k.text_eq h.fields_ne r) (exists_tame h r k),
    lines_unlines (Item.lines_ne_nil _) fun l hl => (exists_tame h r k l hl).elim
      fun _ hd => hd.no_feed]
  rfl

end

theorem startsWith_first (r : Request) (c : SourceClass) (k : MemberKind) :
    (bareSignature (k.item r c).first).startsWith (bareSignature (k.build r c).finder) := by
  obtain ⟨t, e, hfirst, -⟩ := k.exists_first r c
  obtain ⟨tail, htail⟩ := bareSignature_append (k.start c) (t ++ [e])
  rw [hfirst, htail, k.bareSignature_start r c, startsWith_iff]
  exact prefix_append _ _

/-- The first line without its margin. -/
theorem trim_first (h : c.Regular) (r : Request) (k : MemberKind) :
    (k.item r c).indented.first.trim = (k.item r c).first := by
  obtain ⟨t, e, hfirst, he⟩ := k.exists_first r c
  have hstart : ∃ a, (k.start c).head? = some a ∧ isBlank a = false := by
    cases k with
    | copyWith =>
      obtain ⟨n, hn, hne, hw⟩ := h.name
      obtain ⟨a, n, rfl⟩ := exists_cons_of_ne_nil hne
      refine ⟨a, ?_, isBlank_of_isWord (all_eq_true.mp hw a mem_cons_self)⟩
      show ((c.head.name.getD [] ++ _) ++ _).head? = _
      rw [hn]
      rfl
    | _ => exact ⟨_, rfl, rfl⟩
  obtain ⟨a, hhead, ha⟩ := hstart
  have hhead : (k.item r c).first.head? = some a := by
    rw [hfirst, head?_append, hhead]
    rfl
  exact (trim_indentLine hhead ha (hfirst.trans (append_assoc _ _ _).symm) he).2

/-- A member on one line ends with a semicolon. -/
theorem endsWith_first {r : Request} {k : MemberKind} (hr : (k.item r c).indented.rest = []) :
    (k.item r c).indented.first.endsWith ";" := by
  cases hv : k.value? r c with
  | some e =>
    show (k.item r c).first.indentLine.endsWith ";"
    rw [item_of_some hv, indentLine_of_ne_nil (by simp), endsWith_iff]
    exact ⟨"  " ++ (k.start c ++ (" =>" ++ e)), by simp⟩
  | none =>
    rw [item_of_none hv] at hr
    simp [Item.indented] at hr

theorem paren_replacement (h : c.Regular) (r : Request) (k : MemberKind) {b : Brackets}
    (hb : b.lexer = {}) : (b.feedAll (k.build r c).replacement.lines).lexer = {}
      ∧ (b.feedAll (k.build r c).replacement.lines).paren = b.paren - k.unopened r c := by
  rw [lines_replacement h, Item.lines_indented]
  refine Brackets.paren_feedAll (((h.memberLines r).lines k).image ?_) hb
  rintro l j ⟨d, hd⟩
  exact hd.round.indentLine (by decide) (by decide)

/-- **Every member of a regular class is found again.**  It begins with its signature, the curly
    brackets come back to the body of the class with its last line, and a search for it takes it
    whole.  Its round brackets are all closed exactly if no element that is a collection gets a
    default. -/
theorem findable_iff (h : c.Regular) (r : Request) (k : MemberKind) :
    ((k.build r c).Findable ↔ k.unopened r c = 0)
    ∧ (∃ first, ((k.build r c).text.eraseAll "@override\n").lines.head? = some first
      ∧ (bareSignature first).startsWith (bareSignature (k.build r c).finder) = true)
    ∧ (∀ b : Brackets, b.lexer = {} → b.curly = 1 → b.Spans (k.build r c).replacement.lines
      ∧ (b.feedAll (k.build r c).replacement.lines).lexer = {}
      ∧ (b.feedAll (k.build r c).replacement.lines).paren = b.paren - k.unopened r c)
    ∧ ∀ (b : Brackets) (n : Int) (more : List Text), b.InBody →
      SourceClass.memberIn (k.build r c).name (bareSignature (k.build r c).finder) n b
          ((k.build r c).replacement.lines ++ more)
        = some { name := (k.build r c).name, first := some n
                 last := some (n + (k.item r c).rest.length)
                 current := some (k.build r c).replacement } := by
  have hmember : (k.item r c).indented.IsMember := (h.isMember r k).indented
  have hfirst : ∃ first, ((k.build r c).text.eraseAll "@override\n").lines.head? = some first
      ∧ (bareSignature first).startsWith (bareSignature (k.build r c).finder) = true :=
    ⟨_, head?_lines h r k, startsWith_first r c k⟩
  have hspans : ∀ b : Brackets, b.lexer = {} → b.curly = 1 →
      b.Spans (k.build r c).replacement.lines := by
    intro b hb h1
    rw [lines_replacement h]
    exact Brackets.spans_item hmember endsWith_first hb h1
  refine ⟨⟨fun hf => ?_, fun h0 => ⟨hfirst, fun b hb h1 hp => ⟨hspans b hb h1, ?_⟩⟩⟩, hfirst,
    fun b hb h1 => ⟨hspans b hb h1, paren_replacement h r k hb⟩, fun b n more hb => ?_⟩
  -- one start in the body of a class is enough to count the round brackets
  · have hparen := (paren_replacement h r k (b := { curly := 1 }) rfl).2
    rw [(hf.2 { curly := 1 } rfl rfl rfl).2] at hparen
    simp only at hparen
    omega
  · rw [(paren_replacement h r k hb).2, hp, h0]
    rfl
  · have hwanted : (bareSignature (k.item r c).indented.first.trim).startsWith
        (bareSignature (k.build r c).finder) = true := by
      rw [trim_first h]
      exact startsWith_first r c k
    rw [lines_replacement h, SourceClass.memberIn_found hmember hwanted _ n hb more,
      replacement_eq h]
    simp [Item.indented]

/-- A class with type parameters, whose fields are a nullable map under a name that is no identifier
    and a list of sets. -/
theorem findable_iff_pair :
    let c : SourceClass :=
      { head := { name := some "Pair", generics := "<K extends num, V>" }
        fields := [{ rawType := "Map<K, V>?", sourceName := "first-name" },
          { rawType := "List<Set<V>>", sourceName := "xs" }] }
    c.Regular ∧ ∀ k : MemberKind, (k.build {} c).Findable := by
  have hregular : SourceClass.Regular
      { head := { name := some "Pair", generics := "<K extends num, V>" }
        fields := [{ rawType := "Map<K, V>?", sourceName := "first-name" },
          { rawType := "List<Set<V>>", sourceName := "xs" }] } := by
    refine ⟨⟨_, rfl, by decide, by decide⟩, all_eq_true.mp (by decide), ?_, by decide⟩
    intro f hf
    simp only [mem_cons, not_mem_nil, or_false] at hf
    rcases hf with rfl | rfl
    · exact ⟨all_eq_true.mp (by decide), by decide⟩
    · exact ⟨all_eq_true.mp (by decide), by decide⟩
  exact ⟨hregular, fun k => (findable_iff hregular {} k).1.mpr (by cases k <;> rfl)⟩

/-- With defaults, a list of lists makes `fromMap` close a bracket that it did not open. -/
theorem fromMap_closes_unopened :
    let c : SourceClass := { head := { name := some "A".toList }
                             fields := [{ rawType := "List<List<int>>", sourceName := "x" }] }
    let m := Member.fromMap c { defaultValues := true }
    m.text.lines[2]? = some (Text.of ["    x: List<List<int>>.from((map['x'] as List<dynamic>)",
        ".map<List<int>>((x) => x ?? const []),),),"])
      ∧ (({ curly := 1 } : Brackets).feedAll m.replacement.lines).paren = -1 ∧ ¬ m.Findable := by
  intro c m
  have hparen : (({ curly := 1 } : Brackets).feedAll m.replacement.lines).paren = -1 := by
    decide +kernel
  refine ⟨by decide +kernel, hparen, fun h => ?_⟩
  have hzero := (h.2 { curly := 1 } rfl rfl rfl).2
  rw [hparen] at hzero
  exact absurd hzero (by decide)

end MemberKind

end DartData
