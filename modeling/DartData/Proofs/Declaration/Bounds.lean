import DartData.Proofs.Scan.Body
import DartData.Proofs.Text.Divided

/-!
# Type parameters without their bounds

The type of a class has the type parameters as arguments, without their bounds.  A bound may nest
brackets of all shapes, with commas and further bounds inside of them.  What is written is the names
alone (`SourceClass.type_eq_iff`), and writing the arguments for the parameters changes nothing
more.  The only bound that is not taken off is a blank one: of `T extends ` the keyword is left.
-/

namespace DartData

open List Text

/-! ## §1. Bounds. -/

namespace Text

/-- How many more brackets of any shape a text opens than it closes. -/
def bracketDepth (t : Text) : Int := (t.countP fun c => (closerOf? c).isSome) - t.countP isCloser

theorem bracketDepth_cons (c : Char) (t : Text) :
    bracketDepth (c :: t) = bracketDepth [c] + t.bracketDepth := by
  simp only [bracketDepth, countP_cons, countP_nil]
  omega

/-- Without equals signs there are no arrows, and the depth is the number of open brackets. -/
theorem depthAfter_eq {last : Option Char} (hlast : last ≠ some '=') (c : Char) (depth : Int) :
    depthAfter depth last c = depth + bracketDepth [c] := by
  have hshape : (closerOf? c).isSome → isCloser c = false := by
    unfold closerOf? isCloser
    grind
  rw [depthAfter, closes_eq hlast]
  simp only [bracketDepth, countP_singleton]
  by_cases ho : (closerOf? c).isSome
  · -- an opening bracket closes nothing
    rw [if_pos ho, if_pos ho, hshape ho]
    rfl
  · rw [if_neg ho, if_neg ho]
    split
    · rfl
    · omega

/-- A text that may be the bound of a type parameter: it closes as many brackets as it opens, has no
    comma outside of brackets, and no equals sign. -/
structure IsBound (b : Text) : Prop where
  closed : b.bracketDepth = 0
  commas : ∀ n < b.length, b[n]? = some ',' → bracketDepth (b.take n) ≠ 0
  no_equals : '=' ∉ b

/-- Where no comma stands outside of brackets, the depth at the end is a sum. -/
theorem endDepth?_of_commas (t : Text) {depth : Int} {last : Option Char} (hlast : last ≠ some '=')
    (heq : '=' ∉ t)
    (hcommas : ∀ n < t.length, t[n]? = some ',' → depth + bracketDepth (t.take n) ≠ 0) :
    endDepth? depth last t = some (depth + t.bracketDepth) := by
  induction t generalizing depth last with
  | nil => simp [endDepth?, bracketDepth]
  | cons c r ih =>
    rw [mem_cons, not_or] at heq
    have hfirst : ¬ (c = ',' ∧ depth = 0) := by
      rintro ⟨rfl, rfl⟩
      exact hcommas 0 (Nat.succ_pos _) rfl rfl
    rw [endDepth?, if_neg hfirst, depthAfter_eq hlast, bracketDepth_cons c r, ← Int.add_assoc]
    refine ih (fun h => heq.1 (Option.some.inj h).symm) heq.2 fun n hn hget => ?_
    rw [Int.add_assoc, ← bracketDepth_cons]
    exact hcommas (n + 1) (Nat.succ_lt_succ hn) hget

theorem IsBound.endDepth?_eq {b : Text} (h : IsBound b) : endDepth? 0 none b = some 0 := by
  rw [endDepth?_of_commas b (by decide) h.no_equals (by simpa only [Int.zero_add] using h.commas),
    h.closed]
  rfl

/-- Texts that are not blank and close all brackets are found again, trimmed. -/
theorem splitTopLevel_join {ts : List Text}
    (h : ∀ t ∈ ts, endDepth? 0 none t = some 0 ∧ t.trim ≠ []) :
    splitTopLevel (join ", " ts) = ts.map trim :=
  ((isSequence_of_closed fun t ht => (h t ht).1).splitTopLevel_join (b := " ")
    (forall_mem_of_all rfl)).trans
    (flatMap_itemOf fun t ht => (h t ht).2)

/-- Texts between angle brackets, with commas between them. -/
def angled (ts : List Text) : Text := "<" ++ join ", " ts ++ ">"

theorem trim_angled (ts : List Text) : (angled ts).trim = angled ts := by
  refine trim_eq_self (fun c hc => ?_) fun c hc => ?_
  · rw [angled, append_assoc] at hc
    exact Option.some.inj hc ▸ rfl
  · rw [angled, getLast?_append] at hc
    exact Option.some.inj hc ▸ rfl

end Text

/-! ## §2. Type parameters. -/

/-- A type parameter: its name, and its bound if it has one. -/
structure TypeParameter where
  name : Text
  bound : Option Text := none
  deriving DecidableEq, Repr

namespace TypeParameter

/-- The parameter as it is written. -/
def print (p : TypeParameter) : Text :=
  p.name ++ (p.bound.map (" extends ".toList ++ ·)).getD []

/-- What stands for the parameter in the type: a blank bound leaves the keyword behind. -/
def argument (p : TypeParameter) : Text :=
  p.name ++ if p.bound.any allBlank then " extends".toList else []

/-- A parameter that has a word as its name. -/
structure IsRegular (p : TypeParameter) : Prop where
  name_ne : p.name ≠ []
  name_word : p.name.all isWord = true
  bound : ∀ b ∈ p.bound, IsBound b

variable {p : TypeParameter}

namespace IsRegular

section

variable (h : p.IsRegular)
include h

theorem endDepth?_append (t : Text) : endDepth? 0 none (p.name ++ t) = endDepth? 0 none t :=
  endDepth?_flat_append
    (fun _ hc => isFlatItem_of_class (all_eq_true.mp h.name_word _ hc) (by decide))
    (not_mem_of_all h.name_word (by decide)) (by decide) 0 t

theorem endDepth?_print : endDepth? 0 none p.print = some 0 := by
  rw [print, h.endDepth?_append]
  cases hb : p.bound with
  | none => rfl
  | some b =>
    show endDepth? 0 none (" extends " ++ b) = some 0
    rw [endDepth?_flat_append (forall_mem_of_all (by decide)) (by decide) (by decide),
      (h.bound b hb).endDepth?_eq]

theorem trimStart_append (t : Text) : (p.name ++ t).trimStart = p.name ++ t := by
  obtain ⟨c, r, hname⟩ := exists_cons_of_ne_nil h.name_ne
  have hc : isBlank c = false :=
    isBlank_of_isWord (all_eq_true.mp h.name_word c (hname ▸ mem_cons_self))
  rw [hname, cons_append, trimStart_cons_of_not_blank hc]

theorem trim_name : p.name.trim = p.name := by
  refine trim_eq_self (fun c hc => ?_) fun c hc => ?_
  · exact isBlank_of_isWord (all_eq_true.mp h.name_word c (mem_of_mem_head? hc))
  · exact isBlank_of_isWord (all_eq_true.mp h.name_word c (mem_of_getLast? hc))

theorem before_eq (t : Text) :
    (p.name ++ (" extends " ++ t)).before " extends " = p.name := by
  rw [before, cut?_append_of_not_mem (c := ' ') rfl (not_mem_of_all h.name_word (by decide)),
    cut?_append_self (by decide)]
  simp

/-- The argument has at most one blank. -/
theorem has_argument : p.argument.has " extends " = false := by
  rw [Bool.eq_false_iff, ne_eq, has_iff]
  intro hinfix
  have htwo : 2 ≤ p.argument.count ' ' := hinfix.sublist.count_le ' '
  have hname : p.name.count ' ' = 0 :=
    count_eq_zero.mpr (not_mem_of_all h.name_word (by decide))
  rw [argument, count_append, hname] at htwo
  split at htwo <;> exact absurd htwo (by decide)

theorem trim_append_keyword {b : Text} (hb : ∀ c ∈ b, isBlank c) :
    (p.name ++ (" extends" ++ b)).trim = p.name ++ " extends" := by
  rw [trim, h.trimStart_append, ← append_assoc, trimEnd_append_of_blank hb,
    show " extends" = " extend" ++ ['s'] from rfl, ← append_assoc,
    trimEnd_append_of_not_blank (by decide)]

theorem trim_argument : p.argument.trim = p.argument := by
  rw [argument]
  split
  · exact h.trim_append_keyword (b := []) (by simp)
  · rw [append_nil, h.trim_name]

theorem endDepth?_argument : endDepth? 0 none p.argument = some 0 := by
  rw [argument, h.endDepth?_append]
  split <;> rfl

/-- The bound is cut off at the first keyword, unless it is blank. -/
theorem before_print : (p.print.trim.before " extends ").trim = p.argument := by
  cases hb : p.bound with
  | none =>
    have hprint : p.print = p.argument := by simp [print, argument, hb]
    rw [hprint, h.trim_argument, before_eq_self h.has_argument, h.trim_argument]
  | some b =>
    have hprint : p.print = p.name ++ (" extends".toList ++ (' ' :: b)) := by simp [print, hb]
    cases hblank : b.allBlank with
    | true =>
      have hargument : p.argument = p.name ++ " extends" := by simp [argument, hb, hblank]
      have hblanks : ∀ c ∈ ' ' :: b, isBlank c :=
        forall_mem_cons.mpr ⟨by decide, all_eq_true.mp hblank⟩
      rw [hprint, h.trim_append_keyword hblanks, ← hargument, before_eq_self h.has_argument,
        h.trim_argument]
    | false =>
      have hargument : p.argument = p.name := by simp [argument, hb, hblank]
      have htrim : p.print.trim = p.name ++ (" extends " ++ b.trimEnd) := by
        rw [hprint, trim, h.trimStart_append, ← append_assoc, ← singleton_append,
          ← append_assoc, trimEnd_append hblank]
        simp
      rw [htrim, h.before_eq, h.trim_name, hargument]

theorem trim_append_ne (t : Text) : (p.name ++ t).trim ≠ [] := by
  rw [ne_eq, trim_eq_nil_iff, allBlank, all_append, Bool.and_eq_true, not_and]
  intro hname
  exact absurd (h.trim_name.symm.trans (trim_eq_nil_iff.mpr hname)) h.name_ne

end

end IsRegular

end TypeParameter

/-! ## §3. The type of a class. -/

/-- Type parameters that close all brackets give one argument each. -/
theorem Declaration.typeArguments_angled {d : Declaration} {ts : List Text}
    (hg : d.generics = angled ts) (h : ∀ t ∈ ts, endDepth? 0 none t = some 0 ∧ t.trim ≠ []) :
    d.typeArguments = angled (ts.map fun t => (t.trim.before " extends ").trim) := by
  have hinner : ((d.generics.trim.drop 1).dropLast) = join ", " ts := by
    rw [hg, trim_angled, angled, append_assoc]
    exact dropLast_concat
  have hne : d.generics.isEmpty = false := by
    rw [hg]
    rfl
  rw [typeArguments, hne, hinner, splitTopLevel_join h]
  show angled ((ts.map trim).map _) = _
  rw [map_map]
  rfl

namespace SourceClass

/-- **The type of a class has the names of its type parameters as arguments**, whatever their bounds
    are, if and only if no bound is blank.  And with the arguments for the parameters, the arguments
    are the same. -/
theorem type_eq_iff {c : SourceClass} {name : Text} {ps : List TypeParameter}
    (hname : c.head.name = some name) (hg : c.head.generics = angled (ps.map TypeParameter.print))
    (hps : ∀ p ∈ ps, p.IsRegular) :
    (c.type = name ++ angled (ps.map TypeParameter.name)
      ↔ ∀ p ∈ ps, ∀ b ∈ p.bound, b.allBlank = false)
      ∧ ∀ d : Declaration, d.generics = c.head.typeArguments →
        d.typeArguments = c.head.typeArguments := by
  have hargs : c.head.typeArguments = angled (ps.map TypeParameter.argument) := by
    rw [Declaration.typeArguments_angled hg (List.forall_mem_map.mpr fun p hp =>
      ⟨(hps p hp).endDepth?_print, (hps p hp).trim_append_ne _⟩), List.map_map]
    exact congrArg angled (List.map_congr_left fun p hp => (hps p hp).before_print)
  have hrow : ∀ t ∈ ps.map TypeParameter.argument, endDepth? 0 none t = some 0 ∧ t.trim ≠ [] :=
    List.forall_mem_map.mpr fun p hp =>
      ⟨(hps p hp).endDepth?_argument, (hps p hp).trim_append_ne _⟩
  have hnames : ∀ t ∈ ps.map TypeParameter.name, endDepth? 0 none t = some 0 ∧ t.trim ≠ [] :=
    List.forall_mem_map.mpr fun p hp => by
      rw [← List.append_nil p.name]
      exact ⟨(hps p hp).endDepth?_append [], (hps p hp).trim_append_ne []⟩
  refine ⟨⟨fun htype p hp b hb => ?_, fun hbounds => ?_⟩, fun d hd => ?_⟩
  · -- the arguments and the names are the items of the same text
    rw [type, Declaration.type, hname, hargs] at htype
    have hjoin := List.append_cancel_left (List.append_cancel_right (List.append_cancel_left htype))
    have hitems := congrArg splitTopLevel hjoin
    rw [splitTopLevel_join hrow, splitTopLevel_join hnames, List.map_map, List.map_map] at hitems
    have harg : p.argument.trim = p.name.trim := List.map_inj_left.mp hitems p hp
    rw [(hps p hp).trim_argument, (hps p hp).trim_name] at harg
    rw [Bool.eq_false_iff]
    intro hblank
    have hany : p.bound.any allBlank = true := by rw [Option.mem_def.mp hb]; exact hblank
    simp [TypeParameter.argument, hany] at harg
  · have harg : ∀ p ∈ ps, p.argument = p.name := by
      intro p hp
      have hany : p.bound.any allBlank = false := by
        cases hb : p.bound with
        | none => rfl
        | some b => exact hbounds p hp b hb
      simp [TypeParameter.argument, hany]
    rw [type, Declaration.type, hname, hargs, List.map_congr_left harg]
    rfl
  · rw [Declaration.typeArguments_angled (hd.trans hargs) hrow, hargs, List.map_map]
    refine congrArg angled (List.map_congr_left fun p hp => ?_)
    show (p.argument.trim.before " extends ").trim = p.argument
    rw [(hps p hp).trim_argument, before_eq_self (hps p hp).has_argument, (hps p hp).trim_argument]

/-- Bounds with brackets of each shape, and with commas and a further bound inside of them. -/
theorem type_eq_iff_nested :
    let ps : List TypeParameter :=
      [{ name := "K", bound := some "Map<A, (B, [C, D])>" },
        { name := "V", bound := some "F<void Function(\x7bT extends U, W w\x7d)> " },
          { name := "W" }]
    let c : SourceClass := { head := { name := some "Box"
                                       generics := angled (ps.map TypeParameter.print) } }
    (∀ p ∈ ps, p.IsRegular) ∧ c.type = "Box<K, V, W>" := by
  intro ps c
  have hps : ∀ p ∈ ps, p.IsRegular := by
    simp only [ps, forall_mem_cons]
    refine ⟨⟨by decide, by decide, ?_⟩, ⟨by decide, by decide, ?_⟩,
      ⟨by decide, by decide, ?_⟩, by simp⟩
    · rintro b ⟨⟩
      exact ⟨by decide, by decide, by decide⟩
    · rintro b ⟨⟩
      exact ⟨by decide, by decide, by decide⟩
    · rintro b ⟨⟩
  exact ⟨hps, (type_eq_iff (c := c) rfl rfl hps).1.mpr (by simp [ps]; decide)⟩

/-- Of a parameter with an empty bound the keyword is left. -/
theorem type_of_empty_bound :
    let c : SourceClass := { head := { name := some "A".toList, generics := "<T extends >" } }
    let p : TypeParameter := { name := "T", bound := some [] }
    p.IsRegular ∧ c.head.generics = angled [p.print] ∧ c.type = "A<T extends>".toList
      ∧ c.type ≠ "A".toList ++ angled [p.name] := by
  refine ⟨⟨by decide, by decide, fun b hb => ?_⟩, by decide, by decide, by decide⟩
  obtain rfl : [] = b := Option.some.inj hb
  exact ⟨rfl, by decide, by decide⟩

end SourceClass

end DartData
