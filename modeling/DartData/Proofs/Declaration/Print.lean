import DartData.Proofs.Declaration.Words

/-!
# Declarations that are written and read back

A class line is written from a declaration.  What is read back is the declaration it was written
from, as long as its parts are names with type arguments (`IsRegular.read_print`), and for a
printable declaration the line begins a class (`Printable.isHeader_print`).
-/

namespace DartData

open List Text

/-! ## §1. The words that are written. -/

/-- The words of a list of supertypes: a comma goes with the word before it. -/
def withCommas : List Text → List Text
  | [] => []
  | [m] => [m]
  | m :: n :: ms => (m ++ [',']) :: withCommas (n :: ms)

/-- The words for the superclass. -/
def superclassWords : Option Text → List Text
  | some s => ["extends".toList, s]
  | none => []

/-- The words of the class line, but for the opening brace. -/
def Declaration.words (d : Declaration) (isAbstract : Bool) : List Text :=
  (if isAbstract then ["abstract".toList, "class".toList] else ["class".toList])
    ++ [d.shownName ++ d.generics] ++ superclassWords d.superclass
    ++ (if d.mixins.isEmpty then [] else "with".toList :: withCommas d.mixins)
    ++ (if d.interfaces.isEmpty then [] else "implements".toList :: withCommas d.interfaces)

theorem Text.join_cons_flatten (sep t : Text) (ts : List Text) :
    join sep (t :: ts) = t ++ (ts.map (sep ++ ·)).flatten := by
  induction ts generalizing t with
  | nil => simp
  | cons u us ih =>
    rw [join_cons_cons, ih, map_cons, flatten_cons]
    simp

theorem flatten_withCommas {ms : List Text} (h : ms ≠ []) :
    ((withCommas ms).map (" ".toList ++ ·)).flatten = ' ' :: join ", " ms := by
  induction ms with
  | nil => exact absurd rfl h
  | cons m ms ih =>
    cases ms with
    | nil => simp [withCommas]
    | cons n ms =>
      rw [withCommas, map_cons, flatten_cons, ih (cons_ne_nil n ms), join_cons_cons]
      simp

/-- A declaration is printed word by word. -/
theorem Declaration.print_eq_join (d : Declaration) (isAbstract : Bool) :
    d.print isAbstract = join " " (d.words isAbstract) := by
  have hlist : ∀ (k : Text) (ms : List Text),
      ((if ms.isEmpty then [] else k :: withCommas ms).map (" ".toList ++ ·)).flatten
        = if ms.isEmpty then [] else ' ' :: (k ++ ' ' :: join ", " ms) := by
    intro k ms
    cases ms with
    | nil => rfl
    | cons m ms =>
      have := flatten_withCommas (cons_ne_nil m ms)
      simp_all
  have hfirst : ∀ ws : List Text, join " "
      ((if isAbstract then ["abstract".toList, "class".toList] else ["class".toList]) ++ ws)
        = (if isAbstract then "abstract class".toList else "class".toList)
          ++ (ws.map (" ".toList ++ ·)).flatten := by
    intro ws
    cases isAbstract with
    | true => exact join_cons_flatten " ".toList "abstract".toList ("class".toList :: ws)
    | false => exact join_cons_flatten " ".toList "class".toList ws
  rw [words, append_assoc, append_assoc, append_assoc, hfirst, print]
  simp only [map_append, flatten_append, hlist, map_cons, map_nil,
    flatten_cons, flatten_nil, append_nil]
  cases isAbstract <;> cases d.superclass <;> cases d.mixins.isEmpty <;>
    cases d.interfaces.isEmpty <;> simp [superclassWords]

/-! ## §2. Reading the words. -/

namespace Declaration

/-- A declaration with some more supertypes. -/
def adding (d : Declaration) (l : SupertypeList) (ms : List Text) : Declaration :=
  match l with
  | .mixins => { d with mixins := d.mixins ++ ms }
  | .interfaces => { d with interfaces := d.interfaces ++ ms }

theorem adding_adding (d : Declaration) (l : SupertypeList) (ms ns : List Text) :
    (d.adding l ms).adding l ns = d.adding l (ms ++ ns) := by
  cases l <;> simp [adding]

/-- A word that is no keyword. -/
theorem readWord_of_not_mem {w : Text} (h : w ∉ declarationKeywords) (d : Declaration)
    (r : DeclarationReader) :
    d.readWord r w = if r.superclassNext then
          .ok ({ d with superclass := some (w.removeEnd ",") }, { r with superclassNext := false })
        else if r.nameNext then
          (splitClassName w).map fun x =>
            ({ d with name := some x.1, generics := x.2.getD d.generics },
            { r with nameNext := false })
        else match r.listNext with
          | some l => .ok (d.adding l w.splitTopLevel, r)
          | none => .ok (d, r) := by
  simp only [declarationKeywords, mem_cons, not_mem_nil, or_false, not_or] at h
  obtain ⟨h₁, h₂, h₃, h₄⟩ := h
  unfold readWord
  rw [if_neg (by simpa using h₁), if_neg (by simpa using h₂), if_neg (c := (w == "with".toList))
    (by simpa using h₃), if_neg (c := (w == "implements".toList)) (by simpa using h₄)]
  split
  · rfl
  · split
    · cases splitClassName w <;> rfl
    · cases r.listNext with
      | none => rfl
      | some l => cases l <;> rfl

/-- The words of a list of supertypes. -/
theorem readWords_withCommas (l : SupertypeList) (ms : List Text) :
    ∀ (d : Declaration) (ws : List Text), (∀ m ∈ ms, IsSupertype m) →
      d.readWords { listNext := some l } (withCommas ms ++ ws)
        = (d.adding l ms).readWords { listNext := some l } ws := by
  -- one word: it is no keyword, and gives its supertype
  have hword : ∀ (d : Declaration) (w m : Text) (ws : List Text), w ∉ declarationKeywords →
      w.splitTopLevel = [m] → d.readWords { listNext := some l } (w :: ws)
        = (d.adding l [m]).readWords { listNext := some l } ws := by
    intro d w m ws hw hm
    show (d.readWord { listNext := some l } w >>= _) = _
    rw [readWord_of_not_mem hw, hm]
    rfl
  have hcomma : ∀ k ∈ declarationKeywords, ',' ∉ k := by decide
  induction ms with
  | nil => intro d ws _; cases l <;> simp [withCommas, adding]
  | cons m ms ih =>
    intro d ws hms
    have hm := hms m mem_cons_self
    have hkey := hm.not_mem
    have hsplit := splitTopLevel_supertype hm
    cases ms with
    | nil => exact hword d m m ws hkey hsplit.1
    | cons n ms =>
      rw [withCommas, cons_append, hword d (m ++ [',']) m _
        (fun hmem => hcomma _ hmem (by simp)) hsplit.2,
        ih _ ws (forall_mem_cons.mp hms).2, adding_adding]
      rfl

variable {generics k name : Text} {s : Option Text} {ms : List Text}

/-- A name and its type parameters are told apart. -/
theorem splitClassName_append (hn : isName name) (hg : IsTypeArguments generics) :
    ∃ g, splitClassName (name ++ generics) = .ok (name, g) ∧ g.getD [] = generics := by
  have hlt : '<' ∉ name := not_mem_of_isName hn (by decide)
  rcases hg with rfl | ⟨body, rfl, -⟩
  · refine ⟨none, ?_, rfl⟩
    have hcut : cut? (name ++ []) "<" = none := by
      rw [append_nil]
      exact cut?_eq_none (has_eq_false_of_not_mem (c := '<') (by decide) hlt)
    rw [splitClassName, hcut, append_nil]
  · refine ⟨some ('<' :: (body ++ ['>'])), ?_, rfl⟩
    have hcut : cut? (name ++ '<' :: (body ++ ['>'])) "<" = some (name, body ++ ['>']) := by
      rw [cut?_append_of_not_mem (c := '<') rfl hlt]
      have := cut?_append_self (cons_ne_nil '<' []) (body ++ ['>'])
      rw [show cut? ('<' :: (body ++ ['>'])) "<" = _ from this]
      simp
    have hgt : has (name ++ '<' :: (body ++ ['>'])) ">" :=
      (has_singleton_iff (c := '>')).mpr (by simp)
    have hdrop : ((name ++ '<' :: (body ++ ['>'])).reverse.dropWhile (· ≠ '>')).reverse.drop
        name.length = '<' :: (body ++ ['>']) := by simp
    rw [splitClassName, hcut]
    dsimp only
    rw [hgt, if_pos rfl, hdrop]

theorem readWords_name (hn : isName name) (hg : IsTypeArguments generics)
    (hkey : name ++ generics ∉ declarationKeywords) (ws : List Text) :
    readWords {} { nameNext := true } ((name ++ generics) :: ws)
      = readWords { name := some name, generics } {} ws := by
  obtain ⟨g, hsplit, hgen⟩ := splitClassName_append hn hg
  show (readWord {} { nameNext := true } (name ++ generics) >>= _) = _
  rw [readWord_of_not_mem hkey]
  show ((splitClassName (name ++ generics)).map _ >>= _) = _
  rw [hsplit]
  show readWords { name := some name, generics := g.getD [] } {} ws = _
  rw [hgen]

/-- The superclass is read back. -/
theorem readWords_superclass (hs : ∀ t ∈ s, IsSupertype t) (d : Declaration)
    (hd : d.superclass = none) (ws : List Text) :
    d.readWords {} (superclassWords s ++ ws) = readWords { d with superclass := s } {} ws := by
  cases s with
  | none =>
    obtain ⟨_, _, _, _, _⟩ := d
    subst hd
    rfl
  | some s =>
    obtain ⟨name, args, rfl, hname, hargs, -, hkey⟩ := hs s rfl
    -- a comma at its end would belong to a list
    have hend : removeEnd (name ++ args) [','] = name ++ args := by
      have hlast : endsWith (name ++ args) [','] = false := by
        rw [Bool.eq_false_iff, ne_eq, endsWith_iff]
        intro hsuffix
        rcases hargs with rfl | ⟨body, rfl, -⟩
        · rw [append_nil] at hsuffix
          exact not_mem_of_isName hname (show isNameChar ',' = false by decide)
            (hsuffix.subset mem_cons_self)
        · rw [← cons_append, ← append_assoc] at hsuffix
          exact absurd (eq_of_singleton_suffix hsuffix) (by decide)
      rw [removeEnd, hlast]
      rfl
    show (d.readWord { superclassNext := true } (name ++ args) >>= _) = _
    rw [readWord_of_not_mem hkey]
    show readWords { d with superclass := some (removeEnd (name ++ args) [',']) } {} ws = _
    rw [hend]

/-- A keyword and the supertypes after it; without supertypes there is no keyword. -/
theorem readWords_supertypes {l : SupertypeList} (hms : ∀ m ∈ ms, IsSupertype m)
    {r : DeclarationReader}
    (hk : ∀ d : Declaration, d.readWord r k = .ok (d, { listNext := some l })) (d : Declaration)
    (ws : List Text) :
    d.readWords r ((if ms.isEmpty then [] else k :: withCommas ms) ++ ws)
      = (d.adding l ms).readWords (if ms.isEmpty then r else { listNext := some l }) ws := by
  cases ms with
  | nil => cases l <;> simp [adding]
  | cons m ms =>
    show (d.readWord r k >>= fun x => readWords x.1 x.2 (withCommas (m :: ms) ++ ws)) = _
    rw [hk]
    exact readWords_withCommas l (m :: ms) d ws hms

/-! ## §3. Declarations made of names with type arguments. -/

/-- A declaration whose parts are names with type arguments or without.  Its supertypes are no
    keywords; its own name may be one. -/
structure IsRegular (d : Declaration) (name : Text) : Prop where
  name_eq : d.name = some name
  isName : isName name = true
  generics : IsTypeArguments d.generics
  superclass : ∀ s ∈ d.superclass, IsSupertype s
  mixins : ∀ m ∈ d.mixins, IsSupertype m
  interfaces : ∀ m ∈ d.interfaces, IsSupertype m

theorem isDeclarationWord_keyword (h : k ∈ "abstract".toList :: declarationKeywords) :
    IsDeclarationWord k := by
  have hname : ∀ k ∈ "abstract".toList :: declarationKeywords, DartData.isName k := by decide
  exact IsDeclarationWord.ofName (hname k h)

theorem mem_withCommas (hms : ∀ m ∈ ms, IsSupertype m) :
    ∀ w ∈ withCommas ms, IsDeclarationWord w := by
  induction ms with
  | nil => simp [withCommas]
  | cons m ms ih =>
    have hm := (hms m mem_cons_self).isDeclarationWord
    cases ms with
    | nil => simpa [withCommas] using hm
    | cons n ms =>
      rw [withCommas, forall_mem_cons]
      exact ⟨hm.comma, ih (forall_mem_cons.mp hms).2⟩

theorem mem_superclassWords (hs : ∀ t ∈ s, IsSupertype t) :
    ∀ w ∈ superclassWords s, IsDeclarationWord w := by
  cases s with
  | none => simp [superclassWords]
  | some s =>
    intro w hw
    rcases mem_cons.mp hw with rfl | hw
    · exact isDeclarationWord_keyword (by decide)
    · rw [mem_singleton.mp hw]
      exact (hs s rfl).isDeclarationWord

/-- The words of the line up to the name. -/
theorem mem_classWords (isAbstract : Bool) :
    ∀ w ∈ (if isAbstract then ["abstract".toList, "class".toList] else ["class".toList]),
      IsDeclarationWord w := by
  intro w hw
  refine isDeclarationWord_keyword ?_
  cases isAbstract
  · rw [mem_singleton.mp hw]
    decide
  · revert hw
    simp only [if_true, mem_cons, not_mem_nil, or_false]
    rintro (rfl | rfl) <;> decide

namespace IsRegular

variable {d : Declaration} {name : Text}

theorem shownName_eq (h : d.IsRegular name) : d.shownName = name := by
  rw [shownName, h.name_eq]
  rfl

/-- Every printed word can be read as one. -/
theorem mem_words (h : d.IsRegular name) {isAbstract : Bool} {w : Text}
    (hw : w ∈ d.words isAbstract) : IsDeclarationWord w := by
  have hlist : ∀ {k : Text} {ms : List Text}, k ∈ declarationKeywords →
      (∀ m ∈ ms, IsSupertype m) → w ∈ (if ms.isEmpty then [] else k :: withCommas ms) →
      IsDeclarationWord w := by
    intro k ms hk hms hw
    split at hw
    · simp at hw
    · rcases mem_cons.mp hw with rfl | hw
      · exact isDeclarationWord_keyword (mem_cons_of_mem _ hk)
      · exact mem_withCommas hms w hw
  simp only [words, mem_append] at hw
  rcases hw with (((hw | hw) | hw) | hw) | hw
  · exact mem_classWords isAbstract w hw
  · rw [mem_singleton.mp hw, h.shownName_eq]
    exact (IsDeclarationWord.ofName h.isName).typeArguments h.generics
  · exact mem_superclassWords h.superclass w hw
  · exact hlist (by decide) h.mixins hw
  · exact hlist (by decide) h.interfaces hw

/-- The words that are written are the words that are read. -/
theorem declarationWords_print (h : d.IsRegular name) (isAbstract : Bool) :
    declarationWords (d.print isAbstract ++ " \x7b".toList) = d.words isAbstract := by
  have hne : d.words isAbstract ≠ [] := by
    unfold words
    cases isAbstract <;> exact cons_ne_nil _ _
  rw [print_eq_join]
  exact (declarationWords_go_join _ [] hne fun w hw => h.mem_words hw).trans (nil_append _)

/-- The words are read from the one that stands for the name. -/
theorem read_print_eq (h : d.IsRegular name) (isAbstract : Bool) :
    read {} (d.print isAbstract ++ " \x7b".toList)
      = readWords {} { nameNext := true } ((name ++ d.generics) :: (superclassWords d.superclass
          ++ (if d.mixins.isEmpty then [] else "with".toList :: withCommas d.mixins)
          ++ (if d.interfaces.isEmpty then []
            else "implements".toList :: withCommas d.interfaces))) := by
  have hclass : ∀ ws, readWords {} {} ((if isAbstract then ["abstract".toList, "class".toList]
      else ["class".toList]) ++ ws) = readWords {} { nameNext := true } ws := by
    intro ws
    cases isAbstract <;> rfl
  rw [read, h.declarationWords_print, words]
  simp only [append_assoc]
  rw [hclass, h.shownName_eq, singleton_append]

/-- **A declaration is read back from the line that is written for it**, unless its name is a
    keyword. -/
theorem read_print (h : d.IsRegular name) (hkey : name ++ d.generics ∉ declarationKeywords)
    (isAbstract : Bool) : read {} (d.print isAbstract ++ " \x7b".toList) = .ok d := by
  rw [h.read_print_eq, readWords_name h.isName h.generics hkey, append_assoc,
    readWords_superclass h.superclass _ rfl,
    readWords_supertypes (l := .mixins) h.mixins fun d => rfl]
  rw [← append_nil (if d.interfaces.isEmpty then [] else _),
    readWords_supertypes (l := .interfaces) h.interfaces fun d => by split <;> rfl]
  show Except.ok _ = _
  obtain ⟨n, generics, superclass, mixins, interfaces⟩ := d
  have hn : n = some name := h.name_eq
  subst hn
  simp [adding]

end IsRegular

/-! ## §4. Printable declarations. -/

/-- What a printable declaration is made of. -/
structure Printable (d : Declaration) (name : Text) : Prop where
  name_eq : d.name = some name
  identifier : isIdentifier name = true
  upper : name.head?.any Char.isUpper = true
  generics : d.generics = [] ∨ isTypeList d.generics = true
  superclass : d.superclass.all isSupertype = true
  mixins : ∀ m ∈ d.mixins, isSupertype m = true
  interfaces : ∀ m ∈ d.interfaces, isSupertype m = true

theorem isPrintable_iff {d : Declaration} : d.isPrintable ↔ ∃ name, d.Printable name := by
  simp only [isPrintable, Bool.and_eq_true, Bool.or_eq_true, List.isEmpty_iff, all_eq_true,
    Option.any_eq_true]
  constructor
  · rintro ⟨⟨⟨⟨⟨name, hn, hid, hup⟩, hgen⟩, hsuper⟩, hmix⟩, hint⟩
    exact ⟨name, hn, hid, (Option.any_eq_true _ _).mpr hup, hgen, hsuper, hmix, hint⟩
  · rintro ⟨name, h⟩
    exact ⟨⟨⟨⟨⟨name, h.name_eq, h.identifier, (Option.any_eq_true _ _).mp h.upper⟩, h.generics⟩,
      h.superclass⟩, h.mixins⟩, h.interfaces⟩

namespace Printable

variable {d : Declaration} {name : Text}

section

variable (h : d.Printable name)
include h

theorem isSupertype_superclass : ∀ s ∈ d.superclass, isSupertype s := by
  intro s hs
  have hall := h.superclass
  rw [Option.mem_def.mp hs] at hall
  exact hall

theorem isRegular : d.IsRegular name where
  name_eq := h.name_eq
  isName := isName_of_isIdentifier h.identifier
  generics := isTypeArguments_of_isTypeList h.generics
  superclass s hs := (isSupertype_cases (h.isSupertype_superclass s hs)).1
  mixins m hm := (isSupertype_cases (h.mixins m hm)).1
  interfaces m hm := (isSupertype_cases (h.interfaces m hm)).1

theorem shownName_eq : d.shownName = name := h.isRegular.shownName_eq

theorem not_mem_declarationKeywords : name ++ d.generics ∉ declarationKeywords := by
  have hlower : ∀ k ∈ declarationKeywords, k.head?.any Char.isUpper = false := by decide
  obtain ⟨c, t, rfl⟩ := exists_cons_of_ne_nil (ne_nil_of_isIdentifier h.identifier)
  intro hmem
  have hc := hlower _ hmem
  have hup := h.upper
  simp_all

theorem read_print (isAbstract : Bool) :
    read {} (d.print isAbstract ++ " \x7b".toList) = .ok d :=
  h.isRegular.read_print h.not_mem_declarationKeywords isAbstract

/-- The class line of a printable declaration is one line. -/
theorem not_mem_print (isAbstract : Bool) : '\n' ∉ d.print isAbstract ++ " \x7b".toList := by
  have hjoin : ∀ ms : List Text, (∀ m ∈ ms, isSupertype m) → '\n' ∉ join ", " ms := by
    intro ms hms hmem
    rcases mem_join hmem with hmem | ⟨m, hm, hmem⟩
    · revert hmem
      decide
    · exact (isSupertype_cases (hms m hm)).2 hmem
  have hname : '\n' ∉ name :=
    not_mem_of_all (all_isWord_of_isIdentifier h.identifier) (by decide)
  have hgenerics : '\n' ∉ d.generics := by
    rcases h.generics with hnil | hlist
    · rw [hnil]
      exact not_mem_nil
    · exact (isTypeList_iff.mp hlist).choose_spec.2.2
  have hmixins := hjoin _ h.mixins
  have hinterfaces := hjoin _ h.interfaces
  have hsuper : ∀ s ∈ d.superclass, '\n' ∉ s :=
    fun s hs => (isSupertype_cases (h.isSupertype_superclass s hs)).2
  rw [print, h.shownName_eq]
  cases isAbstract <;> cases hs : d.superclass <;> cases d.mixins.isEmpty <;>
    cases d.interfaces.isEmpty <;> simp_all

/-- **The line that is written for a printable declaration begins a class with it**, if its code
    opens a body. -/
theorem isHeader_print (hs : d.isState = false) {isAbstract : Bool}
    (hopens : opensBody (d.print isAbstract ++ " \x7b".toList)) :
    IsHeader (d.print isAbstract ++ " \x7b".toList) d where
  class_line := by
    unfold print
    cases isAbstract <;> (simp only [append_assoc]; rfl)
  read_eq := h.read_print isAbstract
  not_state := hs
  opens := hopens

end

end Printable

end Declaration

end DartData
