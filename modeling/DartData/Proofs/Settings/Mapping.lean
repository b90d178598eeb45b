import DartData.Settings
import Mathlib.Data.Multiset.MapFold

/-!
# What a mapping of options says

The options of the generator are given by a mapping with a section for each member.  Such a mapping
is applied entry by entry to the default options, and stops at the first entry that it refuses.
Whatever it holds, the outcome does not depend on the order of the entries: either some entry is
refused, or every option has the value that the mapping gives it, if any, and its default otherwise
(`Options.ofValue_map`).
-/

namespace DartData

open List

/-! ## §1. Where options stand. -/

namespace Setting

/-- The section that an option stands in, if it is in one. -/
def section? : Setting → Option MemberSection
  | .enabled m => some m
  | .constructorDefaults => some .constructor
  | .fromMapDefaults => some .fromMap
  | .jenkinsHash => some .hashCode
  | .useEquatable | .equatableMixin => none

/-- The name of an option. -/
def key : Setting → Text
  | .enabled _ => "enabled"
  | .constructorDefaults | .fromMapDefaults => "default_values"
  | .jenkinsHash => "use_jenkins"
  | .useEquatable => "use_equatable"
  | .equatableMixin => "use_equatable_mixin"

/-- The key of the entry that may give the option a value: its section, or the option itself. -/
def entryKey (s : Setting) : Text := (s.section?.map MemberSection.key).getD s.key

/-- The value that the entry under this key gives the option.  True or false for a section is meant
    for the member as a whole. -/
def givenBy (s : Setting) (v : Value) : Option Value :=
  match s.section? with
  | none => some v
  | some m => match v with
    | .bool _ => if s = .enabled m then some v else none
    | .map fs => Value.entry? fs s.key
    | _ => none

/-- The value that a mapping gives the option. -/
def given? (s : Setting) (es : List (Value × Value)) : Option Value :=
  (Value.entry? es s.entryKey).bind s.givenBy

/-- No option has the key of a section that it does not stand in. -/
theorem entryKey_eq_iff {s : Setting} {m : MemberSection} :
    s.entryKey = m.key ↔ s.section? = some m := by
  cases s with
  | enabled n => cases n <;> cases m <;> decide
  | _ => cases m <;> decide

theorem givenBy_of_some {s : Setting} {m : MemberSection} (h : s.section? = some m) :
    (∀ b, s.givenBy (.bool b) = if s = .enabled m then some (.bool b) else none)
      ∧ ∀ fs, s.givenBy (.map fs) = Value.entry? fs s.key := by
  simp [givenBy, h]

end Setting

theorem MemberSection.key_injective {m n : MemberSection} (h : m.key = n.key) : m = n :=
  Option.some.inj (Setting.entryKey_eq_iff (s := .enabled m).mp h)

theorem MemberSection.find?_eq_some {k : Text} {m : MemberSection} :
    all.find? (·.key == k) = some m ↔ m.key = k := by
  constructor
  · intro h
    simpa using find?_some h
  · rintro rfl
    cases m <;> rfl

/-- The options of a section by their names. -/
theorem MemberSection.lookup_settings {m : MemberSection} {k : Text} {s : Setting} :
    m.settings.lookup k = some s ↔ s.section? = some m ∧ s.key = k := by
  constructor
  · intro h
    have hall : ∀ p ∈ m.settings, p.2.section? = some m ∧ p.2.key = p.1 := by cases m <;> decide
    obtain ⟨l₁, l₂, hl, -⟩ := lookup_eq_some_iff.mp h
    exact hall (k, s) (by rw [hl]; simp)
  · rintro ⟨hm, rfl⟩
    cases s with
    | enabled n => cases n <;> cases hm <;> rfl
    | _ => cases hm <;> rfl

theorem lookup_plainSettings {k : Text} {s : Setting} :
    plainSettings.lookup k = some s ↔ s.section? = none ∧ s.key = k := by
  constructor
  · intro h
    have hall : ∀ p ∈ plainSettings, p.2.section? = none ∧ p.2.key = p.1 := by decide
    obtain ⟨l₁, l₂, hl, -⟩ := lookup_eq_some_iff.mp h
    exact hall (k, s) (by rw [hl]; simp)
  · rintro ⟨hm, rfl⟩
    cases s <;> cases hm <;> rfl

/-! ## §2. Entries. -/

namespace Value

/-- Entries under texts, no two of which are the same. -/
structure IsRecord (es : List (Value × Value)) : Prop where
  text : ∀ key ∈ es.map Prod.fst, ∃ k, key = .text k
  distinct : (es.map Prod.fst).Nodup

theorem entry?_cons (e : Value × Value) (es : List (Value × Value)) (k : Text) :
    entry? (e :: es) k = if e.1.isText k then some e.2 else entry? es k := by
  cases h : e.1.isText k <;> simp [h, entry?]

namespace IsRecord

variable {es fs : List (Value × Value)} {k : Text} {v : Value}

theorem cases_cons {e : Value × Value} (h : IsRecord (e :: es)) :
    (∃ k, e = (.text k, e.2) ∧ ∀ v, (.text k, v) ∉ es) ∧ IsRecord es := by
  obtain ⟨htext, hdistinct⟩ := h
  obtain ⟨⟨k, hk⟩, htext⟩ := forall_mem_cons.mp htext
  rw [map_cons, nodup_cons] at hdistinct
  refine ⟨⟨k, Prod.ext hk rfl, fun v hv => hdistinct.1 ?_⟩, htext, hdistinct.2⟩
  exact hk ▸ mem_map_of_mem hv

theorem perm (h : IsRecord es) (hp : es.Perm fs) : IsRecord fs :=
  ⟨fun e he => h.text e ((hp.map Prod.fst).mem_iff.mpr he),
    (hp.map Prod.fst).nodup_iff.mp h.distinct⟩

/-- The value under a text is the one that stands beside it. -/
theorem entry?_eq_some_iff (h : IsRecord es) : entry? es k = some v ↔ (.text k, v) ∈ es := by
  induction es with
  | nil => exact ⟨nofun, nofun⟩
  | cons e es ih =>
    obtain ⟨⟨key, he, hnew⟩, hes⟩ := h.cases_cons
    rw [he, entry?_cons, mem_cons, Prod.mk.injEq]
    by_cases hk : key = k
    · subst hk
      simp [isText, hnew, eq_comm]
    · simp [isText, hk, Ne.symm hk, ih hes]

theorem entry?_perm (h : IsRecord es) (hp : es.Perm fs) (k : Text) : entry? es k = entry? fs k := by
  ext v
  rw [h.entry?_eq_some_iff, (h.perm hp).entry?_eq_some_iff, hp.mem_iff]

end IsRecord

end Value

/-! ## §3. Applying entries. -/

/-- The outcome of a step on the options: it stops with a fault for which there is a reason, or
    there is no reason and the options are `new`. -/
inductive Settles (reason : Fault → Prop) (new : Options Value) :
    Except Fault (Options Value) → Prop
  | error {f : Fault} (h : reason f) : Settles reason new (.error f)
  | ok (h : ∀ f, ¬ reason f) : Settles reason new (.ok new)

variable {k : Text} {v : Value} {es es' fs : List (Value × Value)} {m : MemberSection}

theorem Settles.congr {reason reason' : Fault → Prop} {outcome : Except Fault (Options Value)}
    {new new' : Options Value} (h : Settles reason new outcome)
    (hreason : ∀ f, reason f ↔ reason' f)
    (hnew : ∀ s, new s = new' s) : Settles reason' new' outcome := by
  obtain rfl : new = new' := funext hnew
  obtain rfl : reason = reason' := funext fun f => propext (hreason f)
  exact h

namespace SettingsSection

variable {s : SettingsSection (Options Value)}

/-- Entries are applied one after another. -/
theorem applyEntries_cons (s : SettingsSection (Options Value)) (e : Value × Value)
    (es : List (Value × Value)) (o : Options Value) :
    s.applyEntries (e :: es) o = s.applyEntries [e] o >>= s.applyEntries es := by
  obtain ⟨k, v⟩ := e
  cases k with
  | text k =>
    rw [applyEntries, applyEntries]
    cases s.option? k with
    | none => rfl
    | some put =>
      show put v o >>= _ = (put v o >>= _) >>= _
      cases put v o <;> rfl
  | _ => rfl

theorem applyEntries_of_some {put : Value → Options Value → Except Fault (Options Value)}
    (h : s.option? k = some put) (v : Value) (o : Options Value) :
    s.applyEntries [(.text k, v)] o = put v o := by
  rw [applyEntries, h]
  show put v o >>= _ = _
  cases put v o <;> rfl

/-- An entry that gives its value to one option, or is not known. -/
theorem applyEntries_put (found : Option Setting)
    (h : s.option? k = found.map fun t v o => .ok (Options.put o t v)) (v : Value)
    (o : Options Value) :
    Settles (fun f => found = none ∧ f = .unknownOption k s.name)
      (fun t => if found = some t then v else o t)
      (s.applyEntries [(.text k, v)] o) := by
  cases found with
  | none =>
    rw [applyEntries, h]
    exact .error ⟨rfl, rfl⟩
  | some t =>
    rw [applyEntries_of_some h]
    refine (Settles.ok ?_).congr (fun _ => Iff.rfl) fun u => ?_
    · rintro f ⟨⟨⟩, -⟩
    · simp [Options.put, eq_comm]

/-- **Entries one after another.**  If each of them settles what it gives to the options that it is
    the entry of, then so do all together. -/
theorem applyEntries_settles (reason : Text → Value → Fault → Prop) (place : Setting → Text)
    (gives : Setting → Value → Option Value) (h : Value.IsRecord es)
    (hentry : ∀ k v, (.text k, v) ∈ es → ∀ o, Settles (reason k v)
      (fun t => if place t = k then (gives t v).getD (o t) else o t)
        (s.applyEntries [(.text k, v)] o)) :
    ∀ o, Settles (fun f => ∃ k v, (.text k, v) ∈ es ∧ reason k v f)
      (fun t => ((Value.entry? es (place t)).bind (gives t)).getD (o t)) (s.applyEntries es o) := by
  induction es with
  | nil => exact fun o => .ok (by simp)
  | cons e es ih =>
    intro o
    obtain ⟨⟨k, he, hnew⟩, hes⟩ := h.cases_cons
    generalize e.2 = v at he
    subst he
    have hfirst := hentry k v mem_cons_self o
    rw [applyEntries_cons]
    generalize s.applyEntries [(.text k, v)] o = first at hfirst
    cases hfirst with
    | error hf => exact .error ⟨k, v, mem_cons_self, hf⟩
    | ok hnone =>
      -- what the others give does not go to the options of this entry
      refine (ih hes (fun k' v' hmem => hentry k' v' (mem_cons_of_mem _ hmem)) _).congr
        (fun f => ?_) fun t => ?_
      · simp [hnone, or_and_right, exists_or, eq_comm]
      · rw [Value.entry?_cons, Value.isText]
        by_cases ht : k = place t
        · have hnone : Value.entry? es (place t) = none := by
            rw [Option.eq_none_iff_forall_ne_some]
            exact fun w hw => hnew w (hes.entry?_eq_some_iff.mp (ht ▸ hw))
          simp [ht, hnone]
        · simp [ht, Ne.symm ht]

end SettingsSection

/-! ## §4. Sections. -/

/-- Why the entry of a mapping of options is refused, and with which fault. -/
inductive Refused : Text → Value → Fault → Prop
  /-- No option and no section has the name. -/
  | unknown {k : Text} {v : Value} (h : ∀ s : Setting, s.entryKey ≠ k) :
      Refused k v (.unknownOption k "GeneratorConfig")
  /-- The value for a section is neither true nor false nor a mapping. -/
  | notMapping {m : MemberSection} {v : Value} (hbool : ∀ b, v ≠ .bool b)
    (hmap : ∀ fs, v ≠ .map fs) :
      Refused m.key v (.notMapping m.title v.kind)
  /-- The section has no option of the name. -/
  | unknownIn {m : MemberSection} {fs : List (Value × Value)} {k : Text} {v : Value}
      (hmem : (.text k, v) ∈ fs) (h : ∀ s : Setting, s.section? = some m → s.key ≠ k) :
      Refused m.key (.map fs) (.unknownOption k m.title)

/-- A mapping of options: the keys are texts and distinct, those of its sections too. -/
structure IsOptionMapping (es : List (Value × Value)) : Prop extends Value.IsRecord es where
  sections : ∀ (m : MemberSection) (fs : List (Value × Value)), (.text m.key, .map fs) ∈ es →
    Value.IsRecord fs

/-- What is refused under the key of a section. -/
theorem refused_key_iff {f : Fault} : Refused m.key v f ↔
    ((∀ b, v ≠ .bool b) ∧ (∀ fs, v ≠ .map fs) ∧ f = .notMapping m.title v.kind)
      ∨ ∃ fs, v = .map fs ∧ ∃ k w, (.text k, w) ∈ fs
        ∧ (∀ s : Setting, s.section? = some m → s.key ≠ k) ∧ f = .unknownOption k m.title := by
  constructor
  · intro h
    generalize hk : m.key = key at h
    cases h with
    | unknown h => exact absurd hk (h (.enabled m))
    | notMapping hbool hmap =>
      obtain rfl := MemberSection.key_injective hk
      exact .inl ⟨hbool, hmap, rfl⟩
    | unknownIn hmem h =>
      obtain rfl := MemberSection.key_injective hk
      exact .inr ⟨_, rfl, _, _, hmem, h, rfl⟩
  · rintro (⟨hbool, hmap, rfl⟩ | ⟨fs, rfl, k, w, hmem, h, rfl⟩)
    · exact .notMapping hbool hmap
    · exact .unknownIn hmem h

/-- The entry of a section. -/
theorem MemberSection.apply_settles (hv : ∀ fs, v = .map fs → Value.IsRecord fs)
    (o : Options Value) :
    Settles (Refused m.key v)
      (fun s => if s.entryKey = m.key then (s.givenBy v).getD (o s) else o s)
      (m.apply v o) := by
  simp only [Setting.entryKey_eq_iff]
  cases v with
  | bool b =>
    -- a truth value switches the section on or off
    have hput : Settles (fun _ => False) (Options.put o (.enabled m) (.bool b))
        (m.apply (.bool b) o) :=
      .ok fun _ h => h
    refine hput.congr (fun f => by simp [refused_key_iff]) fun s => ?_
    show (if s = .enabled m then .bool b else o s) = _
    by_cases hs : s.section? = some m
    · rw [if_pos hs, (Setting.givenBy_of_some hs).1]
      split <;> rfl
    · rw [if_neg hs, if_neg]
      rintro rfl
      exact hs rfl
  | map fs =>
    -- a mapping gives the options of the section one by one
    refine (SettingsSection.applyEntries_settles
      (fun k _ f => (∀ s : Setting, s.section? = some m → s.key ≠ k) ∧ f = .unknownOption k m.title)
      Setting.key (fun s v => if s.section? = some m then some v else none) (hv fs rfl)
      (fun k v _ o => ?_) o).congr (fun f => by simp [refused_key_iff]) fun s => ?_
    · refine (SettingsSection.applyEntries_put (m.settings.lookup k) rfl v o).congr
        (fun f => ?_) fun t => ?_
      · simp [Option.eq_none_iff_forall_ne_some, lookup_settings, schema]
      · by_cases ht : t.section? = some m <;> by_cases hk : t.key = k
          <;> simp [lookup_settings, ht, hk]
    · by_cases hs : s.section? = some m
      · simp [hs, (Setting.givenBy_of_some hs).2]
      · simp [hs]
  | _ => exact .error (.notMapping (by simp) (by simp))

/-- The entry of an option that stands in no section. -/
theorem plain_settles (hk : ∀ m : MemberSection, m.key ≠ k) (v : Value) (o : Options Value) :
    Settles (Refused k v) (fun s => if s.entryKey = k then (s.givenBy v).getD (o s) else o s)
      (optionsSchema.applyEntries [(.text k, v)] o) := by
  have hoption : optionsSchema.option? k
      = (plainSettings.lookup k).map fun s v o => .ok (Options.put o s v) := by
    have hnone : MemberSection.all.find? (·.key == k) = none :=
      find?_eq_none.mpr fun m _ => by simpa using hk m
    unfold optionsSchema
    dsimp only
    rw [hnone]
  have hkey : ∀ s : Setting, plainSettings.lookup k = some s ↔ s.entryKey = k := by
    intro s
    rw [lookup_plainSettings, Setting.entryKey]
    cases s.section? with
    | none => simp
    | some m => simpa using hk m
  refine (SettingsSection.applyEntries_put _ hoption v o).congr (fun f => ⟨?_, fun hf => ?_⟩)
    fun s => ?_
  · rintro ⟨hnone, rfl⟩
    exact .unknown fun s hs => by simp [(hkey s).mpr hs] at hnone
  · cases hf with
    | unknown h =>
      exact ⟨Option.eq_none_iff_forall_ne_some.mpr fun s hs => h s ((hkey s).mp hs), rfl⟩
    | notMapping => exact absurd rfl (hk _)
    | unknownIn => exact absurd rfl (hk _)
  · by_cases hs : plainSettings.lookup k = some s
    · rw [if_pos hs, if_pos ((hkey s).mp hs), Setting.givenBy, (lookup_plainSettings.mp hs).1]
      rfl
    · rw [if_neg hs, if_neg fun h => hs ((hkey s).mpr h)]

/-- One entry of a mapping of options. -/
theorem optionsSchema_settles (h : IsOptionMapping es) (hmem : (.text k, v) ∈ es)
    (o : Options Value) :
    Settles (Refused k v) (fun s => if s.entryKey = k then (s.givenBy v).getD (o s) else o s)
      (optionsSchema.applyEntries [(.text k, v)] o) := by
  by_cases hk : ∃ m : MemberSection, m.key = k
  · obtain ⟨m, rfl⟩ := hk
    have hoption : optionsSchema.option? m.key = some m.apply := by
      unfold optionsSchema
      dsimp only
      rw [MemberSection.find?_eq_some.mpr rfl]
    rw [SettingsSection.applyEntries_of_some hoption]
    exact MemberSection.apply_settles (fun fs hv => h.sections m fs (hv ▸ hmem)) o
  · exact plain_settles (fun m hm => hk ⟨m, hm⟩) v o

/-- All entries of a mapping of options. -/
theorem IsOptionMapping.settles (h : IsOptionMapping es) :
    Settles (fun f => ∃ k v, (.text k, v) ∈ es ∧ Refused k v f)
      (fun s => (s.given? es).getD (Options.defaultValues s)) (Options.ofValue (.map es)) :=
  SettingsSection.applyEntries_settles Refused Setting.entryKey Setting.givenBy h.toIsRecord
    (fun _ _ => optionsSchema_settles h) _

/-! ## §5. Order. -/

/-- Two entries are the same up to the order of the entries in a section. -/
def SameEntry (a b : Value × Value) : Prop :=
  a = b ∨ ∃ (m : MemberSection) (fs gs : List (Value × Value)),
    a = (.text m.key, .map fs) ∧ b = (.text m.key, .map gs) ∧ fs.Perm gs

/-- The same mapping with its entries in another order, those of its sections too. -/
def Reordered (es es' : List (Value × Value)) : Prop := Multiset.Rel SameEntry es es'

namespace Reordered

theorem symm (h : Reordered es es') : Reordered es' es := by
  refine (Multiset.rel_flip.mpr h).mono fun a _ b _ hab => ?_
  rcases hab with rfl | ⟨m, fs, gs, rfl, rfl, hp⟩
  · exact .inl rfl
  · exact .inr ⟨m, gs, fs, rfl, rfl, hp.symm⟩

section

variable (hr : Reordered es es') (h : IsOptionMapping es)
include hr h

/-- The order of entries makes no difference. -/
theorem isOptionMapping : IsOptionMapping es' := by
  have hkeys : (es.map Prod.fst).Perm (es'.map Prod.fst) := by
    rw [← Multiset.coe_eq_coe, ← Multiset.map_coe, ← Multiset.map_coe, ← Multiset.rel_eq,
      Multiset.rel_map]
    refine Multiset.Rel.mono hr fun a _ b _ hab => ?_
    rcases hab with rfl | ⟨m, fs, gs, rfl, rfl, -⟩ <;> rfl
  refine ⟨⟨fun key hk => h.text key (hkeys.mem_iff.mpr hk), hkeys.nodup_iff.mp h.distinct⟩, ?_⟩
  intro m gs hmem
  obtain ⟨e, he, hsame⟩ := Multiset.exists_mem_of_rel_of_mem hr.symm hmem
  rcases hsame with rfl | ⟨n, gs', fs, hb, rfl, hp⟩
  · exact h.sections m gs he
  · obtain rfl := Value.map.inj (Prod.mk.inj hb).2
    exact (h.sections n fs he).perm hp.symm

/-- The same entry is refused for the same reasons and gives the same values. -/
theorem exists_entry (hmem : (.text k, v) ∈ es) :
    ∃ w, (.text k, w) ∈ es' ∧ (∀ f, Refused k v f ↔ Refused k w f)
      ∧ ∀ s : Setting, s.entryKey = k → s.givenBy v = s.givenBy w := by
  obtain ⟨e, he, hsame⟩ := Multiset.exists_mem_of_rel_of_mem hr hmem
  rcases hsame with rfl | ⟨m, fs, gs, ha, rfl, hp⟩
  · exact ⟨v, he, fun f => Iff.rfl, fun s _ => rfl⟩
  · obtain ⟨hk, rfl⟩ := Prod.mk.inj ha
    obtain rfl := Value.text.inj hk
    refine ⟨_, he, fun f => by simp [refused_key_iff, hp.mem_iff], fun s hs => ?_⟩
    have hgiven := (Setting.givenBy_of_some (Setting.entryKey_eq_iff.mp hs)).2
    rw [hgiven, hgiven, (h.sections m fs hmem).entry?_perm hp]

theorem given?_eq_some {s : Setting} (hs : s.given? es = some v) : s.given? es' = some v := by
  obtain ⟨u, hu, hv⟩ := Option.bind_eq_some_iff.mp hs
  obtain ⟨w, hw, -, hgiven⟩ := hr.exists_entry h (h.toIsRecord.entry?_eq_some_iff.mp hu)
  rw [Setting.given?, (hr.isOptionMapping h).toIsRecord.entry?_eq_some_iff.mpr hw]
  exact (hgiven s rfl).symm.trans hv

/-- The order does not matter. -/
theorem toOption_eq :
    (Options.ofValue (.map es')).toOption = (Options.ofValue (.map es)).toOption := by
  have h' := hr.isOptionMapping h
  have hgiven : ∀ s : Setting, s.given? es = s.given? es' := fun s => Option.ext fun v =>
    ⟨hr.given?_eq_some h, hr.symm.given?_eq_some h'⟩
  have hrefused : ∀ {es es'}, Reordered es es' → IsOptionMapping es → ∀ {f},
      (∃ k v, (.text k, v) ∈ es ∧ Refused k v f) → ∃ k v, (.text k, v) ∈ es' ∧ Refused k v f := by
    rintro es es' hr h f ⟨k, v, hmem, hf⟩
    obtain ⟨w, hw, hsame, -⟩ := hr.exists_entry h hmem
    exact ⟨k, w, hw, (hsame f).mp hf⟩
  have hes := h.settles.congr (fun f => ⟨hrefused hr h, hrefused hr.symm h'⟩)
    fun s => by rw [hgiven]
  have hes' := h'.settles
  -- both are settled by the same refusals and the same values
  generalize Options.ofValue (.map es) = a at hes
  generalize Options.ofValue (.map es') = b at hes'
  cases hes with
  | error hf =>
    cases hes' with
    | error => rfl
    | ok hnone => exact absurd hf (hnone _)
  | ok hnone =>
    cases hes' with
    | error hf => exact absurd hf (hnone _)
    | ok => rfl

end

end Reordered

/-- **The outcome of a mapping of options.**  It is refused if and only if one of its entries is,
    with the fault of such an entry.  Otherwise every option has the value that the mapping gives
    it, and its default if there is none.  The order of the entries makes no difference. -/
theorem Options.ofValue_map {es : List (Value × Value)} (h : IsOptionMapping es) :
    (∀ es', Reordered es es' → (ofValue (.map es')).toOption = (ofValue (.map es)).toOption)
      ∧ ((∃ f, ofValue (.map es) = .error f) ↔ ∃ k v f, (.text k, v) ∈ es ∧ Refused k v f)
      ∧ (∀ f, ofValue (.map es) = .error f → ∃ k v, (.text k, v) ∈ es ∧ Refused k v f)
      ∧ ∀ o, ofValue (.map es) = .ok o →
        ∀ s : Setting, o s = (s.given? es).getD (defaultValues s) := by
  refine ⟨fun es' hr => hr.toOption_eq h, ?_⟩
  have hsettles := h.settles
  generalize ofValue (.map es) = outcome at hsettles
  cases hsettles with
  | error hf =>
    obtain ⟨k, v, hmem, hf⟩ := hf
    refine ⟨⟨fun _ => ⟨k, v, _, hmem, hf⟩, fun _ => ⟨_, rfl⟩⟩, ?_, by simp⟩
    rintro _ ⟨⟩
    exact ⟨k, v, hmem, hf⟩
  | ok hnone =>
    refine ⟨⟨by simp, fun ⟨k, v, f, hmem, hf⟩ => absurd ⟨k, v, hmem, hf⟩ (hnone f)⟩, by simp, ?_⟩
    rintro _ ⟨⟩ s
    rfl

/-- A section that is switched off, and one of which two options are given. -/
theorem ofValue_map_sections :
    let es : List (Value × Value) := [(.text "to_string", .bool false),
      (.text "constructor",
        .map [(.text "default_values", .bool true), (.text "enabled", .text "no")])]
    IsOptionMapping es ∧ ∃ o, Options.ofValue (.map es) = .ok o
      ∧ o (.enabled .toString) = .bool false ∧ o (.enabled .constructor) = .text "no"
      ∧ o .constructorDefaults = .bool true ∧ o .jenkinsHash = .bool false := by
  intro es
  have h : IsOptionMapping es := by
    refine ⟨⟨by simp [es], by simp [es]⟩, fun m fs hmem => ?_⟩
    rcases mem_cons.mp hmem with hfirst | hlast
    · exact absurd (Prod.mk.inj hfirst).2 (by simp)
    · obtain rfl := Value.map.inj (Prod.mk.inj (mem_singleton.mp hlast)).2
      exact ⟨by simp, by simp⟩
  obtain ⟨-, -, -, hgiven⟩ := Options.ofValue_map h
  exact ⟨h, _, rfl, hgiven _ rfl _, hgiven _ rfl _, hgiven _ rfl _, hgiven _ rfl _⟩

end DartData
