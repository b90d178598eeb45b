import DartData.Options
import DartData.Value

/-!
# Settings

What a settings file says: values for the options of the generator, facts about the package that
override what is discovered, and how files are written.  Options keep the value that was
configured, whatever it is; only its truth counts.

`Settings.ofDocument` reads the value of a whole settings file.  Options that it does not mention
keep their defaults, and names that no section has are refused.
-/

namespace DartData

/-! ## §1. Sections. -/

/-- A section of settings: its name in messages, and what it does with the options it knows. -/
structure SettingsSection (σ : Type) where
  name : Text
  /-- What an option does with its value, if the section has it. -/
  option? : Text → Option (Value → σ → Except Fault σ)

/-- Applies entries one after another. -/
def SettingsSection.applyEntries {σ : Type} (s : SettingsSection σ) :
    List (Value × Value) → σ → Except Fault σ
  | [], state => .ok state
  | (.text key, value) :: es, state =>
    match s.option? key with
    | some put => do s.applyEntries es (← put value state)
    | none => .error (.unknownOption key s.name)
  | _ :: _, _ => .error .optionNotText

/-- Applies a value, which must be a mapping. -/
def SettingsSection.apply {σ : Type} (s : SettingsSection σ) (v : Value) (state : σ) :
    Except Fault σ :=
  match v with
  | .map es => s.applyEntries es state
  | v => .error (.notMapping s.name v.kind)

/-! ## §2. The options of the generator. -/

namespace MemberSection

/-- All sections in order. -/
def all : List MemberSection :=
  [.constructor, .copyWith, .toMap, .fromMap, .toJson, .fromJson, .toString, .equality, .hashCode]

/-- The name of a section in a settings file. -/
def key : MemberSection → Text
  | .constructor => "constructor"
  | .copyWith => "copy_with"
  | .toMap => "to_map"
  | .fromMap => "from_map"
  | .toJson => "to_json"
  | .fromJson => "from_json"
  | .toString => "to_string"
  | .equality => "equality"
  | .hashCode => "hash_code"

/-- The name of a section in messages. -/
def title : MemberSection → Text
  | .constructor => "ConstructorConfig"
  | .fromMap => "FromMapConfig"
  | .hashCode => "HashCodeConfig"
  | _ => "MemberConfig"

/-- The options of a section with their names. -/
def settings (s : MemberSection) : List (Text × Setting) :=
  ("enabled", .enabled s) :: match s with
    | .constructor => [("default_values", .constructorDefaults)]
    | .fromMap => [("default_values", .fromMapDefaults)]
    | .hashCode => [("use_jenkins", .jenkinsHash)]
    | _ => []

end MemberSection

/-- The options with one of them changed. -/
def Options.put {α : Type} (o : Options α) (s : Setting) (v : α) : Options α :=
  fun t => if t = s then v else o t

/-- A section of the options of the generator. -/
def MemberSection.schema (s : MemberSection) : SettingsSection (Options Value) where
  name := s.title
  option? key := (s.settings.lookup key).map fun setting value o => .ok (o.put setting value)

/-- Applies a value to a section.  True or false alone switches the member on or off. -/
def MemberSection.apply (s : MemberSection) (v : Value) (o : Options Value) :
    Except Fault (Options Value) :=
  match v with
  | .bool b => .ok (o.put (.enabled s) (.bool b))
  | v => s.schema.apply v o

/-- The options that stand in no section, with their names. -/
def plainSettings : List (Text × Setting) :=
  [("use_equatable", .useEquatable), ("use_equatable_mixin", .equatableMixin)]

/-- The options of the generator as a section. -/
def optionsSchema : SettingsSection (Options Value) where
  name := "GeneratorConfig"
  option? key :=
    match MemberSection.all.find? (·.key == key) with
    | some s => some s.apply
    | none => (plainSettings.lookup key).map fun setting value o => .ok (o.put setting value)

/-- The default options as values. -/
def Options.defaultValues : Options Value := fun s => .bool (Options.default s)

/-- The default options with a configured value applied to them. -/
def Options.ofValue (v : Value) : Except Fault (Options Value) :=
  optionsSchema.apply v Options.defaultValues

/-- The truth of each option. -/
def Options.truth (o : Options Value) : Options Bool := fun s => (o s).truth

/-! ## §3. All settings. -/

/-- The name of a package as it stands in imports, if the value counts as one. -/
def Value.packageName? (v : Value) : Option Text := if v.truth then some v.toText else none

/-- Facts about the package that override what is discovered; null means not given. -/
structure PackageSettings where
  name : Value := .null
  flutter : Value := .null
  deriving Repr

/-- All settings. -/
structure Settings where
  version : Text := "1.0"
  options : Options Value := Options.defaultValues
  package : PackageSettings := {}
  /-- Whether a copy of a file is kept when it is written. -/
  backup : Value := .bool false

/-- The facts about the package as a section. -/
def packageSchema : SettingsSection PackageSettings where
  name := "ProjectConfig"
  option? key :=
    if key == "package_name" then some fun v p => .ok { p with name := v }
    else if key == "is_flutter" then some fun v p => .ok { p with flutter := v }
    else none

/-- The section on how files are written. -/
def outputSchema : SettingsSection Value where
  name := "OutputConfig"
  option? key := if key == "backup" then some fun v _ => .ok v else none

/-- Looks a section up in the value of a settings file.  A text is searched for the name as a part
    of it and a list for it as an item, but neither has a value to give. -/
def Value.section? (v : Value) (key : Text) : Except Fault (Option Value) :=
  match v with
  | .map es => .ok (Value.entry? es key)
  | .list vs => if vs.any (·.isText key) then .error .notIndexable else .ok none
  | .text t => if t.has key then .error .notIndexable else .ok none
  | _ => .error .notSearchable

/-- Applies the section `key` of a document, if it is there. -/
def Value.withSection {σ : Type} (v : Value) (key : Text) (state : σ)
    (put : Value → σ → Except Fault σ) : Except Fault σ := do
  match ← v.section? key with
  | some given => put given state
  | none => return state

/-- The settings that a document gives.  A document that counts as false gives none. -/
def Settings.ofDocument (document : Value) : Except Fault Settings := do
  let v := if document.truth then document else .map []
  let s : Settings := {}
  let s ← v.withSection "version" s fun given s => .ok { s with version := given.toText }
  let s ← v.withSection "generator" s fun given s => do
    return { s with options := ← optionsSchema.apply given s.options }
  let s ← v.withSection "project" s fun given s => do
    return { s with package := ← packageSchema.apply given s.package }
  v.withSection "output" s fun given s => do
    return { s with backup := ← outputSchema.apply given s.backup }

end DartData
