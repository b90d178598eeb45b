import DartData.Text.Basic

/-!
# Faults

Everything that can stop the generator, as causes.  The first three groups are worded for the
reader: broken promises between the parts of the program, faults of the settings, and a source
file that is not there.  The causes of the last group end a run without a text of their own.
-/

namespace DartData

/-- What stopped the work. -/
inductive Fault where
  /-- The class has a place for its constructor but no text of it. -/
  | noConstructorText (className : Text)
  /-- The class is to be written anew but its first or last line is not known. -/
  | noLineSpan (className : Text)
  /-- A member is looked for in a class whose first line is not known. -/
  | noStartLine (className : Text)
  /-- The serialization template is asked for without a file name. -/
  | noFileName
  /-- An edit reaches beyond the text, which has `count` lines. -/
  | editOutside (first last : Int) (count : Nat)
  /-- Two edits share a line. -/
  | editsOverlap (first : Int)
  /-- The part asked for is none of `choices`. -/
  | unknownPart (name : Text) (choices : List Text)
  /-- The value of a settings section is no mapping. -/
  | notMapping (sectionName kind : Text)
  /-- A settings section has no such option. -/
  | unknownOption (key sectionName : Text)
  /-- The settings file that was named does not exist. -/
  | noSettingsFile (path : Text)
  /-- The settings file is not well formed. -/
  | malformedSettings (path detail : Text)
  /-- The source file does not exist. -/
  | noSourceFile (path : Text)
  /-- The name of a class opens type parameters that are never closed. -/
  | unclosedGenerics
  /-- The name of a class is needed where it has none. -/
  | unnamedClass
  /-- A line number is needed where there is none. -/
  | noLineNumber
  /-- A line number points beyond the lines of the class. -/
  | lineOutOfRange
  /-- A settings value cannot be searched for a key. -/
  | notSearchable
  /-- A settings value cannot be asked for the value of a key. -/
  | notIndexable
  /-- The name of an option is not a text. -/
  | optionNotText
  /-- A file does not hold UTF-8. -/
  | notUtf8
  /-- A file to be written has no directory to stand in. -/
  | noSuchFile
  /-- A file to be written is a directory. -/
  | isDirectory
  /-- A path leads through something that is no directory. -/
  | notDirectory
  /-- There are too many links on a path. -/
  | endlessLinks
  /-- A file would be copied to itself. -/
  | sameFile
  /-- A document cannot be read, for another reason than that it is not well formed. -/
  | unreadable
  /-- A text has a character that cannot be written to a file. -/
  | notEncodable
  /-- A text has a character that cannot be printed. -/
  | notPrintable
  deriving DecidableEq, Repr

/-- The wording of a fault, for those that have one. -/
def Fault.message? : Fault → Option Text
  | .noConstructorText c => some (c ++ " has a constructor span but no constructor text")
  | .noLineSpan c => some (c ++ " has no line span")
  | .noStartLine c => some (c ++ " has no start line")
  | .noFileName => some "the json_serializable template needs the file name"
  | .editOutside a b n =>
    some ("Edit span " ++ Text.ofInt a ++ "-" ++ Text.ofInt b ++ " outside of "
      ++ Text.ofInt n ++ " lines")
  | .editsOverlap a => some ("Overlapping edits at line " ++ Text.ofInt a)
  | .unknownPart n cs =>
    some ("Unknown part '" ++ n ++ "', expected one of: " ++ Text.join ", " cs)
  | .notMapping s k => some ("Expected a mapping for " ++ s ++ ", got " ++ k)
  | .unknownOption k s => some ("Unknown option '" ++ k ++ "' in " ++ s)
  | .noSettingsFile p => some ("Config file not found: " ++ p)
  | .malformedSettings p d => some ("Invalid YAML in " ++ p ++ ": " ++ d)
  | .noSourceFile p => some ("File not found: " ++ p)
  | _ => none

end DartData
