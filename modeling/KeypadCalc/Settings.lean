import KeypadCalc.Session

/-!
The settings of the calculator, three numbers of 64 bits in a file in which each of them may be left
out. The reader of that file is a parameter: it turns a text into the three numbers, those that are
left out by their default values, or refuses it. What is read is not in force yet: a value out of
bounds is brought to the nearest bound, and a file that cannot be read means the default values.
-/
namespace KeypadCalc

structure Settings where
  /-- Milliseconds from the key for equals to the result. -/
  calculationDelay : UInt64 := 50
  /-- Milliseconds for which an error is shown. -/
  errorDuration : UInt64 := 3000
  historyCapacity : UInt64 := 20
deriving DecidableEq, Repr

/-- Why there are no settings. -/
inductive SettingsError where
  | unreadable
  | invalid
deriving DecidableEq, Repr

namespace Settings

/-- Brings every setting into its bounds. -/
def clamp (s : Settings) : Settings where
  calculationDelay := min s.calculationDelay 1000
  errorDuration := max 500 (min s.errorDuration 30000)
  historyCapacity := max 1 (min s.historyCapacity 200)

variable (read : Text → Option Settings)

/-- The settings in a text, within their bounds. -/
def ofText (s : Text) : Except SettingsError Settings :=
  match read s with
  | none => .error .invalid
  | some settings => .ok settings.clamp

/-- The settings in a file, which is given by its bytes or missing. The bytes have to be UTF-8. -/
def ofFile (content : Option ByteArray) : Except SettingsError Settings :=
  match content.bind String.fromUTF8? with
  | none => .error .unreadable
  | some text => ofText read text.toList

/-- The path of something in a directory. -/
def inDirectory (directory name : Text) : Text :=
  if directory.isEmpty || directory.getLast? = some '/' then directory ++ name
  else directory ++ ['/'] ++ name

/-- The path of the settings file, for the directory in which configurations are kept. -/
def filePath (directory : Text) : Text :=
  inDirectory (inDirectory directory "calculatrice-touches".toList) "reglages.toml".toList

/-- The settings that the calculator starts with. `directory` is where the system keeps
configurations, if it has such a directory, and `files` what is in the files that exist. -/
def load (directory : Option Text) (files : Text → Option ByteArray) : Settings :=
  match directory with
  | none => {}
  | some directory =>
    match ofFile read (files (filePath directory)) with
    | .ok s => s
    | .error _ => {}

def toParameters (s : Settings) : Parameters where
  calculationDelay := .ofMillis s.calculationDelay.toNat
  errorDuration := .ofMillis s.errorDuration.toNat
  historyCapacity := s.historyCapacity.toNat

end Settings
end KeypadCalc
