import ClassWarden.CommandLine.Arguments
import ClassWarden.Matching
import ClassWarden.Text.Blank
import ClassWarden.Text.Quoted

/-!
# Settings

Numbers that an option may give, else a variable of the environment, else a
default.  A variable is read only where the option is missing.
-/

namespace ClassWarden

/-- Values of the variables that are set. -/
abbrev Environment := String → Option String

/-- A variable that does not hold a count. -/
structure SettingError where
  name : String
  raw : String
  fault : Count.Fault
  deriving DecidableEq, Repr

namespace Settings

def distanceVariable : String := "JAR_SENTRY_MAX_DISTANCE"

def skipVariable : String := "JAR_SENTRY_MAX_SKIP"

def threadsVariable : String := "JAR_SENTRY_THREADS"

/-- The count that a variable holds, blanks around it aside. -/
def ofVariable (environment : Environment) (name : String) :
    Except SettingError (Option Nat) :=
  match environment name with
  | none => .ok none
  | some raw =>
    match Count.parse (Blank.trim raw) with
    | .ok value => .ok (some value)
    | .error fault => .error ⟨name, raw, fault⟩

/-- The count that an option gives, else a variable. -/
def count (environment : Environment) (given : Option Nat) (name : String) :
    Except SettingError (Option Nat) :=
  match given with
  | some value => .ok (some value)
  | none => ofVariable environment name

/-- How signatures are matched.  A skip limit of zero means no limit. -/
def matchOptions (environment : Environment) (values : OptionValues) :
    Except SettingError MatchOptions :=
  match count environment values.maxDistance distanceVariable with
  | .error error => .error error
  | .ok distance? =>
    match count environment values.maxSkip skipVariable with
    | .error error => .error error
    | .ok skip? =>
      let maxSkip :=
        match skip? with
        | none => MatchOptions.standard.maxSkip
        | some 0 => none
        | some limit => some limit
      .ok ⟨distance?.getD MatchOptions.standard.maxDistance, maxSkip⟩

def threads (environment : Environment) (values : OptionValues) :
    Except SettingError (Option Nat) :=
  count environment values.threads threadsVariable

end Settings

end ClassWarden
