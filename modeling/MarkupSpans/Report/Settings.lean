import MarkupSpans.Failure

/-!
# Report settings

What a report prints, how it prints it, and when it ends the run.  Settings are given by name; a
name that is not allowed is refused with the list of those that are.
-/

set_option autoImplicit false

namespace MarkupSpans.Report

/-- How grave a report is; `everything` and `nothing` bound the scale. -/
inductive Level where
  /-- Below all reports. -/
  | everything
  | message
  | warning
  | fatal
  /-- Above all reports. -/
  | nothing
  deriving DecidableEq

namespace Level

/-- The place of a level on the scale. -/
def rank : Level → Nat
  | .everything => 0
  | .message => 1
  | .warning => 2
  | .fatal => 3
  | .nothing => 4

/-- The name of a level. -/
def name : Level → String
  | .everything => "everything"
  | .message => "message"
  | .warning => "warning"
  | .fatal => "fatal"
  | .nothing => "nothing"

/-- All levels, from the lowest to the highest. -/
def all : List Level := [.everything, .message, .warning, .fatal, .nothing]

/-- The level that has a name. -/
def ofName? (name : String) : Option Level := all.find? fun level => level.name == name

end Level

/-- When a grave report ends the run. -/
inductive Timing where
  | early
  /-- When it is asked for. -/
  | late
  | never
  deriving DecidableEq

namespace Timing

/-- The name of a timing. -/
def name : Timing → String
  | .early => "early"
  | .late => "late"
  | .never => "never"

/-- All timings. -/
def all : List Timing := [.early, .late, .never]

/-- The timing that has a name. -/
def ofName? (name : String) : Option Timing := all.find? fun timing => timing.name == name

end Timing

/-- How reports are laid out. -/
inductive PrintMode where
  | plain
  /-- As text with colours for a console. -/
  | console
  | json
  deriving DecidableEq

namespace PrintMode

/-- The name of a mode. -/
def name : PrintMode → String
  | .plain => "plain"
  | .console => "console"
  | .json => "json"

/-- All modes. -/
def all : List PrintMode := [.plain, .console, .json]

/-- The mode that has a name. -/
def ofName? (name : String) : Option PrintMode := all.find? fun mode => mode.name == name

end PrintMode

/-- What is reported, how, and when that ends the run. -/
structure Settings where
  /-- The lowest level that counts as a failure. -/
  dieOn : Level := .fatal
  /-- When a failure ends the run. -/
  dieWhen : Timing := .late
  /-- The lowest level that is printed. -/
  printOn : Level := .everything
  silent : Bool := false
  printMode : PrintMode := .console
  asciiOnly : Bool := false
  deriving DecidableEq

/-- Settings to be changed, by name; those not given stay. -/
structure SettingChanges where
  dieOn : Option String := none
  dieWhen : Option String := none
  printOn : Option String := none
  silent : Option Bool := none
  printMode : Option String := none
  asciiOnly : Option Bool := none

/-- The choice that a name makes, where an absent name leaves things as they are. -/
def chooseSetting {α : Type} (setting : String) (nameOf : α → String) (all : List α)
    (current : α) : Option String → Except ValueFault α
  | none => .ok current
  | some name =>
    match all.find? fun choice => nameOf choice == name with
    | some choice => .ok choice
    | none => .error (.setting setting (all.map nameOf) name)

/-- Settings after a change; the first name that is not allowed is refused. -/
def Settings.change (s : Settings) (changes : SettingChanges) : Except ValueFault Settings := do
  let dieOn ← chooseSetting "dieOn" Level.name Level.all s.dieOn changes.dieOn
  let printOn ← chooseSetting "printOn" Level.name Level.all s.printOn changes.printOn
  let dieWhen ← chooseSetting "dieWhen" Timing.name Timing.all s.dieWhen changes.dieWhen
  let printMode ← chooseSetting "printMode" PrintMode.name PrintMode.all s.printMode
    changes.printMode
  return {
    dieOn, printOn, dieWhen, printMode
    silent := changes.silent.getD s.silent
    asciiOnly := changes.asciiOnly.getD s.asciiOnly }

end MarkupSpans.Report
