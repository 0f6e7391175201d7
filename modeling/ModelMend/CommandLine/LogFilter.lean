import ModelMend.Text.Blank
import ModelMend.Text.Split

/-!
# Log filters

A filter says which entries of a log are told. It is written as directives with commas between them:
a level for everything, a component with a level of its own, or a component alone, which stands for
all levels; the directive with the longest component that an entry's component begins with decides.
After a slash there may be a text that the message has to contain.
-/

namespace ModelMend

open Text

/-- How much an entry of a log matters, and how much of a log is told. -/
inductive LogLevel where
  | off
  | error
  | warn
  | info
  | debug
  | trace
deriving DecidableEq, Repr

namespace LogLevel

/-- The place of a level; less matters more. -/
def rank : LogLevel → Nat
  | off => 0
  | error => 1
  | warn => 2
  | info => 3
  | debug => 4
  | trace => 5

def name : LogLevel → List Char
  | off => "OFF".toList
  | error => "ERROR".toList
  | warn => "WARN".toList
  | info => "INFO".toList
  | debug => "DEBUG".toList
  | trace => "TRACE".toList

/-- The level with a name, in any letter case. -/
def ofName? (text : List Char) : Option LogLevel :=
  [off, error, warn, info, debug, trace].find? fun level => level.name = text.map Char.toUpper

end LogLevel

/-- The level of the components that begin with a text. -/
structure LogDirective where
  component : List Char
  level : LogLevel
deriving DecidableEq, Repr

/-- Which entries of a log are told. -/
structure LogFilter where
  directives : List LogDirective
  /-- A text that every message has to contain. -/
  wanted : List Char := []
deriving DecidableEq, Repr

namespace LogFilter

/-- One directive, or what is wrong with it. -/
def readPart (text : List Char) : Except (List Char) LogDirective :=
  match split '=' text with
  | [word] =>
    match LogLevel.ofName? word with
    | some level => .ok ⟨[], level⟩
    | none => .ok ⟨word, .trace⟩
  | [component, word] =>
    let word := trim word
    if word.isEmpty then .ok ⟨component, .trace⟩
    else
      match LogLevel.ofName? word with
      | some level => .ok ⟨component, level⟩
      | none => .error word
  | _ => .error text

/-- The parts of a filter between commas, with what is wrong in some of them. -/
def readParts (text : List Char) : List (Except (List Char) LogDirective) :=
  (((split ',' text).map trim).filter fun part => !part.isEmpty).map readPart

/-- The directives with one more; it takes the place of one for the same component. -/
def insert (directives : List LogDirective) (new : LogDirective) : List LogDirective :=
  directives.filter (·.component ≠ new.component) ++ [new]

/-- The complaint about a malformed part of a filter, with a remark. -/
def complaint (remark text : List Char) : List Char :=
  "warning: invalid logging spec '".toList ++ text ++ ['\''] ++ remark ++ ", ignoring it\n".toList

/-- What is told if no directive says anything else. -/
def errorsOnly : List LogDirective :=
  [⟨[], .error⟩]

/-- Reads a filter: the filter, and complaints about what is malformed. Without any directive, only
errors are told. -/
def parse (text : List Char) : LogFilter × List Char :=
  match split '/' text with
  | front :: parts =>
    if 1 < parts.length then
      (⟨errorsOnly, []⟩, complaint " (too many '/'s)".toList text)
    else
      let read := readParts front
      let good := (read.filterMap Except.toOption).foldl insert []
      let bad := read.filterMap fun part =>
        match part with
        | .error text => some text
        | .ok _ => none
      (⟨if good.isEmpty then errorsOnly else good, parts.flatten⟩, bad.flatMap (complaint []))
  | [] => (⟨errorsOnly, []⟩, [])

def occursIn (part : List Char) : List Char → Bool
  | [] => part.isEmpty
  | c :: rest => part.isPrefixOf (c :: rest) || occursIn part rest

/-- The directive that decides about a component. -/
def deciding? (filter : LogFilter) (component : List Char) : Option LogDirective :=
  filter.directives.foldl (fun best directive =>
    if directive.component.isPrefixOf component
        && best.all fun other => other.component.length ≤ directive.component.length then
      some directive
    else best) none

/-- An entry of this component, level and message is told. -/
def tells (filter : LogFilter) (component : List Char) (level : LogLevel) (message : List Char) :
    Bool :=
  (filter.deciding? component).any (fun directive => level.rank ≤ directive.level.rank) &&
    occursIn filter.wanted message

end LogFilter

end ModelMend
