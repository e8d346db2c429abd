import Refsite.Text.Basic
import Refsite.Text.Digit
namespace Refsite.CommandLine

open Refsite.Text

/-- Why there is nothing to run. -/
inductive Usage where
  | help
  | wrong
  deriving DecidableEq, Repr

def Usage.line : String :=
  "usage: docgraft [-h] (publish INPUT | validate | verify INPUT) [--root ROOT] [--verbose]"

structure Opt where
  name : String
  short : Option Char
  takesValue : Bool
  deriving DecidableEq, Repr

namespace Opt

def help : Opt := ⟨"help", some 'h', false⟩

def root : Opt := ⟨"root", none, true⟩

def verbose : Opt := ⟨"verbose", some 'v', false⟩

def outDir : Opt := ⟨"out-dir", none, true⟩

def tutorials : Opt := ⟨"tutorials", none, true⟩

def showPrivate : Opt := ⟨"private", none, false⟩

def artifactsDir : Opt := ⟨"artifacts-dir", none, true⟩

end Opt

/-- An argument by its look. -/
inductive Argument where
  | word (text : String)
  | option (opt : Opt) (value : Option String)
  | flags (flags : List Opt)
  | misused
  | unknown
  | ambiguous
  | separator
  deriving DecidableEq, Repr

namespace Argument

def flagsOf? (opts : List Opt) (text : List Char) : Option (List Opt) :=
  text.mapM fun c => opts.find? fun opt => opt.short == some c

/-- A flag and the text behind it in the same word: more flags, behind an equals sign or not. -/
def joined (opts : List Opt) (flag : Opt) (text : List Char) : Argument :=
  let more := match text with
    | '=' :: [] => none
    | '=' :: text | text => flagsOf? opts text
  match more with
  | some more => .flags (flag :: more)
  | none => .misused

def long (opts : List Opt) (text : List Char) : Argument :=
  let (front, value) := match cutAt? '=' text with
    | some (front, value) => (front, some (String.ofList value))
    | none => (text, none)
  match opts.find? fun opt => opt.name.toList == front with
  | some opt => .option opt value
  | none =>
    match opts.filter fun opt => (dropFront? front opt.name.toList).isSome with
    | [opt] => .option opt value
    | [] => if text.contains ' ' then .word (String.ofList ('-' :: '-' :: text)) else .unknown
    | _ => .ambiguous

def isNumber (text : List Char) : Bool :=
  match ((dropBack? ['\n'] text).getD text).span isDecimalDigit with
  | (_ :: _, []) => true
  | (_, '.' :: part) => !part.isEmpty && part.all isDecimalDigit
  | _ => false

def ofText (opts : List Opt) (text : String) : Argument :=
  match text.toList with
  | ['-', '-'] => .separator
  | '-' :: '-' :: name => long opts name
  | '-' :: c :: rest =>
    match opts.find? fun opt => opt.short == some c with
    | some flag => joined opts flag rest
    | none => if isNumber (c :: rest) || rest.contains ' ' || c == ' ' then .word text else .unknown
  | _ => .word text

def ofTexts (opts : List Opt) : List String → List Argument
  | [] => []
  | text :: texts =>
    match ofText opts text with
    | .separator => .separator :: texts.map .word
    | argument => argument :: ofTexts opts texts

end Argument

structure Readings where
  input : Option String
  values : List (Opt × String)
  flags : List Opt
  hasRest : Bool
  deriving DecidableEq, Repr

namespace Readings

def start : Readings := ⟨none, [], [], false⟩

def value? (r : Readings) (opt : Opt) : Option String := r.values.lookup opt

def has (r : Readings) (opt : Opt) : Bool := r.flags.contains opt

def addWord (r : Readings) (wantsInput : Bool) (text : String) : Readings :=
  if wantsInput && r.input.isNone then { r with input := some text } else { r with hasRest := true }

def addFlag (r : Readings) (opt : Opt) : Except Usage Readings :=
  if opt == Opt.help then .error .help else .ok { r with flags := opt :: r.flags }

def read (wantsInput : Bool) (r : Readings) : List Argument → Except Usage Readings
  | [] => .ok r
  | .word text :: .separator :: arguments =>
    let takes := wantsInput && r.input.isNone
    read wantsInput { r.addWord wantsInput text with hasRest := r.hasRest || !takes } arguments
  | .word text :: arguments => read wantsInput (r.addWord wantsInput text) arguments
  | .option opt none :: arguments =>
    if opt.takesValue then
      match arguments with
      | .word value :: rest => read wantsInput { r with values := (opt, value) :: r.values } rest
      | _ => .error .wrong
    else do read wantsInput (← r.addFlag opt) arguments
  | .option opt (some value) :: arguments =>
    if opt.takesValue then read wantsInput { r with values := (opt, value) :: r.values } arguments
    else .error .wrong
  | .flags flags :: arguments => do read wantsInput (← flags.foldlM addFlag r) arguments
  | .unknown :: arguments => read wantsInput { r with hasRest := true } arguments
  | .ambiguous :: _ | .misused :: _ => .error .wrong
  | .separator :: arguments =>
    let isRest := !wantsInput || r.input.isSome || arguments.isEmpty
    read wantsInput { r with hasRest := r.hasRest || isRest } arguments

end Readings

inductive Command where
  | publish (input : String) (outDir tutorials : Option String) (showPrivate : Bool)
  | validate (directory : Option String)
  | verify (input : String) (directory : Option String)
  deriving DecidableEq, Repr

/-- A command and the options that all commands share. -/
structure Invocation where
  root : String
  verbose : Bool
  command : Command
  deriving DecidableEq, Repr

namespace Invocation

/-- The readings of some texts, of which nothing may be left over. -/
def readings (opts : List Opt) (wantsInput : Bool) (texts : List String) :
    Except Usage Readings := do
  let arguments := Argument.ofTexts opts texts
  if arguments.contains .ambiguous then .error .wrong
  else
    let r ← Readings.start.read wantsInput arguments
    if r.hasRest || (wantsInput && r.input.isNone) then .error .wrong else return r

def common : List Opt := [.help, .root, .verbose]

def make (r : Readings) (command : Command) : Invocation :=
  ⟨(r.value? .root).getD ".", r.has .verbose, command⟩

def ofCommand (name : String) (texts : List String) : Except Usage Invocation :=
  match name with
  | "publish" => do
    let r ← readings (common ++ [.outDir, .tutorials, .showPrivate]) true texts
    return make r (.publish (r.input.getD "") (r.value? .outDir) (r.value? .tutorials)
      (r.has .showPrivate))
  | "validate" => do
    let r ← readings (common ++ [.artifactsDir]) false texts
    return make r (.validate (r.value? .artifactsDir))
  | "verify" => do
    let r ← readings (common ++ [.artifactsDir]) true texts
    return make r (.verify (r.input.getD "") (r.value? .artifactsDir))
  | _ => .error .wrong

/-- The invocation that a command line states. Before the command only help may be asked for; an
option there that is not known spoils the line, once the command has had its say. -/
def ofArguments : List String → Except Usage Invocation
  | [] => .error .wrong
  | text :: texts =>
    match Argument.ofText [.help] text with
    | .word name => ofCommand name texts
    | .option _ none => .error .help
    | .flags _ => .error .help
    | .unknown => do
      let _ ← ofArguments texts
      .error .wrong
    | _ => .error .wrong

end Invocation

end Refsite.CommandLine
