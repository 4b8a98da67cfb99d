/-
# The command line

The options of the demonstration and what a run of it writes. Each of the three
sizes can be given once, as two words or with an equals sign; the option for
more detail can be repeated and changes nothing that is written here.
-/

import ObjectSystem.Demonstration

namespace ObjectSystem.CommandLine

/-- The options of a command line, as far as they were given. -/
structure Options where
  poolCapacity : Option Nat := none
  environmentCapacity : Option Nat := none
  objectLimit : Option Nat := none

/-- What a run writes, and its exit status. -/
structure Report where
  status : UInt32
  output : String
  errors : List String

/-- A size: digits, perhaps after a plus sign, that make a 64-bit number. -/
def size? (text : String) : Option Nat :=
  let digits := match text.toList with
    | '+' :: rest => rest
    | all => all
  if digits.isEmpty || !digits.all Char.isDigit then none
  else
    let n := digits.foldl (fun n c => 10 * n + (c.toNat - '0'.toNat)) 0
    if n < UInt64.size then some n else none

namespace Options

/-- Give a size option its value. A second value is refused. -/
def give? (o : Options) (name value : String) : Option Options := do
  let n ← size? value
  match name with
  | "--pool-capacity" =>
      if o.poolCapacity.isSome then none else some { o with poolCapacity := some n }
  | "--env-capacity" =>
      if o.environmentCapacity.isSome then none
      else some { o with environmentCapacity := some n }
  | "--object-limit" =>
      if o.objectLimit.isSome then none else some { o with objectLimit := some n }
  | _ => none

/-- A word that is complete in itself: more detail, or a size with its value. -/
def word? (o : Options) (word : String) : Option Options :=
  if word == "--verbose" then some o
  else
    match word.toList with
    | '-' :: '-' :: _ =>
        let name := word.toList.takeWhile (· != '=')
        match word.toList.drop name.length with
        | _ :: value => o.give? (String.ofList name) (String.ofList value)
        | [] => none
    | '-' :: letters@(_ :: _) => if letters.all (· == 'v') then some o else none
    | _ => none

/-- Read the words of a command line. A size may be in the word after its
option. Two dashes may end the options, but nothing may follow them. -/
def read? (o : Options) : List String → Option Options
  | [] => some o
  | ["--"] => some o
  | [word] => o.word? word
  | word :: next :: rest =>
      if ["--pool-capacity", "--env-capacity", "--object-limit"].contains word then
        (o.give? word next).bind fun o => o.read? rest
      else (o.word? word).bind fun o => o.read? (next :: rest)

/-- The settings that the options ask for. -/
def settings (o : Options) : Settings :=
  let standard : Settings := {}
  { poolCapacity := o.poolCapacity.getD standard.poolCapacity
    environmentCapacity := o.environmentCapacity.getD standard.environmentCapacity
    objectLimit := o.objectLimit.getD standard.objectLimit }

end Options

/-- Lines of text, each with its end. -/
def unlines (lines : Array String) : String :=
  String.join (lines.toList.map (· ++ "\n"))

/-- Run the demonstration in a world with the given settings. -/
def demonstrate (settings : Settings) : Report :=
  match World.create settings with
  | .error e =>
      { status := 1, output := "", errors := [s!"Error initializing runtime: {e.message}"] }
  | .ok w =>
      match Demonstration.run.run.run { world := w } with
      | (.ok _, stage) => { status := 0, output := unlines stage.lines, errors := [] }
      | (.error e, stage) =>
          { status := 1
            output := unlines stage.lines
            errors := [s!"Error: {e.message}"] }

/-- What a command line leads to. A bad one leads to status two. -/
def run (args : List String) : Report :=
  match ({} : Options).read? args with
  | some o => demonstrate o.settings
  | none => { status := 2, output := "", errors := [] }

end ObjectSystem.CommandLine
