import Switchyard.Helper.Shell
import Switchyard.Text.Cut

/-!
# Starting programs

A program is named plainly, and then found in one of the usual folders, or by its path. A path is
followed step by step through the folders that every system has; what is no program at its end, or
no folder before that, cannot be started.
-/

namespace Switchyard.Helper.Program

/-- The names of the programs. -/
def names : List String := ["sh", "echo", "printf", "true", "false", "sleep"]

/-- The folders that every system has, as paths from the root folder. -/
def folders : List (List String) :=
  [[], ["bin"], ["dev"], ["etc"], ["home"], ["lib"], ["mnt"], ["opt"], ["proc"], ["root"],
   ["run"], ["sbin"], ["srv"], ["sys"], ["tmp"], ["usr"], ["usr", "bin"], ["usr", "lib"],
   ["usr", "local"], ["usr", "local", "bin"], ["usr", "sbin"], ["usr", "share"], ["var"],
   ["var", "lib"], ["var", "log"], ["var", "tmp"]]

/-- Files that every system has and that are no programs. -/
def plainFiles : List (List String) :=
  [["dev", "null"], ["dev", "zero"], ["etc", "group"], ["etc", "hosts"], ["etc", "passwd"]]

/-- The paths of the programs. -/
def paths : List (List String) := names.flatMap fun n ↦ [["bin", n], ["usr", "bin", n]]

/-- The longest name of a file, in bytes. -/
def longestName : Nat := 255

/-- The longest path, in bytes. -/
def longestPath : Nat := 4095

/-- The program at the end of some steps from a place. Empty steps lead nowhere. -/
def follow : List String → List String → Except FileFault String
  | place, [] =>
    if folders.contains place || plainFiles.contains place then .error .denied
    else if paths.contains place then .ok (place.getLast?.getD "")
    else .error .missing
  | place, step :: steps =>
    if folders.contains place then
      if step = "" ∨ step = "." then follow place steps
      else if step = ".." then follow place.dropLast steps
      else if longestName < step.utf8ByteSize then .error .nameTooLong
      else follow (place ++ [step]) steps
    else if plainFiles.contains place || paths.contains place then .error .notDirectory
    else .error .missing

/-- The program that a word names. A word with a slash in it is a path. -/
def find (word : String) : Except FileFault String :=
  let steps := (Text.pieces (· == '/') word.toList).map String.ofList
  if longestPath < word.utf8ByteSize then .error .nameTooLong
  else
    match steps with
    | "" :: step :: steps => follow [] (step :: steps)
    | [name] =>
      if names.contains name then .ok name
      else if name = "." ∨ name = ".." then .error .denied
      else if longestName < name.utf8ByteSize then .error .nameTooLong
      else .error .missing
    | _ => if steps.all fun s ↦ s = "" ∨ s = "." ∨ s = ".." then .error .denied else .error .missing

/-- Starts a program, where shells may be started inside each other a number of times. -/
def start : Nat → Programs
  | depth, program, args =>
    if (program :: args).any fun a ↦ a.toList.contains '\x00' then .error .nulInWord
    else
      match depth, find program with
      | _, .error cause => .error (.file cause)
      | depth + 1, .ok "sh" => .ok (Shell.run (start depth) args)
      | _, .ok name =>
        match Utility.find? name with
        | some run => .ok (run args)
        | none => .error (.file .missing)

/-- The programs of a usual system. -/
def usual : Programs := start 8

end Switchyard.Helper.Program
