/-!
# Faults

Everything that can go wrong in the fleet, by cause. A fault has a message for operators, and some
faults are expected to pass by themselves, so that trying again later makes sense.
-/

namespace Switchyard

/-- The kinds of things that are looked up by a key. -/
inductive Subject where
  | device
  | command
  | snapshot
  deriving Repr, DecidableEq

/-- The name of a kind in messages. -/
def Subject.name : Subject → String
  | .device => "device"
  | .command => "command"
  | .snapshot => "snapshot"

/-- Why a file operation fails. -/
inductive FileFault where
  | missing
  | denied
  | exists
  | notDirectory
  | isDirectory
  | nameTooLong
  | nulInName
  | notText
  deriving Repr, DecidableEq

/-- The operating system's wording of a file fault. -/
def FileFault.message : FileFault → String
  | .missing => "No such file or directory (os error 2)"
  | .denied => "Permission denied (os error 13)"
  | .exists => "File exists (os error 17)"
  | .notDirectory => "Not a directory (os error 20)"
  | .isDirectory => "Is a directory (os error 21)"
  | .nameTooLong => "File name too long (os error 36)"
  | .nulInName => "file name contained an unexpected NUL byte"
  | .notText => "stream did not contain valid UTF-8"

/-- A fault, by cause. -/
inductive Fault where
  | notFound (subject : Subject) (key : String)
  | rejected (reason : String)
  | transport (reason : String)
  | execution (reason : String)
  | invalidCommand (text : String)
  | file (cause : FileFault)
  | serialization (detail : String)
  deriving Repr, DecidableEq

namespace Fault

/-- The message of a fault. -/
def message : Fault → String
  | .notFound subject key => "no such " ++ subject.name ++ " " ++ key
  | .rejected reason => "rejected: " ++ reason
  | .transport reason => "transport failure: " ++ reason
  | .execution reason => reason
  | .invalidCommand text => "invalid command: " ++ text
  | .file cause => "IO error: " ++ cause.message
  | .serialization detail => "serialization error: " ++ detail

/-- Whether the fault may pass by itself: something missing may appear, and a link may recover. -/
def isTransient : Fault → Bool
  | .notFound _ _ => true
  | .transport _ => true
  | _ => false

end Fault

end Switchyard
