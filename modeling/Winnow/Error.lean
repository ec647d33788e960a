/-!
# What can go wrong

`Fault` is what the file system answers, `Error` what a search reports. Each has
one wording, `message`; an `Error` is a usage error when the request itself is at
fault, and then the synopsis is shown with it.
-/

namespace Winnow

inductive Fault where
  | notFound
  | exists
  | noDevice
  | notDirectory
  | isDirectory
  | invalidName
  | nameTooLong
  | linkLoop
  | shortRead
  | other (text : String)
  deriving DecidableEq, Repr

namespace Fault

def code? : Fault → Option Nat
  | notFound => some 2
  | «exists» => some 17
  | noDevice => some 19
  | notDirectory => some 20
  | isDirectory => some 21
  | nameTooLong => some 36
  | linkLoop => some 40
  | invalidName | shortRead | other _ => none

def text : Fault → String
  | notFound => "No such file or directory"
  | «exists» => "File exists"
  | noDevice => "No such device"
  | notDirectory => "Not a directory"
  | isDirectory => "Is a directory"
  | invalidName => "file name contained an unexpected NUL byte"
  | nameTooLong => "File name too long"
  | linkLoop => "Too many levels of symbolic links"
  | shortRead => "failed to fill whole buffer"
  | other text => text

def message (f : Fault) : String :=
  match f.code? with
  | some n => f.text ++ " (os error " ++ toString n ++ ")"
  | none => f.text

end Fault

inductive Error where
  | io (fault : Fault)
  | walk (text : String)
  | regex (text : String)
  | config (text : String)
  | patternTooShort (token : String)
  | noPatterns
  | missingPath
  | malformedVariant (token : String)
  | unknownVariant (item : String)
  | unimplementedVariant (name : String)
  | automatonFull (limit : Nat)
  | groupsFull (limit : Nat)
  | titleTooLong (length max : Nat)
  | invalidImage (reason : String)
  | file (path : String) (fault : Fault)
  | cancelled
  | other (text : String)
  deriving DecidableEq, Repr

namespace Error

def message : Error → String
  | io fault => "I/O error: " ++ fault.message
  | walk text => "Walk error: " ++ text
  | regex text => "Regex error: " ++ text
  | config text => "Configuration error: " ++ text
  | patternTooShort token => "pattern strings must be longer than 1 byte: '" ++ token ++ "'"
  | noPatterns => "specify at least one accept or reject str"
  | missingPath => "pattern(s) and path required"
  | malformedVariant token => "malformed variant syntax in '" ++ token ++ "'"
  | unknownVariant item => "unknown variant '" ++ item ++ "'"
  | unimplementedVariant name => "variant '" ++ name ++ "' is not implemented"
  | automatonFull limit =>
    "automaton is full (" ++ toString limit ++ " planes); use fewer or shorter patterns"
  | groupsFull limit => "terminal group table is full (" ++ toString limit ++ " groups)"
  | titleTooLong length max =>
    "dump title is " ++ toString length ++ " bytes, at most " ++ toString max ++
      " fit in the header"
  | invalidImage reason => "Invalid dump: " ++ reason
  | file path fault => "Failed to process file '" ++ path ++ "': " ++ fault.message
  | cancelled => "search cancelled"
  | other text => "An unexpected error occurred: " ++ text

def isUsage : Error → Bool
  | regex _ | config _ | patternTooShort _ | noPatterns | missingPath | malformedVariant _
  | unknownVariant _ | unimplementedVariant _ | automatonFull _ | groupsFull _ => true
  | io _ | walk _ | titleTooLong _ _ | invalidImage _ | file _ _ | cancelled | other _ => false

end Error

end Winnow
