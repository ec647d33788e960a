import Winnow.Automaton.Listing
import Winnow.Image
import Winnow.Run
import Winnow.SelfCheck
import Winnow.SettingsFile

/-!
# The program

What the command line program does with a file tree: the order of its steps, what it
prints and what it writes. The steps are: the command line, the log file, the
built-in check if it is asked for, the settings file, the settings, the compilation,
the image of the table if it is asked for, and the search. The first one that fails
ends the program. A usage error is printed with the synopsis, any other on the error
stream.
-/

namespace Winnow

structure Environment where
  tree : Tree
  cwd : Place
  home : String
  configHome : String
  byteOrder : ByteOrder

structure Outcome where
  code : Nat
  output : List String
  errors : List String
  tree : Tree

namespace Program

inductive Stop where
  | usage (message : String)
  | failure (message : String)
  | success

def Stop.ofError (e : Error) : Stop := if e.isUsage then .usage e.message else .failure e.message

def defaultTitle : String := "greased-grep"

def versionLine : String := "gg 0.1.0"

def configPaths (env : Environment) : List String :=
  [Path.join env.configHome "greased-grep/config.toml", Path.join env.home ".gg.toml", ".gg.toml"]

def configPath? (env : Environment) (l : CommandLine) : Option String :=
  match l.config with
  | some path => some path
  | none => (configPaths env).find? (env.tree.exists? env.cwd)

def configText (env : Environment) (path : String) : Except String String :=
  match env.tree.read env.cwd path .isDirectory with
  | .error f => .error (SettingsFile.cannotRead path ++ ": " ++ f.message)
  | .ok data =>
    match Utf8.decode? data with
    | none => .error (SettingsFile.cannotRead path ++ ": stream did not contain valid UTF-8")
    | some text => .ok text

def loadDefaults (env : Environment) (l : CommandLine) : Except Error Defaults :=
  match configPath? env l with
  | none => .ok .standard
  | some path =>
    match configText env path with
    | .error m => .error (.config m)
    | .ok text =>
      match SettingsFile.load path (some text) with
      | .error m => .error (.config m)
      | .ok d => .ok d

def openLog (env : Environment) (l : CommandLine) : Environment × Except Error Unit :=
  match l.log with
  | none => (env, .ok ())
  | some path =>
    match env.tree.makeParent env.cwd path with
    | .error f => (env, .error (.io f))
    | .ok t =>
      match t.write env.cwd path [] with
      | .error f => ({ env with tree := t }, .error (.io f))
      | .ok t => ({ env with tree := t }, .ok ())

def tableLines (l : CommandLine) (s : Session) : List String :=
  if 2 ≤ l.debug ∧ l.log.isNone then s.roster.listing ++ s.automaton.listing else []

/-- Makes the image file, which stays empty if the title does not fit. -/
def writeImage (env : Environment) (l : CommandLine) (s : Session) :
    Environment × Except Error Unit :=
  match l.dump with
  | none => (env, .ok ())
  | some path =>
    match env.tree.write env.cwd path [] with
    | .error f => (env, .error (.io f))
    | .ok t =>
      match Image.write env.byteOrder s.automaton (l.title.getD defaultTitle) with
      | .error e => ({ env with tree := t }, .error e)
      | .ok data =>
        match t.write env.cwd path data with
        | .error f => ({ env with tree := t }, .error (.io f))
        | .ok t => ({ env with tree := t }, .ok ())

def skipLine (e : Error) : String := " # SKIP: " ++ e.message

def errorLine (message : String) : String := " # ERROR: " ++ message

def finish (tree : Tree) (errors : List String) : Stop → Outcome
  | .usage m => ⟨1, errorLine m :: CommandLine.synopsis, errors, tree⟩
  | .failure m => ⟨1, [], errors ++ [errorLine m], tree⟩
  | .success => ⟨0, [], errors, tree⟩

def search (env : Environment) (errors : List String) (s : Session) : Outcome :=
  match s.run env.tree env.cwd false with
  | .error e => finish env.tree errors (.ofError e)
  | .ok r =>
    let skipped := if s.settings.suppressErrors then [] else r.faults.map skipLine
    ⟨0, r.found, errors ++ skipped, env.tree⟩

def withSession (env : Environment) (l : CommandLine) (s : Session) : Outcome :=
  let errors := tableLines l s
  match writeImage env l s with
  | (env, .error e) => finish env.tree errors (.ofError e)
  | (env, .ok ()) => search env errors s

def prepare (env : Environment) (l : CommandLine) : Except Error Session := do
  Session.compile (← Settings.ofCommandLine l (← loadDefaults env l))

def check (env : Environment) : Outcome :=
  match SelfCheck.run with
  | .error e => finish env.tree [] (.ofError e)
  | .ok (lines, passed) => ⟨if passed then 0 else 1, lines, [], env.tree⟩

def withCommandLine (env : Environment) (l : CommandLine) : Outcome :=
  match openLog env l with
  | (env, .error e) => finish env.tree [] (.failure e.message)
  | (env, .ok ()) =>
    if l.test then check env
    else match prepare env l with
      | .error e => finish env.tree [] (.ofError e)
      | .ok s => withSession env l s

def run (env : Environment) (args : List String) : Outcome :=
  match CommandLine.parse args with
  | .ok l => withCommandLine env l
  | .error .help => ⟨0, CommandLine.synopsis, [], env.tree⟩
  | .error .version => ⟨0, [versionLine], [], env.tree⟩
  | .error f => finish env.tree [] (.usage (f.line?.getD ""))

end Program

end Winnow
