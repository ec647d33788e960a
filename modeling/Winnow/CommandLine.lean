import Winnow.Text.Integer

/-!
# The command line

Switches and options come first, in any order; the first word that is neither
begins the arguments, and everything from there on is one. A word with one dash is
a cluster of letters only if each of them is known, and a word with two dashes
counts only if its whole name is known, so that `-cat` and `--cat` are arguments.
Two dashes alone end the options. An option that still waits for its value takes
the next word, unless that is a known switch or option. Its value is looked at when
the next option, switch or argument is, and a fault in it is reported then.
-/

namespace Winnow

structure CommandLine where
  case : Bool
  debug : Nat
  nibbles : Bool
  suppress : Bool
  test : Bool
  variant : Bool
  oversize : Option Nat
  dump : Option String
  title : Option String
  config : Option String
  log : Option String
  args : List String
  deriving DecidableEq, Repr

namespace CommandLine

def empty : CommandLine :=
  ⟨false, 0, false, false, false, false, none, none, none, none, none, []⟩

instance : Inhabited CommandLine := ⟨empty⟩

inductive Switch where
  | case
  | debug
  | nibbles
  | suppress
  | test
  | variant
  | help
  | version
  deriving DecidableEq, Repr

inductive Opt where
  | oversize
  | dump
  | title
  | config
  | log
  deriving DecidableEq, Repr

abbrev Key := Switch ⊕ Opt

def keyOfLetter? : Char → Option Key
  | 'c' => some (.inl .case)
  | 'd' => some (.inl .debug)
  | 'n' => some (.inl .nibbles)
  | 's' => some (.inl .suppress)
  | 't' => some (.inl .test)
  | 'v' => some (.inl .variant)
  | 'h' => some (.inl .help)
  | 'V' => some (.inl .version)
  | 'j' => some (.inr .oversize)
  | _ => none

def Switch.name : Switch → String
  | case => "case"
  | debug => "debug"
  | nibbles => "nibbles"
  | suppress => "suppress"
  | test => "test"
  | variant => "variant"
  | help => "help"
  | version => "version"

def Opt.name : Opt → String
  | oversize => "oversize"
  | dump => "dump"
  | title => "title"
  | config => "config"
  | log => "log"

def keys : List Key :=
  [.inl .case, .inl .debug, .inl .nibbles, .inl .suppress, .inl .test, .inl .variant, .inl .help,
    .inl .version, .inr .oversize, .inr .dump, .inr .title, .inr .config, .inr .log]

def keyName : Key → String
  | .inl s => s.name
  | .inr o => o.name

def keyOfName? (name : List Char) : Option Key := keys.find? fun k => (keyName k).toList == name

def Switch.text (s : Switch) : String :=
  "--" ++ s.name ++ if s = debug then "..." else ""

def Opt.text (o : Opt) : String :=
  "--" ++ o.name ++
    match o with
    | oversize => " <OVERSIZE>"
    | title => " <TITLE>"
    | dump | config | log => " <FILE>"

inductive Fault where
  | noValue (o : Opt)
  | badValue (o : Opt) (value reason : String)
  | unwantedValue (s : Switch) (value : String)
  | repeated (k : Key)
  | titleWithoutDump
  | help
  | version
  deriving DecidableEq, Repr

def Fault.message? : Fault → Option String
  | noValue o => some ("a value is required for '" ++ o.text ++ "' but none was supplied")
  | badValue o value reason =>
    some ("invalid value '" ++ value ++ "' for '" ++ o.text ++ "': " ++ reason)
  | unwantedValue s value =>
    some ("unexpected value '" ++ value ++ "' for '" ++ s.text ++ "' found; no more were expected")
  | repeated (.inl s) => some ("the argument '" ++ s.text ++ "' cannot be used multiple times")
  | repeated (.inr o) => some ("the argument '" ++ o.text ++ "' cannot be used multiple times")
  | titleWithoutDump => some "the following required arguments were not provided:"
  | help | version => none

def Fault.line? (f : Fault) : Option String :=
  f.message?.map fun m =>
    let cs := m.toList.takeWhile (· != '\n')
    .ofList (if m.toList.contains '\n' && cs.getLast? == some '\r' then cs.dropLast else cs)

def maxDebug : Nat := 255

def setOnce (s : Switch) (set : Bool) (line : CommandLine) : Except Fault CommandLine :=
  if set then .error (.repeated (.inl s)) else .ok line

def turnOn (l : CommandLine) (s : Switch) : Except Fault CommandLine :=
  match s with
  | .case => setOnce s l.case { l with case := true }
  | .debug => .ok { l with debug := min maxDebug (l.debug + 1) }
  | .nibbles => setOnce s l.nibbles { l with nibbles := true }
  | .suppress => setOnce s l.suppress { l with suppress := true }
  | .test => setOnce s l.test { l with test := true }
  | .variant => setOnce s l.variant { l with variant := true }
  | .help => .error .help
  | .version => .error .version

def isGiven (l : CommandLine) : Opt → Bool
  | .oversize => l.oversize.isSome
  | .dump => l.dump.isSome
  | .title => l.title.isSome
  | .config => l.config.isSome
  | .log => l.log.isSome

def readOversize (value : String) : Except Fault Nat :=
  match Text.readInteger value.toList with
  | .error e => .error (.badValue .oversize value e.message)
  | .ok n =>
    if 1 ≤ n ∧ n ≤ 9 then .ok n.toNat
    else .error (.badValue .oversize value (toString n ++ " is not in 1..=9"))

def readFileName (o : Opt) (value : String) : Except Fault String :=
  if value.isEmpty then .error (.noValue o) else .ok value

def give (l : CommandLine) (o : Opt) (value : String) : Except Fault CommandLine :=
  if l.isGiven o then .error (.repeated (.inr o))
  else match o with
    | .oversize => do return { l with oversize := some (← readOversize value) }
    | .dump => do return { l with dump := some (← readFileName o value) }
    | .title => .ok { l with title := some value }
    | .config => do return { l with config := some (← readFileName o value) }
    | .log => do return { l with log := some (← readFileName o value) }

/-- An option whose value has not been looked at, and the value if it is there. -/
abbrev Pending := Option (Opt × Option String)

def settle (l : CommandLine) : Pending → Except Fault CommandLine
  | none => .ok l
  | some (o, none) => .error (.noValue o)
  | some (o, some value) => l.give o value

inductive Word where
  | dashes
  | long (k : Key) (value : Option String)
  | cluster (letters : List Char)
  | plain

def splitLong (cs : List Char) : List Char × Option String :=
  match cs.span (· != '=') with
  | (name, []) => (name, none)
  | (name, _ :: value) => (name, some (.ofList value))

def Word.ofChars : List Char → Word
  | ['-', '-'] => dashes
  | '-' :: '-' :: cs =>
    match keyOfName? (splitLong cs).1 with
    | some k => long k (splitLong cs).2
    | none => plain
  | '-' :: c :: cs => if (c :: cs).all (keyOfLetter? · |>.isSome) then cluster (c :: cs) else plain
  | _ => plain

def readLong (l : CommandLine) (p : Pending) :
    Key → Option String → Except Fault (CommandLine × Pending)
  | .inl s, some value => .error (.unwantedValue s value)
  | .inl s, none => do return (← (← l.settle p).turnOn s, none)
  | .inr o, some value => do return (← (← l.settle p).give o value, none)
  | .inr o, none => do return (← l.settle p, some (o, none))

/-- The letters of a cluster; what follows the letter of an option is its value. -/
def readCluster (l : CommandLine) (p : Pending) :
    List Char → Except Fault (CommandLine × Pending)
  | [] => .ok (l, p)
  | c :: cs =>
    match keyOfLetter? c with
    | none => .ok (l, p)
    | some (.inl s) => do readCluster (← (← l.settle p).turnOn s) none cs
    | some (.inr o) => readLong l p (.inr o) (if cs.isEmpty then none else some (.ofList cs))

def readWords (l : CommandLine) (p : Pending) : List String → Except Fault CommandLine
  | [] => l.settle p
  | w :: ws =>
    match Word.ofChars w.toList with
    | .dashes => do return { ← l.settle p with args := ws }
    | .long k value =>
      match readLong l p k value with
      | .error e => .error e
      | .ok (l, p) => readWords l p ws
    | .cluster letters =>
      match readCluster l p letters with
      | .error e => .error e
      | .ok (l, p) => readWords l p ws
    | .plain =>
      match p with
      | some (o, none) => readWords l (some (o, some w)) ws
      | _ => do return { ← l.settle p with args := w :: ws }

def parse (words : List String) : Except Fault CommandLine := do
  let l ← readWords empty none words
  if l.title.isSome && l.dump.isNone then .error .titleWithoutDump else return l

def synopsis : List String := [
  "# SYNOPSIS: gg [-c] [-d] [-n] [-s] [-t] [-v] [-j N | -N] [[+|-]str[variants]]... " ++
    "path[\x7bregex,...\x7d]",
  " #   +str or str   accept: every accept str must appear in a listed file",
  " #   -str          reject: no listed file contains any reject str",
  " #   strs are at least 2 bytes and match case-insensitively unless -c",
  " #   path\x7bre,...\x7d  only search files whose path matches one of the regexes",
  " #   str[a,c,e,l]  with -v: also match acronym, contraction, ellipses and",
  " #                 levenshtein1 variants of str",
  " #   -N (1-9)      run N threads per CPU",
  " #   the table holds 255 states; -n spends more of them per str, so long",
  " #   strs with [l] variants may not fit under -n",
  " # EXAMPLE: gg copyright -Lettvin ."]

end CommandLine

end Winnow
