import ExprLang.Session
import ExprLang.Native
import ExprLang.Directory

/-!
# The command line

The command takes a file and runs its `main`, calls another function of it (`--entry NAME`), or
lists its tokens (`--tokens`). `Command.ofArgs` reads the arguments and `Command.execute` carries
them out; what the command prints and its exit code are an `Outcome`.
-/

namespace ExprLang

namespace Cli

/-- What the arguments ask for, as far as they have been read. -/
structure Options where
  file : Option String
  tokens : Bool
  entry : Option String
  verbose : Bool
deriving DecidableEq, Repr

/-- No argument read yet. -/
def Options.initial : Options := ⟨none, false, none, false⟩

/-- What the command is asked to do. -/
inductive Command where
  /-- The arguments make no sense. -/
  | misuse
  /-- Print the version. -/
  | version
  /-- List the tokens of a file. -/
  | tokens (file : String)
  /-- Run a file, from a function if one is named and from `main` otherwise. -/
  | run (file : String) (entry : Option String)
deriving DecidableEq, Repr

/-- What reading one argument leads to. -/
inductive Step where
  /-- The command is known. -/
  | stop (c : Command)
  /-- The next argument is read. -/
  | more (o : Options)
  /-- The next argument is the name of the entry. -/
  | entryName
  /-- The arguments that follow are all files. -/
  | filesOnly
deriving DecidableEq, Repr

namespace Options

/-- Reads a file name. There is one, and it is not empty. -/
def addFile (o : Options) (name : String) : Step :=
  if o.file.isSome || name.isEmpty then .stop .misuse else .more { o with file := some name }

/-- Reads the name of the entry. It is given at most once. -/
def addEntry (o : Options) (name : String) : Step :=
  if o.entry.isSome then .stop .misuse else .more { o with entry := some name }

/-- Reads the wish for details. It is given at most once. -/
def addVerbose (o : Options) : Step :=
  if o.verbose then .stop .misuse else .more { o with verbose := true }

/-- Reads the wish for tokens. It is given at most once. -/
def addTokens (o : Options) : Step :=
  if o.tokens then .stop .misuse else .more { o with tokens := true }

/-- Reads a long option, with the value behind its equals sign if it has one. -/
def addLong (o : Options) (name : String) (value : Option String) : Step :=
  match name, value with
  | "entry", none => .entryName
  | "entry", some v => o.addEntry v
  | "tokens", none => o.addTokens
  | "verbose", none => o.addVerbose
  | "version", none => .stop .version
  | _, _ => .stop .misuse

/-- Reads the letters of short options. -/
def addShort (o : Options) : List Char → Step
  | [] => .more o
  | 'v' :: rest =>
    match o.addVerbose with
    | .more o => o.addShort rest
    | other => other
  | 'V' :: _ => .stop .version
  | _ => .stop .misuse

/-- Reads an argument. -/
def add (o : Options) (arg : String) : Step :=
  match arg.toList with
  | ['-', '-'] => .filesOnly
  | '-' :: '-' :: rest =>
    let name := String.ofList (rest.takeWhile (· != '='))
    match rest.dropWhile (· != '=') with
    | _ :: value => o.addLong name (some (String.ofList value))
    | [] => o.addLong name none
  | '-' :: c :: rest => o.addShort (c :: rest)
  | _ => o.addFile arg

/-- What is asked for when no argument is left. -/
def finish (o : Options) : Command :=
  match o.file with
  | some file => if o.tokens then .tokens file else .run file o.entry
  | none => .misuse

end Options

/-- Whether an argument can be the value of an option: one that starts with a dash is taken for an
option, a single dash is not. -/
def isValue (arg : String) : Bool :=
  match arg.toList with
  | '-' :: _ :: _ => false
  | _ => true

/-- Reads arguments that are all files. -/
def readFiles (o : Options) : List String → Command
  | [] => o.finish
  | arg :: rest =>
    match o.addFile arg with
    | .more o => readFiles o rest
    | _ => .misuse

/-- Reads arguments. The first that makes no sense, or asks for the version, decides. -/
def readArgs (o : Options) : List String → Command
  | [] => o.finish
  | arg :: rest =>
    match o.add arg with
    | .stop c => c
    | .more o => readArgs o rest
    | .filesOnly => readFiles o rest
    | .entryName =>
      match rest with
      | [] => .misuse
      | name :: rest =>
        if isValue name then
          match o.addEntry name with
          | .more o => readArgs o rest
          | _ => .misuse
        else .misuse

/-- What arguments ask for. -/
def Command.ofArgs (args : List String) : Command := readArgs .initial args

/-- What a command prints and its exit code. -/
structure Outcome where
  exit : Nat
  stdout : String
deriving DecidableEq, Repr

/-- A text on a line of its own. -/
def line (text : String) : String := text ++ "\n"

/-- A row of the token listing: the span, what the token denotes, and its text. -/
def tokenRow (t : Token) : String :=
  Text.alignRight 4 (toString t.span.start) ++ ".." ++ Text.alignLeft 4 (toString t.span.stop) ++
    " " ++ Text.alignLeft 20 t.kind.listing ++ " " ++ Text.quoted t.text

/-- The rows of the token listing, up to the first problem. -/
def tokenRows (style : Style) (doc : Document) : List Lexeme → Outcome
  | [] => ⟨0, ""⟩
  | l :: rest =>
    match l.token with
    | .ok t =>
      let others := tokenRows style doc rest
      ⟨others.exit, line (tokenRow t) ++ others.stdout⟩
    | .error d => ⟨1, line (d.render style doc)⟩

/-- Lists the tokens of a document. -/
def listTokens (style : Style) (doc : Document) : Outcome :=
  let rows := tokenRows style doc (Lexeme.ofText doc.text)
  ⟨rows.exit,
    line ("Tokens for " ++ doc.path ++ ":") ++ line (Text.repeated 60 '-') ++ rows.stdout⟩

/-- How deep evaluations nest at most. -/
def depth : Nat := 1000000

/-- Evaluates with the native functions of the library. -/
def evaluator : Evaluator Natives := Eval.value Natives.host depth

/-- Calls with the native functions of the library. -/
def caller : Caller Natives := Eval.call Natives.host depth

/-- Calls the entry of a program, prints what it gives or reports its diagnostic, and says whether
it succeeded. -/
def runEntry (s : Session) (name : String) : Run Natives Bool := do
  match ← (s.callFunction caller name).attempt with
  | .ok v => Run.writeLine v.pieces
  | .error d =>
    s.report d
    return false

/-- Builds and runs a document, and says whether all went well. -/
def runDocument (style : Style) (doc : Document) (entry : Option String) : Run Natives Bool := do
  match ← (Session.build evaluator doc style []).attempt with
  | .error d =>
    let _ ← Run.writeLine [d.render style doc]
    return false
  | .ok s =>
    match entry with
    | some name => runEntry s name
    | none => s.run caller

/-- The outcome of a run that ended in a world. A run that needs more depth than there is ends
like a program that was broken off. -/
def outcomeOf (r : Option (Except Diagnostic Bool × World Natives)) : Outcome :=
  match r with
  | some (.ok true, w) => ⟨0, w.sink.written⟩
  | some (_, w) => ⟨1, w.sink.written⟩
  | none => ⟨134, ""⟩

/-- The world in which a command starts. -/
def startWorld : World Natives := ⟨Sink.empty none, [], Natives.initial⟩

/-- The file a command reads. -/
def Command.file? : Command → Option String
  | .tokens file => some file
  | .run file _ => some file
  | _ => none

/-- The outcome of a file that cannot be read. -/
def unreadable (file : String) (e : ReadError) : Outcome :=
  ⟨1, line ("Error reading file at \"" ++ file ++ "\": " ++ e.message)⟩

/-- Carries out a command, given how its file is read. -/
def Command.execute (style : Style) (read : String → Except ReadError Document) :
    Command → Outcome
  | .misuse => ⟨2, ""⟩
  | .version => ⟨0, line "tack 0.1.0"⟩
  | .tokens file =>
    match read file with
    | .ok doc => listTokens style doc
    | .error e => unreadable file e
  | .run file entry =>
    match read file with
    | .ok doc => outcomeOf (runDocument style doc entry startWorld)
    | .error e => unreadable file e

end Cli

end ExprLang
