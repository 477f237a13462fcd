import LetterMachine.Fault

/-!
# Options

The arguments of a command are read against its options and one file name.  An option is given by
its name or by the beginning of a long name, its value in the next argument or behind an equals
sign; single-letter options may share one argument, and the last of them may have its value right
behind it.  After `--` there are no options.

Releases of the reader differ in two points: what `--` means right behind an option, and what becomes
of letters that share an argument with one that is no option.
-/

namespace LetterMachine

open LetterMachine.Text

/-- A release of the reader.  In the current one a value is taken as it stands, and letters count up
to the first that is no option.  In an earlier one `--` is a mark right behind an option too, which
then stands without a value, and such a letter takes all others with it. -/
inductive Release where
  | current
  | earlier
  deriving DecidableEq, Repr

inductive Choice where
  | help | expr | seed | trace | maxSteps | run
  deriving DecidableEq, Repr

namespace Choice

def takesValue : Choice → Bool
  | expr | seed | maxSteps => true
  | help | trace | run => false

/-- The names of an option, as a message spells them. -/
def label : Choice → String
  | help => "-h/--help"
  | expr => "-e/--expr"
  | seed => "--seed"
  | trace => "--trace"
  | maxSteps => "--max-steps"
  | run => "--run"

end Choice

abbrev OptionNames := List (String × Choice)

/-- What is given for an option in the same argument: nothing, a text right behind the letter, or one
behind an equals sign. -/
inductive Given where
  | nothing
  | joined (cs : List Char)
  | equals (cs : List Char)

inductive Argument where
  | dashes
  | value (s : String)
  | option (c : Choice) (single : Bool) (given : Given)
  | unknown (s : String)

inductive Request where
  /-- An option with its value.  For an earlier release an option that takes a value may stand
  without one. -/
  | option (c : Choice) (value : Option String)
  | file (name : String)
  deriving DecidableEq, Repr

/-- What arguments ask for, in order, and what is wrong with the rest: a message, or arguments that
nothing takes. -/
structure Requests where
  requests : List Request
  refusal : Option String
  extras : List String

namespace OptionNames

/-- Is the text a negative number, with a point or without?  One line feed may end it. -/
def isNegativeNumber (cs : List Char) : Bool :=
  let body := if cs.getLast? = some '\n' then cs.dropLast else cs
  match body with
  | '-' :: digits =>
    let whole := digits.takeWhile isDecimal
    match digits.dropWhile isDecimal with
    | [] => !whole.isEmpty
    | '.' :: places => !places.isEmpty && places.all isDecimal
    | _ => false
  | _ => false

/-- The part of an argument before its first equals sign, and the part behind it. -/
def splitEquals (cs : List Char) : List Char × Option (List Char) :=
  match cs.dropWhile (· != '=') with
  | [] => (cs, none)
  | _ :: value => (cs.takeWhile (· != '='), some value)

/-- The options that an argument with dashes may mean, by name.  With two dashes it is the beginning
of a name; with one it is a letter with its value. -/
def candidates (names : OptionNames) (cs : List Char) : List (String × Argument) :=
  if cs.take 2 = ['-', '-'] then
    let (stem, value) := splitEquals cs
    let given := match value with
      | some v => .equals v
      | none => .nothing
    (names.filter fun (name, _) => stem.isPrefixOf name.toList).map fun (name, c) =>
      (name, .option c false given)
  else
    (names.filter fun (name, _) => name.toList = cs.take 2).map fun (name, c) =>
      (name, .option c true (.joined (cs.drop 2)))

/-- What an argument is, before any `--`. -/
def classify (names : OptionNames) (s : String) : Except String Argument :=
  let cs := s.toList
  if cs.head? ≠ some '-' then .ok (.value s)
  else
    match names.lookup s with
    | some c => .ok (.option c (cs.take 2 ≠ ['-', '-']) .nothing)
    | none =>
      if cs.length = 1 then .ok (.value s)
      else
        -- an exact name goes before the beginning of a longer one
        let (stem, value) := splitEquals cs
        match value.bind fun v => (names.lookup (String.ofList stem)).map (·, v) with
        | some (c, v) => .ok (.option c (cs.take 2 ≠ ['-', '-']) (.equals v))
        | none =>
          match candidates names cs with
          | [(_, argument)] => .ok argument
          | [] =>
            -- a negative number, or a text with a blank in it, is a value
            if isNegativeNumber cs || cs.contains ' ' then .ok (.value s) else .ok (.unknown s)
          | several =>
            .error ("ambiguous option: " ++ s ++ " could match "
              ++ ", ".intercalate (several.map Prod.fst))

def classifyAll (names : OptionNames) : List String → Except String (List Argument)
  | [] => .ok []
  | s :: rest =>
    if s = "--" then .ok (.dashes :: rest.map .value)
    else do return (← classify names s) :: (← classifyAll names rest)

/-- What an option asks for together with the letters behind it. -/
inductive Cluster where
  /-- Requests, and the rest of the argument if it is no option. -/
  | complete (requests : List Request) (unread : List String)
  | needsValue (requests : List Request) (c : Choice)
  | refused (message : String)

def Cluster.behind (r : Request) : Cluster → Cluster
  | complete requests unread => complete (r :: requests) unread
  | needsValue requests c => needsValue (r :: requests) c
  | refused message => refused message

def complaint (c : Choice) (message : String) : String :=
  "argument " ++ c.label ++ ": " ++ message

def ignored (c : Choice) (cs : List Char) : Cluster :=
  .refused (complaint c ("ignored explicit argument " ++ quoted (String.ofList cs)))

/-- An option with nothing else in its argument. -/
def alone (c : Choice) : Cluster :=
  if c.takesValue then .needsValue [] c else .complete [.option c none] []

/-- The value that stands in the same argument as its option. -/
def ownValue (release : Release) (cs : List Char) : Option String :=
  if release = .earlier ∧ cs = ['-', '-'] then none else some (String.ofList cs)

/-- May a letter behind an option be one itself?  For the current release not behind an equals
sign, and not if it is a dash. -/
def mayOpen (release : Release) (single behindEquals : Bool) (c : Char) : Bool :=
  single && !(release = .current && (behindEquals || c == '-'))

/-- What an option asks for that has a value, or further letters, in its own argument. -/
def cluster (release : Release) (names : OptionNames) (c : Choice) (single behindEquals : Bool) :
    List Char → Cluster
  | [] => if c.takesValue then .complete [.option c (some "")] [] else ignored c []
  | v :: rest =>
    if c.takesValue then .complete [.option c (ownValue release (v :: rest))] []
    else if !mayOpen release single behindEquals v then ignored c (v :: rest)
    else
      match names.lookup (String.ofList ['-', v]) with
      | some next =>
        Cluster.behind (.option c none)
          (match rest with
          | [] => alone next
          | '=' :: value =>
            if release = .current then cluster release names next true true value
            else cluster release names next true false ('=' :: value)
          | letters => cluster release names next true false letters)
      | none =>
        if release = .current then .complete [.option c none] [String.ofList ('-' :: v :: rest)]
        else ignored c (v :: rest)

def asked (release : Release) (names : OptionNames) (c : Choice) (single : Bool) : Given → Cluster
  | .nothing => alone c
  | .joined cs => cluster release names c single false cs
  | .equals cs => cluster release names c single true cs

def Requests.behind (front : List Request) (r : Requests) : Requests :=
  { r with requests := front ++ r.requests }

/-- The requests of arguments behind the last option.  One of them is the file, if there is none so
far, and the dashes next to it are dropped. -/
def remaining (fileFree : Bool) (spelt : List String) (arguments : List Argument) : Requests :=
  if !fileFree then ⟨[], none, spelt⟩
  else
    match arguments, spelt with
    | .dashes :: .value s :: _, _ :: _ :: rest => ⟨[.file s], none, rest⟩
    | .dashes :: _, _ :: rest => ⟨[], none, rest⟩
    | .value s :: .dashes :: _, _ :: _ :: rest => ⟨[.file s], none, rest⟩
    | .value s :: _, _ :: rest => ⟨[.file s], none, rest⟩
    | _, rest => ⟨[], none, rest⟩

def anyOption (arguments : List Argument) : Bool :=
  arguments.any fun
    | .option .. | .unknown _ => true
    | _ => false

/-- The requests of arguments, given with their spelling. -/
def gather (release : Release) (names : OptionNames) :
    (fileFree : Bool) → List (String × Argument) → Requests
  | _, [] => ⟨[], none, []⟩
  | fileFree, (s, a) :: rest =>
    if !anyOption (a :: rest.map Prod.snd) then
      remaining fileFree (s :: rest.map Prod.fst) (a :: rest.map Prod.snd)
    else
      match a with
      | .dashes => gather release names fileFree rest
      | .value s =>
        if fileFree then Requests.behind [.file s] (gather release names false rest)
        else
          let others := gather release names false rest
          { others with extras := s :: others.extras }
      | .unknown s =>
        let others := gather release names fileFree rest
        { others with extras := s :: others.extras }
      | .option c single given =>
        match asked release names c single given with
        | .refused message => ⟨[], some message, []⟩
        | .complete requests unread =>
          let others := gather release names fileFree rest
          { others with requests := requests ++ others.requests, extras := unread ++ others.extras }
        | .needsValue requests c =>
          match rest with
          -- the option takes the next argument if that is a value
          | (_, .value v) :: rest =>
            Requests.behind (requests ++ [.option c (some v)]) (gather release names fileFree rest)
          | _ => ⟨[], some (complaint c "expected one argument"), []⟩

def read (names : OptionNames) (release : Release) (args : List String) : Requests :=
  match classifyAll names args with
  | .ok arguments => gather release names true (args.zip arguments)
  | .error message => ⟨[], some message, []⟩

end OptionNames

end LetterMachine
