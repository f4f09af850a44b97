/-
# Shell commands

The parts of `MutationPolicy.js` that split a shell command at its operators, recognise a `cd` to
the working directory, and take such subcommands out of the command that is executed; on a POSIX
host.

* `splitShellSubcommandsWithJoins`: the segments, each with the operator before it.
* `isNoopCdToCwd`: a `cd` with one argument, the working directory.
* `removeNoopCdSubcommands`: the other segments, joined again.
* `shellRun`: what a shell runs of a command, for given exit statuses.
-/
import PosseClient.Lib.CommandChains
import PosseClient.Lib.UnitTrim

namespace PosseClient

open Json Chains

/-! ## 1. Splitting -/

/-- Where a unit of a command stands: bare, after a backslash, in quotes; `second` is the second
half of `&&` or `||`. -/
inductive LexState
  | plain
  | escape
  | single
  | double
  | doubleEscape
  | second
  deriving DecidableEq, Repr

/-- The quotes and escapes of a command, without its operators. -/
def LexState.step : LexState → ℕ → LexState
  | .plain, ch =>
    if ch = 39 then .single
    else if ch = 34 then .double
    else if ch = 92 then .escape
    else .plain
  | .escape, _ => .plain
  | .single, ch => if ch = 39 then .plain else .single
  | .double, ch => if ch = 92 then .doubleEscape else if ch = 34 then .plain else .double
  | .doubleEscape, _ => .double
  | .second, _ => .plain

/-- A segment, and the operator that joins it to the one before. -/
structure ShellPart where
  seg : Utf16
  join : Option Join
  deriving DecidableEq, Repr

/-- The loop of `splitShellSubcommandsWithJoins`, with its `current` and `pendingJoin`. A backslash
at the very end is taken like any other unit. -/
def splitFrom : LexState → Utf16 → Option Join → Utf16 → List ShellPart
  | _, current, join, [] => [⟨current, join⟩]
  | .second, current, join, _ :: rest => splitFrom .plain current join rest
  | .plain, current, join, ch :: rest =>
    if ch = 59 then ⟨current, join⟩ :: splitFrom .plain [] (some .seq) rest
    else if ch = 38 ∧ rest.head? = some 38 then
      ⟨current, join⟩ :: splitFrom .second [] (some .and) rest
    else if ch = 124 ∧ rest.head? = some 124 then
      ⟨current, join⟩ :: splitFrom .second [] (some .or) rest
    else if ch = 124 then ⟨current, join⟩ :: splitFrom .plain [] (some .pipe) rest
    else splitFrom (LexState.plain.step ch) (current ++ [ch]) join rest
  | .escape, current, join, ch :: rest =>
    splitFrom (LexState.escape.step ch) (current ++ [ch]) join rest
  | .single, current, join, ch :: rest =>
    splitFrom (LexState.single.step ch) (current ++ [ch]) join rest
  | .double, current, join, ch :: rest =>
    splitFrom (LexState.double.step ch) (current ++ [ch]) join rest
  | .doubleEscape, current, join, ch :: rest =>
    splitFrom (LexState.doubleEscape.step ch) (current ++ [ch]) join rest

def splitShellSubcommandsWithJoins (command : Utf16) : List ShellPart :=
  splitFrom .plain [] none command

/-- `splitShellSubcommands`: the same loop, for the segments that are not blank. -/
def splitShellSubcommands (command : Utf16) : List Utf16 :=
  ((splitShellSubcommandsWithJoins command).map fun part => trimUnits part.seg).filter
    fun seg => !seg.isEmpty

/-! ## 2. The `cd` to the working directory -/

/-- What the policy asks Node about paths: `path.resolve` against the working directory,
`fs.realpathSync` (`none` where it throws) and `toLowerCase`. -/
structure ShellHost where
  cwd : Utf16
  resolve : Utf16 → Utf16
  realpath : Utf16 → Option Utf16
  lower : Utf16 → Utf16

/-- The units that a backslash escapes in `shellWordsDetailed`. -/
def shellEscapes (quote : Option ℕ) (next : ℕ) : Bool :=
  next = 39 || next = 34 || next = 92 || isSpaceUnit next ||
    (quote.isNone && (next = 42 || next = 63 || next = 91))

/-- The loop of `shellWordsDetailed`, for its tokens. -/
def shellWordsFrom : Option ℕ → Utf16 → Utf16 → List Utf16
  | _, current, [] => if current.isEmpty then [] else [current]
  | quote, current, [ch] =>
    if ch = 92 ∧ quote ≠ some 39 then [current ++ [ch]]
    else match quote with
      | some q => shellWordsFrom none (if ch = q then current else current ++ [ch]) []
      | none =>
        shellWordsFrom none (if ch = 39 ∨ ch = 34 ∨ isSpaceUnit ch then current
          else current ++ [ch]) []
  | quote, current, ch :: next :: rest =>
    if ch = 92 ∧ quote ≠ some 39 then
      if shellEscapes quote next then shellWordsFrom quote (current ++ [next]) rest
      else shellWordsFrom quote (current ++ [ch]) (next :: rest)
    else match quote with
      | some q =>
        if ch = q then shellWordsFrom none current (next :: rest)
        else shellWordsFrom quote (current ++ [ch]) (next :: rest)
      | none =>
        if ch = 39 ∨ ch = 34 then shellWordsFrom (some ch) current (next :: rest)
        else if isSpaceUnit ch then
          (if current.isEmpty then [] else [current]) ++ shellWordsFrom none [] (next :: rest)
        else shellWordsFrom none (current ++ [ch]) (next :: rest)

def shellWords (command : Utf16) : List Utf16 := shellWordsFrom none [] command

def isQuoteUnit (u : ℕ) : Bool := u = 39 || u = 34

/-- `value.replace(/^['"]|['"]$/g, "")`. -/
def stripQuotes (value : Utf16) : Utf16 :=
  let rest := if (value.head?.map isQuoteUnit).getD false then value.drop 1 else value
  if (rest.getLast?.map isQuoteUnit).getD false then rest.dropLast else rest

/-- `value.replace(/^[,]+|[,]+$/g, "")`. -/
def stripCommas (value : Utf16) : Utf16 := (value.dropWhile (· = 44)).rdropWhile (· = 44)

def cleanShellPathToken (value : Utf16) : Utf16 := stripCommas (stripQuotes (trimUnits value))

variable (host : ShellHost)

def shellCommandName (commandToken : Utf16) : Utf16 :=
  let slashed := (trimUnits commandToken).map fun u => if u = 92 then 47 else u
  host.lower ((slashed.splitOn 47).getLast?.getD [])

def isNoopCdToCwd (sub : Utf16) : Bool :=
  match shellWords sub with
  | [command, argument] =>
    let target := cleanShellPathToken argument
    decide (shellCommandName host command = units "cd") && !target.isEmpty &&
      target.head? ≠ some 45 && target.head? ≠ some 126 &&
      decide (host.resolve target = host.cwd) &&
      (host.realpath (host.resolve target)).isSome &&
      decide (host.realpath (host.resolve target) = host.realpath host.cwd)
  | _ => false

/-! ## 3. Their removal -/

def joinText : Option Join → Utf16
  | none => []
  | some .seq => [59]
  | some .and => [38, 38]
  | some .or => [124, 124]
  | some .pipe => [124]

/-- The first segment, and each other one after its operator. -/
def rejoin : List ShellPart → Utf16
  | [] => []
  | part :: rest => trimUnits part.seg ++
      rest.flatMap fun part => 32 :: (joinText part.join ++ 32 :: trimUnits part.seg)

/-- The parts whose segment is no `cd` to the working directory. -/
def keptParts (parts : List ShellPart) : List ShellPart :=
  parts.filter fun part => !isNoopCdToCwd host (trimUnits part.seg)

def removeNoopCdSubcommands (command : Utf16) : Utf16 :=
  let parts := splitShellSubcommandsWithJoins command
  if (keptParts host parts).length = parts.length then command
  else trimUnits (rejoin (keptParts host parts))

/-- The command that `authorizeBash` hands on: repaired where a subcommand was recognised. -/
def finalCommand (command : Utf16) : Utf16 :=
  if (splitShellSubcommands command).any (isNoopCdToCwd host) then
    removeNoopCdSubcommands host command
  else command

/-! ## 4. The shell -/

def isBlankPart (part : ShellPart) : Bool := (trimUnits part.seg).isEmpty

/-- The command ends inside of quotes. -/
def LexState.isOpen : LexState → Bool
  | .single => true
  | .double => true
  | .doubleEscape => true
  | _ => false

def lexEnd (state : LexState) (command : Utf16) : LexState := command.foldl LexState.step state

/-- The shell refuses a command that ends inside of quotes, and an operator without a command at one
of its sides, but for a `;` at the end. -/
def shellRefuses (isOpen : Bool) (parts : List ShellPart) : Bool :=
  isOpen || parts.dropLast.any isBlankPart ||
    match parts.getLast? with
    | some last => isBlankPart last && decide (1 < parts.length) && decide (last.join ≠ some .seq)
    | none => false

/-- The commands of a chain, by their places; a blank part at the end is none. -/
def shellLinks (parts : List ShellPart) : List (Link ℕ) :=
  let links := parts.zipIdx.map fun p => ⟨p.1.join.getD .seq, p.2⟩
  if (parts.getLast?.map isBlankPart).getD true then links.dropLast else links

/-- What a shell runs of a command: the places of the subcommands that run, in order, and the exit
status, where the subcommand at a place has the exit status that `outcome` says. -/
def shellRun (outcome : ℕ → ℕ) (command : Utf16) : Option (List ℕ × ℕ) :=
  let parts := splitShellSubcommandsWithJoins command
  if shellRefuses (lexEnd .plain command).isOpen parts then none
  else some (runChain outcome .start (shellLinks parts))

end PosseClient
