import Mathlib.Algebra.Group.Int.Defs
import Mathlib.Algebra.Group.Nat.Defs
import Mathlib.Algebra.GroupWithZero.Nat
import Mathlib.Tactic.Common

/-!
# The script preprocessor

`PreProcessorOption::ApplyPreProcessor` on texts (lists of characters):

* `applyPreProcessorComments` — comments (and dev blocks, when asked for) are blanked first.
* `replaceDefines` — macro replacement from a position of the text up to an end that moves when a
  replacement is longer than its name.
* `conditional`, `otherKind` — which directive a line is.
* `execOther` — a line that is not one of the four conditional directives, where it is active.
* `processLine`, `processLines`, `applyPreProcessor` — the loop over the lines with its stack of
  erased contexts; `#insert` calls the whole preprocessor again, nine levels deep at most.

The text is worked on in place; here it is split at the current line, so that what was processed
is appended to the result and what follows is still to be scanned.  Reading an inserted file is a
parameter.
-/

set_option autoImplicit false

namespace Acts.Preprocessor

abbrev Text := List Char

/-! ## Characters -/

def isspace (c : Char) : Bool := c == ' ' || (9 ≤ c.toNat && c.toNat ≤ 13)

def isIdentifierChar (c : Char) : Bool := c == '_' || c.isAlphanum

def setBlankChar (c : Char) : Char := if isspace c then c else ' '

def blank (s : Text) : Text := s.map setBlankChar

def idfSize (s : Text) : Nat := (s.takeWhile isIdentifierChar).length

/-- The characters before the first NUL. -/
def cString (s : Text) : Text := s.takeWhile (· ≠ '\x00')

/-! ## Options -/

inductive LogLevel where
  | warning | error
  deriving DecidableEq, Repr

/-- A call of the error handler. -/
structure Message where
  lvl : LogLevel
  line : Nat
  message : String
  deriving DecidableEq, Repr

structure PreProcessorOption where
  defines : List (Text × Text)
  devBlockAsComment : Bool
  noDefineExpr : Bool
  deriving DecidableEq, Repr

def PreProcessorOption.find (o : PreProcessorOption) (name : Text) : Option Text :=
  (o.defines.find? (fun d => d.1 = name)).map Prod.snd

/-- `defines.contains`. -/
def PreProcessorOption.contains (o : PreProcessorOption) (name : Text) : Bool :=
  (o.find name).isSome

def PreProcessorOption.addDefine (o : PreProcessorOption) (name value : Text) :
    PreProcessorOption :=
  { o with defines := (name, value) :: o.defines.filter (fun d => d.1 ≠ name) }

/-! ## Comments -/

/-- The rest of a string literal after its opening quote, and what follows it. -/
def skipString : Text → Text × Text
  | [] => ([], [])
  | '\\' :: [] => (['\\'], [])
  | '\\' :: c :: s => let (a, b) := skipString s; ('\\' :: c :: a, b)
  | '"' :: s => (['"'], s)
  | c :: s => let (a, b) := skipString s; (c :: a, b)

/-- The rest of a line comment, blanked. -/
def skipLine (s : Text) : Text × Text :=
  (blank (s.takeWhile (· ≠ '\n')), s.dropWhile (· ≠ '\n'))

/-- The rest of a block that ends with `x` `y`, blanked, and what follows it. -/
def skipBlock (x y : Char) : Text → Option (Text × Text)
  | [] => none
  | [_] => none
  | c :: d :: s =>
    if c = x ∧ d = y then some (blank [c, d], s)
    else (skipBlock x y (d :: s)).map (fun r => (setBlankChar c :: r.1, r.2))

/-- `t` was read before what gave `x`. -/
def prepend (t : Text) : Except (String × Text) Text → Except (String × Text) Text
  | .ok r => .ok (t ++ r)
  | .error (message, r) => .error (message, t ++ r)

/-- The loop of `ApplyPreProcessorComments`, with the text it leaves and the error it stops at;
each turn reads at least one character. -/
def commentsFrom (o : PreProcessorOption) : Nat → Text → Except (String × Text) Text
  | 0, s => .ok s
  | _, [] => .ok []
  | fuel + 1, c :: s =>
    if c = '\x00' then .ok (c :: s)
    else if c = '"' then
      let (a, b) := skipString s
      prepend (c :: a) (commentsFrom o fuel b)
    else if c = '/' ∧ s.head? = some '/' then
      let (a, b) := skipLine (s.drop 1)
      prepend (' ' :: ' ' :: a) (commentsFrom o fuel b)
    else if c = '/' ∧ s.head? = some '*' then
      match skipBlock '*' '/' (s.drop 1) with
      | none => .error ("No end for multiline comments", blank (c :: s))
      | some (a, b) => prepend (' ' :: ' ' :: a) (commentsFrom o fuel b)
    else if o.devBlockAsComment ∧ c = '/' ∧ s.head? = some '#' then
      match skipBlock '#' '/' (s.drop 1) with
      | none => .error ("No end for dev block", blank (c :: s))
      | some (a, b) => prepend (' ' :: ' ' :: a) (commentsFrom o fuel b)
    else prepend [c] (commentsFrom o fuel s)

def applyPreProcessorComments (o : PreProcessorOption) (s : Text) :
    Except (String × Text) Text :=
  commentsFrom o s.length s

/-! ## Macro replacement -/

/-- What stands for the identifier `idf`, and how many characters there are before the end: `left`
of the text `after` it, or all of them when the replacement is longer. -/
def expand (o : PreProcessorOption) (idf after : Text) (left : Nat) : Text × Nat :=
  match o.find idf with
  | none => (idf, left)
  | some replace =>
    if replace.length ≤ idf.length then
      (replace ++ List.replicate (idf.length - replace.length) ' ', left)
    else (replace, after.length)

/-- The loop of `ReplaceDefines` over the text `s` from the current position on, of which the
first `k` characters are before the end; each turn reads at least one character.  The result is
the text up to the end (which a longer replacement moves to the end of the text) and the text
after it. -/
def replaceFrom (o : PreProcessorOption) : Nat → Text → Nat → Text × Text
  | 0, s, k => (s.take k, s.drop k)
  | _, [], _ => ([], [])
  | _, s, 0 => ([], s)
  | fuel + 1, c :: s, k + 1 =>
    if !isIdentifierChar c then
      let (a, b) := replaceFrom o fuel s k
      (c :: a, b)
    else
      let len := idfSize (c :: s)
      let idf := (c :: s).take len
      let after := (c :: s).drop len
      let (emitted, left) := expand o idf after (k + 1 - len)
      if left = 0 then (emitted, after)
      else
        -- the character after the identifier is not looked at
        let (a, b) := replaceFrom o fuel (after.drop 1) (left - 1)
        (emitted ++ after.take 1 ++ a, b)

/-- `ReplaceDefines` over the first `k` characters of `s`. -/
def replaceDefines (o : PreProcessorOption) (s : Text) (k : Nat) : Text × Text :=
  replaceFrom o s.length s k

/-! ## Lines -/

/-- `TrimDefineVal`. -/
def trimDefineVal (val : Text) (allowInSpace : Bool) : Option Text :=
  let trimmed := ((val.dropWhile isspace).reverse.dropWhile isspace).reverse
  if trimmed = [] then none
  else if !allowInSpace && trimmed.any isspace then none
  else some trimmed

/-- `HasOnlySpaceAfter`. -/
def hasOnlySpaceAfter (val : Text) (idx : Nat) : Bool := (val.drop idx).all isspace

def startsWith (line : Text) (p : String) : Bool := p.toList.isPrefixOf line

/-- The parameter of `#ifdef`, `#ifndef` and `#insert`, after `n` characters of the line. -/
def parameter (line : Text) (n : Nat) (directive kind : String) (allowInSpace : Bool) :
    Except String Text :=
  let define := line.drop n
  if define.length < 1 ∨ !isspace (define.headD ' ') then
    .error (directive ++ " should be used with a parameter")
  else
    match trimDefineVal define allowInSpace with
    | none => .error (directive ++ " should be used with one valid " ++ kind)
    | some d => .ok d

/-- The four directives that change the stack. -/
inductive Conditional where
  | ifdef (name : Text)
  | ifndef (name : Text)
  | elseDirective
  | endifDirective
  | malformed (message : String)
  deriving DecidableEq, Repr

/-- Which of the four directives the line is, if any. -/
def conditional (line : Text) : Option Conditional :=
  if startsWith line "#ifdef" then
    match parameter line 6 "#ifdef" "parameter" false with
    | .ok name => some (.ifdef name)
    | .error e => some (.malformed e)
  else if startsWith line "#ifndef" then
    match parameter line 7 "#ifndef" "parameter" false with
    | .ok name => some (.ifndef name)
    | .error e => some (.malformed e)
  else if startsWith line "#else" then
    if hasOnlySpaceAfter line 5 then some .elseDirective
    else some (.malformed "#else can't have parameters")
  else if startsWith line "#endif" then
    if hasOnlySpaceAfter line 6 then some .endifDirective
    else some (.malformed "#endif can't have parameters")
  else none

/-- The other lines: four more directives, the two region marks, and text. -/
inductive OtherKind where
  | define | error | warning | insert | region | text
  deriving DecidableEq, Repr

def otherKind (o : PreProcessorOption) (line : Text) : OtherKind :=
  if !o.noDefineExpr && startsWith line "#define" then .define
  else if startsWith line "#error" then .error
  else if startsWith line "#warning" then .warning
  else if startsWith line "#insert" then .insert
  else if startsWith line "#region" || startsWith line "#endregion" then .region
  else .text

/-- What a call of `ApplyPreProcessor` leaves: whether it succeeded, the text, the options and the
calls of the error handler. -/
structure Result where
  ok : Bool
  str : Text
  opt : PreProcessorOption
  log : List Message

/-- The state of the loop.  `eraseCtx` has its top first; `scanned` records, for every line that
is not a conditional directive, the line and whether it was treated as active; `unscanned` is the
text a longer replacement jumped over. -/
structure LoopState where
  opt : PreProcessorOption
  log : List Message
  err : Bool
  eraseCtx : List Bool
  lineIdx : Nat
  out : Text
  scanned : List (Text × Bool)
  unscanned : Text

def LoopState.report (s : LoopState) (message : String) : LoopState :=
  { s with err := true, log := s.log ++ [⟨.error, s.lineIdx, message⟩] }

/-- The reading of inserted files and the preprocessor one level down. -/
structure Env where
  readFile : Text → Option Text
  apply : PreProcessorOption → Text → Result

/-- `filename` without the semicolons and spaces at its end. -/
def trimFilename (filename : Text) : Text :=
  (filename.reverse.dropWhile (fun c => c == ';' || isspace c)).reverse

/-- New lines of an inserted text become spaces, up to the first NUL. -/
def joinLines (s : Text) : Text :=
  (cString s).map (fun c => if c = '\r' ∨ c = '\n' then ' ' else c) ++ s.drop (cString s).length

/-- An active `#insert`: the new state and the text that replaces the line `body`. -/
def execInsert (env : Env) (s : LoopState) (line body : Text) : LoopState × Text :=
  match parameter line 7 "#insert" "parameter" true with
  | .error e => (s.report e, body)
  | .ok filename =>
    let filename := trimFilename filename
    match env.readFile filename with
    | none => (s.report ("can't read insert '" ++ String.ofList filename ++ "'"), body)
    | some insertData =>
      let r := env.apply s.opt insertData
      let s := { s with
        opt := r.opt
        log := s.log ++ r.log.map (fun m => ⟨m.lvl, s.lineIdx,
          "[" ++ String.ofList filename ++ ":" ++ toString m.line ++ "] " ++ m.message⟩) }
      if r.ok then (s, joinLines r.str)
      else (s.report ("can't parse insert '" ++ String.ofList filename ++ "'"), body)

/-- An active line that is a directive: the new state and the text to blank. -/
def execDirective (env : Env) (s : LoopState) (line body : Text) : OtherKind → LoopState × Text
  | .define =>
    let define := (line.drop 7).dropWhile isspace
    if define = [] ∨ !isspace ((line.drop 7).headD 'x') then
      (s.report "#define should be used with a parameter", body)
    else
      let len := idfSize define
      ({ s with opt := s.opt.addDefine (define.take len) (cString (define.drop len)) }, body)
  | .error => (s.report (String.ofList (line.drop (if line.length > 6 then 7 else 6))), body)
  | .warning =>
    ({ s with log := s.log ++ [⟨.warning, s.lineIdx,
      String.ofList (line.drop (if line.length > 8 then 9 else 8))⟩] }, body)
  | .insert => execInsert env s line body
  | .region | .text => (s, body)

/-- The conditional directives on the stack of erased contexts. -/
def execConditional (s : LoopState) : Conditional → LoopState
  | .ifdef name =>
    let forceDel := s.eraseCtx.headD false
    { s with eraseCtx := (forceDel || !s.opt.contains name) :: s.eraseCtx }
  | .ifndef name =>
    let del := s.eraseCtx.headD false
    { s with eraseCtx := (del || s.opt.contains name) :: s.eraseCtx }
  | .elseDirective =>
    match s.eraseCtx with
    | [] => s.report "Usage of #else without start if"
    | [curr] => { s with eraseCtx := [!curr] }
    | curr :: parent :: ctx =>
      -- at least 2, we need to check the parent ctx
      { s with eraseCtx := (if !parent then false else !curr) :: parent :: ctx }
  | .endifDirective =>
    match s.eraseCtx with
    | [] => s.report "Usage of #endif without start if"
    | _ :: ctx => { s with eraseCtx := ctx }
  | .malformed message => s.report message

/-- The line as the directives see it: without the carriage return at its end. -/
def lineView (body : Text) : Text :=
  if body.getLast? = some '\r' then body.dropLast else body

/-- One turn of the loop on the text `rest`: the new state and the text after the line. -/
def processLine (env : Env) (s : LoopState) (rest : Text) : LoopState × Text :=
  let s := { s with lineIdx := s.lineIdx + 1 }
  let raw := rest.takeWhile (· ≠ '\n')
  let after := rest.drop raw.length
  let lead := raw.takeWhile isspace
  let body := raw.dropWhile isspace
  let line := lineView body
  -- `lineStart = next + 1`
  let finish (s : LoopState) (text after : Text) : LoopState × Text :=
    ({ s with out := s.out ++ lead ++ text ++ after.take 1 }, after.drop 1)
  match conditional line with
  | some c => finish (execConditional s c) (blank body) after
  | none =>
    if s.eraseCtx.headD false then
      finish { s with scanned := s.scanned ++ [(line, false)] } (blank body) after
    else
      let s := { s with scanned := s.scanned ++ [(line, true)] }
      match otherKind s.opt line with
      | .text =>
        let (text, left) := replaceDefines s.opt (rest.drop lead.length) body.length
        finish { s with unscanned := if left = [] then after.drop 1 else s.unscanned } text left
      | kind =>
        let (s, text) := execDirective env s line body kind
        finish s (blank text) after

/-- The loop over the lines; each turn reads at least one character. -/
def processLines (env : Env) : Nat → LoopState → Text → LoopState
  | _, s, [] => s
  | 0, s, _ => s
  | fuel + 1, s, rest =>
    let (s, rest) := processLine env s rest
    processLines env fuel s rest

def LoopState.init (o : PreProcessorOption) : LoopState := ⟨o, [], false, [], 0, [], [], []⟩

/-- The loop and what follows it. -/
def runLines (env : Env) (o : PreProcessorOption) (str : Text) : LoopState :=
  processLines env str.length (LoopState.init o) str

/-- `ApplyPreProcessor`, `depth` levels before `currentDepth` reaches 10. -/
def applyPreProcessor (readFile : Text → Option Text) :
    Nat → PreProcessorOption → Text → Result
  | depth, o, str =>
    match applyPreProcessorComments o str with
    | .error (e, str) => ⟨false, str, o, [⟨.error, 0, e⟩]⟩
    | .ok str =>
      match depth with
      | 0 => ⟨false, str, o, [⟨.error, 0, "Preprocessor depth too high, cyclic #insert?"⟩]⟩
      | depth + 1 =>
        let s := runLines ⟨readFile, applyPreProcessor readFile depth⟩ o str
        if s.eraseCtx = [] then ⟨!s.err, s.out, s.opt, s.log⟩
        else ⟨false, s.out, s.opt,
          s.log ++ [⟨.error, s.lineIdx, "end of file before the end of all the if"⟩]⟩

end Acts.Preprocessor
