import Acts.Core.MemoryAllocatorStatic
import Acts.Vm.Thread

/-!
# Loading scripts in the ACTS virtual machine

* `ActScript`, `ActsVm` — scripts, and the part of the machine that loading them works on.
* `createString`, `linkActsScript`, `linkScript` — linking a script with its includes.
* `allocThread`, `startExport`, `loadScript` — starting the exports of linked scripts.

Scripts are known by their address.  `linkScript` calls itself through the includes of a script; a
nested call has added an entry to a table of `0x400`, which bounds the nesting.
-/

set_option autoImplicit false

namespace Acts.Vm.Loader

/-! ## Scripts -/

/-- `ACTSCRIPT_MAGIC`. -/
def actscriptMagic : UInt64 := 0x4d565354434124F1

structure ScriptExport where
  address : Nat
  name : UInt64
  nameSpace : UInt64
  flags : UInt8

/-- `SEF_AUTOEXEC`. -/
def ScriptExport.autoexec (e : ScriptExport) : Bool := e.flags &&& 1 != 0

/-- `SEF_PRIVATE`. -/
def ScriptExport.isPrivate (e : ScriptExport) : Bool := e.flags &&& 2 != 0

/-- An import, with the offsets in the script that refer to it. -/
structure ScriptImport where
  name : UInt64
  nameSpace : UInt64
  flags : UInt8
  refs : List Nat

/-- A C string, with the offsets that refer to it. -/
structure ScriptString where
  string : List UInt8
  refs : List Nat
  terminated : 0 ∉ string

/-- A script, its tables read. -/
structure ActScript where
  magic : UInt64
  name : String
  includes : List String
  strings : List ScriptString
  imports : List ScriptImport
  exports : List ScriptExport
  exports_count : exports.length < 2 ^ 16

/-- `getterFunction` gives the address of a script. -/
structure Config where
  getterFunction : String → Option Nat
  script : Nat → ActScript

/-! ## The machine -/

structure ScriptInfo where
  script : Nat
  group : Int
  deriving DecidableEq

structure VmThread where
  running : Bool
  threadId : Nat
  waitFrameTime : Nat
  waitTime : Nat
  stack0 : VmVar
  stack1 : VmVar
  top : Nat
  frame : Nat
  codePos : Nat

/-- An export that was started: where, on which thread, and whether that was running before. -/
structure Started where
  codePos : Nat
  thread : Option Nat
  wasRunning : Bool

/-- `patches` are the references written into scripts: script, offset, value.  `started` is a
history for the statements about `LoadScript`. -/
structure ActsVm where
  callMethods : List UInt64
  threads : List VmThread
  currentThread : Option Nat
  alloc : Mem
  stringStart : Nat → Nat
  linkGroup : Int
  topScripts : Nat
  linkedScripts : List ScriptInfo
  patches : List (Nat × Nat × Nat)
  started : List Started

/-- The exceptions; `hang` is a loop that does not end. -/
inductive Fault
  | hang
  | noThreadStarted
  | cantAllocThread
  | cantLoadScript (name : String)
  | cantFindScript (name : String)
  | cantFindScriptExport (nameSpace name : UInt64) (script : String)
  | cantFindBuiltin (name : UInt64) (script : String)
  | cantFindBuiltinFunction (name : UInt64) (script : String)
  | cantFindBuiltinMethod (name : UInt64) (script : String)
  | badFlags (name nameSpace : UInt64)
  | notEnoughData

abbrev LoadM := EStateM Fault ActsVm

/-! ## Strings -/

/-- `lowerc`, extended to the 64 bits of a hash. -/
def lowerc (c : UInt8) : UInt64 :=
  let c := if 0x41 ≤ c ∧ c ≤ 0x5A then 0x61 + (c - 0x41) else if c = 0x5C then 0x2F else c
  c.toInt8.toInt64.toUInt64

/-- `Hash64A`, with its default start. -/
def hash64A (str : List UInt8) : UInt64 :=
  str.foldl (fun hash c => (hash ^^^ lowerc c) * 0x100000001b3) 0xcbf29ce484222325

/-- `INVALID_STR_REF`. -/
def invalidStrRef : Nat := 2 ^ 32 - 1

/-- `sizeof(VmString)`: `ref`, `hash`, `next` and `prev`; the text is behind. -/
def vmStringSize : Nat := 24

/-- `strcmp(GetString(ref), str) == 0`. -/
def isString (m : Mem) (ref : Nat) (str : List UInt8) : Bool :=
  (str ++ [0]).zipIdx.all fun (c, i) => m (ref + vmStringSize + i) == c

inductive StringSearch
  | found (ref : Nat)
  | absent (prev : Option Nat)
  | hang

/-- The search in a chain of strings, for a number of turns. -/
def findString (m : Mem) (hash : Nat) (str : List UInt8) :
    Nat → Nat → Option Nat → StringSearch
  | 0, _, _ => .hang
  | turns + 1, current, prev =>
    if current = invalidStrRef then .absent prev
    else if m.readLE (current + 8) 8 = hash ∧ isString m current str then .found current
    else findString m hash str turns (m.readLE (current + 16) 4) (some current)

def writeBytes (m : Mem) (a : Nat) : List UInt8 → Mem
  | [] => m
  | b :: bytes => writeBytes (m.setByte a b) (a + 1) bytes

/-- The entry of a new string, after the end of its chain. -/
def newString (m : Mem) (ref : Nat) (str : List UInt8) (numRefs : Nat) (prev : Option Nat) :
    Mem :=
  let m := writeBytes m (ref + vmStringSize) (str ++ [0])
  let m := m.writeLE (ref + 8) (hash64A str).toNat 8
  let m := m.writeLE ref numRefs 8
  let m := m.writeLE (ref + 16) invalidStrRef 4
  let m := m.writeLE (ref + 20) invalidStrRef 4
  match prev with
  | none => m
  | some prev => m.writeLE (prev + 16) ref 4

/-- There are `2 ^ 32` references: a longer search repeats itself. -/
def createString (str : List UInt8) (numRefs : Nat) : LoadM Nat := fun s =>
  let h := (hash64A str).toNat
  match findString s.alloc h str (2 ^ 32 + 1) (s.stringStart (h % 0x200)) none with
  | .hang => .error .hang s
  | .found ref =>
    .ok ref { s with alloc := s.alloc.writeLE ref (s.alloc.readLE ref 8 + numRefs) 8 }
  | .absent prev =>
    if numRefs = 0 then .ok invalidStrRef s
    else
      match MemoryAllocatorStatic.allocRef 0x20000 s.alloc (vmStringSize + (str.length + 1)) with
      | .error .hang => .error .hang s
      | .error (.throw _) => .error .notEnoughData s
      | .ok (ref, m) => .ok ref { s with alloc := newString m ref str numRefs prev }

/-! ## Linking -/

/-- The references to an item of a script. -/
def patch (script : Nat) (refs : List Nat) (value : Nat) : LoadM Unit := fun s =>
  .ok () { s with patches := s.patches ++ refs.map fun ref => (script, ref, value) }

def linkStrings (script : Nat) : List ScriptString → LoadM Unit
  | [] => pure ()
  | str :: strings => do
    let ref ← createString str.string str.refs.length
    patch script str.refs ref
    linkStrings script strings

/-- The result of `LinkScript`; `info` is the place of the script in the table. -/
inductive LinkOutput
  | linked (output info : Nat)
  | cantFind
  | errorIncludes
  | errorTooMany

/-- `BAD_BUILTIN_ID`. -/
def badBuiltinId : Nat := 2 ^ 16 - 1

/-- `BAD_SCRIPTFUNC_ID`. -/
def badScriptFuncId : Nat := 2 ^ 32 - 1

/-- `FindBuiltinMethod`; `0x8000` is `FLAG_BUILTIN_METHOD`. -/
def findBuiltinMethod (s : ActsVm) (name : UInt64) : Nat :=
  match s.callMethods.findIdx? (· == name) with
  | some i => (i ||| 0x8000) % 2 ^ 16
  | none => badBuiltinId

def findBuiltinFunction (_ : UInt64) : Nat := badBuiltinId

def findBuiltin (s : ActsVm) (name : UInt64) : Nat :=
  if findBuiltinMethod s name ≠ badBuiltinId then findBuiltinMethod s name
  else findBuiltinFunction name

section Link

variable (cfg : Config) (link : String → LoadM LinkOutput)

/-- `GetActsScript`. -/
def getActsScript (name : String) : LoadM Nat :=
  match cfg.getterFunction name with
  | some script => pure script
  | none => throw (.cantFindScript name)

/-- The includes of a script, until one cannot be linked. -/
def linkIncludes : List String → LoadM Bool
  | [] => pure true
  | name :: names => do
    match ← link name with
    | .linked _ _ => linkIncludes names
    | _ => pure false

/-- The identifier of an export. -/
def scriptFuncId (info i : Nat) : Nat := (info <<< 16 ||| i) % 2 ^ 32

def findScriptFunction (file : String) (nameSpace name : UInt64) : LoadM Nat := do
  match ← link file with
  | .linked _ info =>
    match (← get).linkedScripts[info]? with
    | none => pure badScriptFuncId
    | some si =>
      match (cfg.script si.script).exports.findIdx? fun e =>
          !e.isPrivate && e.nameSpace == nameSpace && e.name == name with
      | some i => pure (scriptFuncId info i)
      | none => pure badScriptFuncId
  | _ => pure badScriptFuncId

/-- The search in the includes of a script. -/
def findInIncludes (nameSpace name : UInt64) : List String → LoadM Nat
  | [] => pure badScriptFuncId
  | file :: files => do
    let ref ← findScriptFunction cfg link file nameSpace name
    if ref ≠ badScriptFuncId then pure ref else findInIncludes nameSpace name files

/-- `GetScriptExport`; its first loop looks at the first export each time. -/
def getScriptExport (info : Nat) (origin : ActScript) (nameSpace name : UInt64) : LoadM Nat :=
  match origin.exports with
  | exp :: _ =>
    if exp.name = name ∧ exp.nameSpace = nameSpace then pure (scriptFuncId info 0)
    else findInIncludes cfg link nameSpace name origin.includes
  | [] => findInIncludes cfg link nameSpace name origin.includes

/-- The cases of an import. -/
inductive ImportKind
  | function
  | getBuiltin
  | functionBuiltin
  | methodBuiltin
  | bad

/-- The switch over `flags & SIF_TYPE_MASK`. -/
def importKind (flags : UInt8) : ImportKind :=
  match (flags &&& 0xF).toNat with
  | 1 | 3 | 5 | 6 | 7 | 9 | 10 => .function
  | 2 => .getBuiltin
  | 4 => .functionBuiltin
  | 8 => .methodBuiltin
  | _ => .bad

/-- An import of the script at place `info`. -/
def linkImport (info script : Nat) (imp : ScriptImport) : LoadM Unit := do
  let origin := cfg.script script
  match importKind imp.flags with
  | .function =>
    let ref ← getScriptExport cfg link info origin imp.nameSpace imp.name
    if ref = badScriptFuncId then
      throw (.cantFindScriptExport imp.nameSpace imp.name origin.name)
    else patch script imp.refs ref
  | .getBuiltin =>
    let ref := findBuiltin (← get) imp.name
    if ref = badBuiltinId then throw (.cantFindBuiltin imp.name origin.name)
    else patch script imp.refs ref
  | .functionBuiltin =>
    let ref := findBuiltinFunction imp.name
    if ref = badBuiltinId then throw (.cantFindBuiltinFunction imp.name origin.name)
    else patch script imp.refs ref
  | .methodBuiltin =>
    let ref := findBuiltinMethod (← get) imp.name
    if ref = badBuiltinId then throw (.cantFindBuiltinMethod imp.name origin.name)
    else patch script imp.refs ref
  | .bad => throw (.badFlags imp.name imp.nameSpace)

def linkImports (info script : Nat) : List ScriptImport → LoadM Unit
  | [] => pure ()
  | imp :: imports => do
    linkImport cfg link info script imp
    linkImports info script imports

/-- What follows the entry in the table. -/
def linkEntry (info script : Nat) : LoadM LinkOutput := do
  let linked ← linkIncludes link (cfg.script script).includes
  if linked then do
    linkStrings script (cfg.script script).strings
    linkImports cfg link info script (cfg.script script).imports
    pure (.linked (1 + (cfg.script script).includes.length) info)
  else pure .errorIncludes

def linkActsScript (script : Nat) : LoadM LinkOutput := fun s =>
  if (cfg.script script).magic ≠ actscriptMagic then .ok .cantFind s
  else
    match s.linkedScripts.findIdx? (·.script == script) with
    | some info => .ok (.linked 0 info) s
    | none =>
      if s.linkedScripts.length = 0x400 then .ok .errorTooMany s
      else
        linkEntry cfg link s.linkedScripts.length script
          { s with linkedScripts := s.linkedScripts ++ [⟨script, s.linkGroup⟩] }

end Link

def linkScript (cfg : Config) : Nat → String → LoadM LinkOutput
  | 0, _ => throw .hang
  | depth + 1, name => do
    let script ← getActsScript cfg name
    linkActsScript cfg (linkScript cfg depth) script

/-! ## Starting exports -/

/-- A thread set up for `codePos`. -/
def VmThread.start (thread : VmThread) (codePos : Nat) : VmThread :=
  { thread with
    stack0 := .thread thread.threadId
    stack1 := .location none
    top := 2
    waitTime := 0
    waitFrameTime := 0
    running := true
    codePos := codePos
    frame := 0 }

/-- `AllocThread`. -/
def allocThread (codePos : Nat) : LoadM (Option Nat) := fun s =>
  match s.threads.findIdx? fun thread => !thread.running with
  | some i => .ok s.currentThread { s with threads := s.threads.modify i (·.start codePos) }
  | none => .error .cantAllocThread s

def assertThreadStarted : LoadM Unit := do
  if (← get).currentThread.isNone then throw .noThreadStarted else pure ()

section Load

variable (cfg : Config) (opcodes : LoadM Unit)

/-- `Execute`; `opcodes` is what it does with a current thread. -/
def execute : LoadM Unit := do
  assertThreadStarted
  opcodes

/-- The history of a start on `thread`. -/
def recordStart (before : ActsVm) (codePos : Nat) (thread : Option Nat) : LoadM Unit :=
  modify fun s => { s with started := s.started ++
    [⟨codePos, thread, ((thread.bind (before.threads[·]?)).map (·.running)).getD true⟩] }

def startExport (script : Nat) (exp : ScriptExport) : LoadM Unit := do
  let before ← get
  let thread ← allocThread (script + exp.address)
  modify fun s => { s with currentThread := thread }
  recordStart before (script + exp.address) thread
  execute opcodes

/-- The inner loop of `LoadScript`, for a number of turns; it stays at the first export. -/
def exportsLoop (script : Nat) : Nat → LoadM Unit
  | 0 => throw .hang
  | turns + 1 =>
    match (cfg.script script).exports with
    | [] => pure ()
    | exp :: _ => do
      if exp.autoexec then startExport opcodes script exp else pure ()
      exportsLoop script turns

/-- The outer loop of `LoadScript`. -/
def scriptsLoop : Nat → LoadM Unit
  | 0 => throw .hang
  | turns + 1 => fun s =>
    match s.linkedScripts[s.topScripts]? with
    | none => .ok () s
    | some info => (do
        exportsLoop cfg opcodes info.script turns
        scriptsLoop turns) { s with topScripts := s.topScripts + 1 }

/-- `LoadScript`, its loops cut after `turns`. -/
def loadScript (turns : Nat) (name : String) : LoadM Unit := do
  modify fun s => { s with linkGroup := s.linkGroup + 1 }
  match ← linkScript cfg 0x401 name with
  | .linked _ _ => scriptsLoop cfg opcodes turns
  | _ => throw (.cantLoadScript name)

end Load

/-! ## Runs -/

/-- A thread of a new machine. -/
def newThread : VmThread := ⟨false, 0, 0, 0, .undefined, .undefined, 0, 0, 0⟩

/-- A new machine, with its builtin methods. -/
def newVm (callMethods : List UInt64) : ActsVm where
  callMethods := callMethods
  threads := List.replicate 0x100 newThread
  currentThread := none
  alloc := MemoryAllocatorStatic.init 0x20000
  stringStart _ := 0
  linkGroup := 0
  topScripts := 0
  linkedScripts := []
  patches := []
  started := []

/-- The machines after any number of calls of `LoadScript`, which may have thrown. -/
inductive Reachable (cfg : Config) (opcodes : LoadM Unit) : ActsVm → Prop
  | new (callMethods : List UInt64) : Reachable cfg opcodes (newVm callMethods)
  | loaded {s s' : ActsVm} {turns : Nat} {name : String} (h : Reachable cfg opcodes s)
      (hload : loadScript cfg opcodes turns name s = .ok () s') : Reachable cfg opcodes s'
  | thrown {s s' : ActsVm} {turns : Nat} {name : String} {fault : Fault}
      (h : Reachable cfg opcodes s) (hfault : fault ≠ .hang)
      (hload : loadScript cfg opcodes turns name s = .error fault s') : Reachable cfg opcodes s'

end Acts.Vm.Loader
