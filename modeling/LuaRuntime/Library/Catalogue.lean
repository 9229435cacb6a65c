import LuaRuntime.Library.Math
import LuaRuntime.State.Basic

/-!
# The standard libraries

A library is a table of functions and constants under a global name.  Opening one makes a
new table, enters it among the globals and lists it in `package.loaded`.  The base library
goes into the globals themselves.  The string library also becomes the index of the string
metatable.

All libraries are opened in a fixed order, `package` first, so that the others find the
table they are listed in.
-/

namespace LuaRuntime

/-! ## Entries -/

/-- What a library holds under a name. -/
inductive Entry where
  /-- A function. -/
  | function (f : Builtin)
  /-- A constant. -/
  | constant (v : Value)
  /-- A new table. -/
  | table

/-- A library: its global name and its entries. -/
structure Library where
  /-- The global name, `_G` for the globals. -/
  name : String
  /-- The entries, in the order in which they are made. -/
  entries : List (String × Entry)

/-- Entries for functions that are not provided.  The message of each has the library in
front of the name. -/
def missing (lead : String) (names : List String) : List (String × Entry) :=
  names.map fun name => (name, .function (.unsupported (lead ++ name)))

/-- Entries for functions of one kind. -/
def functions {α : Type} (wrap : α → Builtin) (named : List (String × α)) :
    List (String × Entry) :=
  named.map fun (name, f) => (name, .function (wrap f))

/-! ## Libraries -/

/-- Modules. -/
def packageLibrary : Library :=
  ⟨"package",
    [("seeall", .function .seeAll)] ++ missing "package." ["loadlib"] ++
      [("loaded", .table), ("preload", .table), ("path", .constant (.string "./?.lua")),
        ("cpath", .constant (.string ""))]⟩

/-- The global functions. -/
def baseLibrary : Library :=
  ⟨"_G",
    functions .base
        [("print", .print), ("type", .kindName), ("assert", .assert), ("error", .error),
          ("tonumber", .toNumber), ("tostring", .toText), ("select", .select),
          ("ipairs", .ipairs), ("pairs", .pairs), ("next", .next), ("unpack", .unpack),
          ("pcall", .protectedCall), ("xpcall", .handledCall),
          ("getmetatable", .getMetatable), ("setmetatable", .setMetatable),
          ("rawget", .rawGet), ("rawset", .rawSet), ("rawequal", .rawEqual),
          ("collectgarbage", .collectGarbage), ("load", .load), ("loadstring", .load)] ++
      missing "" ["loadfile", "dofile", "getfenv", "setfenv"] ++
      functions .base [("require", .require), ("module", .createModule)] ++
      [("_VERSION", .constant (.string "Lua 5.1"))]⟩

/-- Strings. -/
def stringLibrary : Library :=
  ⟨"string",
    functions .string [("byte", .byte), ("char", .char)] ++ missing "string." ["dump"] ++
      functions .string
        [("find", .find), ("format", .format), ("gmatch", .gmatch), ("gsub", .gsub),
          ("len", .length), ("lower", .lower), ("match", .firstMatch), ("rep", .rep),
          ("reverse", .reverse), ("sub", .sub), ("upper", .upper)]⟩

/-- Tables. -/
def tableLibrary : Library :=
  ⟨"table",
    functions .table
      [("concat", .concat), ("getn", .length), ("insert", .insert), ("maxn", .greatestKey),
        ("remove", .remove), ("sort", .sort)]⟩

/-- Numbers. -/
def mathLibrary : Library :=
  ⟨"math",
    functions (fun f => .math (.unary f))
        ([UnaryFunction.abs, .acos, .asin, .atan, .ceil, .cos, .cosh, .degrees, .exp, .floor,
          .log10, .radians, .sin, .sinh, .sqrt, .tan, .tanh].map fun f => (f.name, f)) ++
      functions .math
        [("atan2", .atan2), ("fmod", .remainder), ("frexp", .fractionExponent),
          ("ldexp", .scale), ("log", .log), ("max", .max), ("min", .min), ("modf", .parts),
          ("pow", .power), ("random", .random), ("randomseed", .seed)] ++
      [("pi", .constant (.number pi)), ("huge", .constant (.number (Double.infinity false)))]⟩

/-- 32-bit words. -/
def bitLibrary : Library :=
  ⟨"bit",
    functions .bit
      [("tobit", .toBit), ("tohex", .toHex), ("bnot", .not), ("bor", .or), ("band", .and),
        ("bxor", .xor), ("lshift", .shiftLeft), ("rshift", .shiftRight),
        ("arshift", .shiftArithmetic), ("rol", .rotateLeft), ("ror", .rotateRight),
        ("bswap", .swapBytes)]⟩

/-- Input and output, of which only writing is provided. -/
def ioLibrary : Library :=
  ⟨"io",
    ("write", .function .write) ::
      missing "io." ["read", "lines", "open", "close", "flush", "input", "output", "popen",
        "tmpfile", "type"]⟩

/-- The operating system, of which only time is provided. -/
def osLibrary : Library :=
  ⟨"os",
    [("clock", .function .clock), ("time", .function .time),
        ("difftime", .function .timeDifference)] ++
      missing "os." ["date", "execute", "exit", "getenv", "remove", "rename", "setlocale",
        "tmpname"]⟩

/-- Coroutines, which are not provided. -/
def coroutineLibrary : Library :=
  ⟨"coroutine", missing "coroutine." ["create", "resume", "running", "status", "wrap", "yield"]⟩

/-- Inspection, of which only metatables are provided. -/
def debugLibrary : Library :=
  ⟨"debug",
    [("getmetatable", .function .rawMetatable), ("setmetatable", .function .setRawMetatable)] ++
      missing "debug." ["traceback", "getinfo", "getlocal", "sethook", "gethook", "getupvalue",
        "setupvalue"]⟩

/-- A library with one function, which returns its arguments, and one constant. -/
def echoLibrary (name : String) : Library :=
  ⟨name, [("echo", .function .echo), ("answer", .constant (.ofNat 42))]⟩

/-- The library of a name. -/
def LibraryName.library : LibraryName → Library
  | .base => baseLibrary
  | .package => packageLibrary
  | .string => stringLibrary
  | .table => tableLibrary
  | .math => mathLibrary
  | .bit => bitLibrary
  | .io => ioLibrary
  | .os => osLibrary
  | .coroutine => coroutineLibrary
  | .debug => debugLibrary

/-- All libraries in the order in which they are opened. -/
def allLibraries : List LibraryName :=
  [.package, .base, .string, .table, .math, .bit, .io, .os, .coroutine, .debug]

/-! ## Opening -/

/-- Makes the value of an entry.  A function is named like its entry. -/
def Entry.make (name : String) : Entry → Action Value
  | .function f => return .function (← newFunction ⟨name, .builtin f⟩)
  | .constant v => return v
  | .table => return .table (← newTable {})

/-- Writes entries to a table. -/
def installEntries (id : TableId) : List (String × Entry) → Action Unit
  | [] => pure ()
  | (name, entry) :: rest => do
      setField id name (← entry.make name)
      installEntries id rest

/-- Lists a library in `package.loaded`, if that is a table. -/
def listLoaded (name : String) (id : TableId) : Action Unit := do
  if let .table package ← getGlobal "package" then
    if let .table loaded ← getField package "loaded" then
      setField loaded name (.table id)

/-- Makes the index of the string metatable. -/
def setStringIndex (id : TableId) : Action Unit := do
  let mt ← newTable {}
  setField mt Event.index.field (.table id)
  modify fun s => { s with stringMetatable := some mt }

/-- Installs a library. -/
def installLibrary (library : Library) : Action Unit := do
  if library.name = "_G" then installEntries (← get).globals library.entries
  else
    let id ← newTable {}
    installEntries id library.entries
    setGlobal library.name (.table id)
    if library.name = "string" then setStringIndex id
    listLoaded library.name id

/-- Opens a library.  If there is no global `package`, that library is opened first. -/
def openLibrary (name : LibraryName) : Action Unit := do
  if name ≠ .package then
    if (← getGlobal "package").isNil then installLibrary packageLibrary
  installLibrary name.library

/-- Opens all libraries. -/
def openAll : Action Unit := allLibraries.forM fun name => installLibrary name.library

/-- Opens a library, or all of them if none is named. -/
def openChosen : Option LibraryName → Action Unit
  | some name => openLibrary name
  | none => openAll

end LuaRuntime
