/-!
# Logging

The program reports through one named logger. A request for a level sets the level of the logger; the
first one also attaches the handler that writes the reports, and gives it the same level for good. A
request is refused when its name is known but stands for something that is no level, and a sequence of
requests ends with the first that is refused.
-/

namespace FunctionGraph.Logging

/-- What a name can stand for instead of a level: the layout of a report, or all styles of layouts. -/
inductive NoLevel where
  | layout
  | styles
  deriving DecidableEq, Repr

def NoLevel.message : NoLevel → String
  | .layout => "Unknown level: '%(levelname)s:%(name)s:%(message)s'"
  | .styles =>
    "Level not an integer or a valid string: \x7b'%': (<class 'logging.PercentStyle'>, " ++
      "'%(levelname)s:%(name)s:%(message)s'), '\x7b': (<class 'logging.StrFormatStyle'>, " ++
      "'\x7blevelname\x7d:\x7bname\x7d:\x7bmessage\x7d'), '$': " ++
      "(<class 'logging.StringTemplateStyle'>, " ++
      "'$\x7blevelname\x7d:$\x7bname\x7d:$\x7bmessage\x7d')\x7d"

/-- The level that a name stands for, in any case. Unknown names mean the level of information. -/
def levelOf (name : String) : Except NoLevel Nat :=
  match String.ofList (name.toList.flatMap capitals) with
  | "NOTSET" => .ok 0
  | "DEBUG" => .ok 10
  | "WARN" | "WARNING" => .ok 30
  | "ERROR" => .ok 40
  | "FATAL" | "CRITICAL" => .ok 50
  | "BASIC_FORMAT" => .error .layout
  | "_STYLES" => .error .styles
  | _ => .ok 20
where
  /-- Besides the small letters, the dotless i, the long s and the two ligatures of `st` have capitals in
  ASCII that these names are made of. -/
  capitals : Char → List Char
    | 'ı' => ['I']
    | 'ſ' => ['S']
    | 'ﬅ' | 'ﬆ' => ['S', 'T']
    | c => [c.toUpper]

/-- The level that is in force at the start. -/
def defaultName : String := "INFO"

structure Logger where
  name : String
  level : Nat
  handlers : List Nat
  deriving DecidableEq, Repr

namespace Logger

def initial : Logger :=
  ⟨"func_plotter", 0, []⟩

def take (logger : Logger) (name : String) : Except NoLevel Logger := do
  let level ← levelOf name
  return { logger with level, handlers := if logger.handlers.isEmpty then [level] else logger.handlers }

/-- The logger after a sequence of requests, or the refusal that ended the sequence. -/
def takeAll (logger : Logger) (names : List String) : Except NoLevel Logger :=
  names.foldlM take logger

end Logger

end FunctionGraph.Logging
