/-!
# The log

What loading, extraction and generation note while they work, each under its own channel.
-/

namespace StateCursors

/-- How important a note is. -/
inductive LogLevel
  | debug
  | info
  | warning
  | error
  deriving DecidableEq

/-- Who makes a note. -/
inductive LogChannel
  | project
  | extraction
  | generation
  deriving DecidableEq

/-- A note. -/
structure LogRecord where
  level : LogLevel
  channel : LogChannel
  text : String
  deriving DecidableEq

def LogLevel.name : LogLevel → String
  | debug => "DEBUG"
  | info => "INFO"
  | warning => "WARNING"
  | error => "ERROR"

def LogChannel.name : LogChannel → String
  | project => "cursorgen.core.project"
  | extraction => "cursorgen.core.extractor"
  | generation => "cursorgen.cursors.generator"

end StateCursors
