import RvToolkit.Palette
import RvToolkit.Text.Blank

namespace RvToolkit

inductive Level where
  | debug
  | info
  | warning
  | error
deriving DecidableEq, Repr

namespace Level

def rank : Level → Nat
  | .debug => 10
  | .info => 20
  | .warning => 30
  | .error => 40

def name : Level → Text
  | .debug => "DEBUG".toList
  | .info => "INFO".toList
  | .warning => "WARNING".toList
  | .error => "ERROR".toList

end Level

structure Record where
  level : Level
  text : Text
deriving DecidableEq, Repr

abbrev Log := List Record

namespace Log

def atLeast (l : Level) (log : Log) : Log := log.filter fun r => l.rank ≤ r.level.rank

def rankName (rank : Int) : Text :=
  if rank = 10 then "DEBUG".toList
  else if rank = 20 then "INFO".toList
  else if rank = 30 then "WARNING".toList
  else if rank = 40 then "ERROR".toList
  else if rank = 50 then "CRITICAL".toList
  else if rank = 0 then "NOTSET".toList
  else "Level ".toList ++ Text.ofInt rank

def rankColour (rank : Int) : Text :=
  if rank = 10 then Palette.debug
  else if rank = 20 then Palette.info
  else if rank = 30 then Palette.warning
  else if rank = 40 then Palette.error
  else if rank = 50 then Palette.pink
  else Palette.plain

/-- The line written for a record: each line of its text with time stamp, colour and level, the
blanks at its end dropped. A record without text gives no line. -/
def writeLine (stamp : Text) (rank : Int) (msg : Text) : Text :=
  if msg.isEmpty then []
  else
    Text.join ['\n'] <| (msg.splitOn '\n').map fun l =>
      stamp ++ ' ' :: (rankColour rank ++ '[' :: (rankName rank ++ ']' :: ' ' ::
        (Text.trimEnd l ++ Palette.plain)))

end Log

end RvToolkit
