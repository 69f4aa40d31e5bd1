/-
Logs: what stands beside a database while it is in use.

A database that is open for writing has a log beside it and an index of the log, and each change
may need a journal.  Their names are the name of the database with an ending.

* `Disk.addLog`, `Disk.removeLog` — make a log and its index, and take them away;
* `Disk.isBlocked` — a directory stands in the way of them.
-/
import Accrual.Disk.Basic

namespace Accrual

namespace Disk

/-- Leave a file at the end of some steps, if there is nothing yet. -/
def leave (disk : Disk) (steps : List String) (contents : Bytes) : Disk :=
  if (disk.entry? steps).isNone then disk.place steps (.other contents) else disk

/-- The steps to what stands beside the end of some steps, with a name that goes on. -/
def beside (steps : List String) (ending : String) : List String :=
  steps.dropLast ++ [steps.getLast?.getD "" ++ ending]

/-- The ending of the name of a log. -/
def logEnding : String := "-wal"

/-- The ending of the name of the index of a log. -/
def indexEnding : String := "-shm"

/-- The ending of the name of the journal that a change needs. -/
def journalEnding : String := "-journal"

/-- A directory stands where the log of a database, its index or its journal belongs. -/
def isBlocked (disk : Disk) (steps : List String) (logged : Bool) : Bool :=
  let endings := if logged then [logEnding, indexEnding, journalEnding]
    else [logEnding, journalEnding]
  endings.any fun ending => disk.entry? (beside steps ending) = some .directory

/-- What the index of a log begins with: the version of its form. -/
def indexStart : Bytes := [0x18, 0xe2, 0x2d, 0x00]

/-- Leave a log and its index beside a database. -/
def addLog (disk : Disk) (steps : List String) : Disk :=
  (disk.leave (beside steps logEnding) []).leave (beside steps indexEnding) indexStart

/-- Remove the log of a database and its index. -/
def removeLog (disk : Disk) (steps : List String) : Disk :=
  let gone := [beside steps logEnding, beside steps indexEnding]
  { disk with entries := disk.entries.filter fun e => !(gone.contains e.1 && e.2.isFile) }

end Disk

end Accrual
