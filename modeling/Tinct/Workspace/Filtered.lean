import Tinct.Workspace

/-! # Workspaces that pass on important reports

A workspace with a level is the same workspace, but takes note only of reports that are at least as
important as the level. -/

namespace Tinct

/-- Whether a report is at least as important as a level. -/
def LogEntry.reaches (e : LogEntry) (level : LogLevel) : Bool := level.rank ≤ e.level.rank

instance {m : Type → Type} [Monad m] [Workspace m] : Workspace (ReaderT LogLevel m) where
  readText path := fun _ => Workspace.readText path
  writeText path text := fun _ => Workspace.writeText path text
  listNames path := fun _ => Workspace.listNames path
  isFile path := fun _ => Workspace.isFile path
  report e := fun level => if e.reaches level then Workspace.report e else pure ()

end Tinct
